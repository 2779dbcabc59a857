import PiPixelController.System.History
import PiPixelController.Zcpp.DataEncode

/-!
# Delivery of a frame

A source sends the bytes of a frame in packets, and the network may reorder and repeat them.

* `lastByte_of_carried` — when packets carry bytes of one frame only, their order and number do not
  matter;
* `frames_of_sourcePackets`, `frames_of_universes` — from a source to the receivers of the strings:
  a frame cut into data packets, or spread over universes, arrives at the strings as it was.
-/

namespace PiPixelController

open CSemantics WriteLog

section

variable {params : Params} {content : ℕ → Byte}

/-- The event stores bytes of the frame only, at their addresses. -/
def Event.Carries (content : ℕ → Byte) (e : Event params) : Prop :=
  ∀ i v, e.patch i = some v → content i = v

/-- An address that one of the last packets writes holds the byte of the frame. -/
theorem lastByte_of_carried {old ds : List (Event params)}
    (hcarries : ∀ e ∈ ds, e.Carries content) {i : ℕ} (hi : ∃ e ∈ ds, (e.patch i).isSome) :
    lastByte (old ++ ds) i = content i := by
  rw [lastByte, List.map_append, latest_append]
  cases hlatest : latest (ds.map Event.patch) i with
  | none =>
      -- one of the packets does write the address
      obtain ⟨e, he, hsome⟩ := hi
      rw [(latest_eq_none_iff _ i).mp hlatest e.patch (List.mem_map_of_mem he)] at hsome
      cases hsome
  | some v =>
      -- whichever packet came last, it carries the byte of the frame
      obtain ⟨f, hf, hfi⟩ := exists_mem_of_latest_eq_some hlatest
      obtain ⟨e, he, rfl⟩ := List.mem_map.mp hf
      exact (hcarries e he i v hfi).symm

variable {c₀ c : Controller} {es : List (Event params)}

/-- The mapping in force after the events from `c₀` on. -/
abbrev Controller.mappingAfter (c₀ : Controller) (es : List (Event params)) : Mapping :=
  PiPixelController.mappingAfter c₀.lastConfigSequence c₀.workers.mapping es

/-- Without a configuration the mapping stays. -/
theorem mappingAfter_of_config_none (h : ∀ e ∈ es, e.config? = none) :
    c₀.mappingAfter es = c₀.workers.mapping := by
  have hconfigs : configs es = [] := List.filterMap_eq_nil_iff.mpr h
  rw [Controller.mappingAfter, PiPixelController.mappingAfter, hconfigs]
  rfl

/-- Every refresh among the events finds a packable mapping. -/
def RefreshesPackable (c₀ : Controller) (es : List (Event params)) : Prop :=
  ∀ pre rets post, es = pre ++ Event.refresh rets :: post →
    Packable c₀.workers.pixelPorts (c₀.mappingAfter pre)

/-- Without a configuration one check is enough. -/
theorem refreshesPackable_of_config_none (h : ∀ e ∈ es, e.config? = none)
    (hpack : Packable c₀.workers.pixelPorts c₀.workers.mapping) : RefreshesPackable c₀ es := by
  intro pre rets post hsplit
  rw [mappingAfter_of_config_none fun e he => h e (hsplit ▸ List.mem_append_left _ he)]
  exact hpack

theorem RefreshesPackable.prefix {es' : List (Event params)}
    (h : RefreshesPackable c₀ (es ++ es')) : RefreshesPackable c₀ es := by
  intro pre rets post hsplit
  exact h pre rets (post ++ es') (by rw [hsplit, List.append_assoc, List.cons_append])

/-- A history whose refreshes are packable, and one more refresh. -/
theorem exists_refresh
    (hrange : params.acn.universeEnd.toInt - params.acn.universeStart.toInt < 48)
    (hzero : c₀.pixelBuffer = fun _ => 0) {rets : Fin 4 → ℤ}
    (hpack : RefreshesPackable c₀ (es ++ [.refresh rets])) :
    ∃ c c' events, c₀.run params (es.map Event.action) = .ok c ∧ Follows c₀ es c ∧
      Packable c.workers.pixelPorts c.workers.mapping ∧
      workerRefresh rets c = .ok (c', events) ∧ frames events = refreshFrames c := by
  obtain ⟨c, hrun, hfollows⟩ := exists_follows hrange hzero hpack.prefix
  have hpackable : Packable c.workers.pixelPorts c.workers.mapping := by
    rw [hfollows.pixelPorts, hfollows.mapping_eq]
    exact hpack es rets [] rfl
  obtain ⟨c', events, hrefresh, -, hframes⟩ := workerRefresh_of_packable hpackable rets
  exact ⟨c, c', events, hrun, hfollows, hpackable, hrefresh, hframes⟩

/-- States with the same pixels, mapping and `pixel_ports` send the same frames. -/
theorem refreshFrames_congr {c' : Controller} (hpixels : c.pixelBuffer.get = c'.pixelBuffer.get)
    (hmapping : c.workers.mapping = c'.workers.mapping)
    (hports : c.workers.pixelPorts = c'.workers.pixelPorts) :
    refreshFrames c = refreshFrames c' := by
  have hbuffer : c.pixelBuffer = c'.pixelBuffer := Block.ext_get fun i _ => congrFun hpixels i
  rw [refreshFrames, refreshFrames, hports]
  refine List.map_congr_left fun p _ => ?_
  rw [portFrame, portFrame, hmapping, hbuffer]

/-- The frames of a packable state decode to the strings of the history. -/
theorem Follows.decode_refreshFrames (h : Follows c₀ es c)
    (hpack : Packable c.workers.pixelPorts c.workers.mapping) :
    (refreshFrames c).map (fun frame => (frame.1, Framing.decode 8 frame.2)) =
      ((List.finRange 4).filter fun p : Fin 4 => (p : ℤ) < c₀.workers.pixelPorts.toInt).map
        fun p => (p, some ((List.finRange 8).map fun s =>
          stringAfter es (c₀.mappingAfter es (p, s)))) := by
  rw [refreshFrames, List.map_map, h.pixelPorts]
  refine List.map_congr_left fun p hp => ?_
  have hlt : (p : ℤ) < c.workers.pixelPorts.toInt := by
    rw [h.pixelPorts]
    simpa using hp
  simp only [Function.comp_apply, decode_portFrame (hpack p hlt), h.portStrings_eq]

/-- The cell selects addresses in `A` only. -/
def Cell.Inside (A : Set ℕ) (cell : Cell) : Prop :=
  ∀ i < cell.channelCount.toInt.toNat, cell.startChannel.toInt.toNat + i ∈ A

/-- The bytes of a string of the frame. -/
def stringOf (content : ℕ → Byte) (cell : Cell) : List Byte :=
  (List.range cell.channelCount.toInt.toNat).map fun i =>
    content (cell.startChannel.toInt.toNat + i)

/-- A refresh after packets that carry bytes of one frame, those the mapping selects among them,
sends to each port below `pixel_ports` the bytes of the frame that the mapping selects. -/
theorem frames_of_carried (params : Params)
    (hrange : params.acn.universeEnd.toInt - params.acn.universeStart.toInt < 48)
    (hzero : c₀.pixelBuffer = fun _ => 0) (old ds : List (Event params)) (rets : Fin 4 → ℤ)
    {A : Set ℕ} (hcarries : ∀ e ∈ ds, e.Carries content)
    (hcovers : ∀ i ∈ A, ∃ e ∈ ds, e.patch i = some (content i))
    (hpack : RefreshesPackable c₀ (old ++ ds ++ [.refresh rets]))
    (hinside : ∀ p s, (c₀.mappingAfter (old ++ ds) (p, s)).Inside A) :
    ∃ c c' events, c₀.run params ((old ++ ds).map Event.action) = .ok c ∧
      workerRefresh rets c = .ok (c', events) ∧
      (frames events).map (fun frame => (frame.1, Framing.decode 8 frame.2)) =
        ((List.finRange 4).filter fun p : Fin 4 =>
          (p : ℤ) < c₀.workers.pixelPorts.toInt).map fun p =>
            (p, some ((List.finRange 8).map fun s =>
              stringOf content (c₀.mappingAfter (old ++ ds) (p, s)))) := by
  have hbyte : ∀ i ∈ A, lastByte (old ++ ds) i = content i := by
    intro i hi
    obtain ⟨e, he, hei⟩ := hcovers i hi
    exact lastByte_of_carried hcarries ⟨e, he, (congrArg Option.isSome hei).trans rfl⟩
  obtain ⟨c, c', events, hrun, hfollows, hpackable, hrefresh, hframes⟩ :=
    exists_refresh hrange hzero hpack
  refine ⟨c, c', events, hrun, hrefresh, ?_⟩
  rw [hframes, hfollows.decode_refreshFrames hpackable]
  refine List.map_congr_left fun p _ => ?_
  -- byte by byte the strings of the history are those of the frame
  refine congrArg (Prod.mk p ∘ some) (List.map_congr_left fun s _ => ?_)
  exact List.map_congr_left fun i hi => hbyte _ (hinside p s i (List.mem_range.mp hi))

/-- For every frame, every packet size and every history of complete, in-range packets and
refreshes: when a source then sends the first `n` bytes of the frame in data packets of that
size, and these arrive in any order, each at least once, between any configurations and
refreshes, the next refresh sends to each port below `pixel_ports` the bytes of the frame that the
mapping in force selects, if that selects bytes below `n` only and every refresh is packable. -/
theorem frames_of_sourcePackets (params : Params)
    (hrange : params.acn.universeEnd.toInt - params.acn.universeStart.toInt < 48)
    (hzero : c₀.pixelBuffer = fun _ => 0) {n size : ℕ} (hn : n ≤ 24576) (hsize : size ≤ 1485)
    (hpos : 0 < size) (old ds : List (Event params)) (rets : Fin 4 → ℤ)
    (hacn : ∀ P, Event.acn P ∉ ds)
    (hdata : ∀ net P, Event.data net P ∈ ds → P ∈ sourcePackets content hn hsize)
    (hall : ∀ P ∈ sourcePackets content hn hsize, ∃ net, Event.data net P ∈ ds)
    (hpack : RefreshesPackable c₀ (old ++ ds ++ [.refresh rets]))
    (hbelow : ∀ p s, (c₀.mappingAfter (old ++ ds) (p, s)).Inside {i | i < n}) :
    ∃ c c' events, c₀.run params ((old ++ ds).map Event.action) = .ok c ∧
      workerRefresh rets c = .ok (c', events) ∧
      (frames events).map (fun frame => (frame.1, Framing.decode 8 frame.2)) =
        ((List.finRange 4).filter fun p : Fin 4 =>
          (p : ℤ) < c₀.workers.pixelPorts.toInt).map fun p =>
            (p, some ((List.finRange 8).map fun s =>
              stringOf content (c₀.mappingAfter (old ++ ds) (p, s)))) := by
  refine frames_of_carried params hrange hzero old ds rets ?_ ?_ hpack hbelow
  · intro e he i v hv
    cases e with
    | acn P => exact absurd he (hacn P)
    | data net P => exact patch_sourcePackets (hdata net P he) hv
    | config net P hP => cases hv
    | refresh rets => cases hv
  · intro i hi
    obtain ⟨P, hP, hPi⟩ := @exists_mem_sourcePackets content n size hn hsize hpos i hi
    obtain ⟨net, hmem⟩ := hall P hP
    exact ⟨_, hmem, hPi⟩

/-- For every frame, every layout of it over universes of the range and every history of complete,
in-range packets and refreshes: when a source then sends the universes, and these arrive in any
order, each at least once, between any configurations and refreshes, the next refresh sends to each
port below `pixel_ports` the bytes of the frame that the mapping in force selects, if that selects
slots in use only and every refresh is packable. -/
theorem frames_of_universes (params : Params)
    (hrange : params.acn.universeEnd.toInt - params.acn.universeStart.toInt < 48)
    (hzero : c₀.pixelBuffer = fun _ => 0) (L : UniverseLayout params.acn)
    (old ds : List (Event params)) (rets : Fin 4 → ℤ)
    (hdata : ∀ net P, Event.data net P ∉ ds)
    (hacn : ∀ P, Event.acn P ∈ ds ↔ P ∈ L.sourcePackets content)
    (hpack : RefreshesPackable c₀ (old ++ ds ++ [.refresh rets]))
    (hused : ∀ p s, (c₀.mappingAfter (old ++ ds) (p, s)).Inside L.addresses) :
    ∃ c c' events, c₀.run params ((old ++ ds).map Event.action) = .ok c ∧
      workerRefresh rets c = .ok (c', events) ∧
      (frames events).map (fun frame => (frame.1, Framing.decode 8 frame.2)) =
        ((List.finRange 4).filter fun p : Fin 4 =>
          (p : ℤ) < c₀.workers.pixelPorts.toInt).map fun p =>
            (p, some ((List.finRange 8).map fun s =>
              stringOf content (c₀.mappingAfter (old ++ ds) (p, s)))) := by
  refine frames_of_carried params hrange hzero old ds rets ?_ ?_ hpack hused
  · intro e he i v hv
    cases e with
    | acn P => exact UniverseLayout.patch_sourcePackets ((hacn P).mp he) hv
    | data net P => exact absurd he (hdata net P)
    | config net P hP => cases hv
    | refresh rets => cases hv
  · intro i hi
    obtain ⟨P, hP, hPi⟩ := @UniverseLayout.exists_mem_sourcePackets _ L content i hi
    exact ⟨_, (hacn P).mpr hP, hPi⟩

end

/-- `frames_of_sourcePackets` for a frame of seven bytes in packets of four, which arrive in the
wrong order, one of them twice. -/
theorem frames_of_sourcePackets_sample :
    let w : Workers := Function.update (Workers.zero.setCell (0, 0) ⟨2, 3⟩) 0 1
    let c₀ : Controller := { (default : Controller) with workers := w }
    ∃ ds : List (Event default), ∃ c c' events,
      c₀.run default (ds.map Event.action) = .ok c ∧
      workerRefresh (fun _ => 0) c = .ok (c', events) ∧
      (frames events).map (fun frame => (frame.1, Framing.decode 8 frame.2)) =
        [(0, some [[13, 14], [], [], [], [], [], [], []])] := by
  intro w c₀
  let content : ℕ → Byte := fun i => BitVec.ofNat 8 (10 + i)
  have hn : 7 ≤ 24576 := by decide
  have hsize : 4 ≤ 1485 := by decide
  let P₀ := DataPacket.encode 0 (chunk content 7 4 0) (by decide) (by decide)
  let P₁ := DataPacket.encode 4 (chunk content 7 4 4) (by decide) (by decide)
  have hpackets : sourcePackets content hn hsize = [P₀, P₁] := rfl
  let ds : List (Event default) := [.data default P₁, .data default P₀, .data default P₁]
  have hnone : ∀ e ∈ ds ++ [.refresh fun _ => 0], e.config? = none := by simp [ds, Event.config?]
  have hmapping : c₀.mappingAfter ([] ++ ds) = w.mapping :=
    mappingAfter_of_config_none fun e he => hnone e (List.mem_append_left _ he)
  have hinside : ∀ p s, ∀ i < (w.mapping (p, s)).channelCount.toInt.toNat,
      (w.mapping (p, s)).startChannel.toInt.toNat + i < 7 := by decide
  have hpack : ∀ p : Fin 4, (p : ℤ) < w.pixelPorts.toInt → PortPackable w.mapping p := by decide
  obtain ⟨c, c', events, hrun, hrefresh, hframes⟩ :=
    @frames_of_sourcePackets content c₀ default (by decide) rfl 7 4 hn hsize (by decide)
      [] ds (fun _ => 0) (by simp [ds])
      (by
        intro net P hP
        simp only [ds, List.mem_cons, Event.data.injEq, List.not_mem_nil, or_false] at hP
        rw [hpackets, List.mem_pair]
        exact hP.elim (fun h => .inr h.2) fun h => h.elim (fun h => .inl h.2) fun h => .inr h.2)
      (by
        intro P hP
        rw [hpackets] at hP
        refine ⟨default, ?_⟩
        rcases List.mem_pair.mp hP with rfl | rfl <;> simp [ds])
      (refreshesPackable_of_config_none hnone hpack) (hmapping ▸ hinside)
  refine ⟨ds, c, c', events, hrun, hrefresh, hframes.trans ?_⟩
  rw [hmapping]
  decide

/-- `frames_of_universes` for three slots in each of the universes 1 and 2, which arrive in the
wrong order, one of them twice. -/
theorem frames_of_universes_sample :
    let w : Workers := Function.update
      ((Workers.zero.setCell (0, 0) ⟨2, 1⟩).setCell (0, 5) ⟨3, 512⟩) 0 1
    let c₀ : Controller := { (default : Controller) with workers := w }
    let params : Params := { (default : Params) with acn := listenParam 1 2 }
    ∃ ds : List (Event params), ∃ c c' events,
      c₀.run params (ds.map Event.action) = .ok c ∧
      workerRefresh (fun _ => 0) c = .ok (c', events) ∧
      (frames events).map (fun frame => (frame.1, Framing.decode 8 frame.2)) =
        [(0, some [[11, 12], [], [], [], [], [20, 21, 22], [], []])] := by
  intro w c₀ params
  let content : ℕ → Byte := fun i => BitVec.ofNat 8 (if i < 512 then 10 + i else i - 492)
  let L : UniverseLayout params.acn :=
    ⟨2, fun _ => 3, fun _ => by decide, by decide, by decide, by decide⟩
  let P₀ := L.packet content ⟨0, by decide⟩
  let P₁ := L.packet content ⟨1, by decide⟩
  have hpackets : L.sourcePackets content = [P₀, P₁] := rfl
  let ds : List (Event params) := [.acn P₁, .acn P₀, .acn P₁]
  have hnone : ∀ e ∈ ds ++ [.refresh fun _ => 0], e.config? = none := by simp [ds, Event.config?]
  have hmapping : c₀.mappingAfter ([] ++ ds) = w.mapping :=
    mappingAfter_of_config_none fun e he => hnone e (List.mem_append_left _ he)
  have hused : ∀ p s, ∀ i < (w.mapping (p, s)).channelCount.toInt.toNat,
      (w.mapping (p, s)).startChannel.toInt.toNat + i ∈ L.addresses := by
    have hlt : ∀ p s, ∀ i < (w.mapping (p, s)).channelCount.toInt.toNat,
        ((w.mapping (p, s)).startChannel.toInt.toNat + i) / 512 < 2 ∧
          ((w.mapping (p, s)).startChannel.toInt.toNat + i) % 512 < 3 := by decide
    exact hlt
  have hpack : ∀ p : Fin 4, (p : ℤ) < w.pixelPorts.toInt → PortPackable w.mapping p := by decide
  obtain ⟨c, c', events, hrun, hrefresh, hframes⟩ :=
    @frames_of_universes content c₀ params (by decide) rfl L [] ds (fun _ => 0) (by simp [ds])
      (by
        intro P
        rw [hpackets, List.mem_pair]
        simp only [ds, List.mem_cons, Event.acn.injEq, List.not_mem_nil, or_false]
        exact ⟨fun h => h.elim .inr id, fun h => .inr h⟩)
      (refreshesPackable_of_config_none hnone hpack) (hmapping ▸ hused)
  refine ⟨ds, c, c', events, hrun, hrefresh, hframes.trans ?_⟩
  rw [hmapping]
  decide

end PiPixelController
