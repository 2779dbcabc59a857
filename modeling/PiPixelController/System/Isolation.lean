import PiPixelController.System.Delivery

/-!
# What a port can see

Two runs that differ only in what is configured for the other ports and in bytes outside the strings
of a port send the same frames to that port. Nothing a source does for another port shows,
as long as every refresh is defined.

* `lastByte_congr`, `mappingAfter_congr` — the two parts of the state a port depends on;
* `frames_isolated` — the frames of the port are the same in both runs.
-/

namespace PiPixelController

open CSemantics WriteLog

/-- The packets carry the same sequence number and the same entries for port `p`. -/
structure ConfigPacket.SameFor (p : Fin 4) (P P' : ConfigPacket) : Prop where
  sequenceNumber : P.sequenceNumber = P'.sequenceNumber
  entries : P.entries.filter (fun e => e.port.toNat = p.val) =
    P'.entries.filter fun e => e.port.toNat = p.val

section

variable {p : Fin 4}

/-- The last entry for a cell is the last of those for its port. -/
theorem lastEntry_filter (es : List PortConfig) (s : Fin 8) :
    lastEntry (es.filter fun e => e.port.toNat = p.val) (p, s) = lastEntry es (p, s) := by
  rw [lastEntry, lastEntry, ← List.filter_reverse, List.find?_filter]
  congr 1
  funext e
  -- an entry for the cell is one for the port
  by_cases h : e.IsFor (p, s)
  · simp [h, h.1]
  · simp [h]

theorem ConfigPacket.SameFor.patch_eq {P P' : ConfigPacket} (h : P.SameFor p P') (s : Fin 8) :
    P.patch (p, s) = P'.patch (p, s) := by
  rw [ConfigPacket.patch, ConfigPacket.patch, latest_map_patch, latest_map_patch,
    ← lastEntry_filter P.entries, h.entries, lastEntry_filter]

/-- The configurations agree about port `p`. -/
structure ConfigView.SameFor (p : Fin 4) (v v' : ConfigView) : Prop where
  sequence : v.sequence = v'.sequence
  mapping : ∀ s, v.mapping (p, s) = v'.mapping (p, s)

theorem ConfigView.SameFor.step {v v' : ConfigView} (h : v.SameFor p v') {P P' : ConfigPacket}
    (hP : P.SameFor p P') : (v.step P).SameFor p (v'.step P') where
  sequence := hP.sequenceNumber
  mapping := by
    intro s
    -- the sequence numbers agree, so both clear the mapping or neither does
    have hbase : v.base P (p, s) = v'.base P' (p, s) := by
      rw [ConfigView.base, ConfigView.base, h.sequence, hP.sequenceNumber]
      split
      · exact h.mapping s
      · rfl
    simp only [ConfigView.step, Patch.apply, hP.patch_eq, hbase]

theorem ConfigView.SameFor.foldl {v v' : ConfigView} (h : v.SameFor p v')
    {ps ps' : List ConfigPacket} (hps : List.Forall₂ (ConfigPacket.SameFor p) ps ps') :
    (ps.foldl ConfigView.step v).SameFor p (ps'.foldl ConfigView.step v') := by
  induction hps generalizing v v' with
  | nil => exact h
  | cons hP _ ih => exact ih (h.step hP)

end

section

variable {params : Params} {p : Fin 4} {A : Set ℕ} {es es' : List (Event params)}

/-- The events store the same bytes in `A`, and configure the same for port `p`. -/
structure Event.SameFor (p : Fin 4) (A : Set ℕ) (e e' : Event params) : Prop where
  pixels : ∀ i ∈ A, e.patch i = e'.patch i
  config : Option.Rel (ConfigPacket.SameFor p) e.config? e'.config?

/-- The bytes of `A` are the same after both histories. -/
theorem lastByte_congr (h : List.Forall₂ (Event.SameFor p A) es es') {i : ℕ} (hi : i ∈ A) :
    lastByte es i = lastByte es' i := by
  suffices hlatest : latest (es.map Event.patch) i = latest (es'.map Event.patch) i by
    rw [lastByte, lastByte, hlatest]
  induction h with
  | nil => rfl
  | cons he _ ih => rw [List.map_cons, List.map_cons, latest_cons, latest_cons, ih, he.pixels i hi]

theorem configs_forall₂ (h : List.Forall₂ (Event.SameFor p A) es es') :
    List.Forall₂ (ConfigPacket.SameFor p) (configs es) (configs es') := by
  induction h with
  | nil => exact .nil
  | @cons e e' es es' he _ ih =>
      have hconfig := he.config
      rw [configs, configs, List.filterMap_cons, List.filterMap_cons]
      -- both events are configurations, or neither is
      cases hc : e.config? <;> cases hc' : e'.config? <;> rw [hc, hc'] at hconfig <;>
        cases hconfig
      case some.some.some hP => exact .cons hP ih
      case none.none.none => exact ih

variable {c₀ c₀' : Controller}

/-- Both histories configure the port the same. -/
theorem mappingAfter_congr (h : List.Forall₂ (Event.SameFor p A) es es')
    (hc : c₀.configView.SameFor p c₀'.configView) (s : Fin 8) :
    mappingAfter c₀.lastConfigSequence c₀.workers.mapping es (p, s) =
      mappingAfter c₀'.lastConfigSequence c₀'.workers.mapping es' (p, s) := by
  have hfold := (hc.foldl (configs_forall₂ h)).mapping s
  rwa [foldl_step_mapping, foldl_step_mapping] at hfold

/-- The strings of the port are the same after both histories. -/
theorem portStrings_congr {c c' : Controller} (h : Follows c₀ es c) (h' : Follows c₀' es' c')
    (hes : List.Forall₂ (Event.SameFor p A) es es')
    (hc : c₀.configView.SameFor p c₀'.configView)
    (hA : ∀ s, (c₀.mappingAfter es (p, s)).Inside A) :
    portStrings c.workers.mapping c.pixelBuffer p =
      portStrings c'.workers.mapping c'.pixelBuffer p := by
  rw [h.portStrings_eq, h'.portStrings_eq]
  refine List.map_congr_left fun s _ => ?_
  -- the same addresses, and the same bytes there
  rw [← mappingAfter_congr hes hc s]
  exact List.map_congr_left fun i hi => lastByte_congr hes (hA s i (List.mem_range.mp hi))

/-- A refresh sends one frame to a port below `pixel_ports`. -/
theorem filter_refreshFrames {c : Controller} (hp : (p : ℤ) < c.workers.pixelPorts.toInt) :
    (refreshFrames c).filter (fun f => f.1 = p) = [(p, portFrame c p)] := by
  have hports : ∀ q : Fin 4, (List.finRange 4).filter (fun r => r = q) = [q] := by decide
  rw [refreshFrames, List.filter_map, List.filter_comm]
  change (((List.finRange 4).filter fun q => q = p).filter _).map _ = _
  rw [hports, List.filter_singleton]
  simp [hp]

/-- For every port and every two histories of complete, in-range packets and refreshes that at each
position carry the same entries for the port under the same sequence number and store the same
bytes in its strings, whatever they carry for other ports and other addresses: from states that
agree about the port, if every refresh of both is packable, the next refresh sends the same to the
port. -/
theorem frames_isolated (params : Params)
    (hrange : params.acn.universeEnd.toInt - params.acn.universeStart.toInt < 48)
    {es es' : List (Event params)} (hes : List.Forall₂ (Event.SameFor p A) es es')
    (hc : c₀.configView.SameFor p c₀'.configView)
    (hzero : c₀.pixelBuffer = fun _ => 0) (hzero' : c₀'.pixelBuffer = fun _ => 0)
    (hports : (p : ℤ) < c₀.workers.pixelPorts.toInt)
    (hports' : (p : ℤ) < c₀'.workers.pixelPorts.toInt)
    (hA : ∀ s, (c₀.mappingAfter es (p, s)).Inside A) {rets rets' : Fin 4 → ℤ}
    (hpack : RefreshesPackable c₀ (es ++ [.refresh rets]))
    (hpack' : RefreshesPackable c₀' (es' ++ [.refresh rets'])) :
    ∃ c d events c' d' events', c₀.run params (es.map Event.action) = .ok c ∧
      workerRefresh rets c = .ok (d, events) ∧
      c₀'.run params (es'.map Event.action) = .ok c' ∧
      workerRefresh rets' c' = .ok (d', events') ∧
      (frames events).filter (fun f => f.1 = p) = (frames events').filter fun f => f.1 = p := by
  obtain ⟨c, d, events, hrun, hfollows, -, hrefresh, hframes⟩ :=
    exists_refresh hrange hzero hpack
  obtain ⟨c', d', events', hrun', hfollows', -, hrefresh', hframes'⟩ :=
    exists_refresh hrange hzero' hpack'
  refine ⟨c, d, events, c', d', events', hrun, hrefresh, hrun', hrefresh', ?_⟩
  rw [hframes, hframes', filter_refreshFrames (hfollows.pixelPorts ▸ hports),
    filter_refreshFrames (hfollows'.pixelPorts ▸ hports'), portFrame, portFrame,
    portStrings_congr hfollows hfollows' hes hc hA]

end

/-- A data packet that writes a byte to the addresses 9 and 10. -/
def otherData (v : Byte) : DataPacket := DataPacket.encode 9 [v, v] (by simp) (by simp)

/-- `frames_isolated` for two runs that store different bytes at the addresses 9 and 10, and a port
whose string is the addresses 5 and 6. -/
theorem frames_isolated_sample :
    let w : Workers := Function.update (Workers.zero.setCell (0, 0) ⟨2, 5⟩) 0 1
    let c₀ : Controller := { (default : Controller) with workers := w }
    let actions (v : Byte) : List Action :=
      [.zcpp default (some sampleData.datagram), .zcpp default (some (otherData v).datagram)]
    ∃ c d events c' d' events', c₀.run default (actions 1) = .ok c ∧
      workerRefresh (fun _ => 0) c = .ok (d, events) ∧
      c₀.run default (actions 2) = .ok c' ∧
      workerRefresh (fun _ => 0) c' = .ok (d', events') ∧
      (frames events).filter (fun f => f.1 = 0) = (frames events').filter fun f => f.1 = 0 := by
  intro w c₀ actions
  let es (v : Byte) : List (Event default) :=
    [.data default sampleData, .data default (otherData v)]
  have hnone : ∀ v, ∀ e ∈ es v ++ [.refresh fun _ => 0], e.config? = none := by
    simp [es, Event.config?]
  have hpack : ∀ p : Fin 4, (p : ℤ) < w.pixelPorts.toInt → PortPackable w.mapping p := by decide
  have hinside : ∀ s, ∀ i < (w.mapping (0, s)).channelCount.toInt.toNat,
      (w.mapping (0, s)).startChannel.toInt.toNat + i < 9 := by decide
  have hmapping : c₀.mappingAfter (es 1) = w.mapping :=
    mappingAfter_of_config_none fun e he => hnone 1 e (List.mem_append_left _ he)
  have hsame : List.Forall₂ (@Event.SameFor default 0 {i | i < 9}) (es 1) (es 2) := by
    refine .cons ⟨fun _ _ => rfl, .none⟩ (.cons ⟨fun i hi => ?_, .none⟩ .nil)
    have hother : ∀ v, (otherData v).patch i = none := by
      intro v
      rw [otherData, DataPacket.patch_encode, rangePatch, if_neg (not_le.mpr hi)]
    exact (hother 1).trans (hother 2).symm
  have hports : ((0 : Fin 4) : ℤ) < w.pixelPorts.toInt := by decide
  exact frames_isolated default (by decide) hsame ⟨rfl, fun _ => rfl⟩ rfl rfl hports hports
    (hmapping ▸ hinside) (refreshesPackable_of_config_none (hnone 1) hpack)
    (refreshesPackable_of_config_none (hnone 2) hpack)

end PiPixelController
