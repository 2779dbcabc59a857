import Mathlib.Data.Fintype.Prod
import PiPixelController.System.Limits
import PiPixelController.Zcpp.Response

/-!
# The advertised capacity

The discovery response advertises four pixel ports, 3600 channels for each of them and a total
number of channels. The total is a 32-bit field that is assigned `htons(4800)`, and a receiver
that reads it in network byte order sees `0x12C00000` channels; the number of ports is a literal
4, whatever `pixel_ports` is.

* `discoveryResponse_fields` — what a receiver reads in the response;
* `capacity_honoured_iff` — a new configuration that respects the advertised capacity is
  transmitted in full exactly when its ports are below `pixel_ports` and its strings within the
  pixel buffer.
-/

namespace PiPixelController

open CSemantics

/-! ### What the response advertises -/

namespace Zcpp

def advertisedPixelPorts (D : Block 88) : ℕ := (D.get 76).toNat

/-- `maxTotalChannels`, read in network byte order. -/
def advertisedTotalChannels (D : Block 88) : ℕ := (fromWire32 (D.load32 72)).toNat

/-- `channelsPerPixelPort`, read in network byte order. -/
def advertisedChannelsPerPort (D : Block 88) : ℕ := (fromWire16 (D.load16 78)).toNat

/-- The capacity a receiver of the response reads: four ports of 3600 channels, and
`0x12C00000` channels in total. -/
theorem discoveryResponse_fields {controllerName : Block 48} {localAddr : BitVec 32}
    {D : Block 88} (h : discoveryResponse controllerName localAddr = .ok D) :
    advertisedPixelPorts D = 4 ∧ advertisedTotalChannels D = 0x12C00000 ∧
      advertisedChannelsPerPort D = 3600 := by
  rw [discoveryResponse_eq, Outcome.map_eq_ok_iff] at h
  obtain ⟨r, -, rfl⟩ := h
  -- the three fields are written after the name and never again
  obtain ⟨htotal, hports, -, hchannels, -⟩ := responseTail_fields r
  rw [advertisedPixelPorts, advertisedTotalChannels, advertisedChannelsPerPort, hports, htotal,
    hchannels]
  decide

end Zcpp

/-! ### Configurations within the advertised capacity -/

/-- The cells the entries of a configuration ask for: the last entry for each. -/
def configured (es : List PortConfig) : Mapping :=
  fun k => ((lastEntry es k).map PortConfig.cell).getD ⟨0, 0⟩

/-- A configuration that respects the capacity a receiver reads in the response `D`. Of several
entries for one string the last one counts. -/
structure Respects (D : Block 88) (es : List PortConfig) : Prop where
  port_lt : ∀ e ∈ es, e.port.toNat < Zcpp.advertisedPixelPorts D
  portChannels_le : ∀ p, portChannels (configured es) p ≤ Zcpp.advertisedChannelsPerPort D
  total_le : ((List.finRange 4).map (portChannels (configured es))).sum ≤
    Zcpp.advertisedTotalChannels D
  end_le : ∀ k, (configured es k).startChannel.toNat + (configured es k).channelCount.toNat ≤
    Zcpp.advertisedTotalChannels D

/-- The capacity in numbers. -/
theorem respects_iff {controllerName : Block 48} {localAddr : BitVec 32} {D : Block 88}
    (hD : Zcpp.discoveryResponse controllerName localAddr = .ok D) (es : List PortConfig) :
    Respects D es ↔ (∀ e ∈ es, e.port.toNat < 4) ∧ (∀ p, portChannels (configured es) p ≤ 3600) ∧
      ((List.finRange 4).map (portChannels (configured es))).sum ≤ 0x12C00000 ∧
      ∀ k, (configured es k).startChannel.toNat + (configured es k).channelCount.toNat ≤
        0x12C00000 := by
  obtain ⟨hports, htotal, hchannels⟩ := Zcpp.discoveryResponse_fields hD
  constructor
  · rintro ⟨hport, hsum, htotal', hend⟩
    rw [hports] at hport
    rw [hchannels] at hsum
    rw [htotal] at htotal' hend
    exact ⟨hport, hsum, htotal', hend⟩
  · rintro ⟨hport, hsum, htotal', hend⟩
    exact ⟨by rwa [hports], by rwa [hchannels], by rwa [htotal], by rwa [htotal]⟩

/-- The next refresh stays inside its buffers, and the frame of every port with a configured
string holds all the channels of that string. -/
def Transmits (rets : Fin 4 → ℤ) (es : List PortConfig) (c : Controller) : Prop :=
  ∃ c' events, workerRefresh rets c = .ok (c', events) ∧
    ∀ k e, lastEntry es k = some e → ∃ frame strings, (k.1, frame) ∈ frames events ∧
      Framing.decode 8 frame = some strings ∧
      strings[k.2.val]? = some (c.pixelBuffer.slice e.startChannel.toNat e.channels.toNat)

section

variable {c : Controller} {es : List PortConfig} {rets : Fin 4 → ℤ}

theorem configured_of_lastEntry {k : Fin 4 × Fin 8} {e : PortConfig}
    (h : lastEntry es k = some e) : configured es k = e.cell := by
  rw [configured, h, Option.map_some, Option.getD_some]

theorem withinBuffer_of_lastEntry_none {k : Fin 4 × Fin 8} (h : lastEntry es k = none) :
    (configured es k).WithinBuffer := by
  rw [configured, h]
  exact Or.inl rfl

/-- Every entry of a configuration with strings below 8 belongs to a configured cell. -/
theorem exists_lastEntry {e : PortConfig} (he : e ∈ es) (htable : e.InTable) :
    ∃ k e', e.IsFor k ∧ lastEntry es k = some e' := by
  obtain ⟨k, hk⟩ := htable.exists_isFor
  obtain ⟨e', he'⟩ := Option.isSome_iff_exists.mp ((lastEntry_isSome_iff es k).mpr ⟨e, he, hk⟩)
  exact ⟨k, e', hk, he'⟩

/-- A refresh sends to a port exactly when it is below `pixel_ports`. -/
theorem mem_refreshFrames {p : Fin 4} {frame : List Byte} :
    (p, frame) ∈ refreshFrames c ↔ (p : ℤ) < c.workers.pixelPorts.toInt ∧
      frame = portFrame c p := by
  simp only [refreshFrames, List.mem_map, List.mem_filter, List.mem_finRange, true_and,
    decide_eq_true_eq, Prod.mk.injEq]
  constructor
  · rintro ⟨q, hq, rfl, rfl⟩
    exact ⟨hq, rfl⟩
  · rintro ⟨hp, rfl⟩
    exact ⟨p, hp, rfl, rfl⟩

/-- The slice of a packable cell, in unsigned values. -/
theorem Cell.InBuffer.bytes_eq {cell : Cell} (h : cell.InBuffer) (buffer : PixelBuffer) :
    cell.bytes buffer = buffer.slice cell.startChannel.toNat cell.channelCount.toNat := by
  rw [Cell.bytes, toNat_toInt_of_nonneg h.1]
  by_cases hzero : cell.channelCount = 0
  · rw [hzero]
    rfl
  · rw [toNat_toInt_of_nonneg (h.2 hzero).1]

/-- In a state with the configured mapping, whose ports have at most 19200 channels each, the
configuration is transmitted exactly when its ports are below `pixel_ports` and its strings
within the pixel buffer. -/
theorem transmits_iff (rets : Fin 4 → ℤ) (htable : ∀ e ∈ es, e.InTable)
    (hmap : c.workers.mapping = configured es)
    (hports : ∀ p, portChannels (configured es) p ≤ 19200) :
    Transmits rets es c ↔
      (∀ e ∈ es, (e.port.toNat : ℤ) < c.workers.pixelPorts.toInt) ∧
        ∀ k, (configured es k).WithinBuffer := by
  constructor
  · rintro ⟨c', events, hrefresh, hsent⟩
    have hpack := packable_of_workerRefresh hrefresh
    obtain ⟨c'', events', hrefresh', -, hframes⟩ := workerRefresh_of_packable hpack rets
    obtain ⟨-, rfl⟩ := Prod.mk.inj (Outcome.ok.inj (hrefresh.symm.trans hrefresh'))
    -- a port with a configured string got a frame, so it is below `pixel_ports`
    have hlt : ∀ k e, lastEntry es k = some e → (k.1 : ℤ) < c.workers.pixelPorts.toInt := by
      intro k e he
      obtain ⟨frame, strings, hmem, -⟩ := hsent k e he
      rw [hframes] at hmem
      exact (mem_refreshFrames.mp hmem).1
    constructor
    · intro e he
      obtain ⟨k, e', hk, he'⟩ := exists_lastEntry he (htable e he)
      rw [hk.1]
      exact hlt k e' he'
    · intro k
      -- a cell without an entry has no channels
      cases hk : lastEntry es k with
      | none => exact withinBuffer_of_lastEntry_none hk
      | some e =>
          rw [packable_iff_withinLimits, hmap] at hpack
          exact (hpack k.1 (hlt k e hk)).1 k.2
  · rintro ⟨hlt, hwithin⟩
    have hpack : Packable c.workers.pixelPorts c.workers.mapping := by
      rw [packable_iff_withinLimits, hmap]
      exact fun p _ => ⟨fun s => hwithin (p, s), hports p⟩
    obtain ⟨c', events, hrefresh, -, hframes⟩ := workerRefresh_of_packable hpack rets
    refine ⟨c', events, hrefresh, fun k e he => ?_⟩
    obtain ⟨hmem, hk⟩ := lastEntry_eq_some he
    have hp : (k.1 : ℤ) < c.workers.pixelPorts.toInt := by
      rw [← hk.1]
      exact hlt e hmem
    refine ⟨_, _, hframes ▸ mem_refreshFrames.mpr ⟨hp, rfl⟩, decode_portFrame (hpack _ hp), ?_⟩
    -- string `k.2` of the decoded frame is the slice of the cell `k`
    have hcell : c.workers.mapping k = e.cell := by rw [hmap, configured_of_lastEntry he]
    rw [portStrings, List.getElem?_map, List.getElem?_eq_getElem (by simp), Option.map_some,
      List.getElem_finRange]
    change some ((c.workers.mapping k).bytes c.pixelBuffer) = _
    rw [((hpack _ hp).inBuffer k.2).bytes_eq, hcell]
    rfl

end

/-- Let `D` be the discovery response the controller sends. For every configuration of one or
more packets under one new sequence number, with strings below 8, that respects the capacity
read in `D`: after it is processed, the next refresh stays inside its buffers and transmits
every configured string with all its channels, if and only if all its ports are below
`pixel_ports` and all its non-empty strings end within `PIXEL_BUFFER_SIZE`. -/
theorem capacity_honoured_iff {controllerName : Block 48} {localAddr : BitVec 32} {D : Block 88}
    (hD : Zcpp.discoveryResponse controllerName localAddr = .ok D) {c : Controller}
    {ps : List ConfigPacket} (hne : ps ≠ []) {q : BitVec 32}
    (hseq : ∀ P ∈ ps, P.sequenceNumber = q) (hnew : c.lastConfigSequence ≠ q)
    (hstring : ∀ e ∈ entriesOf ps, e.string.toNat < 8) (hrespects : Respects D (entriesOf ps))
    (params : Params) (net : Network) (rets : Fin 4 → ℤ) :
    (∃ c', c.run params (ps.map (ConfigPacket.action net)) = .ok c' ∧
      Transmits rets (entriesOf ps) c') ↔
    (∀ e ∈ entriesOf ps, (e.port.toNat : ℤ) < c.workers.pixelPorts.toInt) ∧
      ∀ k, (configured (entriesOf ps) k).WithinBuffer := by
  obtain ⟨hport, hchannels, -, -⟩ := (respects_iff hD _).mp hrespects
  have htable : ∀ e ∈ entriesOf ps, e.InTable := fun e he => ⟨hport e he, hstring e he⟩
  obtain ⟨c', hrun, hview, hsame⟩ := @run_config ps
    (fun P hP e he => htable e (List.mem_flatMap.mpr ⟨P, hP, he⟩)) params net c
  have hmap : c'.workers.mapping = configured (entriesOf ps) := by
    funext k
    have hfold := congrArg (fun v => v.mapping k) hview
    have hnew' : c.configView.sequence ≠ q := hnew
    rw [foldl_step_of_sameSequence hne hseq, if_neg hnew'] at hfold
    exact hfold
  have hports : ∀ p, portChannels (configured (entriesOf ps)) p ≤ 19200 :=
    fun p => (hchannels p).trans (by decide)
  have hiff := transmits_iff rets htable hmap hports
  rw [hsame.outside.pixelPorts] at hiff
  rw [← hiff]
  exact Outcome.exists_ok_iff hrun

/-- A response is sent for the empty controller name. -/
theorem exists_discoveryResponse : ∃ D, Zcpp.discoveryResponse (fun _ => 0) 0 = .ok D :=
  ⟨_, rfl⟩

/-- `capacity_honoured_iff` on one string of three channels, with four pixel ports. -/
theorem capacity_honoured_sample :
    let es : List PortConfig := [⟨0, 0, 0, 3⟩]
    let c : Controller :=
      { (default : Controller) with workers := Function.update Workers.zero 0 4 }
    ∃ c', c.run default [(ConfigPacket.encode 1 es (by decide)).action default] = .ok c' ∧
      Transmits (fun _ => 0) es c' := by
  intro es c
  let P := ConfigPacket.encode 1 es (by decide)
  obtain ⟨D, hD⟩ := exists_discoveryResponse
  have hentries : entriesOf [P] = es := entriesOf_encode
  have hseq : ∀ P' ∈ [P], P'.sequenceNumber = 1 :=
    List.forall_mem_singleton.mpr (ConfigPacket.sequenceNumber_encode ..)
  have hiff := capacity_honoured_iff hD (c := c) (List.cons_ne_nil P []) hseq (by decide)
    (by rw [hentries]; decide) (by rw [hentries, respects_iff hD]; decide) default default
    fun _ => 0
  rw [hentries] at hiff
  exact hiff.mpr (by decide)

/-- Three channels from 30000 on respect the advertised total, and the refresh after them is
undefined. -/
theorem not_capacity_honoured_sample :
    ¬∀ (D : Block 88), Zcpp.discoveryResponse (fun _ => 0) 0 = .ok D →
      ∀ c : Controller, c.StartsFrom default → ∀ ps : List ConfigPacket, ps ≠ [] →
        (∀ P ∈ ps, P.sequenceNumber = 1) → (∀ e ∈ entriesOf ps, e.string.toNat < 8) →
        Respects D (entriesOf ps) →
        ∃ c', c.run default (ps.map (ConfigPacket.action default)) = .ok c' ∧
          Transmits (fun _ => 0) (entriesOf ps) c' := by
  intro h
  let es : List PortConfig := [⟨0, 0, 30000, 3⟩]
  let P := ConfigPacket.encode 1 es (by decide)
  obtain ⟨D, hD⟩ := exists_discoveryResponse
  obtain ⟨c, hc, -⟩ := @exists_startsFrom default Workers.zero rfl
  have hentries : entriesOf [P] = es := entriesOf_encode
  have hseq : ∀ P' ∈ [P], P'.sequenceNumber = 1 :=
    List.forall_mem_singleton.mpr (ConfigPacket.sequenceNumber_encode ..)
  have htable : ∀ P' ∈ [P], P'.InTable :=
    List.forall_mem_singleton.mpr (ConfigPacket.inTable_encode.mpr (by decide))
  obtain ⟨c', hrun, c'', events, hrefresh, -⟩ := h D hD c hc [P] (List.cons_ne_nil P []) hseq
    (by rw [hentries]; decide) (by rw [hentries, respects_iff hD]; decide)
  -- the configured slice is not in the pixel buffer
  obtain ⟨hview, hsame⟩ := configView_of_run htable hrun
  have hcell : c'.workers.mapping (0, 0) = ⟨3, 30000⟩ := by
    have hfold := congrArg (fun v => v.mapping (0, 0)) hview
    rw [foldl_step_of_sameSequence (List.cons_ne_nil P []) hseq, hentries] at hfold
    exact hfold
  have hpp : c'.workers.pixelPorts = 4 := hsame.outside.pixelPorts.trans hc.pixelPorts_eq
  have hin := (packable_of_workerRefresh hrefresh 0 (by rw [hpp]; decide)).inBuffer 0
  rw [hcell] at hin
  exact absurd hin (by decide)

end PiPixelController
