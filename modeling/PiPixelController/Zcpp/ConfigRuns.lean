import PiPixelController.Startup.Mapping
import PiPixelController.Zcpp.Encode

/-!
# Runs of configuration packets

`run_config` reduces a sequence of complete packets with entries in the table to a fold of
`ConfigView.step`. Here the fold is described from the packets alone. With
`q₀ = last_config_sequence` before and `q₁, …, qₙ` the sequence numbers received, packet `k`
*changes* the sequence number when `qₖ ≠ qₖ₋₁` (`ChangesAt`); the packets from the last change
on are the trailing block.

Main results:

* `foldl_step_mapping` — the mapping is `inForce`: the last entry of the trailing block for
  each cell over an empty mapping, or the last entry of all packets over the initial mapping
  when no packet changes the sequence number;
* `run_config_mapping` — the same for the controller.
-/

namespace PiPixelController

open CSemantics WriteLog

/-- All entries of a sequence of packets, in the order received. -/
def entriesOf (ps : List ConfigPacket) : List PortConfig := ps.flatMap ConfigPacket.entries

/-- The sequence numbers `q₀, q₁, …, qₙ`. -/
def sequences (q₀ : BitVec 32) (ps : List ConfigPacket) : List (BitVec 32) :=
  q₀ :: ps.map ConfigPacket.sequenceNumber

/-- The packet at position `k` carries another sequence number than the one before it. -/
def ChangesAt (q₀ : BitVec 32) (ps : List ConfigPacket) (k : ℕ) : Prop :=
  k < ps.length ∧ (sequences q₀ ps)[k]? ≠ (sequences q₀ ps)[k + 1]?

instance (q₀ : BitVec 32) (ps : List ConfigPacket) (k : ℕ) : Decidable (ChangesAt q₀ ps k) := by
  unfold ChangesAt
  infer_instance

/-- The position of the last packet that changes the sequence number. -/
def lastChange (q₀ : BitVec 32) (ps : List ConfigPacket) : Option ℕ :=
  (List.range ps.length).reverse.find? fun k => ChangesAt q₀ ps k

/-- The cell contents in force after a sequence of packets, from the packets alone. -/
def inForce (q₀ : BitVec 32) (m₀ : Mapping) (ps : List ConfigPacket) : Mapping :=
  fun cell => match lastChange q₀ ps with
    | some k => ((lastEntry (entriesOf (ps.drop k)) cell).map PortConfig.cell).getD ⟨0, 0⟩
    | none => ((lastEntry (entriesOf ps) cell).map PortConfig.cell).getD (m₀ cell)

section

variable {q : BitVec 32} {P : ConfigPacket} {ps : List ConfigPacket} {k : ℕ}

theorem changesAt_zero_iff : ChangesAt q (P :: ps) 0 ↔ q ≠ P.sequenceNumber := by
  simp [ChangesAt, sequences]

theorem changesAt_succ_iff :
    ChangesAt q (P :: ps) (k + 1) ↔ ChangesAt P.sequenceNumber ps k := by
  simp [ChangesAt, sequences]

theorem ChangesAt.lt (h : ChangesAt q ps k) : k < ps.length := h.1

/-- The position found is a change, and no later packet is one. -/
theorem lastChange_eq_some_iff :
    lastChange q ps = some k ↔ ChangesAt q ps k ∧ ∀ j, k < j → ¬ChangesAt q ps j := by
  rw [lastChange, List.find?_eq_some_iff_getElem]
  simp only [decide_eq_true_eq, List.length_reverse, List.length_range, Bool.not_eq_true',
    decide_eq_false_iff_not, List.getElem_reverse, List.getElem_range]
  -- the search runs from the last packet on: position `i` in it is packet `length - 1 - i`
  constructor
  · rintro ⟨hk, i, hi, hik, hlater⟩
    refine ⟨hk, fun j hj hch => hlater (ps.length - 1 - j) ?_ ?_⟩
    · have := hch.lt
      omega
    · have := hch.lt
      rwa [show ps.length - 1 - (ps.length - 1 - j) = j by omega]
  · rintro ⟨hk, hlater⟩
    have := hk.lt
    exact ⟨hk, ps.length - 1 - k, by omega, by omega, fun i hi => hlater _ (by omega)⟩

theorem lastChange_eq_none_iff : lastChange q ps = none ↔ ∀ k, ¬ChangesAt q ps k := by
  rw [lastChange, List.find?_eq_none]
  simp only [List.mem_reverse, List.mem_range, decide_eq_true_eq]
  exact ⟨fun h k hk => h k hk.lt hk, fun h k _ => h k⟩

end

/-- The patches of packets in a row, cell by cell: the last entry for the cell. -/
theorem latest_map_packet_patch (ps : List ConfigPacket) (cell : Fin 4 × Fin 8) :
    latest (ps.map ConfigPacket.patch) cell =
      (lastEntry (entriesOf ps) cell).map PortConfig.cell := by
  have h := latest_map_latest (fun P : ConfigPacket => P.entries.map PortConfig.patch) ps cell
  rw [← latest_map_patch, entriesOf, List.map_flatMap]
  exact h

/-- The last sequence number received is the one recorded. -/
theorem foldl_step_sequence {ps : List ConfigPacket} (h : ps ≠ []) (v : ConfigView) :
    (ps.foldl ConfigView.step v).sequence = (ps.getLast h).sequenceNumber := by
  obtain ⟨init, P, rfl⟩ := List.eq_nil_or_concat ps |>.resolve_left h
  simp [ConfigView.step]

/-- Without a change of the sequence number the entries are written over the initial
mapping. -/
theorem foldl_step_of_noChange {ps : List ConfigPacket} {v : ConfigView}
    (h : ∀ k, ¬ChangesAt v.sequence ps k) :
    (ps.foldl ConfigView.step v).mapping = replay (ps.map ConfigPacket.patch) v.mapping := by
  induction ps generalizing v with
  | nil => rfl
  | cons P ps ih =>
      -- the first packet is no change, so its base is the initial mapping
      have hseq : v.sequence = P.sequenceNumber := not_not.mp (mt changesAt_zero_iff.mpr (h 0))
      rw [List.foldl_cons, ih fun k => mt changesAt_succ_iff.mpr (h (k + 1)), ConfigView.step,
        ConfigView.base, if_pos hseq]
      rfl

/-- From the last change on the entries are written over an empty mapping. -/
theorem foldl_step_of_lastChange {ps : List ConfigPacket} {v : ConfigView} {k : ℕ}
    (h : ChangesAt v.sequence ps k) (hlast : ∀ j, k < j → ¬ChangesAt v.sequence ps j) :
    (ps.foldl ConfigView.step v).mapping =
      replay ((ps.drop k).map ConfigPacket.patch) fun _ => ⟨0, 0⟩ := by
  induction ps generalizing v k with
  | nil => exact absurd h.lt (Nat.not_lt_zero k)
  | cons P ps ih =>
      rw [List.foldl_cons]
      cases k with
      | zero =>
          -- the last change is the first packet: it clears, the others add to it
          have hseq : v.sequence ≠ P.sequenceNumber := changesAt_zero_iff.mp h
          rw [foldl_step_of_noChange fun j => mt changesAt_succ_iff.mpr (hlast _ j.succ_pos),
            ConfigView.step, ConfigView.base, if_neg hseq]
          rfl
      | succ k =>
          -- the last change comes later, and what the first packet leaves is cleared then
          exact ih (changesAt_succ_iff.mp h) fun j hj =>
            mt changesAt_succ_iff.mpr (hlast (j + 1) (Nat.succ_lt_succ hj))

/-- The fold of the abstract steps is the mapping in force. -/
theorem foldl_step_mapping (ps : List ConfigPacket) (v : ConfigView) :
    (ps.foldl ConfigView.step v).mapping = inForce v.sequence v.mapping ps := by
  funext cell
  rw [inForce]
  cases hlast : lastChange v.sequence ps with
  | some k =>
      obtain ⟨hk, hlater⟩ := lastChange_eq_some_iff.mp hlast
      rw [foldl_step_of_lastChange hk hlater, replay_apply, latest_map_packet_patch]
  | none =>
      rw [foldl_step_of_noChange (lastChange_eq_none_iff.mp hlast), replay_apply,
        latest_map_packet_patch]

/-! ### Packets with one sequence number -/

/-- No packet changes the sequence number exactly when all carry the current one. -/
theorem forall_not_changesAt_iff {q : BitVec 32} {ps : List ConfigPacket} :
    (∀ k, ¬ChangesAt q ps k) ↔ ∀ P ∈ ps, P.sequenceNumber = q := by
  induction ps generalizing q with
  | nil =>
      simp only [List.not_mem_nil, IsEmpty.forall_iff, implies_true, iff_true]
      exact fun k hk => Nat.not_lt_zero k hk.lt
  | cons P ps ih =>
      rw [List.forall_mem_cons]
      constructor
      · intro h
        have hP : q = P.sequenceNumber := not_not.mp (mt changesAt_zero_iff.mpr (h 0))
        refine ⟨hP.symm, ?_⟩
        rw [hP]
        exact ih.mp fun k => mt changesAt_succ_iff.mpr (h (k + 1))
      · rintro ⟨rfl, h⟩ k
        cases k with
        | zero => exact fun hk => changesAt_zero_iff.mp hk rfl
        | succ k => exact mt changesAt_succ_iff.mp (ih.mpr h k)

/-- Packets with one sequence number are all written over the same base: the current mapping
if the number is the recorded one, an empty mapping otherwise. -/
theorem foldl_step_of_sameSequence {q : BitVec 32} {ps : List ConfigPacket} (hne : ps ≠ [])
    (h : ∀ P ∈ ps, P.sequenceNumber = q) (v : ConfigView) (cell : Fin 4 × Fin 8) :
    (ps.foldl ConfigView.step v).mapping cell =
      ((lastEntry (entriesOf ps) cell).map PortConfig.cell).getD
        (if v.sequence = q then v.mapping cell else ⟨0, 0⟩) := by
  obtain ⟨P, ps, rfl⟩ := List.exists_cons_of_ne_nil hne
  have hP : P.sequenceNumber = q := h P List.mem_cons_self
  have hrest : ∀ P' ∈ ps, P'.sequenceNumber = (v.step P).sequence := fun P' hP' =>
    (h P' (List.mem_cons_of_mem P hP')).trans hP.symm
  rw [List.foldl_cons, foldl_step_of_noChange (forall_not_changesAt_iff.mpr hrest),
    ← latest_map_packet_patch]
  -- the first packet is one more patch over its own base
  change replay ((P :: ps).map ConfigPacket.patch) (v.base P) cell = _
  rw [replay_apply, ConfigView.base, hP]
  split <;> rfl

theorem inForce_of_sameSequence {q : BitVec 32} {ps : List ConfigPacket} (hne : ps ≠ [])
    (h : ∀ P ∈ ps, P.sequenceNumber = q) (q₀ : BitVec 32) (m₀ : Mapping) (cell : Fin 4 × Fin 8) :
    inForce q₀ m₀ ps cell =
      ((lastEntry (entriesOf ps) cell).map PortConfig.cell).getD
        (if q₀ = q then m₀ cell else ⟨0, 0⟩) := by
  rw [← foldl_step_of_sameSequence hne h ⟨q₀, m₀⟩, foldl_step_mapping]

theorem entriesOf_encode {sequence : BitVec 16} {es : List PortConfig} {h : es.length ≤ 91} :
    entriesOf [ConfigPacket.encode sequence es h] = es := by
  rw [entriesOf, List.flatMap_singleton, ConfigPacket.entries_encode]

/-- The configuration in force after one encoded packet. -/
theorem inForce_encode (q₀ : BitVec 32) (m₀ : Mapping) (sequence : BitVec 16)
    (es : List PortConfig) (h : es.length ≤ 91) :
    inForce q₀ m₀ [ConfigPacket.encode sequence es h] = fun cell =>
      ((lastEntry es cell).map PortConfig.cell).getD
        (if q₀ = sequence.setWidth 32 then m₀ cell else ⟨0, 0⟩) := by
  funext cell
  have hseq := ConfigPacket.sequenceNumber_encode sequence es h
  rw [inForce_of_sameSequence (List.cons_ne_nil _ _) (List.forall_mem_singleton.mpr hseq),
    entriesOf_encode]

/-! ### The mapping after a run -/

/-- After any sequence of packets with entries in the table: the recorded sequence number is
the last one received; if some packet changes the sequence number, every cell holds the last
entry for it from the last such packet on, and `(0, 0)` if there is none; otherwise the last
entry for it in all packets, and its initial contents if there is none. After every prefix of
the packets the device pointers, `pixel_ports` and the pixel buffer are what they were. -/
theorem run_config_mapping {ps : List ConfigPacket} (hne : ps ≠ [])
    (htable : ∀ P ∈ ps, P.InTable) (params : Params) (net : Network) (c : Controller) :
    (∃ c', c.run params (ps.map (ConfigPacket.action net)) = .ok c' ∧
      c'.lastConfigSequence = (ps.getLast hne).sequenceNumber ∧
      (∀ k, ChangesAt c.lastConfigSequence ps k →
        (∀ j, k < j → ¬ChangesAt c.lastConfigSequence ps j) →
        ∀ cell, c'.workers.mapping cell =
          ((lastEntry (entriesOf (ps.drop k)) cell).map PortConfig.cell).getD ⟨0, 0⟩) ∧
      ((∀ k, ¬ChangesAt c.lastConfigSequence ps k) →
        ∀ cell, c'.workers.mapping cell =
          ((lastEntry (entriesOf ps) cell).map PortConfig.cell).getD (c.workers.mapping cell))) ∧
    ∀ n, ∃ c', c.run params ((ps.take n).map (ConfigPacket.action net)) = .ok c' ∧
      (∀ p, c'.workers.spiDev p = c.workers.spiDev p) ∧
      c'.workers.pixelPorts = c.workers.pixelPorts ∧ c'.pixelBuffer = c.pixelBuffer := by
  constructor
  · obtain ⟨c', hrun, hview, -⟩ := run_config htable params net c
    have hmap : c'.workers.mapping = (ps.foldl ConfigView.step c.configView).mapping :=
      congrArg ConfigView.mapping hview
    refine ⟨c', hrun, ?_, fun k hk hlast cell => ?_, fun hnone cell => ?_⟩
    · rw [← foldl_step_sequence hne c.configView, ← hview]
      rfl
    · rw [hmap, foldl_step_of_lastChange hk hlast, replay_apply, latest_map_packet_patch]
    · rw [hmap, foldl_step_of_noChange hnone, replay_apply, latest_map_packet_patch]
      rfl
  · -- the prefix of a sequence in the table is one
    intro n
    have htake : ∀ P ∈ ps.take n, P.InTable := fun P hP => htable P (List.mem_of_mem_take hP)
    obtain ⟨c', hrun, -, hsame⟩ := run_config htake params net c
    exact ⟨c', hrun, hsame.outside.spiDev, hsame.outside.pixelPorts, hsame.pixelBuffer⟩

/-- `run_config_mapping` on packets with the sequence numbers 7, 8 and 8, received while 7 is
recorded and string 7 of port 3 is configured. The first one leaves that string as it is; the
second clears it, and the third overrides an entry of the second. -/
theorem run_config_mapping_sample :
    let P₁ := ConfigPacket.encode 7 [⟨0, 0, 5, 3⟩] (by decide)
    let P₂ := ConfigPacket.encode 8 [⟨0, 0, 9, 6⟩, ⟨1, 2, 30, 4⟩] (by decide)
    let P₃ := ConfigPacket.encode 8 [⟨0, 0, 12, 2⟩] (by decide)
    let c : Controller :=
      { (default : Controller) with
        workers := Workers.zero.setCell (3, 7) ⟨2, 9⟩
        lastConfigSequence := 7 }
    (∃ c', c.run default [P₁.action default] = .ok c' ∧ c'.lastConfigSequence = 7 ∧
      c'.workers.mapping (0, 0) = ⟨3, 5⟩ ∧ c'.workers.mapping (3, 7) = ⟨2, 9⟩) ∧
    ∃ c', c.run default [P₁.action default, P₂.action default, P₃.action default] = .ok c' ∧
      c'.lastConfigSequence = 8 ∧ c'.workers.mapping (0, 0) = ⟨2, 12⟩ ∧
      c'.workers.mapping (1, 2) = ⟨4, 30⟩ ∧ c'.workers.mapping (3, 7) = ⟨0, 0⟩ := by
  intro P₁ P₂ P₃ c
  have hseq₁ : P₁.sequenceNumber = 7 := ConfigPacket.sequenceNumber_encode ..
  have hseq₂ : P₂.sequenceNumber = 8 := ConfigPacket.sequenceNumber_encode ..
  have hseq₃ : P₃.sequenceNumber = 8 := ConfigPacket.sequenceNumber_encode ..
  have hentries₁ : P₁.entries = [⟨0, 0, 5, 3⟩] := ConfigPacket.entries_encode ..
  have hentries₂ : P₂.entries = [⟨0, 0, 9, 6⟩, ⟨1, 2, 30, 4⟩] := ConfigPacket.entries_encode ..
  have hentries₃ : P₃.entries = [⟨0, 0, 12, 2⟩] := ConfigPacket.entries_encode ..
  have htable₁ : P₁.InTable := ConfigPacket.inTable_encode.mpr (by decide)
  have htable₂ : P₂.InTable := ConfigPacket.inTable_encode.mpr (by decide)
  have htable₃ : P₃.InTable := ConfigPacket.inTable_encode.mpr (by decide)
  have hstart : c.workers.mapping (3, 7) = ⟨2, 9⟩ := by
    rw [show c.workers = Workers.zero.setCell (3, 7) ⟨2, 9⟩ from rfl, Workers.mapping_setCell,
      Function.update_self]
  constructor
  · -- the first packet carries the recorded sequence number
    have hnone : ∀ k, ¬ChangesAt c.lastConfigSequence [P₁] k :=
      forall_not_changesAt_iff.mpr (List.forall_mem_singleton.mpr hseq₁)
    obtain ⟨⟨c', hrun, hseq, -, hkeep⟩, -⟩ := run_config_mapping (List.cons_ne_nil P₁ [])
      (List.forall_mem_singleton.mpr htable₁) default default c
    have hmap := hkeep hnone
    simp only [entriesOf, List.flatMap_singleton, hentries₁] at hmap
    exact ⟨c', hrun, hseq.trans hseq₁, (hmap (0, 0)).trans (by decide),
      (hmap (3, 7)).trans (by rw [hstart]; decide)⟩
  · -- the second packet is the last one with another number than the packet before it
    have hchange : ChangesAt c.lastConfigSequence [P₁, P₂, P₃] 1 := by
      rw [changesAt_succ_iff, changesAt_zero_iff, hseq₁, hseq₂]
      decide
    have hlater : ∀ j, 1 < j → ¬ChangesAt c.lastConfigSequence [P₁, P₂, P₃] j := by
      rintro (_ | _ | j) hj
      · exact absurd hj (by decide)
      · exact absurd hj (by decide)
      · rw [changesAt_succ_iff, changesAt_succ_iff]
        exact forall_not_changesAt_iff.mpr
          (List.forall_mem_singleton.mpr (hseq₃.trans hseq₂.symm)) j
    have htable : ∀ P ∈ [P₁, P₂, P₃], P.InTable :=
      List.forall_mem_cons.mpr
        ⟨htable₁, List.forall_mem_cons.mpr ⟨htable₂, List.forall_mem_singleton.mpr htable₃⟩⟩
    obtain ⟨⟨c', hrun, hseq, hclear, -⟩, -⟩ :=
      run_config_mapping (List.cons_ne_nil P₁ [P₂, P₃]) htable default default c
    have hmap := hclear 1 hchange hlater
    simp only [List.drop_succ_cons, List.drop_zero, entriesOf, List.flatMap_cons,
      List.flatMap_nil, hentries₂, hentries₃] at hmap
    exact ⟨c', hrun, hseq.trans hseq₃, (hmap (0, 0)).trans (by decide),
      (hmap (1, 2)).trans (by decide), (hmap (3, 7)).trans (by decide)⟩

end PiPixelController
