import Mathlib.Algebra.BigOperators.Ring.Finset
import PiPixelController.Worker.Correctness
import PiPixelController.Zcpp.ConfigRuns

/-!
# The limits of the buffers

Nothing checks a configuration against `PIXEL_BUFFER_SIZE` or `MAX_CHANNELS_PER_DEVICE`, so
whether a refresh stays inside its buffers is decided by the configuration alone.

* `packable_iff_withinLimits` — a mapping is packable exactly when its values, read as unsigned
  wire values, respect the two limits;
* `refreshes_iff_withinLimits` — along a run of configuration packets from start-up, every
  refresh is safe exactly when the configuration in force always respects the limits.
-/

namespace PiPixelController

open CSemantics

/-- The channels of a port, as unsigned values. -/
def portChannels (m : Mapping) (p : Fin 4) : ℕ :=
  ((List.finRange 8).map fun s => (m (p, s)).channelCount.toNat).sum

/-- A slice that has no channels or ends within `PIXEL_BUFFER_SIZE`. -/
def Cell.WithinBuffer (cell : Cell) : Prop :=
  cell.channelCount = 0 ∨ cell.startChannel.toNat + cell.channelCount.toNat ≤ 24576

instance (cell : Cell) : Decidable cell.WithinBuffer := by
  unfold Cell.WithinBuffer
  infer_instance

/-- For every port below `pixel_ports`, each string is within the pixel buffer and the channels
of the port within the device limit. -/
def WithinLimits (pixelPorts : BitVec 32) (m : Mapping) : Prop :=
  ∀ p : Fin 4, (p : ℤ) < pixelPorts.toInt →
    (∀ s, (m (p, s)).WithinBuffer) ∧ portChannels m p ≤ 19200

/-- A value below `2 ^ 31` is the same signed and unsigned. -/
theorem toInt_eq_toNat_of_le {v : BitVec 32} {n : ℕ} (h : v.toNat ≤ n) (hn : n < 2 ^ 31) :
    v.toInt = v.toNat :=
  BitVec.toInt_eq_toNat_of_lt (by omega)

theorem toInt_eq_toNat_of_nonneg {v : BitVec 32} (h : 0 ≤ v.toInt) : v.toInt = v.toNat := by
  rw [← toNat_toInt_of_nonneg h, Int.toNat_of_nonneg h]

/-- Where no count is negative, the signed and the unsigned sum agree. -/
theorem portCount_eq_portChannels {m : Mapping} {p : Fin 4}
    (h : ∀ s, (m (p, s)).channelCount.toInt = (m (p, s)).channelCount.toNat) :
    portCount m p = portChannels m p := by
  rw [portCount, portChannels, Nat.cast_list_sum, List.map_map]
  exact congrArg List.sum (List.map_congr_left fun s _ => h s)

theorem channelCount_le_portChannels (m : Mapping) (k : Fin 4 × Fin 8) :
    (m k).channelCount.toNat ≤ portChannels m k.1 :=
  List.single_le_sum (fun _ _ => Nat.zero_le _) _
    (List.mem_map.mpr ⟨k.2, List.mem_finRange k.2, rfl⟩)

/-- A string with at most 19200 channels is in the buffer exactly when it is within it as
unsigned values. -/
theorem Cell.inBuffer_iff {cell : Cell} (h : cell.channelCount.toNat ≤ 19200) :
    cell.InBuffer ↔ cell.WithinBuffer := by
  have hcount := toInt_eq_toNat_of_le h (by decide)
  rw [Cell.InBuffer, Cell.WithinBuffer, hcount]
  -- a start that is negative as an `int` is at least `2 ^ 31` as a wire value
  constructor
  · rintro ⟨-, hslice⟩
    by_cases hzero : cell.channelCount = 0
    · exact Or.inl hzero
    · obtain ⟨hstart, hend⟩ := hslice hzero
      rw [toInt_eq_toNat_of_nonneg hstart] at hend
      exact Or.inr (by omega)
  · rintro (hzero | hend)
    · exact ⟨by omega, fun hne => absurd hzero hne⟩
    · have hstart : cell.startChannel.toInt = cell.startChannel.toNat :=
        toInt_eq_toNat_of_le (n := 24576) (by omega) (by decide)
      exact ⟨by omega, fun _ => by omega⟩

/-- A mapping is packable exactly when its unsigned values respect the limits. -/
theorem packable_iff_withinLimits {pixelPorts : BitVec 32} {m : Mapping} :
    Packable pixelPorts m ↔ WithinLimits pixelPorts m := by
  refine forall_congr' fun p => imp_congr_right fun _ => ?_
  -- either sum bounds every count by 19200, below which the two readings of a value agree
  constructor
  · rintro ⟨hin, hsum⟩
    have hports := portCount_eq_portChannels fun s => toInt_eq_toNat_of_nonneg (hin s).1
    have hle : portChannels m p ≤ 19200 := by omega
    exact ⟨fun s => (Cell.inBuffer_iff
      ((channelCount_le_portChannels m (p, s)).trans hle)).mp (hin s), hle⟩
  · rintro ⟨hwithin, hsum⟩
    have hle : ∀ s, (m (p, s)).channelCount.toNat ≤ 19200 :=
      fun s => (channelCount_le_portChannels m (p, s)).trans hsum
    have hports := portCount_eq_portChannels (m := m) (p := p) fun s =>
      toInt_eq_toNat_of_le (hle s) (by decide)
    exact ⟨fun s => (Cell.inBuffer_iff (hle s)).mpr (hwithin s), by omega⟩

/-- A refresh in this state is safe: the mapping is packable, and the block of every port it
processes makes no copy outside the buffers, truncates no header count and sends a 16-bit length
of 16 plus the true sum of the counts. -/
def SafeRefresh (c : Controller) : Prop :=
  Packable c.workers.pixelPorts c.workers.mapping ∧
    ∀ p : Fin 4, (p : ℤ) < c.workers.pixelPorts.toInt → ∀ ret,
      ∃ c' events, workerPort p ret c = .ok (c', events) ∧ PortSent p c c' events

theorem safeRefresh_iff {c : Controller} :
    SafeRefresh c ↔ Packable c.workers.pixelPorts c.workers.mapping :=
  ⟨fun h => h.1, fun h => ⟨h, fun p hp ret => workerPort_of_packable (h p hp) ret⟩⟩

/-- Along any sequence of configuration packets with entries in the table, from the state after
start-up: after every prefix of it a refresh is safe, if and only if after every prefix the
configuration in force — the last entries of the trailing block, or the records of the file —
respects the limits for the ports below `pixel_ports`. -/
theorem refreshes_iff_withinLimits {file : ConfigFile} {c : Controller}
    (hstart : c.StartsFrom file) {ps : List ConfigPacket} (htable : ∀ P ∈ ps, P.InTable)
    (params : Params) (net : Network) :
    (∀ n, ∃ c', c.run params ((ps.take n).map (ConfigPacket.action net)) = .ok c' ∧
      SafeRefresh c') ↔
    ∀ n, WithinLimits file.pixelPortCount (inForce 0 file.mapping (ps.take n)) := by
  refine forall_congr' fun n => ?_
  obtain ⟨c', hrun, hview, hsame⟩ :=
    run_config (fun P hP => htable P (List.mem_of_mem_take hP)) params net c
  -- the state reached holds the configuration in force, under the `pixel_ports` of the file
  have hmap : c'.workers.mapping = inForce 0 file.mapping (ps.take n) := by
    have hfold := (congrArg ConfigView.mapping hview).trans (foldl_step_mapping _ _)
    rw [show c.configView.sequence = 0 from hstart.lastConfigSequence,
      show c.configView.mapping = file.mapping from hstart.mapping_eq] at hfold
    exact hfold
  have hports : c'.workers.pixelPorts = file.pixelPortCount :=
    hsame.outside.pixelPorts.trans hstart.pixelPorts_eq
  rw [← packable_iff_withinLimits, ← hmap, ← hports, ← safeRefresh_iff]
  exact Outcome.exists_ok_iff hrun

/-- `refreshes_iff_withinLimits` from an empty file, on one packet. -/
theorem refreshes_of_withinLimits_sample :
    let ps := [ConfigPacket.encode 1 [⟨0, 0, 0, 3⟩] (by decide)]
    ∃ c : Controller, c.StartsFrom default ∧
      ∀ n, ∃ c', c.run default ((ps.take n).map (ConfigPacket.action default)) = .ok c' ∧
        SafeRefresh c' := by
  intro ps
  obtain ⟨c, hc, -⟩ := @exists_startsFrom default Workers.zero rfl
  have htable : ∀ P ∈ ps, P.InTable :=
    List.forall_mem_singleton.mpr (ConfigPacket.inTable_encode.mpr (by decide))
  refine ⟨c, hc, (refreshes_iff_withinLimits hc htable default default).mpr fun n => ?_⟩
  cases n with
  | zero =>
      change WithinLimits 4 fun _ => ⟨0, 0⟩
      unfold WithinLimits
      decide
  | succ n =>
      rw [List.take_succ_cons, List.take_nil, inForce_encode]
      unfold WithinLimits
      decide

/-- A packet that asks for 30000 channels is followed by a refresh that is not safe. -/
theorem not_safeRefresh_sample :
    ¬∀ (file : ConfigFile) (c : Controller), c.StartsFrom file →
      ∀ ps : List ConfigPacket, (∀ P ∈ ps, P.InTable) →
        ∃ c', c.run default (ps.map (ConfigPacket.action default)) = .ok c' ∧
          SafeRefresh c' := by
  intro h
  let P := ConfigPacket.encode 1 [⟨0, 0, 0, 30000⟩] (by decide)
  obtain ⟨c, hc, -⟩ := @exists_startsFrom default Workers.zero rfl
  have htable : ∀ P' ∈ [P], P'.InTable :=
    List.forall_mem_singleton.mpr (ConfigPacket.inTable_encode.mpr (by decide))
  obtain ⟨c', hrun, hsafe⟩ := h default c hc [P] htable
  obtain ⟨hview, hsame⟩ := configView_of_run htable hrun
  have hmap : c'.workers.mapping (0, 0) = ⟨30000, 0⟩ := by
    have hfold := (congrArg ConfigView.mapping hview).trans (foldl_step_mapping _ _)
    rw [inForce_encode] at hfold
    have hcell := congrFun hfold (0, 0)
    exact hcell
  have hports : c'.workers.pixelPorts = 4 := hsame.outside.pixelPorts.trans hc.pixelPorts_eq
  have hpack := hsafe.1
  rw [hports] at hpack
  have hin := (hpack 0 (by decide)).inBuffer 0
  rw [hmap] at hin
  exact absurd hin (by decide)

end PiPixelController
