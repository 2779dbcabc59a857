import PiPixelController.Startup.Defs
import PiPixelController.WriteLog

/-!
# The mapping after start-up

`startWorkers` leaves in `workers[0]` the mapping the records of the file wrote, together with
`pixel_ports`, `buffer` and the device pointers (`mapping_setFields`, `pixelPorts_setFields`,
`buffer_setFields`, `spiDev_setFields`). No index is checked while the records are stored, so
what a word holds is the last value any record stored to that word (`storeAll_apply`,
`mapping_startWorkers`).
-/

namespace PiPixelController

open CSemantics WriteLog

/-! ### Sequences of assignments, word by word -/

/-- An assignment as a partial write of the words. -/
def WordStore.patch (st : WordStore) : Patch (Fin 760) (BitVec 32) :=
  fun i => if (i : ℤ) = st.addr then some st.value else none

namespace Workers

/-- After assignments that complete, a word holds the last value assigned to it. -/
theorem storeAll_apply {w w' : Workers} {sts : List WordStore} (h : w.storeAll sts = .ok w')
    (i : Fin 760) : w' i = (latest (sts.map WordStore.patch) i).getD (w i) := by
  have hrun : w' = replay (sts.map WordStore.patch) w := by
    refine Outcome.foldlM_partial
      (fun pre s => s = replay (pre.map WordStore.patch) w) rfl ?_ h
    rintro pre st post - s s' rfl hst
    obtain ⟨j, hj, rfl⟩ := store_eq_ok hst
    rw [List.map_append, replay_append]
    have hpatch : st.patch = Patch.single j st.value := by
      funext i
      simp only [WordStore.patch, Patch.single, ← hj, Nat.cast_inj, Fin.val_inj]
    change _ = st.patch.apply _
    rw [hpatch, Patch.apply_single]
  rw [hrun, replay_apply]

/-- Assignments outside the table leave the mapping alone. -/
theorem mapping_update_of_outsideTable {w : Workers} {i : Fin 760} (h : OutsideTable i)
    (v : BitVec 32) : mapping (Function.update w i v) = w.mapping := by
  funext k
  simp only [mapping, Function.update_of_ne (h k).1.symm, Function.update_of_ne (h k).2.symm]

theorem mapping_setPointer {w : Workers} {i : ℕ} (hi : i + 1 < 760)
    (h : ∀ j : Fin 760, j.val = i ∨ j.val = i + 1 → OutsideTable j) (ptr : BitVec 64) :
    (w.setPointer i hi ptr).mapping = w.mapping := by
  rw [setPointer, mapping_update_of_outsideTable (h _ (Or.inr rfl)),
    mapping_update_of_outsideTable (h _ (Or.inl rfl))]

variable (addresses : Addresses) (pixelPorts : BitVec 32) (w : Workers)

/-- The assignments before the worker starts leave the mapping alone. -/
@[simp]
theorem mapping_setFields : (w.setFields addresses pixelPorts).mapping = w.mapping := by
  -- the six assignments, last one first
  refine (mapping_setPointer _ (fun j hj => outsideTable_spiDev 3 hj) _).trans ?_
  refine (mapping_setPointer _ (fun j hj => outsideTable_spiDev 2 hj) _).trans ?_
  refine (mapping_setPointer _ (fun j hj => outsideTable_spiDev 1 hj) _).trans ?_
  refine (mapping_setPointer _ (fun j hj => outsideTable_spiDev 0 hj) _).trans ?_
  refine (mapping_setPointer _ (fun j hj => outsideTable_of_lt (by omega)) _).trans ?_
  exact mapping_update_of_outsideTable (outsideTable_of_lt (by decide)) _

theorem setPointer_of_ne {i : ℕ} (hi : i + 1 < 760) (ptr : BitVec 64) {j : Fin 760}
    (h : j.val ≠ i) (h' : j.val ≠ i + 1) : w.setPointer i hi ptr j = w j := by
  rw [setPointer, Function.update_of_ne (fun heq => h' (congrArg Fin.val heq)),
    Function.update_of_ne (fun heq => h (congrArg Fin.val heq))]

/-- Reading a pointer back from its two words. -/
theorem setPointer_append {i : ℕ} (hi : i + 1 < 760) (ptr : BitVec 64) {j : Fin 760}
    (hj : j.val = i) : w.setPointer i hi ptr ⟨i + 1, hi⟩ ++ w.setPointer i hi ptr j = ptr := by
  subst hj
  have hne : j ≠ ⟨j + 1, hi⟩ := Fin.ne_of_val_ne (by simp)
  -- the low word is stored first
  rw [setPointer, Function.update_self, Function.update_of_ne hne, Function.update_self]
  apply BitVec.eq_of_toNat_eq
  rw [BitVec.toNat_append, ← Nat.shiftLeft_add_eq_or_of_lt (BitVec.isLt _), Nat.shiftLeft_eq,
    BitVec.extractLsb'_toNat, BitVec.extractLsb'_toNat, Nat.shiftRight_eq_div_pow]
  have := ptr.isLt
  omega

theorem finRange_four : List.finRange 4 = [0, 1, 2, 3] := rfl

@[simp]
theorem pixelPorts_setFields : (w.setFields addresses pixelPorts).pixelPorts = pixelPorts := by
  simp (disch := decide) only [Workers.pixelPorts, setFields, finRange_four, List.foldl_cons,
    List.foldl_nil, setPointer_of_ne]
  exact Function.update_self ..

@[simp]
theorem buffer_setFields :
    (w.setFields addresses pixelPorts).buffer = addresses.pixelBuffer := by
  simp (disch := decide) only [Workers.buffer, setFields, finRange_four, List.foldl_cons,
    List.foldl_nil, setPointer_of_ne]
  exact setPointer_append _ (by decide) _ rfl

@[simp]
theorem spiDev_setFields (p : Fin 4) :
    (w.setFields addresses pixelPorts).spiDev p = addresses.spiDev p := by
  -- the later assignments are to the words of other ports
  match p with
  | 0 | 1 | 2 | 3 =>
      simp (disch := decide) only [Workers.spiDev, setFields, finRange_four, List.foldl_cons,
        List.foldl_nil, setPointer_of_ne]
      exact setPointer_append _ (by decide) _ rfl

end Workers

/-! ### Start-up -/

/-- The last value the records of the file store to a word, zero when they store none. -/
def ConfigFile.word (file : ConfigFile) (i : Fin 760) : BitVec 32 :=
  (latest ((fileStores file).map WordStore.patch) i).getD 0

/-- The mapping the records of the file leave, last store to each word first. -/
def ConfigFile.mapping (file : ConfigFile) : Mapping :=
  fun k => ⟨file.word (Workers.channelCountIdx k), file.word (Workers.startChannelIdx k)⟩

/-- The mapping the worker and the listener start with. -/
theorem mapping_startWorkers {file : ConfigFile} {addresses : Addresses} {w : Workers}
    (h : startWorkers file addresses = .ok w) : w.mapping = file.mapping := by
  rw [startWorkers, Outcome.bind_eq_ok_iff] at h
  obtain ⟨w₀, hload, hset⟩ := h
  rw [Outcome.pure_eq_ok, Outcome.ok.injEq] at hset
  subst hset
  rw [Workers.mapping_setFields]
  funext k
  simp only [Workers.mapping, ConfigFile.mapping, ConfigFile.word,
    Workers.storeAll_apply hload, Workers.zero]

/-- A file whose only setting is one record of `bus0.csN`. -/
def ConfigFile.ofRecord (cs : Fin 4) (r : ChannelRecord) : ConfigFile :=
  { (default : ConfigFile) with cs := fun n => if n = cs then some [r] else none }

theorem fileStores_ofRecord (cs : Fin 4) (r : ChannelRecord) :
    fileStores (ConfigFile.ofRecord cs r) = recordStores cs r := by
  match cs with
  | 0 | 1 | 2 | 3 =>
      simp [fileStores, ConfigFile.records, ConfigFile.ofRecord, List.finRange_succ]

/-- Start-up completes when the records store inside `workers`. -/
theorem exists_startsFrom {file : ConfigFile} {w : Workers} (h : loadChannels file = .ok w) :
    ∃ c : Controller, c.StartsFrom file ∧ c.workers.mapping = w.mapping := by
  refine ⟨{ (default : Controller) with
    workers := w.setFields default file.pixelPortCount }, ⟨⟨default, ?_⟩, rfl, rfl, rfl⟩, ?_⟩
  · rw [startWorkers, h, Outcome.ok_bind, Outcome.pure_eq_ok]
  · exact Workers.mapping_setFields ..

/-- The number of ports the worker starts with. -/
theorem pixelPorts_startWorkers {file : ConfigFile} {addresses : Addresses} {w : Workers}
    (h : startWorkers file addresses = .ok w) : w.pixelPorts = file.pixelPortCount := by
  rw [startWorkers, Outcome.bind_eq_ok_iff] at h
  obtain ⟨w₀, -, hset⟩ := h
  rw [Outcome.pure_eq_ok, Outcome.ok.injEq] at hset
  rw [← hset, Workers.pixelPorts_setFields]

namespace Controller.StartsFrom

variable {file : ConfigFile} {c : Controller}

theorem mapping_eq (h : c.StartsFrom file) : c.workers.mapping = file.mapping := by
  obtain ⟨addresses, hworkers⟩ := h.workers
  exact mapping_startWorkers hworkers

theorem pixelPorts_eq (h : c.StartsFrom file) : c.workers.pixelPorts = file.pixelPortCount := by
  obtain ⟨addresses, hworkers⟩ := h.workers
  exact pixelPorts_startWorkers hworkers

end Controller.StartsFrom

end PiPixelController
