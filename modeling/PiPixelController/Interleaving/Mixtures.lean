import Mathlib.Algebra.BigOperators.Fin
import PiPixelController.Interleaving.Atomic
import PiPixelController.Zcpp.Encode

/-!
# Mixtures of configurations

While the handler stores a configuration, the worker may load the count of a string from one
configuration and its start from another, and the counts of two strings from two configurations.
A mixture is a mapping put together in this way. Here the configurations come from a set `S`, in
any order and any number of times, and every step of the handler and the worker may fall between any
two steps of the other.

* `Safe.exists_step` — when every mixture is packable, a step is defined and keeps the invariant;
* `exists_packString` — when every step is defined, the worker can be made to load any stored count
  for a string, and so to copy it;
* `interleaved_ok_iff` — every step of every run is defined exactly when every mixture is packable.
-/

namespace PiPixelController

open CSemantics WriteLog

/-! ### What is stored -/

/-- What the configurations of `S` and the clearing loop store in a field of a cell. -/
def Stored (S : Set ConfigPacket) (field : Cell → BitVec 32) (k : Fin 4 × Fin 8) :
    Set (BitVec 32) :=
  {v | v = 0 ∨ ∃ P ∈ S, ∃ e ∈ P.entries, e.IsFor k ∧ field e.cell = v}

/-- Every count and every start is one that is stored for the cell, but they need not be stored by
the same configuration. -/
structure Mixture (S : Set ConfigPacket) (m : Mapping) : Prop where
  channelCount : ∀ k, (m k).channelCount ∈ Stored S Cell.channelCount k
  startChannel : ∀ k, (m k).startChannel ∈ Stored S Cell.startChannel k

/-- A store the handler makes for a configuration of `S`. -/
inductive TableStore (S : Set ConfigPacket) : WordStore → Prop
  | channelCount {k : Fin 4 × Fin 8} {v : BitVec 32} (h : v ∈ Stored S Cell.channelCount k) :
      TableStore S ⟨channelCountAddr k.1 k.2, v⟩
  | startChannel {k : Fin 4 × Fin 8} {v : BitVec 32} (h : v ∈ Stored S Cell.startChannel k) :
      TableStore S ⟨startChannelAddr k.1 k.2, v⟩

/-- The listener receives configurations of `S` only. -/
def Sends (S : Set ConfigPacket) (_ : Threads) : Act → Prop
  | .receive P => P ∈ S
  | .store | .load _ => True

section

variable {S : Set ConfigPacket} {w w' : Workers} {m : Mapping} {k : Fin 4 × Fin 8} {v : BitVec 32}

theorem zero_mem_stored (field : Cell → BitVec 32) : 0 ∈ Stored S field k := Or.inl rfl

theorem Mixture.update (h : Mixture S m) {cell : Cell}
    (hcount : cell.channelCount ∈ Stored S Cell.channelCount k)
    (hstart : cell.startChannel ∈ Stored S Cell.startChannel k) :
    Mixture S (Function.update m k cell) := by
  constructor <;>
  · intro k'
    by_cases hk : k' = k
    · subst hk
      rwa [Function.update_self]
    · rw [Function.update_of_ne hk]
      first | exact h.channelCount k' | exact h.startChannel k'

/-- The stores of the handler for a packet with entries in the table. -/
theorem tableStore_of_mem_stores {P : ConfigPacket} (hP : P ∈ S) (hin : P.InTable)
    {last : BitVec 32} {st : WordStore} (hst : st ∈ P.stores last) : TableStore S st := by
  have hcell : ∀ k cell, cell.channelCount ∈ Stored S Cell.channelCount k →
      cell.startChannel ∈ Stored S Cell.startChannel k →
      st ∈ cellStores k.1 k.2 cell → TableStore S st := by
    intro k cell hcount hstart hmem
    rcases List.mem_pair.mp hmem with rfl | rfl
    · exact .channelCount hcount
    · exact .startChannel hstart
  rw [ConfigPacket.stores, List.mem_append] at hst
  rcases hst with hclear | hentries
  · split at hclear
    · rw [Zcpp.clearStores_eq, List.mem_flatMap] at hclear
      obtain ⟨kc, hkc, hst⟩ := hclear
      have hzero : ∀ kc ∈ Zcpp.clearedCells, kc.2 = ⟨0, 0⟩ := by decide
      rw [hzero kc hkc] at hst
      exact hcell kc.1 ⟨0, 0⟩ (zero_mem_stored _) (zero_mem_stored _) hst
    · cases hclear
  · obtain ⟨e, he, hst⟩ := List.mem_flatMap.mp hentries
    obtain ⟨k, hk⟩ := (hin e he).exists_isFor
    rw [hk.stores_eq] at hst
    exact hcell k e.cell (Or.inr ⟨P, hP, e, he, hk, rfl⟩) (Or.inr ⟨P, hP, e, he, hk, rfl⟩) hst

/-- Such a store completes, and the mapping stays a mixture. -/
theorem TableStore.store {st : WordStore} (hst : TableStore S st) (h : Mixture S w.mapping) :
    ∃ w', w.store st = .ok w' ∧ Mixture S w'.mapping ∧ w'.pixelPorts = w.pixelPorts := by
  have houtside : Workers.OutsideTable Workers.pixelPortsIdx :=
    Workers.outsideTable_of_lt (by decide)
  cases hst with
  | @channelCount k v hv =>
      refine ⟨_, Workers.store_channelCount k v, ?_, Function.update_of_ne (houtside k).1 _ _⟩
      rw [Workers.mapping_update_channelCount]
      exact h.update hv (h.startChannel k)
  | @startChannel k v hv =>
      refine ⟨_, Workers.store_startChannel k v, ?_, Function.update_of_ne (houtside k).2 _ _⟩
      rw [Workers.mapping_update_startChannel]
      exact h.update (h.channelCount k) hv

end

/-! ### The invariant of the shared memory -/

/-- The worker is where it was. -/
structure Threads.SameWorker (s s' : Threads) : Prop where
  port : s'.port = s.port
  pc : s'.pc = s.pc
  b : s'.b = s.b

/-- The mapping is a mixture, and the stores that are left keep it one. -/
structure Stores (S : Set ConfigPacket) (c₀ : Controller) (s : Threads) : Prop where
  mixture : Mixture S s.controller.workers.mapping
  pixelPorts : s.controller.workers.pixelPorts = c₀.workers.pixelPorts
  pending : ∀ st ∈ s.pending, TableStore S st

section

variable {S : Set ConfigPacket} {c₀ : Controller} {s s' : Threads}

/-- A transfer sends one message and changes only what is the worker's own. -/
theorem transferPort_same {p : Fin 4} {ret b : ℤ} {c : Controller}
    {r : Controller × List SpiEvent} (h : transferPort p ret b c = .ok r) :
    SameExceptOutput c r.1 ∧ (frames (r.2.map (Prod.mk p))).length = 1 := by
  rw [transferPort, Outcome.bind_eq_ok_iff] at h
  obtain ⟨transferred, htransfer, h⟩ := h
  obtain rfl := Outcome.ok.inj h
  simp only [spiTransfer] at htransfer
  split at htransfer
  · obtain rfl := Outcome.ok.inj htransfer
    exact ⟨⟨rfl, rfl, rfl⟩, rfl⟩
  · cases htransfer

/-- The worker does not store into the mapping or the pixel buffer. -/
theorem Threads.load_same {ret : ℤ} (h : s.load ret = .ok s') :
    SameExceptOutput s.controller s'.controller ∧ s'.pending = s.pending := by
  rw [Threads.load] at h
  cases hpc : s.pc with
  | gate =>
      simp only [hpc] at h
      split at h <;> (obtain rfl := Outcome.ok.inj h; exact ⟨.refl _, rfl⟩)
  | strings rest =>
      simp only [hpc] at h
      cases rest with
      | nil =>
          obtain ⟨r, htransfer, h⟩ := Outcome.bind_eq_ok_iff.mp h
          obtain rfl := Outcome.ok.inj h
          exact ⟨(transferPort_same htransfer).1, rfl⟩
      | cons a rest =>
          obtain rfl := Outcome.ok.inj h
          exact ⟨⟨rfl, rfl, rfl⟩, rfl⟩
  | test a rest =>
      simp only [hpc] at h
      split at h <;> (obtain rfl := Outcome.ok.inj h; exact ⟨.refl _, rfl⟩)
  | start a rest =>
      simp only [hpc] at h
      obtain rfl := Outcome.ok.inj h
      exact ⟨.refl _, rfl⟩
  | copy a rest startChannel =>
      simp only [hpc] at h
      obtain ⟨data, -, h⟩ := Outcome.bind_eq_ok_iff.mp h
      obtain rfl := Outcome.ok.inj h
      exact ⟨⟨rfl, rfl, rfl⟩, rfl⟩
  | advance a rest =>
      simp only [hpc] at h
      obtain rfl := Outcome.ok.inj h
      exact ⟨.refl _, rfl⟩

theorem Stores.load (h : Stores S c₀ s) {ret : ℤ} (hload : s.load ret = .ok s') :
    Stores S c₀ s' := by
  obtain ⟨hsame, hpending⟩ := Threads.load_same hload
  exact ⟨hsame.workers ▸ h.mixture, hsame.workers ▸ h.pixelPorts, hpending ▸ h.pending⟩

theorem Stores.receive (h : Stores S c₀ s) {P : ConfigPacket} (hP : P ∈ S) (hin : P.InTable) :
    Stores S c₀ (s.receive P) := by
  rw [Threads.receive]
  cases hpending : s.pending with
  | nil => exact ⟨h.mixture, h.pixelPorts, fun st hst => tableStore_of_mem_stores hP hin hst⟩
  | cons st pending => exact h

/-- A store of the handler is defined. -/
theorem Stores.store (h : Stores S c₀ s) :
    ∃ s', s.store = .ok s' ∧ Stores S c₀ s' ∧ s.SameWorker s' := by
  rw [Threads.store]
  cases hpending : s.pending with
  | nil => exact ⟨s, rfl, h, rfl, rfl, rfl⟩
  | cons st pending =>
      have htable := h.pending
      rw [hpending] at htable
      obtain ⟨w, hw, hmixture, hports⟩ := (htable st List.mem_cons_self).store h.mixture
      simp only [hw, Outcome.ok_bind, Outcome.pure_eq_ok]
      exact ⟨_, rfl, ⟨hmixture, hports.trans h.pixelPorts,
        fun st hst => htable st (List.mem_cons_of_mem _ hst)⟩, rfl, rfl, rfl⟩

/-- Every step keeps the invariant. -/
theorem Stores.step (h : Stores S c₀ s) (hin : ∀ P ∈ S, P.InTable) {a : Act}
    (ha : Sends S s a) (hstep : s.step a = .ok s') : Stores S c₀ s' := by
  cases a with
  | receive P =>
      obtain rfl := Outcome.ok.inj hstep
      exact h.receive ha (hin P ha)
  | store =>
      obtain ⟨t, ht, hstores, -⟩ := h.store
      obtain rfl := Outcome.ok.inj (ht.symm.trans hstep)
      exact hstores
  | load ret => exact h.load hstep

theorem stores_of_reaches (hin : ∀ P ∈ S, P.InTable)
    (hinit : Mixture S c₀.workers.mapping) (h : Reaches (Sends S) (Threads.init c₀) s) :
    Stores S c₀ s := by
  induction h with
  | refl => exact ⟨hinit, rfl, fun st hst => absurd hst List.not_mem_nil⟩
  | tail _ hstep ih =>
      obtain ⟨a, ha, hstep⟩ := hstep
      exact ih.step hin ha hstep

end

/-! ### When every mixture is packable -/

theorem portCount_update {m : Mapping} {p : Fin 4} {a : Fin 8}
    (ha : (m (p, a)).channelCount = 0) (cell : Cell) :
    portCount (Function.update m (p, a) cell) p = portCount m p + cell.channelCount.toInt := by
  have hrest : ∀ s ∈ Finset.univ.erase a,
      (Function.update m (p, a) cell (p, s)).channelCount.toInt =
        (m (p, s)).channelCount.toInt := by
    intro s hs
    rw [Function.update_of_ne fun h => Finset.ne_of_mem_erase hs (Prod.mk.inj h).2]
  rw [portCount, portCount, ← Fin.sum_univ_def, ← Fin.sum_univ_def,
    ← Finset.add_sum_erase _ _ (Finset.mem_univ a), ← Finset.add_sum_erase _ _ (Finset.mem_univ a),
    Finset.sum_congr rfl hrest, Function.update_self, ha, show (0 : BitVec 32).toInt = 0 from rfl]
  omega

/-- `b` is the sum of stored counts of the strings `pre`. -/
def Accumulated (S : Set ConfigPacket) (p : Fin 4) (b : ℤ) (pre : List (Fin 8)) : Prop :=
  ∃ m, Mixture S m ∧ (∀ a ∉ pre, (m (p, a)).channelCount = 0) ∧ b = portCount m p

/-- The strings `pre` are done and `rest` are not. -/
def Threads.Done (S : Set ConfigPacket) (s : Threads) (rest : List (Fin 8)) : Prop :=
  (s.port : ℤ) < s.controller.workers.pixelPorts.toInt ∧
    ∃ pre, List.finRange 8 = pre ++ rest ∧ Accumulated S s.port s.b pre

/-- The invariant of the worker in the block of a port. -/
def Threads.PcSafe (S : Set ConfigPacket) (s : Threads) : Prop :=
  match s.pc with
  | .gate => True
  | .strings rest => s.Done S rest
  | .test a rest | .start a rest | .advance a rest => s.Done S (a :: rest)
  | .copy a rest startChannel => s.Done S (a :: rest) ∧
      startChannel ∈ Stored S Cell.startChannel (s.port, a)

/-- The invariant of a run. -/
structure Safe (S : Set ConfigPacket) (c₀ : Controller) (s : Threads) : Prop where
  stores : Stores S c₀ s
  pc : s.PcSafe S

section

variable {S : Set ConfigPacket} {c₀ : Controller} {s s' : Threads} {p : Fin 4} {b : ℤ}
  {pre : List (Fin 8)} {a : Fin 8}

theorem Threads.PcSafe.congr (h : s.PcSafe S) (hsame : s.SameWorker s')
    (hports : s'.controller.workers.pixelPorts = s.controller.workers.pixelPorts) :
    s'.PcSafe S := by
  simp only [Threads.PcSafe, Threads.Done, hsame.pc, hsame.port, hsame.b, hports]
  exact h

theorem accumulated_nil : Accumulated S p 0 [] :=
  ⟨fun _ => ⟨0, 0⟩, ⟨fun _ => zero_mem_stored _, fun _ => zero_mem_stored _⟩, fun _ _ => rfl, rfl⟩

/-- A string without channels adds nothing. -/
theorem Accumulated.concat_zero (h : Accumulated S p b pre) (a : Fin 8) :
    Accumulated S p b (pre ++ [a]) := by
  obtain ⟨m, hm, hzero, hb⟩ := h
  exact ⟨m, hm, fun s hs => hzero s fun hmem => hs (List.mem_append_left _ hmem), hb⟩

/-- One more string, with a stored count and a stored start. -/
theorem Accumulated.exists_update (h : Accumulated S p b pre) (ha : a ∉ pre) (cell : Cell)
    (hcount : cell.channelCount ∈ Stored S Cell.channelCount (p, a))
    (hstart : cell.startChannel ∈ Stored S Cell.startChannel (p, a)) :
    ∃ m, Mixture S m ∧ (∀ s ∉ pre ++ [a], (m (p, s)).channelCount = 0) ∧ m (p, a) = cell ∧
      b + cell.channelCount.toInt = portCount m p := by
  obtain ⟨m, hm, hzero, rfl⟩ := h
  refine ⟨_, hm.update hcount hstart, ?_, Function.update_self .., (portCount_update (hzero a ha)
    cell).symm⟩
  intro s hs
  rw [List.mem_append, List.mem_singleton, not_or] at hs
  rw [Function.update_of_ne fun heq => hs.2 (Prod.mk.inj heq).2]
  exact hzero s hs.1

/-- What is packed fits. -/
theorem PortPackable.bounds {m : Mapping} (h : PortPackable m p) :
    0 ≤ portCount m p ∧ portCount m p ≤ 19200 := by
  refine ⟨List.sum_nonneg fun x hx => ?_, h.portCount_le⟩
  obtain ⟨s, -, rfl⟩ := List.mem_map.mp hx
  exact (h.inBuffer s).1

theorem Accumulated.bounds (h : Accumulated S p b pre)
    (hport : ∀ m, Mixture S m → PortPackable m p) : 0 ≤ b ∧ b ≤ 19200 := by
  obtain ⟨m, hm, -, rfl⟩ := h
  exact (hport m hm).bounds

variable (hsafe : ∀ m, Mixture S m → Packable c₀.workers.pixelPorts m)

include hsafe

/-- In a safe state the worker's next step is defined and leads to a safe state. -/
theorem Safe.exists_load (h : Safe S c₀ s) (ret : ℤ) :
    ∃ s', s.load ret = .ok s' ∧ s'.PcSafe S := by
  have hpc := h.pc
  have hcell := fun a => h.stores.mixture.channelCount (s.port, a)
  have hport : (s.port : ℤ) < s.controller.workers.pixelPorts.toInt → ∀ m, Mixture S m →
      PortPackable m s.port :=
    fun hlt m hm => hsafe m hm s.port (h.stores.pixelPorts ▸ hlt)
  rw [Threads.PcSafe] at hpc
  rw [Threads.load]
  cases hs : s.pc with
  | gate =>
      simp only
      split
      -- no string is packed yet
      next hlt => exact ⟨_, rfl, hlt, [], rfl, accumulated_nil⟩
      next =>
        refine ⟨_, rfl, ?_⟩
        simp only [Threads.PcSafe]
  | strings rest =>
      simp only [hs] at hpc ⊢
      obtain ⟨hlt, pre, hsplit, hb⟩ := hpc
      cases rest with
      | nil =>
          -- all strings are packed, and the frame is inside the payload
          obtain ⟨hnonneg, hle⟩ := hb.bounds (hport hlt)
          obtain ⟨c', events, htransfer, -⟩ :=
            @transferPort_eq s.port s.b hnonneg hle ret s.controller
          simp only [htransfer, Outcome.ok_bind, Outcome.pure_eq_ok]
          exact ⟨_, rfl, trivial⟩
      | cons a rest => exact ⟨_, rfl, hlt, pre, hsplit, hb⟩
  | test a rest =>
      simp only [hs] at hpc ⊢
      obtain ⟨hlt, pre, hsplit, hb⟩ := hpc
      split
      · exact ⟨_, rfl, hlt, pre, hsplit, hb⟩
      · -- the string is passed over; it counts as one of length 0
        refine ⟨_, rfl, hlt, pre ++ [a], ?_, hb.concat_zero a⟩
        rw [hsplit, List.append_assoc, List.singleton_append]
  | start a rest =>
      simp only [hs] at hpc ⊢
      exact ⟨_, rfl, hpc, h.stores.mixture.startChannel (s.port, a)⟩
  | copy a rest startChannel =>
      simp only [hs] at hpc ⊢
      obtain ⟨⟨hlt, pre, hsplit, hb⟩, hstart⟩ := hpc
      -- the count loaded here and the start loaded before are a cell of a mixture
      obtain ⟨m, hm, -, hma, hsum⟩ := hb.exists_update (notMem_of_finRange_eq hsplit)
        ⟨(s.cell a).channelCount, startChannel⟩ (hcell a) hstart
      have hpack := hport hlt m hm
      have hfit : Block.CopyFits 19200 24576 s.b startChannel.toInt
          (sizeT (s.cell a).channelCount.toInt) := by
        by_cases hzero : (s.cell a).channelCount = 0
        · rw [hzero]
          exact Or.inl rfl
        · have hin := hpack.inBuffer a
          rw [hma] at hin
          exact (@Cell.copyFits_iff ⟨(s.cell a).channelCount, startChannel⟩ hzero _
            (hb.bounds (hport hlt)).1).mpr ⟨hin, hsum.trans_le hpack.portCount_le⟩
      rw [Block.memcpy_of_fits hfit, Outcome.ok_bind]
      exact ⟨_, rfl, hlt, pre, hsplit, hb⟩
  | advance a rest =>
      simp only [hs] at hpc ⊢
      obtain ⟨hlt, pre, hsplit, hb⟩ := hpc
      -- the count loaded here need not be the one copied, but it is a stored one
      obtain ⟨m, hm, hzero, -, hsum⟩ := hb.exists_update (notMem_of_finRange_eq hsplit) (s.cell a)
        (hcell a) (h.stores.mixture.startChannel (s.port, a))
      obtain ⟨hnonneg, hle⟩ := (hport hlt m hm).bounds
      -- the sum does not wrap
      have hb' : (BitVec.ofInt 32 (s.b + (s.cell a).channelCount.toInt)).toInt =
          portCount m s.port := by
        rw [hsum]
        exact BitVec.toInt_ofInt_eq_self (by decide) (by omega) (by omega)
      refine ⟨_, rfl, hlt, pre ++ [a], ?_, m, hm, hzero, hb'⟩
      rw [hsplit, List.append_assoc, List.singleton_append]

/-- In a safe state every step is defined and leads to a safe state. -/
theorem Safe.exists_step (h : Safe S c₀ s) (hin : ∀ P ∈ S, P.InTable) {a : Act}
    (ha : Sends S s a) : ∃ s', s.step a = .ok s' ∧ Safe S c₀ s' := by
  cases a with
  | receive P =>
      have hstores := h.stores.receive ha (hin P ha)
      refine ⟨_, rfl, hstores, h.pc.congr ?_ (hstores.pixelPorts.trans h.stores.pixelPorts.symm)⟩
      rw [Threads.receive]
      cases s.pending with
      | nil => exact ⟨rfl, rfl, rfl⟩
      | cons st pending => exact ⟨rfl, rfl, rfl⟩
  | store =>
      obtain ⟨s', hs', hstores, hsame⟩ := h.stores.store
      exact ⟨s', hs', hstores,
        h.pc.congr hsame (hstores.pixelPorts.trans h.stores.pixelPorts.symm)⟩
  | load ret =>
      obtain ⟨s', hs', hpc⟩ := h.exists_load hsafe ret
      exact ⟨s', hs', h.stores.load hs', hpc⟩

end

/-! ### When every step is defined -/

/-- Every step of every run in which the listener receives configurations of `S` is defined. -/
def StepsDefined (S : Set ConfigPacket) (c₀ : Controller) : Prop :=
  ∀ s, Reaches (Sends S) (Threads.init c₀) s → ∀ a, Sends S s a → ∃ s', s.step a = .ok s'

section

variable {S : Set ConfigPacket} {c₀ : Controller} {s s' : Threads} {a : Fin 8}
  {rest : List (Fin 8)} {v : BitVec 32}

theorem Threads.SameWorker.trans {s₁ s₂ s₃ : Threads} (h : s₁.SameWorker s₂)
    (h' : s₂.SameWorker s₃) : s₁.SameWorker s₃ :=
  ⟨h'.port.trans h.port, h'.pc.trans h.pc, h'.b.trans h.b⟩

/-- The next store of the handler. -/
theorem Threads.store_cons {st : WordStore} {pending : List WordStore}
    (hpending : s.pending = st :: pending) (h : s.store = .ok s') :
    ∃ i : Fin 760, (i : ℤ) = st.addr ∧ s'.controller.workers i = st.value ∧
      s'.pending = pending ∧ s.SameWorker s' := by
  rw [Threads.store, hpending] at h
  obtain ⟨w, hw, h⟩ := Outcome.bind_eq_ok_iff.mp h
  obtain ⟨i, hi, rfl⟩ := Workers.store_eq_ok hw
  obtain rfl := Outcome.ok.inj h
  exact ⟨i, hi, Function.update_self .., rfl, rfl, rfl, rfl⟩

variable (hok : StepsDefined S c₀) (h : Reaches (Sends S) (Threads.init c₀) s)

include hok h

/-- The handler makes stores while the worker waits. -/
theorem exists_flush {pre post : List WordStore} (hpending : s.pending = pre ++ post) :
    ∃ s', Reaches (Sends S) (Threads.init c₀) s' ∧ s'.pending = post ∧ s.SameWorker s' := by
  induction pre generalizing s with
  | nil => exact ⟨s, h, hpending, rfl, rfl, rfl⟩
  | cons st pre ih =>
      obtain ⟨s₁, hs₁⟩ := hok s h .store trivial
      obtain ⟨-, -, -, hpending₁, hsame₁⟩ := Threads.store_cons hpending hs₁
      obtain ⟨s₂, hs₂, hpending₂, hsame₂⟩ := ih (h.tail ⟨.store, trivial, hs₁⟩) hpending₁
      exact ⟨s₂, hs₂, hpending₂, hsame₁.trans hsame₂⟩

/-- While the worker waits, the handler can get to any of its stores. -/
theorem exists_store {P : ConfigPacket} (hP : P ∈ S) {e : PortConfig} (he : e ∈ P.entries)
    {st : WordStore} (hst : st ∈ e.stores) :
    ∃ s', Reaches (Sends S) (Threads.init c₀) s' ∧ s.SameWorker s' ∧
      ∃ i : Fin 760, (i : ℤ) = st.addr ∧ s'.controller.workers i = st.value := by
  -- the handler finishes what it has, and then receives `P`
  obtain ⟨s₁, hs₁, hpending₁, hsame₁⟩ := exists_flush hok h (List.append_nil _).symm
  have hreceive : s₁.step (.receive P) = .ok (s₁.receive P) := rfl
  have hs₂ := hs₁.tail ⟨.receive P, hP, hreceive⟩
  have hsame₂ : s₁.SameWorker (s₁.receive P) := by
    rw [Threads.receive, hpending₁]
    exact ⟨rfl, rfl, rfl⟩
  have hmem : st ∈ (s₁.receive P).pending := by
    rw [Threads.receive, hpending₁]
    exact List.mem_append_right _ (List.mem_flatMap.mpr ⟨e, he, hst⟩)
  obtain ⟨pre, post, hsplit⟩ := List.mem_iff_append.mp hmem
  obtain ⟨s₃, hs₃, hpending₃, hsame₃⟩ := exists_flush hok hs₂ hsplit
  obtain ⟨s₄, hs₄⟩ := hok s₃ hs₃ .store trivial
  obtain ⟨i, hi, hvalue, -, hsame₄⟩ := Threads.store_cons hpending₃ hs₄
  exact ⟨s₄, hs₃.tail ⟨.store, trivial, hs₄⟩,
    ((hsame₁.trans hsame₂).trans hsame₃).trans hsame₄, i, hi, hvalue⟩

/-- A stored count can be in memory at any time. -/
theorem exists_channelCount {k : Fin 4 × Fin 8} (hv : v ∈ Stored S Cell.channelCount k)
    (hne : v ≠ 0) :
    ∃ s', Reaches (Sends S) (Threads.init c₀) s' ∧ s.SameWorker s' ∧
      (s'.controller.workers.mapping k).channelCount = v := by
  obtain ⟨P, hP, e, he, hk, rfl⟩ := hv.resolve_left hne
  obtain ⟨s', hs', hsame, i, hi, hvalue⟩ := @exists_store _ _ _ hok h _ hP _ he
    ⟨channelCountAddr k.1 k.2, e.cell.channelCount⟩ (hk.stores_eq ▸ List.mem_cons_self)
  obtain rfl : i = Workers.channelCountIdx k :=
    Fin.ext (by exact_mod_cast hi.trans (Workers.channelCountIdx_eq k).symm)
  exact ⟨s', hs', hsame, hvalue⟩

/-- So can a stored start. -/
theorem exists_startChannel {k : Fin 4 × Fin 8} (hv : v ∈ Stored S Cell.startChannel k)
    (hne : v ≠ 0) :
    ∃ s', Reaches (Sends S) (Threads.init c₀) s' ∧ s.SameWorker s' ∧
      (s'.controller.workers.mapping k).startChannel = v := by
  obtain ⟨P, hP, e, he, hk, rfl⟩ := hv.resolve_left hne
  obtain ⟨s', hs', hsame, i, hi, hvalue⟩ := @exists_store _ _ _ hok h _ hP _ he
    ⟨startChannelAddr k.1 k.2, e.cell.startChannel⟩
    (hk.stores_eq ▸ List.mem_cons_of_mem _ List.mem_cons_self)
  obtain rfl : i = Workers.startChannelIdx k :=
    Fin.ext (by exact_mod_cast hi.trans (Workers.startChannelIdx_eq k).symm)
  exact ⟨s', hs', hsame, hvalue⟩

/-- The worker makes its next load. -/
theorem exists_load {ret : ℤ} :
    ∃ s', Reaches (Sends S) (Threads.init c₀) s' ∧ s.load ret = .ok s' := by
  obtain ⟨s', hs'⟩ := hok s h (.load ret) trivial
  exact ⟨s', h.tail ⟨.load ret, trivial, hs'⟩, hs'⟩

/-- With a stored count other than 0 the worker gets into the branch of the string. -/
theorem exists_start (hpc : s.pc = .strings (a :: rest))
    (hv : v ∈ Stored S Cell.channelCount (s.port, a)) (hne : v ≠ 0) :
    ∃ s', Reaches (Sends S) (Threads.init c₀) s' ∧ s'.pc = .start a rest ∧ s'.port = s.port ∧
      s'.b = s.b := by
  obtain ⟨s₁, hs₁, hsame, hcount⟩ := exists_channelCount hok h hv hne
  -- the load for the header
  obtain ⟨s₂, hs₂, hload₂⟩ := @exists_load _ _ _ hok hs₁ 0
  rw [Threads.load, hsame.pc, hpc] at hload₂
  obtain rfl := Outcome.ok.inj hload₂
  -- the load for the `if`
  obtain ⟨s₃, hs₃, hload₃⟩ := @exists_load _ _ _ hok hs₂ 0
  have htest : (s₁.cell a).channelCount ≠ 0 := by
    rw [Threads.cell, hsame.port, hcount]
    exact hne
  obtain rfl := Outcome.ok.inj ((if_pos htest).symm.trans hload₃)
  exact ⟨_, hs₃, rfl, hsame.port, hsame.b⟩

/-- From the load of the start on, a copy with any stored count other than 0. -/
theorem exists_copy (hpc : s.pc = .start a rest)
    (hv : v ∈ Stored S Cell.channelCount (s.port, a)) (hne : v ≠ 0) :
    Block.CopyFits 19200 24576 s.b (s.cell a).startChannel.toInt (sizeT v.toInt) ∧
      ∃ s', Reaches (Sends S) (Threads.init c₀) s' ∧ s'.pc = .advance a rest ∧
        s'.port = s.port ∧ s'.b = s.b ∧ (s'.cell a).channelCount = v := by
  obtain ⟨s₁, hs₁, hload₁⟩ := @exists_load _ _ _ hok h 0
  rw [Threads.load, hpc] at hload₁
  obtain rfl := Outcome.ok.inj hload₁
  -- the start is loaded; before the length is, the handler stores `v`
  obtain ⟨s₂, hs₂, hsame, hcount⟩ := exists_channelCount hok hs₁ hv hne
  obtain ⟨s₃, hs₃, hload₃⟩ := @exists_load _ _ _ hok hs₂ 0
  have hcell : (s₂.cell a).channelCount = v := by
    rw [Threads.cell, hsame.port, hcount]
  rw [Threads.load, hsame.pc] at hload₃
  obtain ⟨data, hdata, hload₃⟩ := Outcome.bind_eq_ok_iff.mp hload₃
  obtain rfl := Outcome.ok.inj hload₃
  have hfit := (Block.memcpy_eq_ok_iff.mp hdata).1
  rw [hcell, hsame.b] at hfit
  exact ⟨hfit, _, hs₃, rfl, hsame.port, hsame.b, hcell⟩

end

/-- For every string of the port a stored count, other than 0 if there is one. -/
def Nonzero (S : Set ConfigPacket) (p : Fin 4) (counts : Fin 8 → BitVec 32) : Prop :=
  ∀ a, counts a ∈ Stored S Cell.channelCount (p, a) ∧
    (counts a = 0 → ∀ v ∈ Stored S Cell.channelCount (p, a), v = 0)

section

variable {S : Set ConfigPacket} {c₀ : Controller} {s : Threads} {a : Fin 8}
  {pre rest : List (Fin 8)} {p : Fin 4} {counts : Fin 8 → BitVec 32}

/-- The counts of a mixture, where they are not 0. -/
theorem exists_nonzero {m : Mapping} (hm : Mixture S m) (p : Fin 4) :
    ∃ counts, Nonzero S p counts ∧
      ∀ a, (m (p, a)).channelCount ≠ 0 → counts a = (m (p, a)).channelCount := by
  have hcount : ∀ a, ∃ v, (v ∈ Stored S Cell.channelCount (p, a) ∧
      (v = 0 → ∀ u ∈ Stored S Cell.channelCount (p, a), u = 0)) ∧
      ((m (p, a)).channelCount ≠ 0 → v = (m (p, a)).channelCount) := by
    intro a
    by_cases hzero : (m (p, a)).channelCount = 0
    · by_cases hall : ∀ v ∈ Stored S Cell.channelCount (p, a), v = 0
      · exact ⟨0, ⟨zero_mem_stored _, fun _ => hall⟩, fun hne => absurd hzero hne⟩
      · push Not at hall
        obtain ⟨v, hv, hne⟩ := hall
        exact ⟨v, ⟨hv, fun h => absurd h hne⟩, fun hne => absurd hzero hne⟩
    · exact ⟨_, ⟨hm.channelCount (p, a), fun h => absurd h hzero⟩, fun _ => rfl⟩
  choose counts hcounts hne using hcount
  exact ⟨counts, hcounts, hne⟩

variable (hin : ∀ P ∈ S, P.InTable) (hinit : Mixture S c₀.workers.mapping)
  (hok : StepsDefined S c₀)

include hin hinit hok

/-- The worker packs a string with a stored count. -/
theorem exists_packString (h : Reaches (Sends S) (Threads.init c₀) s)
    (hpc : s.pc = .strings (a :: rest)) (hcounts : Nonzero S s.port counts) (hb : 0 ≤ s.b)
    (hb' : s.b ≤ 19200) :
    0 ≤ (counts a).toInt ∧ s.b + (counts a).toInt ≤ 19200 ∧
      ∃ s', Reaches (Sends S) (Threads.init c₀) s' ∧ s'.pc = .strings rest ∧ s'.port = s.port ∧
        s'.b = s.b + (counts a).toInt := by
  obtain ⟨hv, hall⟩ := hcounts a
  by_cases hne : counts a = 0
  · -- then the count in memory is 0
    have hzero : (s.cell a).channelCount = 0 :=
      hall hne _ ((stores_of_reaches hin hinit h).mixture.channelCount (s.port, a))
    obtain ⟨s₁, hs₁, hload₁⟩ := @exists_load _ _ _ hok h 0
    rw [Threads.load, hpc] at hload₁
    obtain rfl := Outcome.ok.inj hload₁
    obtain ⟨s₂, hs₂, hload₂⟩ := @exists_load _ _ _ hok hs₁ 0
    obtain rfl := Outcome.ok.inj ((if_neg (not_not.mpr hzero)).symm.trans hload₂)
    rw [hne, show (0 : BitVec 32).toInt = 0 from rfl, add_zero]
    exact ⟨le_rfl, hb', _, hs₂, rfl, rfl, rfl⟩
  · -- the loads for the header and the `if`, then those for the copy
    obtain ⟨s₁, hs₁, hpc₁, hport₁, hb₁⟩ := exists_start hok h hpc hv hne
    rw [← hport₁] at hv
    obtain ⟨hfit, s₂, hs₂, hpc₂, hport₂, hb₂, hcell⟩ := exists_copy hok hs₁ hpc₁ hv hne
    rw [hb₁] at hfit
    obtain ⟨⟨hnonneg, -⟩, hle⟩ :=
      (@Cell.copyFits_iff ⟨counts a, (s₁.cell a).startChannel⟩ hne _ hb).mp hfit
    obtain ⟨s₃, hs₃, hload₃⟩ := @exists_load _ _ _ hok hs₂ 0
    rw [Threads.load, hpc₂] at hload₃
    obtain rfl := Outcome.ok.inj hload₃
    refine ⟨hnonneg, hle, _, hs₃, rfl, hport₂.trans hport₁, ?_⟩
    -- what is copied fits, so the sum does not wrap
    change (BitVec.ofInt 32 (s₂.b + (s₂.cell a).channelCount.toInt)).toInt = _
    rw [hcell, hb₂, hb₁]
    change 0 ≤ (counts a).toInt at hnonneg
    change s.b + (counts a).toInt ≤ 19200 at hle
    exact BitVec.toInt_ofInt_eq_self (by decide) (by omega) (by omega)

/-- The worker packs the strings `pre` with stored counts. -/
theorem exists_packStrings (h : Reaches (Sends S) (Threads.init c₀) s)
    (hpc : s.pc = .strings (pre ++ rest)) (hcounts : Nonzero S s.port counts) (hb : 0 ≤ s.b)
    (hb' : s.b ≤ 19200) :
    (∀ a ∈ pre, 0 ≤ (counts a).toInt) ∧
      ∃ s', Reaches (Sends S) (Threads.init c₀) s' ∧ s'.pc = .strings rest ∧ s'.port = s.port ∧
        s'.b = s.b + (pre.map fun a => (counts a).toInt).sum ∧ 0 ≤ s'.b ∧ s'.b ≤ 19200 := by
  induction pre generalizing s with
  | nil =>
      refine ⟨List.forall_mem_nil _, s, h, hpc, rfl, ?_, hb, hb'⟩
      rw [List.map_nil, List.sum_nil, add_zero]
  | cons a pre ih =>
      obtain ⟨hnonneg, hle, s₁, hs₁, hpc₁, hport₁, hb₁⟩ :=
        exists_packString hin hinit hok h hpc hcounts hb hb'
      obtain ⟨hall, s₂, hs₂, hpc₂, hport₂, hb₂, hbounds⟩ :=
        ih hs₁ hpc₁ (hport₁ ▸ hcounts) (by omega) (by omega)
      refine ⟨List.forall_mem_cons.mpr ⟨hnonneg, hall⟩, s₂, hs₂, hpc₂, hport₂.trans hport₁, ?_,
        hbounds⟩
      rw [hb₂, hb₁, List.map_cons, List.sum_cons, add_assoc]

/-- At a port that is processed, the worker gets to its string loop. -/
theorem exists_strings (h : Reaches (Sends S) (Threads.init c₀) s) (hpc : s.pc = .gate)
    (hlt : (s.port : ℤ) < c₀.workers.pixelPorts.toInt) :
    ∃ s', Reaches (Sends S) (Threads.init c₀) s' ∧ s'.pc = .strings (List.finRange 8) ∧
      s'.port = s.port ∧ s'.b = 0 := by
  obtain ⟨s', hs', hload⟩ := @exists_load _ _ _ hok h 0
  rw [Threads.load, hpc] at hload
  rw [← (stores_of_reaches hin hinit h).pixelPorts] at hlt
  obtain rfl := Outcome.ok.inj ((if_pos hlt).symm.trans hload)
  exact ⟨_, hs', rfl, rfl, rfl⟩

/-- The worker gets to every port. -/
theorem exists_gate (n : ℕ) (hn : n < 4) :
    ∃ s, Reaches (Sends S) (Threads.init c₀) s ∧ s.pc = .gate ∧ s.port.val = n := by
  induction n with
  | zero => exact ⟨_, .refl, rfl, rfl⟩
  | succ n ih =>
      obtain ⟨s, hs, hpc, hport⟩ := ih (by omega)
      have hnext : (s.port + 1).val = n + 1 := by
        rw [Fin.val_add, hport]
        exact Nat.mod_eq_of_lt hn
      by_cases hlt : (s.port : ℤ) < c₀.workers.pixelPorts.toInt
      · -- any counts do to get through the block and over its transfer
        obtain ⟨s₁, hs₁, hpc₁, hport₁, hb₁⟩ := exists_strings hin hinit hok hs hpc hlt
        obtain ⟨counts, hcounts, -⟩ := exists_nonzero hinit s₁.port
        obtain ⟨-, s₂, hs₂, hpc₂, hport₂, -⟩ := exists_packStrings hin hinit hok hs₁
          (hpc₁.trans (congrArg _ (List.append_nil _).symm)) hcounts hb₁.ge (by omega)
        obtain ⟨s₃, hs₃, hload₃⟩ := @exists_load _ _ _ hok hs₂ 0
        rw [Threads.load, hpc₂] at hload₃
        obtain ⟨r, -, hload₃⟩ := Outcome.bind_eq_ok_iff.mp hload₃
        obtain rfl := Outcome.ok.inj hload₃
        refine ⟨_, hs₃, rfl, ?_⟩
        rw [← hnext, ← hport₁, ← hport₂]
      · obtain ⟨s₁, hs₁, hload₁⟩ := @exists_load _ _ _ hok hs 0
        rw [Threads.load, hpc] at hload₁
        rw [← (stores_of_reaches hin hinit hs).pixelPorts] at hlt
        obtain rfl := Outcome.ok.inj ((if_neg hlt).symm.trans hload₁)
        exact ⟨_, hs₁, rfl, hnext⟩

/-- The worker gets to every string of every port that is processed, after any stored counts. -/
theorem exists_string (hlt : (p : ℤ) < c₀.workers.pixelPorts.toInt)
    (hcounts : Nonzero S p counts) (hsplit : List.finRange 8 = pre ++ rest) :
    (∀ a ∈ pre, 0 ≤ (counts a).toInt) ∧
      ∃ s, Reaches (Sends S) (Threads.init c₀) s ∧ s.pc = .strings rest ∧ s.port = p ∧
        s.b = (pre.map fun a => (counts a).toInt).sum ∧ 0 ≤ s.b ∧ s.b ≤ 19200 := by
  obtain ⟨s, hs, hpc, hport⟩ := exists_gate hin hinit hok p.val p.isLt
  obtain rfl := Fin.ext hport
  obtain ⟨s₁, hs₁, hpc₁, hport₁, hb₁⟩ := exists_strings hin hinit hok hs hpc hlt
  obtain ⟨hall, s₂, hs₂, hpc₂, hport₂, hb₂, hbounds⟩ := exists_packStrings hin hinit hok hs₁
    (hpc₁.trans (congrArg _ hsplit)) (hport₁ ▸ hcounts) hb₁.ge (by omega)
  refine ⟨hall, s₂, hs₂, hpc₂, hport₂.trans hport₁, ?_, hbounds⟩
  rw [hb₂, hb₁, zero_add]

/-- A stored start and a stored count are loaded for the same copy. -/
theorem inBuffer_of_stepsDefined {m : Mapping} (hm : Mixture S m)
    (hlt : (p : ℤ) < c₀.workers.pixelPorts.toInt) (hcounts : Nonzero S p counts)
    (hcount : (m (p, a)).channelCount ≠ 0 → counts a = (m (p, a)).channelCount) :
    (m (p, a)).InBuffer := by
  by_cases hne : (m (p, a)).channelCount = 0
  · refine ⟨?_, fun h => absurd hne h⟩
    rw [hne]
    exact le_rfl
  obtain ⟨pre, rest, hsplit⟩ := List.append_of_mem (List.mem_finRange a)
  obtain ⟨-, s, hs, hpc, rfl, -, hb, hb'⟩ := exists_string hin hinit hok hlt hcounts hsplit
  obtain ⟨hnonneg, hle, -⟩ := exists_packString hin hinit hok hs hpc hcounts hb hb'
  rw [hcount hne] at hnonneg hle
  by_cases hstart : (m (s.port, a)).startChannel = 0
  · -- from 0 on there is room for every count that can be packed
    refine ⟨hnonneg, fun _ => ?_⟩
    rw [hstart, show (0 : BitVec 32).toInt = 0 from rfl]
    omega
  · -- the handler stores the start before the worker loads it, and the count after
    have hv := hm.channelCount (s.port, a)
    obtain ⟨s₁, hs₁, hpc₁, hport₁, hb₁⟩ := exists_start hok hs hpc hv hne
    obtain ⟨s₂, hs₂, hsame, hstored⟩ :=
      exists_startChannel hok hs₁ (hm.startChannel (s.port, a)) hstart
    have hport₂ : s₂.port = s.port := hsame.port.trans hport₁
    obtain ⟨hfit, -⟩ := exists_copy hok hs₂ (hsame.pc.trans hpc₁) (hport₂ ▸ hv) hne
    rw [Threads.cell, hport₂, hstored, hsame.b, hb₁] at hfit
    exact ((Cell.copyFits_iff hne hb).mp hfit).1

/-- When every step is defined, every mixture is packable. -/
theorem packable_of_stepsDefined {m : Mapping} (hm : Mixture S m) :
    Packable c₀.workers.pixelPorts m := by
  intro p hlt
  obtain ⟨counts, hcounts, hcount⟩ := exists_nonzero hm p
  refine ⟨fun a => inBuffer_of_stepsDefined hin hinit hok hm hlt hcounts (hcount a), ?_⟩
  obtain ⟨hnonneg, s, -, -, -, hb, -, hle⟩ :=
    exists_string hin hinit hok hlt hcounts (List.append_nil _).symm
  -- the counts the worker has packed are at least those of the mixture
  calc portCount m p ≤ ((List.finRange 8).map fun a => (counts a).toInt).sum := by
        refine List.sum_le_sum fun a ha => ?_
        by_cases hne : (m (p, a)).channelCount = 0
        · rw [hne]
          exact hnonneg a ha
        · rw [hcount a hne]
    _ = s.b := hb.symm
    _ ≤ 19200 := hle

end

/-- When every mixture is packable, every state is safe. -/
theorem safe_of_reaches {S : Set ConfigPacket} {c₀ : Controller} {s : Threads}
    (hin : ∀ P ∈ S, P.InTable) (hinit : Mixture S c₀.workers.mapping)
    (hsafe : ∀ m, Mixture S m → Packable c₀.workers.pixelPorts m)
    (h : Reaches (Sends S) (Threads.init c₀) s) : Safe S c₀ s := by
  induction h with
  | refl => exact ⟨stores_of_reaches hin hinit .refl, trivial⟩
  | tail _ hstep ih =>
      obtain ⟨a, ha, hstep⟩ := hstep
      obtain ⟨s', hs', hsafe'⟩ := ih.exists_step hsafe hin ha
      obtain rfl := Outcome.ok.inj (hs'.symm.trans hstep)
      exact hsafe'

/-- For every set of configurations with entries in the table, from every mapping that mixes their
counts and starts: when the listener receives any of them any number of times, and every step of the
handler and the worker may fall between any two steps of the other, then no step of any run is
undefined if and only if every mapping that mixes their counts and starts is packable. -/
theorem interleaved_ok_iff {S : Set ConfigPacket} {c₀ : Controller} (hin : ∀ P ∈ S, P.InTable)
    (hinit : Mixture S c₀.workers.mapping) :
    (∀ s, Reaches (Sends S) (Threads.init c₀) s → ∀ a, Sends S s a → ∃ s', s.step a = .ok s') ↔
      ∀ m, Mixture S m → Packable c₀.workers.pixelPorts m := by
  constructor
  · exact fun hok m hm => packable_of_stepsDefined hin hinit hok hm
  · intro hsafe s hs a ha
    obtain ⟨s', hs', -⟩ := (safe_of_reaches hin hinit hsafe hs).exists_step hsafe hin ha
    exact ⟨s', hs'⟩

/-- `interleaved_ok_iff` for two configurations that are packable, one with the last byte of the
pixel buffer and the other with the first two: the worker may load the start of the one and the
count of the other. -/
theorem interleaved_ok_iff_sample :
    let c₀ : Controller :=
      { (default : Controller) with workers := Function.update Workers.zero 0 1 }
    let P : ConfigPacket := .encode 1 [⟨0, 0, 24575, 1⟩] (by decide)
    let Q : ConfigPacket := .encode 2 [⟨0, 0, 0, 2⟩] (by decide)
    (∀ R ∈ ({P, Q} : Set ConfigPacket),
        Packable 1 (ConfigView.step ⟨0, fun _ => ⟨0, 0⟩⟩ R).mapping) ∧
      ¬∀ s, Reaches (Sends {P, Q}) (Threads.init c₀) s → ∀ a, Sends {P, Q} s a →
        ∃ s', s.step a = .ok s' := by
  intro c₀ P Q
  have hentriesP : P.entries = [⟨0, 0, 24575, 1⟩] := ConfigPacket.entries_encode ..
  have hentriesQ : Q.entries = [⟨0, 0, 0, 2⟩] := ConfigPacket.entries_encode ..
  constructor
  · have hmapping : ∀ R : ConfigPacket, (ConfigView.step ⟨0, fun _ => ⟨0, 0⟩⟩ R).mapping =
        fun k => ((lastEntry R.entries k).map PortConfig.cell).getD ⟨0, 0⟩ := by
      intro R
      funext k
      rw [ConfigView.step, ConfigPacket.patch, ConfigView.base, ite_self, ← latest_map_patch]
      rfl
    rintro R (rfl | rfl)
    · rw [hmapping, hentriesP]
      decide
    · rw [hmapping, hentriesQ]
      decide
  · have hin : ∀ R ∈ ({P, Q} : Set ConfigPacket), R.InTable := by
      rintro R (rfl | rfl) <;> exact ConfigPacket.inTable_encode.mpr (by simp [PortConfig.InTable])
    have hinit : Mixture {P, Q} c₀.workers.mapping := by
      constructor <;>
      · intro k
        refine Or.inl ?_
        revert k
        decide
    rw [interleaved_ok_iff hin hinit]
    intro hsafe
    -- string 0 of port 0 with the count of `Q` and the start of `P`
    let m : Mapping := Function.update (fun _ => ⟨0, 0⟩) (0, 0) ⟨2, 24575⟩
    have hm : Mixture {P, Q} m := by
      refine Mixture.update ⟨fun _ => zero_mem_stored _, fun _ => zero_mem_stored _⟩ ?_ ?_
      · exact Or.inr ⟨Q, Or.inr rfl, _, hentriesQ ▸ List.mem_cons_self, by decide, rfl⟩
      · exact Or.inr ⟨P, Or.inl rfl, _, hentriesP ▸ List.mem_cons_self, by decide, rfl⟩
    exact absurd (hsafe m hm) (by decide)

end PiPixelController
