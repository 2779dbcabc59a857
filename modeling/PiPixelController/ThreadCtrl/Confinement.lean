import PiPixelController.Startup.Defs
import PiPixelController.Zcpp.Config

/-!
# Writes with arbitrary indices

A record of the file or an entry of a packet is stored under the port and string it names,
whatever they are. A pair outside the 4×8 table is *harmless* when both of its words lie in
`workers[1]`, …, `workers[9]`, which the program never reads; every other pair outside the table
either hits another field of `workers[0]` or leaves the array.

* `confinedTo_stores_iff` — a write changes at most its own cell, in every state, exactly when its
  pair is in the table or harmless;
* `storeAll_inTableOnly` — deleting the writes outside the table, all harmless, does not change
  `workers[0]`.
-/

namespace PiPixelController

open CSemantics

/-- The pair is in the 4×8 table. -/
def PairInTable (port string : ℤ) : Prop := 0 ≤ port ∧ port < 4 ∧ 0 ≤ string ∧ string < 8

/-- The pair is in the table, or both of its words are in the array behind `workers[0]`. -/
def PairHarmless (port string : ℤ) : Prop :=
  PairInTable port string ∨
    (76 ≤ channelCountAddr port string ∧ startChannelAddr port string < 760)

instance (port string : ℤ) : Decidable (PairInTable port string) := by
  unfold PairInTable
  infer_instance

instance (port string : ℤ) : Decidable (PairHarmless port string) := by
  unfold PairHarmless
  infer_instance

/-- In every state the statement completes and changes in `workers[0]` at most the count and the
start of the cell of the pair, and nothing if there is no such cell. -/
def ConfinedTo (port string : ℤ) (statement : Workers → Outcome Workers) : Prop :=
  ∀ w : Workers, ∃ w', statement w = .ok w' ∧
    ∀ i, w'.threadCtrl i ≠ w.threadCtrl i → ∃ k : Fin 4 × Fin 8,
      (k.1 : ℤ) = port ∧ (k.2 : ℤ) = string ∧
      (i.val = (Workers.channelCountIdx k).val ∨ i.val = (Workers.startChannelIdx k).val)

/-- The value a record or an entry asks to store for a port and a string. -/
structure CellWrite where
  port : ℤ
  string : ℤ
  cell : Cell
deriving DecidableEq

namespace CellWrite

/-- The two assignments. -/
def stores (x : CellWrite) : List WordStore := cellStores x.port x.string x.cell

def InTable (x : CellWrite) : Prop := PairInTable x.port x.string

def Harmless (x : CellWrite) : Prop := PairHarmless x.port x.string

instance : DecidablePred InTable := fun x =>
  inferInstanceAs (Decidable (PairInTable x.port x.string))

theorem InTable.exists_cell {x : CellWrite} (h : x.InTable) :
    ∃ k : Fin 4 × Fin 8, (k.1 : ℤ) = x.port ∧ (k.2 : ℤ) = x.string := by
  obtain ⟨hp, hp', hs, hs'⟩ := h
  refine ⟨(⟨x.port.toNat, by omega⟩, ⟨x.string.toNat, by omega⟩), ?_, ?_⟩
  · exact Int.toNat_of_nonneg hp
  · exact Int.toNat_of_nonneg hs

theorem InTable.storeAll {x : CellWrite} {k : Fin 4 × Fin 8} (hp : (k.1 : ℤ) = x.port)
    (hs : (k.2 : ℤ) = x.string) (w : Workers) :
    w.storeAll x.stores = .ok (w.setCell k x.cell) := by
  rw [stores, ← hp, ← hs, Workers.storeAll_cellStores]

end CellWrite

/-! ### The words of `workers[0]` -/

namespace Workers

variable {w w' : Workers}

/-- The same assignment keeps equal `workers[0]` equal. -/
theorem threadCtrl_update_congr (h : w.threadCtrl = w'.threadCtrl) (i : Fin 760)
    (v : BitVec 32) :
    threadCtrl (Function.update w i v) = threadCtrl (Function.update w' i v) := by
  funext j
  by_cases hj : (⟨j, by omega⟩ : Fin 760) = i
  · subst hj
    simp [threadCtrl]
  · have hw : w ⟨j, by omega⟩ = w' ⟨j, by omega⟩ := congrFun h j
    simp [threadCtrl, hj, hw]

/-- An assignment behind `workers[0]` does not change it. -/
theorem threadCtrl_update_of_le {i : Fin 760} (h : 76 ≤ i.val) (v : BitVec 32) :
    threadCtrl (Function.update w i v) = w.threadCtrl := by
  funext j
  have hj : (⟨j, by omega⟩ : Fin 760) ≠ i := by
    intro heq
    have := congrArg Fin.val heq
    simp only at this
    omega
  simp [threadCtrl, hj]

theorem threadCtrl_setCell_congr (h : w.threadCtrl = w'.threadCtrl) (k : Fin 4 × Fin 8)
    (cell : Cell) : (w.setCell k cell).threadCtrl = (w'.setCell k cell).threadCtrl :=
  threadCtrl_update_congr (threadCtrl_update_congr h _ _) _ _

theorem threadCtrl_setPointer_congr (h : w.threadCtrl = w'.threadCtrl) (i : ℕ)
    (hi : i + 1 < 760) (ptr : BitVec 64) :
    (w.setPointer i hi ptr).threadCtrl = (w'.setPointer i hi ptr).threadCtrl :=
  threadCtrl_update_congr (threadCtrl_update_congr h _ _) _ _

/-- The assignments before the worker starts keep equal `workers[0]` equal. -/
theorem threadCtrl_setFields_congr (h : w.threadCtrl = w'.threadCtrl) (addresses : Addresses)
    (pixelPorts : BitVec 32) :
    (w.setFields addresses pixelPorts).threadCtrl =
      (w'.setFields addresses pixelPorts).threadCtrl := by
  simp only [setFields]
  refine List.foldl_rel (r := fun w w' : Workers => w.threadCtrl = w'.threadCtrl) ?_ ?_
  · exact threadCtrl_setPointer_congr (threadCtrl_update_congr h _ _) _ _ _
  · exact fun p _ w w' hw => threadCtrl_setPointer_congr hw _ _ _

/-- Two assignments inside the array, one word after the other. -/
theorem storeAll_cellStores_of_nonneg {p s : ℤ} (h : 0 ≤ channelCountAddr p s)
    (h' : startChannelAddr p s < 760) (cell : Cell) :
    ∃ i j : Fin 760, (i : ℤ) = channelCountAddr p s ∧ (j : ℤ) = startChannelAddr p s ∧
      w.storeAll (cellStores p s cell) =
        .ok (Function.update (Function.update w i cell.channelCount) j cell.startChannel) := by
  have hle : channelCountAddr p s + 8 = startChannelAddr p s := by
    rw [channelCountAddr, startChannelAddr]
    omega
  obtain ⟨i, hi⟩ := Int.eq_ofNat_of_zero_le h
  obtain ⟨j, hj⟩ := Int.eq_ofNat_of_zero_le (show 0 ≤ startChannelAddr p s by omega)
  refine ⟨⟨i, by omega⟩, ⟨j, by omega⟩, hi.symm, hj.symm, ?_⟩
  rw [cellStores, hi, hj, storeAll_cons, store_of_lt (by omega), Outcome.ok_bind,
    storeAll_cons, store_of_lt (by omega), Outcome.ok_bind, storeAll_nil]

end Workers

namespace CellWrite

variable {x : CellWrite}

/-- A harmless write outside the table leaves `workers[0]` alone. -/
theorem Harmless.storeAll (h : x.Harmless) (hout : ¬x.InTable) (w : Workers) :
    ∃ w', w.storeAll x.stores = .ok w' ∧ w'.threadCtrl = w.threadCtrl := by
  obtain ⟨hcount, hstart⟩ := h.resolve_left hout
  obtain ⟨i, j, hi, hj, hstore⟩ :=
    Workers.storeAll_cellStores_of_nonneg (w := w) (by omega) hstart x.cell
  have hle : channelCountAddr x.port x.string ≤ startChannelAddr x.port x.string := by
    rw [channelCountAddr, startChannelAddr]
    omega
  refine ⟨_, hstore, ?_⟩
  rw [Workers.threadCtrl_update_of_le (by omega), Workers.threadCtrl_update_of_le (by omega)]

/-- A write in the table changes at most its own cell. -/
theorem InTable.confinedTo (h : x.InTable) :
    ConfinedTo x.port x.string fun w => w.storeAll x.stores := by
  intro w
  obtain ⟨k, hp, hs⟩ := h.exists_cell
  refine ⟨w.setCell k x.cell, InTable.storeAll hp hs w, fun i hi => ⟨k, hp, hs, ?_⟩⟩
  by_contra hne
  rw [not_or] at hne
  apply hi
  rw [Workers.threadCtrl, Workers.setCell,
    Function.update_of_ne (fun heq => hne.2 (congrArg Fin.val heq)),
    Function.update_of_ne (fun heq => hne.1 (congrArg Fin.val heq))]
  rfl

/-- A write changes at most its own cell exactly when its pair is in the table or harmless. -/
theorem confinedTo_stores_iff (x : CellWrite) :
    (ConfinedTo x.port x.string fun w => w.storeAll x.stores) ↔ x.Harmless := by
  constructor
  · intro h
    by_cases hin : x.InTable
    · exact Or.inl hin
    · -- store to memory that holds another value everywhere: every word hit shows
      obtain ⟨w', hstore, hchange⟩ := h fun _ => x.cell.channelCount + 1
      have hne : x.cell.channelCount ≠ x.cell.channelCount + 1 := by bv_omega
      simp only [stores, cellStores, Workers.storeAll_cons, Outcome.bind_eq_ok_iff,
        Workers.storeAll_nil, Outcome.ok.injEq] at hstore
      obtain ⟨w₁, hstore₁, w₂, hstore₂, rfl⟩ := hstore
      obtain ⟨i, hi, rfl⟩ := Workers.store_eq_ok hstore₁
      obtain ⟨j, hj, rfl⟩ := Workers.store_eq_ok hstore₂
      simp only [channelCountAddr] at hi
      simp only [startChannelAddr] at hj
      have hij : i ≠ j := by
        rintro rfl
        omega
      refine Or.inr ⟨?_, by rw [startChannelAddr]; omega⟩
      by_contra hlt
      rw [channelCountAddr] at hlt
      -- the count hit a word of `workers[0]`, which can only be a cell's own
      obtain ⟨k, hp, hs, -⟩ := hchange ⟨i, by omega⟩ (by
        simp only [Workers.threadCtrl, Fin.eta, Function.update_of_ne hij, Function.update_self]
        exact hne)
      exact hin ⟨by omega, by omega, by omega, by omega⟩
  · intro h
    by_cases hin : x.InTable
    · exact hin.confinedTo
    · intro w
      obtain ⟨w', hstore, hsame⟩ := h.storeAll hin w
      exact ⟨w', hstore, fun i hi => absurd (congrFun hsame i) hi⟩

end CellWrite

/-- Writes outside the table, all of them harmless, may be deleted: `workers[0]` is the same. -/
theorem Workers.storeAll_inTableOnly {xs : List CellWrite} (h : ∀ x ∈ xs, x.Harmless)
    {w w' : Workers} (hsame : w.threadCtrl = w'.threadCtrl) :
    ∃ w₁ w₁', w.storeAll (xs.flatMap CellWrite.stores) = .ok w₁ ∧
      w'.storeAll ((xs.filter CellWrite.InTable).flatMap CellWrite.stores) = .ok w₁' ∧
      w₁.threadCtrl = w₁'.threadCtrl := by
  induction xs generalizing w w' with
  | nil => exact ⟨w, w', rfl, rfl, hsame⟩
  | cons x xs ih =>
      have hxs : ∀ y ∈ xs, y.Harmless := fun y hy => h y (List.mem_cons_of_mem x hy)
      -- both runs make a write in the table; the other writes are made by the first run only
      by_cases hx : x.InTable
      · obtain ⟨k, hp, hs⟩ := hx.exists_cell
        obtain ⟨w₁, w₁', hrun, hrun', hsame'⟩ :=
          ih hxs (threadCtrl_setCell_congr hsame k x.cell)
        refine ⟨w₁, w₁', ?_, ?_, hsame'⟩
        · rw [List.flatMap_cons, storeAll_append, CellWrite.InTable.storeAll hp hs,
            Outcome.ok_bind, hrun]
        · rw [List.filter_cons_of_pos (by simpa using hx), List.flatMap_cons, storeAll_append,
            CellWrite.InTable.storeAll hp hs, Outcome.ok_bind, hrun']
      · obtain ⟨w₀, hstore, hsame₀⟩ := (h x List.mem_cons_self).storeAll hx w
        obtain ⟨w₁, w₁', hrun, hrun', hsame'⟩ := ih hxs (hsame₀.trans hsame)
        refine ⟨w₁, w₁', ?_, ?_, hsame'⟩
        · rw [List.flatMap_cons, storeAll_append, hstore, Outcome.ok_bind, hrun]
        · rw [List.filter_cons_of_neg (by simpa using hx), hrun']

end PiPixelController
