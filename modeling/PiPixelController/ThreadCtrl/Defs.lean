import Mathlib.Logic.Function.Basic
import PiPixelController.CSemantics.Memory

/-!
# The channel mapping in memory

`PiPixelController.h` declares

`typedef struct { int channel_count[8]; int start_channel[8]; spi_device *spi_dev; } string_ctrl;`
`typedef struct { int pixel_ports; char *buffer; string_ctrl led_string[4]; } thread_ctrl;`

and `PiPixelController.c` the array `thread_ctrl workers[MAX_WORKERS]`, of which only
`workers[0]` is used. On the 64-bit ARM target an `int` is one 4-byte word and a pointer two,
so a `thread_ctrl` is 76 words:

* word 0 is `pixel_ports`, word 1 padding, words 2 and 3 are `buffer`;
* `led_string[p]` starts at word `4 + 18 * p`: eight words `channel_count`, eight words
  `start_channel`, two words `spi_dev`.

The program checks no index, so `led_string[p].channel_count[s] = v` stores to word
`4 + 18 * p + s` whatever `p` and `s` are. A store inside the array of ten `thread_ctrl`s
(760 words) changes that word, which for an index out of range belongs to another field; a
store outside the array is undefined.
-/

namespace PiPixelController

open CSemantics

/-- The array `workers`, word by word; the first 76 words are `workers[0]`. -/
abbrev Workers := Fin 760 → BitVec 32

/-- One `(port, string)` entry of the channel mapping. -/
structure Cell where
  /-- `led_string[port].channel_count[string]`. -/
  channelCount : BitVec 32
  /-- `led_string[port].start_channel[string]`. -/
  startChannel : BitVec 32
deriving DecidableEq

/-- The channel mapping: one cell for each of the 4 ports and 8 strings. -/
abbrev Mapping := Fin 4 × Fin 8 → Cell

/-- The word `workers[0].led_string[p].channel_count[s]` is stored to. -/
def channelCountAddr (p s : ℤ) : ℤ := 4 + 18 * p + s

/-- The word `workers[0].led_string[p].start_channel[s]` is stored to. -/
def startChannelAddr (p s : ℤ) : ℤ := 4 + 18 * p + 8 + s

/-- One assignment to a word of `workers`. -/
structure WordStore where
  /-- The word stored to, counted from the start of `workers`. -/
  addr : ℤ
  /-- The value stored. -/
  value : BitVec 32
deriving DecidableEq

namespace Workers

variable (w : Workers)

/-- `memset(&workers[0], 0, sizeof(thread_ctrl))` on the zero-initialised global. -/
def zero : Workers := fun _ => 0

/-- Execute one assignment. -/
def store (st : WordStore) : Outcome Workers :=
  if h : 0 ≤ st.addr ∧ st.addr < 760 then
    -- whichever field the word belongs to
    .ok (Function.update w ⟨st.addr.toNat, by omega⟩ st.value)
  else .undefined

/-- Execute a sequence of assignments. -/
def storeAll (sts : List WordStore) : Outcome Workers := sts.foldlM store w

/-- The index of `channel_count[s]` of port `p`. -/
def channelCountIdx (k : Fin 4 × Fin 8) : Fin 760 := ⟨4 + 18 * k.1 + k.2, by omega⟩

/-- The index of `start_channel[s]` of port `p`. -/
def startChannelIdx (k : Fin 4 × Fin 8) : Fin 760 := ⟨4 + 18 * k.1 + 8 + k.2, by omega⟩

/-- The mapping held in `workers[0]`. -/
def mapping : Mapping := fun k => ⟨w (channelCountIdx k), w (startChannelIdx k)⟩

/-- The index of `pixel_ports`. -/
def pixelPortsIdx : Fin 760 := 0

/-- `workers[0].pixel_ports`. -/
def pixelPorts : BitVec 32 := w pixelPortsIdx

/-- `workers[0].buffer`. -/
def buffer : BitVec 64 := w 3 ++ w 2

/-- `workers[0].led_string[p].spi_dev`. -/
def spiDev (p : Fin 4) : BitVec 64 :=
  w ⟨4 + 18 * p + 17, by omega⟩ ++ w ⟨4 + 18 * p + 16, by omega⟩

/-- The words of `workers[0]`. -/
def threadCtrl : Fin 76 → BitVec 32 := fun i => w ⟨i, by omega⟩

/-- Write one cell of the mapping. -/
def setCell (k : Fin 4 × Fin 8) (c : Cell) : Workers :=
  Function.update (Function.update w (channelCountIdx k) c.channelCount)
    (startChannelIdx k) c.startChannel

end Workers

/-- The two assignments both writers of the mapping make for a record or entry: first the
`channel_count`, then the `start_channel`. -/
def cellStores (p s : ℤ) (c : Cell) : List WordStore :=
  [⟨channelCountAddr p s, c.channelCount⟩, ⟨startChannelAddr p s, c.startChannel⟩]

namespace Workers

variable {w w' : Workers}

@[simp]
theorem storeAll_nil : w.storeAll [] = .ok w := rfl

@[simp]
theorem storeAll_cons (st : WordStore) (sts : List WordStore) :
    w.storeAll (st :: sts) = w.store st >>= fun w' => w'.storeAll sts := rfl

theorem storeAll_append (sts sts' : List WordStore) :
    w.storeAll (sts ++ sts') = w.storeAll sts >>= fun w' => w'.storeAll sts' :=
  List.foldlM_append

/-- A store inside `workers` updates one word. -/
theorem store_of_lt {i : ℕ} (h : i < 760) (v : BitVec 32) :
    w.store ⟨i, v⟩ = .ok (Function.update w ⟨i, h⟩ v) := by
  have hi : (0 : ℤ) ≤ (i : ℤ) ∧ (i : ℤ) < 760 := by omega
  rw [store, dif_pos hi]
  rfl

/-- A store outside `workers` is undefined. -/
theorem store_of_not_mem {st : WordStore} (h : ¬(0 ≤ st.addr ∧ st.addr < 760)) :
    w.store st = .undefined :=
  dif_neg h

/-- A store that completes was inside `workers` and changed that word only. -/
theorem store_eq_ok {st : WordStore} (h : w.store st = .ok w') :
    ∃ i : Fin 760, (i : ℤ) = st.addr ∧ w' = Function.update w i st.value := by
  by_cases hr : 0 ≤ st.addr ∧ st.addr < 760
  · rw [store, dif_pos hr, Outcome.ok.injEq] at h
    exact ⟨⟨st.addr.toNat, by omega⟩, Int.toNat_of_nonneg hr.1, h.symm⟩
  · rw [store_of_not_mem hr] at h
    cases h

/-- In the table the address of a count is its index. -/
theorem channelCountIdx_eq (k : Fin 4 × Fin 8) :
    ((channelCountIdx k : ℕ) : ℤ) = channelCountAddr k.1 k.2 := by
  simp [channelCountIdx, channelCountAddr]

/-- In the table the address of a start is its index. -/
theorem startChannelIdx_eq (k : Fin 4 × Fin 8) :
    ((startChannelIdx k : ℕ) : ℤ) = startChannelAddr k.1 k.2 := by
  simp [startChannelIdx, startChannelAddr]

theorem store_channelCount (k : Fin 4 × Fin 8) (v : BitVec 32) :
    w.store ⟨channelCountAddr k.1 k.2, v⟩ = .ok (Function.update w (channelCountIdx k) v) := by
  rw [← channelCountIdx_eq, store_of_lt (channelCountIdx k).isLt]

theorem store_startChannel (k : Fin 4 × Fin 8) (v : BitVec 32) :
    w.store ⟨startChannelAddr k.1 k.2, v⟩ = .ok (Function.update w (startChannelIdx k) v) := by
  rw [← startChannelIdx_eq, store_of_lt (startChannelIdx k).isLt]

/-- In range, the two assignments write exactly their cell. -/
theorem storeAll_cellStores (k : Fin 4 × Fin 8) (c : Cell) :
    w.storeAll (cellStores k.1 k.2 c) = .ok (w.setCell k c) := by
  rw [cellStores, storeAll_cons, store_channelCount, Outcome.ok_bind, storeAll_cons,
    store_startChannel, Outcome.ok_bind, storeAll_nil]
  rfl

/-! ### Words of distinct fields are distinct -/

theorem channelCountIdx_injective : Function.Injective channelCountIdx := by
  intro k k' h
  -- the strings are below 8 and the ports 18 words apart
  simp only [channelCountIdx, Fin.mk.injEq] at h
  refine Prod.ext (Fin.ext ?_) (Fin.ext ?_) <;> omega

theorem startChannelIdx_injective : Function.Injective startChannelIdx := by
  intro k k' h
  simp only [startChannelIdx, Fin.mk.injEq] at h
  refine Prod.ext (Fin.ext ?_) (Fin.ext ?_) <;> omega

theorem channelCountIdx_ne_startChannelIdx (k k' : Fin 4 × Fin 8) :
    channelCountIdx k ≠ startChannelIdx k' := by
  intro h
  simp only [channelCountIdx, startChannelIdx, Fin.mk.injEq] at h
  omega

/-- Storing a count changes the mapping in the count of its cell only. -/
theorem mapping_update_channelCount (k : Fin 4 × Fin 8) (v : BitVec 32) :
    mapping (Function.update w (channelCountIdx k) v) =
      Function.update w.mapping k { w.mapping k with channelCount := v } := by
  funext k'
  by_cases hk : k' = k
  · subst hk
    simp [mapping, (channelCountIdx_ne_startChannelIdx k' k').symm]
  · simp [mapping, hk, channelCountIdx_injective.ne hk,
      (channelCountIdx_ne_startChannelIdx k k').symm]

/-- Storing a start changes the mapping in the start of its cell only. -/
theorem mapping_update_startChannel (k : Fin 4 × Fin 8) (v : BitVec 32) :
    mapping (Function.update w (startChannelIdx k) v) =
      Function.update w.mapping k { w.mapping k with startChannel := v } := by
  funext k'
  by_cases hk : k' = k
  · subst hk
    simp [mapping, channelCountIdx_ne_startChannelIdx]
  · simp [mapping, hk, startChannelIdx_injective.ne hk, channelCountIdx_ne_startChannelIdx]

@[simp]
theorem mapping_setCell (k : Fin 4 × Fin 8) (c : Cell) :
    (w.setCell k c).mapping = Function.update w.mapping k c := by
  rw [setCell, mapping_update_startChannel, mapping_update_channelCount]
  simp

/-- A word that belongs to no cell of the mapping. -/
def OutsideTable (i : Fin 760) : Prop :=
  ∀ k, i ≠ channelCountIdx k ∧ i ≠ startChannelIdx k

theorem setCell_of_outsideTable {i : Fin 760} (h : OutsideTable i) (k : Fin 4 × Fin 8)
    (c : Cell) : w.setCell k c i = w i := by
  rw [setCell, Function.update_of_ne (h k).2, Function.update_of_ne (h k).1]

/-- The fields of `thread_ctrl` other than the mapping, and all of `workers[1..9]`, agree. -/
def SameOutsideTable (w w' : Workers) : Prop := ∀ i, OutsideTable i → w i = w' i

theorem SameOutsideTable.refl (w : Workers) : SameOutsideTable w w := fun _ _ => rfl

theorem SameOutsideTable.trans {w₁ w₂ w₃ : Workers} (h : SameOutsideTable w₁ w₂)
    (h' : SameOutsideTable w₂ w₃) : SameOutsideTable w₁ w₃ :=
  fun i hi => (h i hi).trans (h' i hi)

theorem sameOutsideTable_setCell (k : Fin 4 × Fin 8) (c : Cell) :
    SameOutsideTable (w.setCell k c) w :=
  fun _ hi => setCell_of_outsideTable hi k c

theorem outsideTable_of_lt {i : Fin 760} (h : i.val < 4) : OutsideTable i := by
  intro k
  constructor <;>
  · intro heq
    simp only [channelCountIdx, startChannelIdx, Fin.ext_iff] at heq
    omega

theorem outsideTable_spiDev (p : Fin 4) {i : Fin 760} (h : i.val = 4 + 18 * p + 16 ∨
    i.val = 4 + 18 * p + 17) : OutsideTable i := by
  intro k
  constructor <;>
  · intro heq
    simp only [channelCountIdx, startChannelIdx, Fin.ext_iff] at heq
    omega

theorem SameOutsideTable.pixelPorts (h : SameOutsideTable w w') :
    w.pixelPorts = w'.pixelPorts :=
  h pixelPortsIdx (outsideTable_of_lt (by decide))

theorem SameOutsideTable.buffer (h : SameOutsideTable w w') : w.buffer = w'.buffer := by
  rw [Workers.buffer, Workers.buffer, h 2 (outsideTable_of_lt (by decide)),
    h 3 (outsideTable_of_lt (by decide))]

theorem SameOutsideTable.spiDev (h : SameOutsideTable w w') (p : Fin 4) :
    w.spiDev p = w'.spiDev p := by
  rw [Workers.spiDev, Workers.spiDev, h _ (outsideTable_spiDev p (Or.inr rfl)),
    h _ (outsideTable_spiDev p (Or.inl rfl))]

end Workers

end PiPixelController
