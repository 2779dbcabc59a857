import Mathlib.Data.Fintype.Card
import Mathlib.Data.List.Range
import Mathlib.Order.Interval.Finset.Nat
import Mathlib.Tactic.Linarith
import PiPixelController.CSemantics.Outcome

/-!
# Byte objects of a C program

A C object of `n` bytes is a `Block n`. `Block.memcpy` is the library function between two
distinct objects: it is undefined unless both ranges lie inside their objects (a copy of zero
bytes touches nothing). `load16`/`load32` read little-endian words, `ntohs`/`ntohl` swap them
into host order, `sizeT` is the conversion of an `int` to `size_t`.

Main results:

* `get_copy`, `slice_copy_append` — the bytes of a block after a copy;
* `card_changed_copy_le`, `copy_copy_eq_iff` — a copy changes few bytes, and disjoint copies
  commute;
* `memcpy_eq_ok_iff` — when a copy is defined, and what it returns;
* `ntohs_load16`, `ntohl_load32` — network-order fields are read most significant byte first.
-/

namespace CSemantics

/-- One byte of memory. -/
abbrev Byte := BitVec 8

/-- A C object of `n` bytes. -/
abbrev Block (n : ℕ) := Fin n → Byte

/-- Conversion of an `int` (any value) to the 64-bit `size_t`. -/
def sizeT (i : ℤ) : ℕ := (i % 2 ^ 64).toNat

theorem sizeT_of_nonneg {i : ℤ} (h : 0 ≤ i) (hlt : i < 2 ^ 64) : sizeT i = i.toNat := by
  rw [sizeT, Int.emod_eq_of_lt h hlt]

/-- A negative `int` becomes a huge `size_t`. -/
theorem le_sizeT_of_neg {i : ℤ} (h : i < 0) (hge : -2 ^ 32 ≤ i) :
    2 ^ 64 - 2 ^ 32 ≤ sizeT i := by
  -- `i + 2 ^ 64` is the representative in range
  rw [sizeT, ← Int.add_emod_right, Int.emod_eq_of_lt (by omega) (by omega)]
  omega

/-! ### Bytes and words -/

/-- The 16-bit word with the given bytes, most significant first. -/
def word16 (b1 b0 : Byte) : BitVec 16 := b1 ++ b0

/-- The 32-bit word with the given bytes, most significant first. -/
def word32 (b3 b2 b1 b0 : Byte) : BitVec 32 := b3 ++ b2 ++ b1 ++ b0

/-- The low byte of a 16-bit word. -/
def lowByte (v : BitVec 16) : Byte := v.extractLsb' 0 8

/-- The high byte of a 16-bit word. -/
def highByte (v : BitVec 16) : Byte := v.extractLsb' 8 8

private theorem toNat_append_byte {n : ℕ} (hi : BitVec n) (lo : Byte) :
    (hi ++ lo).toNat = hi.toNat * 256 + lo.toNat := by
  rw [BitVec.toNat_append, ← Nat.shiftLeft_add_eq_or_of_lt lo.isLt, Nat.shiftLeft_eq]

theorem toNat_word16 (b1 b0 : Byte) : (word16 b1 b0).toNat = b1.toNat * 256 + b0.toNat :=
  toNat_append_byte b1 b0

theorem toNat_word32 (b3 b2 b1 b0 : Byte) :
    (word32 b3 b2 b1 b0).toNat =
      ((b3.toNat * 256 + b2.toNat) * 256 + b1.toNat) * 256 + b0.toNat := by
  change (b3 ++ b2 ++ b1 ++ b0).toNat = _
  simp only [toNat_append_byte]

/-- The byte of a word that starts at bit `8 * k`. -/
private theorem toNat_extractByte {n : ℕ} (v : BitVec n) (s : ℕ) :
    (v.extractLsb' s 8).toNat = v.toNat / 2 ^ s % 256 := by
  rw [BitVec.extractLsb'_toNat, Nat.shiftRight_eq_div_pow]

theorem toNat_lowByte (v : BitVec 16) : (lowByte v).toNat = v.toNat % 256 := by
  rw [lowByte, toNat_extractByte, pow_zero, Nat.div_one]

theorem toNat_highByte (v : BitVec 16) : (highByte v).toNat = v.toNat / 256 := by
  rw [highByte, toNat_extractByte]
  have := v.isLt
  omega

theorem word16_highByte_lowByte (v : BitVec 16) : word16 (highByte v) (lowByte v) = v := by
  apply BitVec.eq_of_toNat_eq
  rw [toNat_word16, toNat_highByte, toNat_lowByte]
  omega

theorem lowByte_word16 (b1 b0 : Byte) : lowByte (word16 b1 b0) = b0 := by
  apply BitVec.eq_of_toNat_eq
  rw [toNat_lowByte, toNat_word16]
  omega

theorem highByte_word16 (b1 b0 : Byte) : highByte (word16 b1 b0) = b1 := by
  apply BitVec.eq_of_toNat_eq
  rw [toNat_highByte, toNat_word16]
  omega

theorem word32_extractLsb' (v : BitVec 32) :
    word32 (v.extractLsb' 24 8) (v.extractLsb' 16 8) (v.extractLsb' 8 8) (v.extractLsb' 0 8) =
      v := by
  apply BitVec.eq_of_toNat_eq
  simp only [toNat_word32, BitVec.extractLsb'_toNat, Nat.shiftRight_eq_div_pow, Nat.reducePow,
    Nat.div_one]
  have := v.isLt
  omega

/-- Swap the two bytes of a 16-bit word; `ntohs` and `htons` on a little-endian host. -/
def ntohs (v : BitVec 16) : BitVec 16 := word16 (lowByte v) (highByte v)

/-- Reverse the four bytes of a 32-bit word; `ntohl` and `htonl` on a little-endian host. -/
def ntohl (v : BitVec 32) : BitVec 32 :=
  word32 (v.extractLsb' 0 8) (v.extractLsb' 8 8) (v.extractLsb' 16 8) (v.extractLsb' 24 8)

theorem ntohs_word16 (b1 b0 : Byte) : ntohs (word16 b1 b0) = word16 b0 b1 := by
  apply BitVec.eq_of_toNat_eq
  have h1 := b1.isLt
  have h0 := b0.isLt
  rw [ntohs, toNat_word16, toNat_word16, toNat_lowByte, toNat_highByte, toNat_word16]
  omega

/-- The four bytes of a 32-bit word. -/
private theorem extractByte_word32 (b3 b2 b1 b0 : Byte) :
    (word32 b3 b2 b1 b0).extractLsb' 0 8 = b0 ∧ (word32 b3 b2 b1 b0).extractLsb' 8 8 = b1 ∧
      (word32 b3 b2 b1 b0).extractLsb' 16 8 = b2 ∧
      (word32 b3 b2 b1 b0).extractLsb' 24 8 = b3 := by
  have h3 := b3.isLt
  have h2 := b2.isLt
  have h1 := b1.isLt
  have h0 := b0.isLt
  refine ⟨?_, ?_, ?_, ?_⟩ <;>
  · apply BitVec.eq_of_toNat_eq
    rw [toNat_extractByte, toNat_word32]
    omega

theorem ntohl_word32 (b3 b2 b1 b0 : Byte) :
    ntohl (word32 b3 b2 b1 b0) = word32 b0 b1 b2 b3 := by
  obtain ⟨h0, h1, h2, h3⟩ := extractByte_word32 b3 b2 b1 b0
  rw [ntohl, h0, h1, h2, h3]

namespace Block

variable {n m : ℕ}

/-- The byte at index `i`; reads past the object return `0` and are never relied on. -/
def get (b : Block n) (i : ℕ) : Byte := if h : i < n then b ⟨i, h⟩ else 0

theorem get_of_lt (b : Block n) {i : ℕ} (h : i < n) : b.get i = b ⟨i, h⟩ := by
  simp [get, h]

/-- Blocks that agree byte by byte are equal. -/
theorem ext_get {b b' : Block n} (h : ∀ i < n, b.get i = b'.get i) : b = b' := by
  funext i
  have hi := h i i.isLt
  rwa [get_of_lt b i.isLt, get_of_lt b' i.isLt] at hi

/-- The `len` bytes from `off` on. -/
def slice (b : Block n) (off len : ℕ) : List Byte :=
  (List.range len).map fun i => b.get (off + i)

@[simp]
theorem length_slice (b : Block n) (off len : ℕ) : (b.slice off len).length = len := by
  simp [slice]

theorem getElem_slice (b : Block n) (off len i : ℕ) (h : i < (b.slice off len).length) :
    (b.slice off len)[i] = b.get (off + i) := by
  simp [slice]

/-- Two slices agree when the blocks agree byte by byte. -/
theorem slice_congr {b : Block n} {b' : Block m} {off off' len : ℕ}
    (h : ∀ i < len, b.get (off + i) = b'.get (off' + i)) :
    b.slice off len = b'.slice off' len := by
  apply List.map_congr_left
  intro i hi
  exact h i (List.mem_range.mp hi)

/-- A slice is the list `l` when it holds the bytes of `l` one by one. -/
theorem slice_eq_iff {b : Block n} {off : ℕ} {l : List Byte} {len : ℕ} (hlen : l.length = len) :
    b.slice off len = l ↔ ∀ i < len, b.get (off + i) = l.getD i 0 := by
  constructor
  · rintro rfl i hi
    rw [List.getD_eq_getElem?_getD, List.getElem?_eq_getElem (by rwa [length_slice]),
      Option.getD_some, getElem_slice]
  · intro h
    apply List.ext_getElem (by rw [length_slice, hlen])
    intro i hi hi'
    rw [getElem_slice, h i (hlen ▸ hi'), List.getD_eq_getElem?_getD, List.getElem?_eq_getElem hi',
      Option.getD_some]

/-- A slice splits at any length. -/
theorem slice_add (b : Block n) (off len len' : ℕ) :
    b.slice off (len + len') = b.slice off len ++ b.slice (off + len) len' := by
  rw [slice, List.range_add, List.map_append, List.map_map]
  congr 1
  apply List.map_congr_left
  intro i _
  simp [Nat.add_assoc]

/-- Overwrite the block with the bytes of `l` from `off` on; bytes past the block are lost. -/
def write (b : Block n) (off : ℕ) (l : List Byte) : Block n :=
  fun i => if off ≤ i.val then l.getD (i.val - off) (b i) else b i

theorem get_write (b : Block n) (off : ℕ) (l : List Byte) {i : ℕ} (hi : i < n) :
    (b.write off l).get i = if off ≤ i then l.getD (i - off) (b.get i) else b.get i := by
  simp [get, write, hi]

theorem get_write_of_mem (b : Block n) {off : ℕ} {l : List Byte} {i : ℕ} (hi : i < n)
    (hoff : off ≤ i) (hlt : i - off < l.length) :
    (b.write off l).get i = l[i - off] := by
  rw [get_write b off l hi, if_pos hoff]
  simp [List.getD_eq_getElem?_getD, hlt]

theorem get_write_of_notMem (b : Block n) {off : ℕ} {l : List Byte} {i : ℕ}
    (h : i < off ∨ off + l.length ≤ i) : (b.write off l).get i = b.get i := by
  unfold get
  split
  · simp only [write]
    split
    · rw [List.getD_eq_getElem?_getD, List.getElem?_eq_none (by omega), Option.getD_none]
    · rfl
  · rfl

/-- Overwrite `len` bytes of `dst` from `dstOff` on with the bytes of `src` from `srcOff`. -/
def copy (dst : Block n) (dstOff : ℕ) (src : Block m) (srcOff len : ℕ) : Block n :=
  fun i => if dstOff ≤ i.val ∧ i.val < dstOff + len then src.get (srcOff + (i.val - dstOff))
    else dst i

theorem get_copy (dst : Block n) (dstOff : ℕ) (src : Block m) (srcOff len : ℕ) {i : ℕ}
    (hi : i < n) :
    (dst.copy dstOff src srcOff len).get i =
      if dstOff ≤ i ∧ i < dstOff + len then src.get (srcOff + (i - dstOff)) else dst.get i := by
  simp [get, copy, hi]

theorem get_copy_of_notMem (dst : Block n) (dstOff : ℕ) (src : Block m) (srcOff len : ℕ)
    {i : ℕ} (h : i < dstOff ∨ dstOff + len ≤ i) :
    (dst.copy dstOff src srcOff len).get i = dst.get i := by
  unfold get
  split
  · simp only [copy]
    rw [if_neg (by omega)]
  · rfl

@[simp]
theorem copy_zero (dst : Block n) (dstOff : ℕ) (src : Block m) (srcOff : ℕ) :
    dst.copy dstOff src srcOff 0 = dst := by
  funext i
  simp only [copy]
  rw [if_neg (by omega)]

/-- Appending a copy right after a prefix extends the prefix by the copied slice. -/
theorem slice_copy_append (dst : Block n) (src : Block m) (srcOff len b : ℕ)
    (h : b + len ≤ n) :
    (dst.copy b src srcOff len).slice 0 (b + len) = dst.slice 0 b ++ src.slice srcOff len := by
  rw [slice_add]
  congr 1
  · -- before `b` nothing is overwritten
    apply slice_congr
    intro i hi
    exact get_copy_of_notMem _ _ _ _ _ (by omega)
  · -- from `b` on lie the copied bytes
    apply slice_congr
    intro i hi
    rw [get_copy _ _ _ _ _ (by omega), if_pos (by omega)]
    congr 1
    omega

/-- A copy changes at most as many bytes as it copies. -/
theorem card_changed_copy_le (dst : Block n) (dstOff : ℕ) (src : Block m) (srcOff len : ℕ) :
    (Finset.univ.filter fun i => dst.copy dstOff src srcOff len i ≠ dst i).card ≤ len := by
  have hmem : ∀ i ∈ Finset.univ.filter fun i => dst.copy dstOff src srcOff len i ≠ dst i,
      i.val ∈ Finset.Ico dstOff (dstOff + len) := by
    intro i hi
    rw [Finset.mem_filter] at hi
    by_contra hout
    rw [Finset.mem_Ico] at hout
    exact hi.2 (if_neg hout)
  calc (Finset.univ.filter fun i => dst.copy dstOff src srcOff len i ≠ dst i).card
      ≤ (Finset.Ico dstOff (dstOff + len)).card :=
        Finset.card_le_card_of_injOn Fin.val hmem Fin.val_injective.injOn
    _ = len := by rw [Nat.card_Ico, Nat.add_sub_cancel_left]

/-- Two copies to disjoint places, from sources that may differ with the order, commute exactly
when each copies the same bytes in both orders. -/
theorem copy_copy_eq_iff {src src' t t' : Block m} {a b s s' len len' : ℕ} (dst : Block n)
    (hdisj : a + len ≤ b ∨ b + len' ≤ a) (ha : a + len ≤ n)
    (hb : b + len' ≤ n) :
    (dst.copy a src s len).copy b src' s' len' = (dst.copy b t' s' len').copy a t s len ↔
      (∀ j < len, src.get (s + j) = t.get (s + j)) ∧
        ∀ j < len', src'.get (s' + j) = t'.get (s' + j) := by
  constructor
  · intro h
    refine ⟨fun j hj => ?_, fun j hj => ?_⟩
    · have hget := congrArg (Block.get · (a + j)) h
      rw [get_copy_of_notMem _ _ _ _ _ (by omega), get_copy _ _ _ _ _ (by omega),
        if_pos (by omega), get_copy _ _ _ _ _ (by omega), if_pos (by omega)] at hget
      rwa [Nat.add_sub_cancel_left] at hget
    · have hget := congrArg (Block.get · (b + j)) h
      rw [get_copy _ _ _ _ _ (by omega), if_pos (by omega),
        get_copy_of_notMem _ a _ _ _ (by omega), get_copy _ _ _ _ _ (by omega),
        if_pos (by omega)] at hget
      rwa [Nat.add_sub_cancel_left] at hget
  · rintro ⟨hsrc, hsrc'⟩
    apply ext_get
    intro i hi
    rw [get_copy _ _ _ _ _ hi, get_copy _ _ _ _ _ hi, get_copy _ _ _ _ _ hi,
      get_copy _ _ _ _ _ hi]
    -- `i` lies in the first range, in the second or in none
    by_cases hia : a ≤ i ∧ i < a + len
    · rw [if_neg (by omega), if_pos hia, if_pos hia, hsrc _ (by omega)]
    · rw [if_neg hia, if_neg hia]
      by_cases hib : b ≤ i ∧ i < b + len'
      · rw [if_pos hib, if_pos hib, hsrc' _ (by omega)]
      · rw [if_neg hib, if_neg hib]

/-- `memcpy` between two distinct objects. -/
def memcpy (dst : Block n) (dstOff : ℤ) (src : Block m) (srcOff : ℤ) (len : ℕ) :
    Outcome (Block n) :=
  if len = 0 then .ok dst
  else if 0 ≤ dstOff ∧ dstOff + len ≤ n ∧ 0 ≤ srcOff ∧ srcOff + len ≤ m then
    .ok (dst.copy dstOff.toNat src srcOff.toNat len)
  else .undefined

/-- A copy is inside both objects: nothing is copied, or both ranges fit. -/
def CopyFits (n m : ℕ) (dstOff srcOff : ℤ) (len : ℕ) : Prop :=
  len = 0 ∨ (0 ≤ dstOff ∧ dstOff + len ≤ n ∧ 0 ≤ srcOff ∧ srcOff + len ≤ m)

instance (n m : ℕ) (dstOff srcOff : ℤ) (len : ℕ) :
    Decidable (CopyFits n m dstOff srcOff len) := by
  unfold CopyFits
  infer_instance

/-- A copy inside both objects completes. -/
theorem memcpy_of_fits {dst : Block n} {dstOff : ℤ} {src : Block m} {srcOff : ℤ} {len : ℕ}
    (h : CopyFits n m dstOff srcOff len) :
    dst.memcpy dstOff src srcOff len = .ok (dst.copy dstOff.toNat src srcOff.toNat len) := by
  rcases h with rfl | h
  · -- a copy of no bytes is the identity wherever it points
    simp [memcpy]
  · by_cases hlen : len = 0
    · subst hlen
      simp [memcpy]
    · rw [memcpy, if_neg hlen, if_pos h]

/-- A copy that leaves one of the objects is undefined. -/
theorem memcpy_of_not_fits {dst : Block n} {dstOff : ℤ} {src : Block m} {srcOff : ℤ} {len : ℕ}
    (h : ¬CopyFits n m dstOff srcOff len) : dst.memcpy dstOff src srcOff len = .undefined := by
  rw [CopyFits, not_or] at h
  rw [memcpy, if_neg h.1, if_neg h.2]

/-- A copy does not end the process. -/
theorem memcpy_ne_exit (dst : Block n) (dstOff : ℤ) (src : Block m) (srcOff : ℤ) (len : ℕ) :
    dst.memcpy dstOff src srcOff len ≠ .exit := by
  by_cases h : CopyFits n m dstOff srcOff len
  · simp [memcpy_of_fits h]
  · simp [memcpy_of_not_fits h]

theorem memcpy_ne_undefined_iff {dst : Block n} {dstOff : ℤ} {src : Block m} {srcOff : ℤ}
    {len : ℕ} : dst.memcpy dstOff src srcOff len ≠ .undefined ↔ CopyFits n m dstOff srcOff len := by
  by_cases h : CopyFits n m dstOff srcOff len
  · simp [memcpy_of_fits h, h]
  · simp [memcpy_of_not_fits h, h]

theorem memcpy_eq_ok_iff {dst dst' : Block n} {dstOff : ℤ} {src : Block m} {srcOff : ℤ}
    {len : ℕ} :
    dst.memcpy dstOff src srcOff len = .ok dst' ↔
      CopyFits n m dstOff srcOff len ∧ dst' = dst.copy dstOff.toNat src srcOff.toNat len := by
  by_cases h : CopyFits n m dstOff srcOff len
  · rw [memcpy_of_fits h, Outcome.ok.injEq]
    exact ⟨fun heq => ⟨h, heq.symm⟩, fun heq => heq.2.symm⟩
  · simp [memcpy_of_not_fits h, h]

/-- A copy inside both objects changes nothing exactly when the bytes are already there. -/
theorem memcpy_eq_self_iff {dst : Block n} {dstOff : ℤ} {src : Block m} {srcOff : ℤ} {len : ℕ} :
    dst.memcpy dstOff src srcOff len = .ok dst ↔ CopyFits n m dstOff srcOff len ∧
      ∀ j < len, dst.get (dstOff.toNat + j) = src.get (srcOff.toNat + j) := by
  rw [memcpy_eq_ok_iff]
  refine and_congr_right fun hfit => ⟨fun heq j hj => ?_, fun hbytes => ext_get fun i hi => ?_⟩
  · have hget := congrArg (get · (dstOff.toNat + j)) heq
    rw [CopyFits] at hfit
    rwa [get_copy _ _ _ _ _ (by omega), if_pos (by omega), Nat.add_sub_cancel_left] at hget
  · rw [get_copy _ _ _ _ _ hi]
    split
    next hin =>
      obtain ⟨j, rfl⟩ := Nat.exists_eq_add_of_le hin.1
      rw [hbytes j (by omega), Nat.add_sub_cancel_left]
    next => rfl

/-- A copy depends on the source bytes it reads only. -/
theorem memcpy_congr {dst : Block n} {dstOff : ℤ} {src src' : Block m} {srcOff len : ℕ}
    (h : CopyFits n m dstOff srcOff len → ∀ i < len, src.get (srcOff + i) = src'.get (srcOff + i)) :
    dst.memcpy dstOff src srcOff len = dst.memcpy dstOff src' srcOff len := by
  by_cases hfit : CopyFits n m dstOff srcOff len
  · rw [memcpy_of_fits hfit, memcpy_of_fits hfit, Outcome.ok.injEq]
    funext i
    simp only [copy, Int.toNat_natCast]
    split
    · exact h hfit _ (by omega)
    · rfl
  · rw [memcpy_of_not_fits hfit, memcpy_of_not_fits hfit]

/-- Copies to disjoint ranges can be made in either order. -/
theorem memcpy_memcpy_of_disjoint {k : ℕ} (dst : Block n) {a b s t : ℤ} {len len' : ℕ}
    {src : Block m} {src' : Block k} (h : a + len ≤ b ∨ b + len' ≤ a) :
    (dst.memcpy a src s len >>= fun dst => dst.memcpy b src' t len') =
      dst.memcpy b src' t len' >>= fun dst => dst.memcpy a src s len := by
  by_cases hfit : CopyFits n m a s len <;> by_cases hfit' : CopyFits n k b t len'
  · rw [memcpy_of_fits hfit, memcpy_of_fits hfit', Outcome.ok_bind, Outcome.ok_bind,
      memcpy_of_fits hfit, memcpy_of_fits hfit', Outcome.ok.injEq]
    rw [CopyFits] at hfit hfit'
    apply ext_get
    intro i hi
    rw [get_copy _ _ _ _ _ hi, get_copy _ _ _ _ _ hi, get_copy _ _ _ _ _ hi,
      get_copy _ _ _ _ _ hi]
    -- no byte lies in both ranges
    by_cases hia : a.toNat ≤ i ∧ i < a.toNat + len
    · rw [if_neg (by omega), if_pos hia, if_pos hia]
    · rw [if_neg hia, if_neg hia]
  · rw [memcpy_of_fits hfit, memcpy_of_not_fits hfit', Outcome.ok_bind,
      Outcome.undefined_bind, memcpy_of_not_fits hfit']
  · rw [memcpy_of_not_fits hfit, memcpy_of_fits hfit', Outcome.ok_bind,
      Outcome.undefined_bind, memcpy_of_not_fits hfit]
  · rw [memcpy_of_not_fits hfit, memcpy_of_not_fits hfit']
    rfl

/-- The index of the first NUL byte. -/
def strlen (b : Block n) : Option ℕ := (List.range n).find? fun i => b.get i = 0

/-- `strcpy` of the string at the start of `src` to `dst` at `dstOff`: the bytes up to and
including the first NUL. It is undefined when `src` holds no NUL or the copy leaves `dst`. -/
def strcpy (dst : Block n) (dstOff : ℕ) (src : Block m) : Outcome (Block n) :=
  match src.strlen with
  | none => .undefined
  | some len => dst.memcpy dstOff src 0 (len + 1)

/-! ### Words in memory -/

/-- The little-endian 16-bit word at `off`. -/
def load16 (b : Block n) (off : ℕ) : BitVec 16 := word16 (b.get (off + 1)) (b.get off)

/-- The little-endian 32-bit word at `off`. -/
def load32 (b : Block n) (off : ℕ) : BitVec 32 :=
  word32 (b.get (off + 3)) (b.get (off + 2)) (b.get (off + 1)) (b.get off)

/-- Store a 16-bit word little-endian at `off`. -/
def store16 (b : Block n) (off : ℕ) (v : BitVec 16) : Block n :=
  b.write off [lowByte v, highByte v]

/-- Store a 32-bit word little-endian at `off`. -/
def store32 (b : Block n) (off : ℕ) (v : BitVec 32) : Block n :=
  b.write off [v.extractLsb' 0 8, v.extractLsb' 8 8, v.extractLsb' 16 8, v.extractLsb' 24 8]

/-- A 16-bit word depends on its two bytes only. -/
theorem load16_congr {b : Block n} {b' : Block m} {off : ℕ}
    (h : ∀ i < 2, b.get (off + i) = b'.get (off + i)) : b.load16 off = b'.load16 off := by
  have h0 : b.get off = b'.get off := h 0 (by decide)
  rw [load16, load16, h0, h 1 (by decide)]

/-- A 32-bit word depends on its four bytes only. -/
theorem load32_congr {b : Block n} {b' : Block m} {off : ℕ}
    (h : ∀ i < 4, b.get (off + i) = b'.get (off + i)) : b.load32 off = b'.load32 off := by
  have h0 : b.get off = b'.get off := h 0 (by decide)
  rw [load32, load32, h0, h 1 (by decide), h 2 (by decide), h 3 (by decide)]

/-- A network-order 16-bit field has its most significant byte first. -/
theorem ntohs_load16 (b : Block n) (off : ℕ) :
    ntohs (b.load16 off) = word16 (b.get off) (b.get (off + 1)) :=
  ntohs_word16 _ _

/-- A network-order 32-bit field has its most significant byte first. -/
theorem ntohl_load32 (b : Block n) (off : ℕ) :
    ntohl (b.load32 off) =
      word32 (b.get off) (b.get (off + 1)) (b.get (off + 2)) (b.get (off + 3)) :=
  ntohl_word32 _ _ _ _

end Block

end CSemantics
