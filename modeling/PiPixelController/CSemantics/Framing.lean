import Mathlib.Data.List.SplitLengths
import PiPixelController.CSemantics.Memory

/-!
# Length-prefixed frames

A frame of `k` blocks is a header of `k` little-endian 16-bit lengths followed by the
concatenation of the blocks. A receiver reads the header and cuts what follows at the lengths;
it accepts a frame only if the lengths account for every byte.

Main results:

* `decode_encode` — blocks of less than `2 ^ 16` bytes are read back;
* `encode_of_decode` — every frame a receiver accepts is the frame of what it reads;
* `decode_header_append` — what a receiver makes of any header and body.
-/

namespace CSemantics.Framing

/-- The header with the given lengths. -/
def header (lengths : List (BitVec 16)) : List Byte :=
  lengths.flatMap fun v => [lowByte v, highByte v]

/-- Read `k` lengths; the remaining bytes are returned with them. -/
def readHeader : ℕ → List Byte → Option (List (BitVec 16) × List Byte)
  | 0, bytes => some ([], bytes)
  | k + 1, b0 :: b1 :: bytes =>
      (readHeader k bytes).map fun (lengths, body) => (word16 b1 b0 :: lengths, body)
  | _ + 1, _ => none

/-- Cut a frame of `k` blocks. -/
def decode (k : ℕ) (bytes : List Byte) : Option (List (List Byte)) :=
  (readHeader k bytes).bind fun (lengths, body) =>
    if (lengths.map BitVec.toNat).sum = body.length then
      some ((lengths.map BitVec.toNat).splitLengths body)
    else none

/-- The frame of the given blocks. -/
def encode (blocks : List (List Byte)) : List Byte :=
  header (blocks.map fun block => BitVec.ofNat 16 block.length) ++ blocks.flatten

theorem header_cons (v : BitVec 16) (lengths : List (BitVec 16)) :
    header (v :: lengths) = lowByte v :: highByte v :: header lengths := rfl

/-- The header written is the header read. -/
theorem readHeader_header_append (lengths : List (BitVec 16)) (body : List Byte) :
    readHeader lengths.length (header lengths ++ body) = some (lengths, body) := by
  -- with the body behind it, since `readHeader` returns what it leaves
  induction lengths with
  | nil => rfl
  | cons v lengths ih =>
      rw [header_cons, List.length_cons, List.cons_append, List.cons_append, readHeader, ih,
        Option.map_some, word16_highByte_lowByte]

/-- A receiver accepts a header and a body exactly when the lengths sum to the length of the
body, and cuts the body at the lengths. -/
theorem decode_header_append (lengths : List (BitVec 16)) (body : List Byte) :
    decode lengths.length (header lengths ++ body) =
      if (lengths.map BitVec.toNat).sum = body.length then
        some ((lengths.map BitVec.toNat).splitLengths body)
      else none := by
  rw [decode, readHeader_header_append, Option.bind_some]

/-- Cutting a concatenation at the lengths of its blocks returns the blocks. -/
theorem splitLengths_flatten (blocks : List (List Byte)) :
    (blocks.map List.length).splitLengths blocks.flatten = blocks := by
  induction blocks with
  | nil => rfl
  | cons block blocks ih =>
      rw [List.map_cons, List.flatten_cons, List.splitLengths_cons, List.take_left,
        List.drop_left, ih]

/-- A frame of blocks whose lengths fit in the header is read back. -/
theorem decode_encode {blocks : List (List Byte)} (h : ∀ block ∈ blocks, block.length < 2 ^ 16) :
    decode blocks.length (encode blocks) = some blocks := by
  -- no length is truncated by the 16 bits of the header
  have hlengths : (blocks.map fun block => BitVec.ofNat 16 block.length).map BitVec.toNat =
      blocks.map List.length := by
    rw [List.map_map]
    apply List.map_congr_left
    intro block hblock
    exact Nat.mod_eq_of_lt (h block hblock)
  have hdecode := decode_header_append
    (blocks.map fun block => BitVec.ofNat 16 block.length) blocks.flatten
  rw [List.length_map, hlengths, if_pos List.length_flatten.symm, splitLengths_flatten] at hdecode
  exact hdecode

theorem readHeader_eq_some {k : ℕ} {bytes body : List Byte} {lengths : List (BitVec 16)}
    (h : readHeader k bytes = some (lengths, body)) :
    bytes = header lengths ++ body ∧ lengths.length = k := by
  induction k generalizing bytes lengths with
  | zero =>
      rw [readHeader, Option.some.injEq, Prod.mk.injEq] at h
      obtain ⟨rfl, rfl⟩ := h
      exact ⟨rfl, rfl⟩
  | succ k ih =>
      match bytes, h with
      | b0 :: b1 :: rest, h =>
          rw [readHeader, Option.map_eq_some_iff] at h
          obtain ⟨⟨lengths', body'⟩, hread, heq⟩ := h
          obtain ⟨rfl, rfl⟩ := Prod.mk.inj heq
          obtain ⟨rfl, rfl⟩ := ih hread
          refine ⟨?_, rfl⟩
          rw [header_cons, lowByte_word16, highByte_word16]
          rfl

/-- A frame that is read is the frame of the blocks it is read as. -/
theorem encode_of_decode {k : ℕ} {bytes : List Byte} {blocks : List (List Byte)}
    (h : decode k bytes = some blocks) : encode blocks = bytes ∧ blocks.length = k := by
  rw [decode, Option.bind_eq_some_iff] at h
  obtain ⟨⟨lengths, body⟩, hread, h⟩ := h
  obtain ⟨rfl, rfl⟩ := readHeader_eq_some hread
  simp only [Option.ite_none_right_eq_some, Option.some.injEq] at h
  obtain ⟨hsum, rfl⟩ := h
  have hlengths : ((lengths.map BitVec.toNat).splitLengths body).map List.length =
      lengths.map BitVec.toNat := List.map_splitLengths_length _ _ hsum.le
  refine ⟨?_, by simp⟩
  rw [encode, List.flatten_splitLengths _ _ hsum.ge]
  -- the header holds the lengths of the blocks
  congr 2
  calc ((lengths.map BitVec.toNat).splitLengths body).map
        (fun block => BitVec.ofNat 16 block.length)
    _ = (((lengths.map BitVec.toNat).splitLengths body).map List.length).map
        (BitVec.ofNat 16) := by
        rw [List.map_map]
        rfl
    _ = lengths := by
        rw [hlengths, List.map_map]
        exact List.map_id'' (fun v => by simp) lengths

end CSemantics.Framing
