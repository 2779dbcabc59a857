import Mathlib.Data.List.GetD
import PiPixelController.System.Packets

/-!
# Building ACN packets

A sender for the format the ACN listener reads: the identifier, the universe, the property count
and the slots behind a start code of zero, every other byte of the header zero.
`AcnPacket.encode` builds the packet with the given slots, which the listener accepts when the
universe is in its range. `UniverseLayout.sourcePackets` cuts a frame into packets, one for each
universe.
-/

namespace PiPixelController

open CSemantics

namespace Acn

/-- The bytes in front of the slots. -/
def encodeHeader (univ count : BitVec 16) : List Byte :=
  List.replicate 4 0 ++ identifier ++ List.replicate 99 0 ++ [highByte univ, lowByte univ] ++
    List.replicate 8 0 ++ [highByte count, lowByte count, 0]

theorem length_encodeHeader (univ count : BitVec 16) :
    (encodeHeader univ count).length = 126 := by
  simp [encodeHeader, identifier]

/-- The datagram with the given universe, property count and slots; the count need not be that
of the slots. -/
def encodeDatagram (univ count : BitVec 16) (slots : List Byte) (h : slots.length ≤ 1374) :
    Datagram where
  bytes := encodeHeader univ count ++ slots
  length_le := by
    rw [List.length_append, length_encodeHeader]
    omega

section

variable {univ count : BitVec 16} {slots : List Byte} {h : slots.length ≤ 1374}

theorem length_encodeDatagram :
    (encodeDatagram univ count slots h).bytes.length = 126 + slots.length := by
  rw [encodeDatagram, List.length_append, length_encodeHeader]

theorem eth_get_header {i : ℕ} (hi : i < 126) :
    (encodeDatagram univ count slots h).eth.get i = (encodeHeader univ count).getD i 0 := by
  rw [Datagram.eth_get, encodeDatagram]
  exact List.getD_append _ _ _ _ hi

theorem eth_get_slot (j : ℕ) :
    (encodeDatagram univ count slots h).eth.get (126 + j) = slots.getD j 0 := by
  rw [Datagram.eth_get, encodeDatagram, List.getD_append_right _ _ _ _ (by
    rw [length_encodeHeader]; omega), length_encodeHeader, Nat.add_sub_cancel_left]

theorem identifierMatches_encodeDatagram :
    IdentifierMatches (encodeDatagram univ count slots h).eth := by
  rw [identifierMatches_iff]
  intro i hi
  -- the identifier stands behind four bytes
  rw [eth_get_header (by omega), encodeHeader]
  simp only [List.append_assoc]
  rw [List.getD_append_right _ _ _ _ (by simp), List.length_replicate, Nat.add_sub_cancel_left]
  exact List.getD_append _ _ _ _ hi

theorem getUniverse_encodeDatagram :
    getUniverse (encodeDatagram univ count slots h).eth = univ.toNat := by
  rw [getUniverse, eth_get_header (by decide), eth_get_header (by decide)]
  change ((highByte univ).toNat : ℤ) * 256 + (lowByte univ).toNat = univ.toNat
  rw [toNat_highByte, toNat_lowByte]
  omega

theorem propertyCount_encodeDatagram :
    propertyCount (encodeDatagram univ count slots h).eth = count.toNat := by
  rw [propertyCount, eth_get_header (by decide), eth_get_header (by decide)]
  change ((highByte count).toNat : ℤ) * 256 + (lowByte count).toNat = count.toNat
  rw [toNat_highByte, toNat_lowByte]
  omega

end

end Acn

namespace AcnPacket

/-- The packet that sets the slots of a universe from the first on. -/
def encode {params : AcnParam} (univ : BitVec 16)
    (hrange : Acn.InUniverseRange params univ.toNat) (slots : List Byte)
    (hlen : slots.length ≤ 512) : AcnPacket params where
  datagram := Acn.encodeDatagram univ (BitVec.ofNat 16 (slots.length + 1)) slots (by omega)
  identifier := Acn.identifierMatches_encodeDatagram
  inRange := by rwa [Acn.getUniverse_encodeDatagram]
  one_le := by
    rw [Acn.propertyCount_encodeDatagram, BitVec.toNat_ofNat]
    omega
  le := by
    rw [Acn.propertyCount_encodeDatagram, BitVec.toNat_ofNat]
    omega
  complete := by
    rw [Acn.propertyCount_encodeDatagram, BitVec.toNat_ofNat, Acn.length_encodeDatagram]
    omega

section

variable {params : AcnParam} {univ : BitVec 16}
  {hrange : Acn.InUniverseRange params univ.toNat} {slots : List Byte} {hlen : slots.length ≤ 512}

@[simp]
theorem getUniverse_encode :
    Acn.getUniverse (encode univ hrange slots hlen).datagram.eth = univ.toNat := by
  rw [encode, Acn.getUniverse_encodeDatagram]

@[simp]
theorem propertyCount_encode :
    Acn.propertyCount (encode univ hrange slots hlen).datagram.eth = slots.length + 1 := by
  rw [encode, Acn.propertyCount_encodeDatagram, BitVec.toNat_ofNat]
  omega

/-- Reading back an encoded packet returns its slots. -/
@[simp]
theorem slots_encode : (encode univ hrange slots hlen).slots = slots := by
  have hcount : (Acn.getPropertyCount (encode univ hrange slots hlen).datagram.eth).toNat =
      slots.length := by
    rw [Acn.getPropertyCount, propertyCount_encode]
    omega
  rw [AcnPacket.slots, hcount]
  apply List.ext_getElem (by simp)
  intro j hj hj'
  rw [Block.getElem_slice, encode, Acn.eth_get_slot, List.getD_eq_getElem?_getD,
    List.getElem?_eq_getElem hj', Option.getD_some]

end

/-- The controller reads the universe and the slots back. -/
theorem patch_encode {params : AcnParam} {univ : BitVec 16}
    {hrange : Acn.InUniverseRange params univ.toNat} {slots : List Byte}
    {hlen : slots.length ≤ 512} :
    (encode univ hrange slots hlen).patch =
      rangePatch ((univ.toNat - params.universeStart.toInt) * 512).toNat slots := by
  rw [AcnPacket.patch, slots_encode, AcnPacket.address, getUniverse_encode]

end AcnPacket

/-! ### A frame in universes -/

/-- Universe `k` of the range. -/
def AcnParam.univ (params : AcnParam) (k : ℕ) : BitVec 16 :=
  BitVec.ofNat 16 (params.universeStart.toInt.toNat + k)

/-- How a source spreads a frame over universes of the range, one after the other from the first on;
the universes need not have all their slots in use. -/
structure UniverseLayout (params : AcnParam) where
  count : ℕ
  size : ℕ → ℕ
  size_le : ∀ k, size k ≤ 512
  start_nonneg : 0 ≤ params.universeStart.toInt
  /-- A universe is a field of 16 bits. -/
  start_add_count_le : params.universeStart.toInt + count ≤ 65536
  inRange : params.universeStart.toInt + count ≤ params.universeEnd.toInt + 1

namespace UniverseLayout

variable {params : AcnParam} (L : UniverseLayout params)

/-- The bytes of the frame that the layout transmits: universe `k` has those from `512 * k` on. -/
def addresses : Set ℕ := {i | i / 512 < L.count ∧ i % 512 < L.size (i / 512)}

/-- The slots of universe `k`. -/
def slots (content : ℕ → Byte) (k : ℕ) : List Byte :=
  (List.range (L.size k)).map fun j => content (512 * k + j)

theorem length_slots (content : ℕ → Byte) (k : ℕ) : (L.slots content k).length = L.size k := by
  rw [slots, List.length_map, List.length_range]

variable {L}

theorem toNat_univ {k : ℕ} (hk : k < L.count) :
    ((params.univ k).toNat : ℤ) = params.universeStart.toInt + k := by
  have hstart := L.start_nonneg
  have hcount := L.start_add_count_le
  rw [AcnParam.univ, BitVec.toNat_ofNat]
  omega

theorem inUniverseRange_univ {k : ℕ} (hk : k < L.count) :
    Acn.InUniverseRange params (params.univ k).toNat := by
  have hrange := L.inRange
  rw [toNat_univ hk, Acn.InUniverseRange]
  omega

variable (L)

/-- The packet of universe `k`. -/
def packet (content : ℕ → Byte) (k : Fin L.count) : AcnPacket params :=
  AcnPacket.encode (params.univ k.val) (inUniverseRange_univ k.isLt) (L.slots content k.val)
    ((L.length_slots content k.val).trans_le (L.size_le k.val))

/-- The packets of a frame. -/
def sourcePackets (content : ℕ → Byte) : List (AcnPacket params) :=
  (List.finRange L.count).map (L.packet content)

section

variable {L} {content : ℕ → Byte}

/-- The packet of a universe stores the bytes of the frame at their addresses. -/
theorem patch_packet (k : Fin L.count) (i : ℕ) :
    (L.packet content k).patch i =
      if i / 512 = k.val ∧ i % 512 < L.size k.val then some (content i) else none := by
  have hsize := L.size_le k.val
  have hdiv := Nat.div_add_mod i 512
  have hmod := Nat.mod_lt i (show 0 < 512 by decide)
  -- universe `k` of the range is stored from `512 * k` on
  have haddress : ((((params.univ k.val).toNat : ℤ) - params.universeStart.toInt) * 512).toNat =
      512 * k.val := by
    rw [toNat_univ k.isLt]
    omega
  rw [packet, AcnPacket.patch_encode, haddress, rangePatch]
  by_cases hi : i / 512 = k.val ∧ i % 512 < L.size k.val
  · rw [if_pos hi, if_pos (by omega), List.getElem?_eq_getElem (by rw [length_slots]; omega)]
    simp only [slots, List.getElem_map, List.getElem_range,
      Nat.add_sub_cancel' (show 512 * k.val ≤ i by omega)]
  · rw [if_neg hi]
    split
    · exact List.getElem?_eq_none (by rw [length_slots]; omega)
    · rfl

/-- Every packet stores bytes of the frame at their addresses. -/
theorem patch_sourcePackets {P : AcnPacket params} (h : P ∈ L.sourcePackets content) {i : ℕ}
    {v : Byte} (hv : P.patch i = some v) : content i = v := by
  obtain ⟨k, -, rfl⟩ := List.mem_map.mp h
  rw [patch_packet] at hv
  split at hv
  · exact Option.some.inj hv
  · cases hv

/-- Every byte of the layout is in a packet. -/
theorem exists_mem_sourcePackets {i : ℕ} (hi : i ∈ L.addresses) :
    ∃ P ∈ L.sourcePackets content, P.patch i = some (content i) := by
  refine ⟨_, List.mem_map_of_mem (List.mem_finRange ⟨i / 512, hi.1⟩), ?_⟩
  rw [patch_packet, if_pos ⟨rfl, hi.2⟩]

end

end UniverseLayout

end PiPixelController
