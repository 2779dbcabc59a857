import PiPixelController.Acn.Encode
import PiPixelController.Zcpp.Encode

/-!
# Building data packets

A source sends the bytes of a frame in data packets: 15 bytes of header with the address and the
length, most significant byte first, and the data. `DataPacket.encode` builds the packet that
stores the given bytes at the given address, and `sourcePackets` cuts a frame into packets of a
given size.
-/

namespace PiPixelController

open CSemantics WriteLog

namespace DataPacket

/-- The bytes in front of the data. -/
def encodeHeader (address : BitVec 32) (length : BitVec 16) : List Byte :=
  Zcpp.token ++ [0x14, 0, 0, 0] ++ bigEndian address ++ [highByte length, lowByte length, 0]

theorem length_encodeHeader (address : BitVec 32) (length : BitVec 16) :
    (encodeHeader address length).length = 15 := rfl

/-- The datagram of a data packet. -/
def encodeDatagram (address : BitVec 32) (bytes : List Byte) (h : bytes.length ≤ 1485) :
    Datagram where
  bytes := encodeHeader address (BitVec.ofNat 16 bytes.length) ++ bytes
  length_le := by
    rw [List.length_append, length_encodeHeader]
    omega

section

variable {address : BitVec 32} {bytes : List Byte} {h : bytes.length ≤ 1485}

theorem eth_get_header {i : ℕ} (hi : i < 15) :
    (encodeDatagram address bytes h).eth.get i =
      (encodeHeader address (BitVec.ofNat 16 bytes.length)).getD i 0 := by
  rw [Datagram.eth_get, encodeDatagram]
  exact List.getD_append _ _ _ _ hi

theorem eth_get_data (j : ℕ) :
    (encodeDatagram address bytes h).eth.get (15 + j) = bytes.getD j 0 := by
  rw [Datagram.eth_get, encodeDatagram, List.getD_append_right _ _ _ _ (by
    rw [length_encodeHeader]; omega), length_encodeHeader, Nat.add_sub_cancel_left]

theorem frameAddress_encodeDatagram :
    Zcpp.frameAddress (encodeDatagram address bytes h).eth = address := by
  rw [Zcpp.frameAddress, Block.ntohl_load32]
  simp only [Nat.reduceAdd, eth_get_header (show 8 < 15 by decide),
    eth_get_header (show 9 < 15 by decide), eth_get_header (show 10 < 15 by decide),
    eth_get_header (show 11 < 15 by decide)]
  exact word32_extractLsb' address

theorem packetDataLength_encodeDatagram :
    (Zcpp.packetDataLength (encodeDatagram address bytes h).eth).toNat = bytes.length := by
  rw [Zcpp.packetDataLength, Block.ntohs_load16, eth_get_header (by decide),
    eth_get_header (by decide)]
  change (word16 (highByte _) (lowByte _)).toNat = _
  rw [word16_highByte_lowByte, BitVec.toNat_ofNat]
  omega

end

/-- The packet that stores the bytes from the address on. -/
def encode (address : ℕ) (bytes : List Byte) (hin : address + bytes.length ≤ 24576)
    (hlen : bytes.length ≤ 1485) : DataPacket where
  datagram := encodeDatagram (BitVec.ofNat 32 address) bytes hlen
  token := by
    rw [Zcpp.tokenMatches_iff]
    intro i hi
    rw [eth_get_header (by omega), encodeHeader, List.append_assoc, List.append_assoc]
    exact List.getD_append _ _ _ _ hi
  type := eth_get_header (by decide)
  inRange := by
    rw [frameAddress_encodeDatagram, packetDataLength_encodeDatagram, BitVec.toNat_ofNat]
    omega
  complete := by
    rw [packetDataLength_encodeDatagram, encodeDatagram, List.length_append, length_encodeHeader]

/-- The controller reads the address and the bytes back. -/
theorem patch_encode {address : ℕ} {bytes : List Byte} {hin : address + bytes.length ≤ 24576}
    {hlen : bytes.length ≤ 1485} :
    (encode address bytes hin hlen).patch = rangePatch address bytes := by
  have haddress : (encode address bytes hin hlen).address = address := by
    rw [DataPacket.address, encode, frameAddress_encodeDatagram, BitVec.toNat_ofNat]
    omega
  have hdata : (encode address bytes hin hlen).data = bytes := by
    rw [DataPacket.data, Block.slice_eq_iff (by rw [encode, packetDataLength_encodeDatagram])]
    intro j _
    exact eth_get_data (h := hlen) j
  rw [DataPacket.patch, haddress, hdata]

end DataPacket

/-! ### A frame in packets -/

/-- The bytes of a frame from `first` on, at most `size` of them and none from `n` on. -/
def chunk (content : ℕ → Byte) (n size first : ℕ) : List Byte :=
  (List.range (min size (n - first))).map fun j => content (first + j)

@[simp]
theorem length_chunk (content : ℕ → Byte) (n size first : ℕ) :
    (chunk content n size first).length = min size (n - first) := by
  rw [chunk, List.length_map, List.length_range]

/-- A chunk stores the bytes of the frame. -/
theorem rangePatch_chunk (content : ℕ → Byte) (n size first i : ℕ) :
    rangePatch first (chunk content n size first) i =
      if first ≤ i ∧ i < first + size ∧ i < n then some (content i) else none := by
  rw [rangePatch]
  by_cases hfirst : first ≤ i
  · rw [if_pos hfirst]
    -- the last chunk of a frame may be shorter than `size`
    by_cases hi : i < first + size ∧ i < n
    · rw [if_pos ⟨hfirst, hi⟩, List.getElem?_eq_getElem (by rw [length_chunk]; omega)]
      simp only [chunk, List.getElem_map, List.getElem_range, Nat.add_sub_cancel' hfirst]
    · rw [if_neg fun h => hi h.2, List.getElem?_eq_none (by rw [length_chunk]; omega)]
  · rw [if_neg hfirst, if_neg fun h => hfirst h.1]

/-- The number of packets of `size` bytes that `n` bytes need. -/
def packetCount (n size : ℕ) : ℕ := (n + size - 1) / size

theorem mul_le_of_lt_packetCount {n size k : ℕ} (h : k < packetCount n size) : size * k ≤ n := by
  have hle := Nat.mul_le_of_le_div _ _ _ (Nat.succ_le_of_lt h)
  rw [Nat.succ_mul, Nat.mul_comm] at hle
  omega

theorem div_lt_packetCount {n size i : ℕ} (hsize : 0 < size) (hi : i < n) :
    i / size < packetCount n size := by
  rw [packetCount, Nat.lt_div_iff_mul_lt hsize]
  have hle := Nat.div_mul_le_self i size
  omega

/-- The first `n` bytes of a frame in packets of `size` bytes. -/
def sourcePackets (content : ℕ → Byte) {n size : ℕ} (hn : n ≤ 24576) (hsize : size ≤ 1485) :
    List DataPacket :=
  (List.finRange (packetCount n size)).map fun k =>
    DataPacket.encode (size * k.val) (chunk content n size (size * k.val))
      (by
        have hk := mul_le_of_lt_packetCount k.isLt
        rw [length_chunk]
        omega)
      (by
        rw [length_chunk]
        omega)

section

variable {content : ℕ → Byte} {n size : ℕ} {hn : n ≤ 24576} {hsize : size ≤ 1485}

/-- Every packet stores bytes of the frame at their addresses. -/
theorem patch_sourcePackets {P : DataPacket} (h : P ∈ sourcePackets content hn hsize) {i : ℕ}
    {v : Byte} (hv : P.patch i = some v) : content i = v := by
  obtain ⟨k, -, rfl⟩ := List.mem_map.mp h
  rw [DataPacket.patch_encode, rangePatch_chunk] at hv
  split at hv
  · exact Option.some.inj hv
  · cases hv

/-- Every byte of the frame is in a packet. -/
theorem exists_mem_sourcePackets (hpos : 0 < size) {i : ℕ} (hi : i < n) :
    ∃ P ∈ sourcePackets content hn hsize, P.patch i = some (content i) := by
  refine ⟨_, List.mem_map_of_mem (List.mem_finRange ⟨_, div_lt_packetCount hpos hi⟩), ?_⟩
  have hdiv := Nat.div_add_mod i size
  have hmod := Nat.mod_lt i hpos
  rw [DataPacket.patch_encode, rangePatch_chunk, if_pos]
  simp only
  omega

end

end PiPixelController
