import Mathlib.Data.BitVec
import PiPixelController.Zcpp.Encode
import PiPixelController.Zcpp.PacketSize

/-!
# Fields and packets of `ZCPP.h`

What the header defines besides the packets the handlers look at: the conversions between the
protocol numbers of a configuration and the protocol bits of a discovery response, and packets of
extra data, whose records have lengths of their own.

* `protocol_roundTrip_iff` — the two conversions are inverse for one bit and for numbers below 32,
  and for nothing else;
* `getPacketActualSize_extraData` — the size function walks the records of every packet of extra
  data to its end.
-/

namespace PiPixelController

open CSemantics

namespace Zcpp

/-! ### Protocols -/

/-- The loop of `ZCPP_ConvertDiscoveryProtocolToProtocol`. -/
def countShifts (discoveryProtocol : BitVec 32) (res : Byte) : Byte :=
  if discoveryProtocol = 0 then res else countShifts (discoveryProtocol >>> 1) (res + 1)
termination_by discoveryProtocol.toNat
decreasing_by
  rename_i hne
  have hpos : discoveryProtocol.toNat ≠ 0 := fun h => hne (BitVec.eq_of_toNat_eq h)
  rw [BitVec.toNat_ushiftRight, Nat.shiftRight_one]
  omega

/-- `ZCPP_ConvertDiscoveryProtocolToProtocol`. -/
def convertDiscoveryProtocolToProtocol (discoveryProtocol : BitVec 32) : Byte :=
  -- one shift comes before the loop
  countShifts (discoveryProtocol >>> 1) 0x00

/-- The loop of `ZCPP_ConvertProtocolToDiscoveryProtocol`. -/
def shiftTimes : ℕ → BitVec 32 → BitVec 32
  | 0, res => res
  | protocol + 1, res => shiftTimes protocol (res <<< 1)

/-- `ZCPP_ConvertProtocolToDiscoveryProtocol`. -/
def convertProtocolToDiscoveryProtocol (protocol : Byte) : BitVec 32 :=
  shiftTimes protocol.toNat 0x00000001

/-- `ZCPP_DISCOVERY_PROTOCOL_WS2811`, …, `ZCPP_DISCOVERY_PROTOCOL_LOR`, each with the
`ZCPP_PROTOCOL` of the same name. -/
def protocols : List (BitVec 32 × Byte) :=
  [(0x00000001, 0x00), (0x00000002, 0x01), (0x00000004, 0x02), (0x00000008, 0x03),
    (0x00000010, 0x04), (0x00000020, 0x05), (0x00000040, 0x06), (0x00000080, 0x07),
    (0x00000100, 0x08), (0x00000200, 0x09), (0x00000400, 0x0A), (0x00000800, 0x0B),
    (0x00001000, 0x0C), (0x00002000, 0x0D), (0x00004000, 0x0E), (0x00008000, 0x0F),
    (0x00010000, 0x10), (0x00020000, 0x11), (0x00040000, 0x12), (0x00080000, 0x13)]

/-- Number `n` has bit `n`. -/
theorem protocols_eq :
    protocols = (List.range 20).map fun n => (BitVec.ofNat 32 (2 ^ n), BitVec.ofNat 8 n) := rfl

theorem toNat_half (v : BitVec 32) : (v >>> 1).toNat = v.toNat / 2 := by
  rw [BitVec.toNat_ushiftRight, Nat.shiftRight_one]

theorem half_eq_zero_iff (v : BitVec 32) : v >>> 1 = 0 ↔ ¬2 ≤ v.toNat := by
  have hzero : (0 : BitVec 32).toNat = 0 := rfl
  rw [← BitVec.toNat_inj, toNat_half, hzero]
  omega

theorem log2_toNat_lt (v : BitVec 32) : v.toNat.log2 < 32 := by
  by_cases h : v.toNat = 0
  · rw [h]
    decide
  · exact (Nat.log2_lt h).mpr v.isLt

/-- The loop counts the bits up to the highest one that is set. -/
theorem countShifts_eq (discoveryProtocol : BitVec 32) (res : Byte) :
    countShifts discoveryProtocol res =
      if discoveryProtocol = 0 then res
      else res + BitVec.ofNat 8 (discoveryProtocol.toNat.log2 + 1) := by
  fun_induction countShifts discoveryProtocol res with
  | case1 res => rw [if_pos rfl]
  | case2 discoveryProtocol res hne ih =>
      have hhalf := half_eq_zero_iff discoveryProtocol
      rw [ih, if_neg hne, toNat_half, discoveryProtocol.toNat.log2_def]
      by_cases htwo : 2 ≤ discoveryProtocol.toNat
      · -- the shift takes one off the logarithm
        have hone : (1 : Byte) = BitVec.ofNat 8 1 := rfl
        rw [if_neg (mt hhalf.mp (not_not.mpr htwo)), if_pos htwo, add_assoc, hone,
          ← BitVec.ofNat_add, Nat.add_comm 1]
      · -- the last bit has been shifted out
        rw [if_pos (hhalf.mpr htwo), if_neg htwo]
        rfl

theorem toNat_convertDiscoveryProtocolToProtocol (discoveryProtocol : BitVec 32) :
    (convertDiscoveryProtocolToProtocol discoveryProtocol).toNat =
      discoveryProtocol.toNat.log2 := by
  have hlt := log2_toNat_lt discoveryProtocol
  have hlog := discoveryProtocol.toNat.log2_def
  have hhalf := half_eq_zero_iff discoveryProtocol
  rw [convertDiscoveryProtocolToProtocol, countShifts_eq, toNat_half]
  by_cases htwo : 2 ≤ discoveryProtocol.toNat
  · rw [if_pos htwo] at hlog
    rw [if_neg (mt hhalf.mp (not_not.mpr htwo)), ← hlog, zero_add, BitVec.toNat_ofNat]
    omega
  · rw [if_pos (hhalf.mpr htwo), hlog, if_neg htwo]
    rfl

theorem shiftTimes_eq (n : ℕ) (res : BitVec 32) : shiftTimes n res = res <<< n := by
  induction n generalizing res with
  | zero => rw [shiftTimes, BitVec.shiftLeft_zero]
  | succ n ih => rw [shiftTimes, ih, ← BitVec.shiftLeft_add, Nat.add_comm]

theorem toNat_convertProtocolToDiscoveryProtocol (protocol : Byte) :
    (convertProtocolToDiscoveryProtocol protocol).toNat =
      if protocol.toNat < 32 then 2 ^ protocol.toNat else 0 := by
  rw [convertProtocolToDiscoveryProtocol, shiftTimes_eq, BitVec.toNat_shiftLeft, Nat.shiftLeft_eq]
  change 1 * 2 ^ protocol.toNat % 2 ^ 32 = _
  rw [Nat.one_mul]
  split
  next h => exact Nat.mod_eq_of_lt (Nat.pow_lt_pow_right Nat.one_lt_two h)
  next h => exact Nat.mod_eq_zero_of_dvd (Nat.pow_dvd_pow 2 (not_lt.mp h))

/-- For every bit mask of protocols and every protocol number: converting the mask and back returns
it exactly when one bit is set, converting the number and back exactly when it is below 32; the
protocols the header names are converted to each other. -/
theorem protocol_roundTrip_iff :
    (∀ discoveryProtocol, convertProtocolToDiscoveryProtocol
        (convertDiscoveryProtocolToProtocol discoveryProtocol) = discoveryProtocol ↔
      ∃ n, discoveryProtocol.toNat = 2 ^ n) ∧
    (∀ protocol, convertDiscoveryProtocolToProtocol
        (convertProtocolToDiscoveryProtocol protocol) = protocol ↔ protocol.toNat < 32) ∧
    ∀ row ∈ protocols, convertDiscoveryProtocolToProtocol row.1 = row.2 ∧
      convertProtocolToDiscoveryProtocol row.2 = row.1 := by
  refine ⟨fun discoveryProtocol => ?_, fun protocol => ?_, fun row hrow => ?_⟩
  · rw [← BitVec.toNat_inj, toNat_convertProtocolToDiscoveryProtocol,
      toNat_convertDiscoveryProtocolToProtocol, if_pos (log2_toNat_lt _)]
    constructor
    · exact fun h => ⟨_, h.symm⟩
    · rintro ⟨n, hn⟩
      rw [hn, Nat.log2_two_pow]
  · -- from 32 on all bits are shifted out, and the way back gives 0
    rw [← BitVec.toNat_inj, toNat_convertDiscoveryProtocolToProtocol,
      toNat_convertProtocolToDiscoveryProtocol]
    split
    next h => simpa [Nat.log2_two_pow] using h
    next h =>
      have hzero : Nat.log2 0 = 0 := by decide
      rw [hzero]
      omega
  · rw [protocols_eq] at hrow
    obtain ⟨n, hn, rfl⟩ := List.mem_map.mp hrow
    rw [List.mem_range] at hn
    have hbit : (BitVec.ofNat 32 (2 ^ n)).toNat = 2 ^ n :=
      Nat.mod_eq_of_lt (Nat.pow_lt_pow_right Nat.one_lt_two (by omega))
    have hnumber : (BitVec.ofNat 8 n).toNat = n := Nat.mod_eq_of_lt (by omega)
    constructor
    · apply BitVec.eq_of_toNat_eq
      rw [toNat_convertDiscoveryProtocolToProtocol, hbit, hnumber, Nat.log2_two_pow]
    · apply BitVec.eq_of_toNat_eq
      rw [toNat_convertProtocolToDiscoveryProtocol, hbit, hnumber, if_pos (by omega)]

end Zcpp

/-! ### Extra data -/

/-- `ZCPP_PortExtraData`, with a description of any length the field can hold. -/
structure PortExtraData where
  port : Byte
  string : Byte
  description : List Byte
  /-- `descriptionLength` is a byte. -/
  length_le : description.length ≤ 255

/-- The bytes of a record. -/
def PortExtraData.encode (r : PortExtraData) : List Byte :=
  [r.port, r.string, BitVec.ofNat 8 r.description.length] ++ r.description

theorem PortExtraData.length_encode (r : PortExtraData) :
    r.encode.length = 3 + r.description.length := by
  rw [encode, List.length_append]
  rfl

/-- `ZCPP_ExtraData`: a packet that fits the receive buffer. -/
structure ExtraDataPacket where
  sequenceNumber : BitVec 16
  flags : Byte
  priority : Byte
  records : List PortExtraData
  /-- `ports` is a byte. -/
  records_length_le : records.length ≤ 255
  length_le : 12 + (records.flatMap PortExtraData.encode).length ≤ 1500

namespace ExtraDataPacket

variable (P : ExtraDataPacket)

/-- The bytes in front of the records. -/
def encodeHeader : List Byte :=
  Zcpp.token ++ [0x0B, 0x00, highByte P.sequenceNumber, lowByte P.sequenceNumber, P.flags,
    P.priority, 0, BitVec.ofNat 8 P.records.length]

theorem length_encodeHeader : P.encodeHeader.length = 12 := rfl

def datagram : Datagram where
  bytes := P.encodeHeader ++ P.records.flatMap PortExtraData.encode
  length_le := by
    rw [List.length_append, length_encodeHeader]
    exact P.length_le

/-- The bytes of the first `i` records. -/
def bytesBefore (i : ℕ) : ℕ := ((P.records.take i).flatMap PortExtraData.encode).length

variable {P}

theorem length_datagram : P.datagram.bytes.length = 12 + P.bytesBefore P.records.length := by
  rw [datagram, List.length_append, length_encodeHeader, bytesBefore, List.take_length]

theorem bytesBefore_succ {i : ℕ} (hi : i < P.records.length) :
    P.bytesBefore (i + 1) = P.bytesBefore i + (3 + P.records[i].description.length) := by
  rw [bytesBefore, bytesBefore, List.take_succ_eq_append_getElem hi, List.flatMap_append,
    List.flatMap_singleton, List.length_append, PortExtraData.length_encode]

/-- The datagram holds record `i` behind the records before it. -/
theorem getD_datagram {i j : ℕ} (hi : i < P.records.length) (hj : j < 3) :
    P.datagram.bytes.getD (12 + P.bytesBefore i + j) 0 = P.records[i].encode.getD j 0 := by
  have hsplit : P.datagram.bytes = (P.encodeHeader ++
      (P.records.take i).flatMap PortExtraData.encode) ++ (P.records[i].encode ++
        (P.records.drop (i + 1)).flatMap PortExtraData.encode) := by
    rw [datagram, List.append_assoc, ← List.flatMap_cons, ← List.flatMap_append,
      List.getElem_cons_drop, List.take_append_drop]
  have hlength : (P.encodeHeader ++ (P.records.take i).flatMap PortExtraData.encode).length =
      12 + P.bytesBefore i := by
    rw [List.length_append, length_encodeHeader, bytesBefore]
  rw [hsplit, List.getD_append_right _ _ _ _ (by omega), hlength, Nat.add_sub_cancel_left]
  refine List.getD_append _ _ _ _ ?_
  rw [PortExtraData.length_encode]
  omega

end ExtraDataPacket

namespace Zcpp

/-- The round for record `i` gets from its first byte to the first byte after it. -/
theorem addExtraData_eq {P : ExtraDataPacket} {eth : EthBuffer} (heth : P.datagram.CarriedBy eth)
    {i : ℕ} (hi : i < P.records.length) :
    addExtraData eth (12 + P.bytesBefore i) i = .ok (12 + P.bytesBefore (i + 1)) := by
  have hle : P.bytesBefore (i + 1) ≤ P.bytesBefore P.records.length :=
    (List.Sublist.flatMap (List.take_sublist_take_left hi) _).length_le
  have hsucc := ExtraDataPacket.bytesBefore_succ hi
  have hlength := P.datagram.length_le
  rw [ExtraDataPacket.length_datagram] at hlength
  -- the third byte of the record is the length of its description
  have hdescription : (eth.get (12 + P.bytesBefore i + 2)).toNat =
      P.records[i].description.length := by
    rw [heth _ (by rw [ExtraDataPacket.length_datagram]; omega), Datagram.eth_get,
      ExtraDataPacket.getD_datagram hi (by decide)]
    change (BitVec.ofNat 8 _).toNat = _
    have := P.records[i].length_le
    rw [BitVec.toNat_ofNat]
    omega
  rw [addExtraData, if_pos (by omega), hdescription, hsucc, Nat.add_assoc]
  rfl

/-- For every packet of extra data that fits the receive buffer, and whatever the buffer held
before, the size function returns the number of bytes of the packet. -/
theorem getPacketActualSize_extraData (P : ExtraDataPacket) (eth : EthBuffer) :
    getPacketActualSize (EthBuffer.recvfrom eth (some P.datagram)) =
      .ok (BitVec.ofNat 16 P.datagram.bytes.length) := by
  have heth := P.datagram.carriedBy_recvfrom eth
  set eth' := EthBuffer.recvfrom eth (some P.datagram)
  have hheader : ∀ i < 12, eth'.get i = P.encodeHeader.getD i 0 := by
    intro i hi
    rw [heth i (by rw [ExtraDataPacket.length_datagram]; omega), Datagram.eth_get]
    exact List.getD_append _ _ _ _ (by rwa [ExtraDataPacket.length_encodeHeader])
  have htype : packetType eth' = 0x0B := hheader 4 (by decide)
  have hports : (eth'.get 11).toNat = P.records.length := by
    have := P.records_length_le
    rw [hheader 11 (by decide)]
    change (BitVec.ofNat 8 _).toNat = _
    rw [BitVec.toNat_ofNat]
    omega
  obtain ⟨size, hsize, rfl⟩ := @Outcome.foldlM_total _ _ (addExtraData eth')
    (List.range P.records.length) (fun pre size => size = 12 + P.bytesBefore pre.length)
    extraDataHeaderSize rfl (by
      rintro pre i post hsplit s rfl
      -- round `i` comes after `i` rounds
      have hpre : pre.length = i := by
        have hget := congrArg (·[pre.length]?) hsplit
        simp only [List.getElem?_append_right le_rfl, Nat.sub_self, List.getElem?_cons_zero,
          List.getElem?_eq_some_iff, List.getElem_range] at hget
        exact hget.2
      have hi : i < P.records.length := by
        rw [← List.mem_range, hsplit]
        simp
      refine ⟨_, ?_, rfl⟩
      rw [List.length_append, List.length_singleton, hpre]
      exact addExtraData_eq heth hi)
  rw [getPacketActualSize, htype, hports, hsize, List.length_range, ExtraDataPacket.length_datagram]
  rfl

/-- `getPacketActualSize_extraData` on a packet whose records carry descriptions of 0, 4 and 255
characters, received over bytes `0xFF`. -/
theorem getPacketActualSize_extraData_sample :
    let P : ExtraDataPacket :=
      { sequenceNumber := 1
        flags := 0
        priority := 0
        records := [⟨0, 0, [], by decide⟩, ⟨0, 1, [0x74, 0x72, 0x65, 0x65], by decide⟩,
          ⟨3, 7, List.replicate 255 0x41, by rw [List.length_replicate]⟩]
        records_length_le := by decide
        length_le := by
          simp only [List.flatMap_cons, List.flatMap_nil, List.length_append, List.length_nil,
            PortExtraData.length_encode, List.length_cons, List.length_replicate]
          decide }
    getPacketActualSize (EthBuffer.recvfrom (fun _ => 0xFF) (some P.datagram)) = .ok 280 := by
  intro P
  -- 12 bytes of header, 3 for each record and 259 of descriptions
  have hlength : P.datagram.bytes.length = 280 := by
    simp only [P, ExtraDataPacket.datagram, ExtraDataPacket.length_encodeHeader,
      List.flatMap_cons, List.flatMap_nil, List.length_append, List.length_nil,
      PortExtraData.length_encode, List.length_cons, List.length_replicate, Nat.reduceAdd]
  rw [getPacketActualSize_extraData, hlength]
  rfl

end Zcpp

end PiPixelController
