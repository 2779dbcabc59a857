import PiPixelController.System.Defs
import PiPixelController.WriteLog

/-!
# Packets that write pixels

A complete, in-range ACN packet writes its slots to the 512 bytes of its universe; a complete,
in-range ZCPP data packet writes its data at `frameAddress`. Each is a patch of the pixel
buffer, read as a map from addresses to bytes.

Main results:

* `AcnPacket.acnListen_eq`, `DataPacket.zcppMulticastListen_eq` — one listener iteration on such
  a packet applies its patch and changes nothing else the other threads see;
* `Acn.toInt_bufferOffset` — in a range of at most 48 universes the offset does not wrap.
-/

namespace PiPixelController

open CSemantics WriteLog

/-- Writing the bytes of a list from an address on. -/
def rangePatch (address : ℕ) (bytes : List Byte) : Patch ℕ Byte :=
  fun i => if address ≤ i then bytes[i - address]? else none

/-- A copy inside a block is a patch of its bytes. -/
theorem get_copy_eq_apply {n m : ℕ} (dst : Block n) (dstOff : ℕ) (src : Block m)
    (srcOff len : ℕ) (h : dstOff + len ≤ n) :
    (dst.copy dstOff src srcOff len).get =
      (rangePatch dstOff (src.slice srcOff len)).apply dst.get := by
  funext i
  rw [Patch.apply, rangePatch]
  -- inside the range both give the source byte, outside it the old byte
  by_cases hi : dstOff ≤ i ∧ i < dstOff + len
  · have hlt : i - dstOff < (src.slice srcOff len).length := by
      rw [Block.length_slice]
      omega
    rw [Block.get_copy _ _ _ _ _ (by omega), if_pos hi, if_pos hi.1,
      List.getElem?_eq_getElem hlt, Block.getElem_slice, Option.getD_some]
  · rw [Block.get_copy_of_notMem _ _ _ _ _ (by omega)]
    split
    · rw [List.getElem?_eq_none (by rw [Block.length_slice]; omega), Option.getD_none]
    · rfl

/-! ### ACN packets -/

namespace Acn

/-- What an iteration does depends on the bytes up to the property count only. -/
theorem memcpyArgs_congr {eth eth' : EthBuffer} (h : ∀ i < 125, eth.get i = eth'.get i)
    (params : AcnParam) : memcpyArgs params eth = memcpyArgs params eth' := by
  have hid : IdentifierMatches eth ↔ IdentifierMatches eth' :=
    identifierMatches_congr fun i hi => h (4 + i) (by omega)
  have huniv : getUniverse eth = getUniverse eth' := by
    rw [getUniverse, getUniverse, h 113 (by decide), h 114 (by decide)]
  have hcount : getPropertyCount eth = getPropertyCount eth' := by
    rw [getPropertyCount, getPropertyCount, propertyCount, propertyCount, h 123 (by decide),
      h 124 (by decide)]
  simp only [memcpyArgs, hid, huniv, hcount]

/-- Up to 2^22 universes from the first one the offset does not wrap. -/
theorem toInt_bufferOffset_of_lt {params : AcnParam} {univ : ℤ}
    (h : InUniverseRange params univ) (hlt : univ - params.universeStart.toInt < 2 ^ 22) :
    (bufferOffset params univ).toInt = (univ - params.universeStart.toInt) * 512 := by
  obtain ⟨hlo, hhi⟩ := h
  have hstart : -2 ^ 31 ≤ params.universeStart.toInt := BitVec.le_toInt _
  have hend : params.universeEnd.toInt < 2 ^ 31 := BitVec.toInt_lt
  have huniv : (BitVec.ofInt 32 univ).toInt = univ :=
    BitVec.toInt_ofInt_eq_self (by decide) (by omega) (by omega)
  -- neither the difference nor its product with 512 wraps
  have hsub : (BitVec.ofInt 32 univ - params.universeStart).toInt =
      univ - params.universeStart.toInt := by
    rw [BitVec.toInt_sub, huniv]
    exact Int.bmod_eq_of_le (by omega) (by omega)
  rw [bufferOffset, BitVec.toInt_mul, hsub, show (512#32).toInt = 512 from rfl]
  exact Int.bmod_eq_of_le (by omega) (by omega)

/-- In a range of at most 48 universes the offset is that of the universe. -/
theorem toInt_bufferOffset {params : AcnParam} {univ : ℤ} (h : InUniverseRange params univ)
    (hrange : params.universeEnd.toInt - params.universeStart.toInt < 48) :
    (bufferOffset params univ).toInt = (univ - params.universeStart.toInt) * 512 :=
  toInt_bufferOffset_of_lt h (by have := h.2; omega)

end Acn

/-- An accepted ACN packet with a property count of 1 to 513 that carries all its slots. -/
structure AcnPacket (params : AcnParam) where
  datagram : Datagram
  identifier : Acn.IdentifierMatches datagram.eth
  inRange : Acn.InUniverseRange params (Acn.getUniverse datagram.eth)
  one_le : 1 ≤ Acn.propertyCount datagram.eth
  le : Acn.propertyCount datagram.eth ≤ 513
  /-- The start code and the slots; the start code is at 125. -/
  complete : 125 + Acn.propertyCount datagram.eth ≤ datagram.bytes.length

namespace AcnPacket

variable {params : AcnParam} (P : AcnPacket params)

/-- The address of the first slot of the universe. -/
def address : ℕ := ((Acn.getUniverse P.datagram.eth - params.universeStart.toInt) * 512).toNat

/-- The slots, without the start code. -/
def slots : List Byte :=
  P.datagram.eth.slice 126 (Acn.getPropertyCount P.datagram.eth).toNat

def patch : Patch ℕ Byte := rangePatch P.address P.slots

variable {P}

theorem length_slots : P.slots.length = (Acn.propertyCount P.datagram.eth - 1).toNat := by
  rw [slots, Block.length_slice, Acn.getPropertyCount]

/-- The receive buffer shows the slots, whatever it held before. -/
theorem slice_recvfrom (e : EthBuffer) :
    (EthBuffer.recvfrom e (some P.datagram)).slice 126 P.slots.length = P.slots := by
  have hcomplete := P.complete
  rw [length_slots, slots, Acn.getPropertyCount]
  exact Block.slice_congr fun i hi => P.datagram.get_recvfrom e (by omega)

/-- One iteration of the ACN listener copies the slots to the offset it computes, wherever that
is. -/
theorem acnListen_eq_memcpy (c : Controller) :
    acnListen params (some P.datagram) c =
      (fun buffer => { c with
        acnEthBuffer := EthBuffer.recvfrom c.acnEthBuffer (some P.datagram)
        pixelBuffer := buffer }) <$>
        c.pixelBuffer.memcpy (Acn.bufferOffset params (Acn.getUniverse P.datagram.eth)).toInt
          (EthBuffer.recvfrom c.acnEthBuffer (some P.datagram)) 126 P.slots.length := by
  have hone := P.one_le
  have hcount := P.le
  have hcomplete := P.complete
  have hargs : Acn.memcpyArgs params (EthBuffer.recvfrom c.acnEthBuffer (some P.datagram)) =
      some ⟨(Acn.bufferOffset params (Acn.getUniverse P.datagram.eth)).toInt, 126,
        Acn.getPropertyCount P.datagram.eth⟩ := by
    rw [@Acn.memcpyArgs_congr _ P.datagram.eth fun i hi =>
        P.datagram.get_recvfrom c.acnEthBuffer (by omega),
      Acn.memcpyArgs, if_pos P.identifier, if_pos P.inRange]
  have hlen : sizeT (Acn.getPropertyCount P.datagram.eth) = P.slots.length := by
    rw [length_slots, Acn.getPropertyCount]
    exact sizeT_of_nonneg (by omega) (by omega)
  rw [acnListen, hargs, ← hlen]
  rfl

/-- One iteration of the ACN listener applies the patch of a packet of the first 48
universes. -/
theorem acnListen_eq_of_lt
    (hlt : Acn.getUniverse P.datagram.eth - params.universeStart.toInt < 48) (c : Controller) :
    ∃ buffer : PixelBuffer, acnListen params (some P.datagram) c =
        .ok { c with
          acnEthBuffer := EthBuffer.recvfrom c.acnEthBuffer (some P.datagram)
          pixelBuffer := buffer } ∧
      buffer.get = P.patch.apply c.pixelBuffer.get := by
  have hcount := P.le
  have hcomplete := P.complete
  have hlo := P.inRange.1
  have hlength := P.length_slots
  have hoffset : (Acn.bufferOffset params (Acn.getUniverse P.datagram.eth)).toInt = P.address := by
    rw [Acn.toInt_bufferOffset_of_lt P.inRange (by omega), address,
      Int.toNat_of_nonneg (by omega)]
  -- 48 universes of 512 slots are the whole pixel buffer
  have hlast : P.address + P.slots.length ≤ 24576 := by
    rw [address]
    omega
  have hfit : Block.CopyFits 24576 1500 P.address 126 P.slots.length := by
    have hle := P.datagram.length_le
    rw [Block.CopyFits]
    omega
  refine ⟨c.pixelBuffer.copy P.address (EthBuffer.recvfrom c.acnEthBuffer (some P.datagram)) 126
    P.slots.length, ?_, ?_⟩
  · rw [acnListen_eq_memcpy, hoffset, Block.memcpy_of_fits hfit]
    rfl
  · rw [get_copy_eq_apply _ _ _ _ _ hlast, slice_recvfrom, patch]

/-- One iteration of the ACN listener applies the patch of the packet. -/
theorem acnListen_eq (hrange : params.universeEnd.toInt - params.universeStart.toInt < 48)
    (c : Controller) :
    ∃ buffer : PixelBuffer, acnListen params (some P.datagram) c =
        .ok { c with
          acnEthBuffer := EthBuffer.recvfrom c.acnEthBuffer (some P.datagram)
          pixelBuffer := buffer } ∧
      buffer.get = P.patch.apply c.pixelBuffer.get :=
  acnListen_eq_of_lt (by have := P.inRange.2; omega) c

end AcnPacket

/-! ### ZCPP data packets -/

namespace Zcpp

/-- Which packet is received depends on the bytes of the header only. -/
theorem received_congr {eth eth' : EthBuffer} (h : ∀ i < 5, eth.get i = eth'.get i) :
    received eth = received eth' := by
  have htoken : TokenMatches eth ↔ TokenMatches eth' :=
    tokenMatches_congr fun i hi => h i (by omega)
  simp only [received, htoken, packetType, h 4 (by decide)]

/-- The copy of a data packet depends on its address and length fields only. -/
theorem dataArgs_congr {eth eth' : EthBuffer} (h : ∀ i < 14, 8 ≤ i → eth.get i = eth'.get i) :
    dataArgs eth = dataArgs eth' := by
  have haddress : eth.load32 8 = eth'.load32 8 :=
    Block.load32_congr fun i hi => h (8 + i) (by omega) (by omega)
  have hlength : eth.load16 12 = eth'.load16 12 :=
    Block.load16_congr fun i hi => h (12 + i) (by omega) (by omega)
  rw [dataArgs, dataArgs, frameAddress, frameAddress, packetDataLength, packetDataLength,
    haddress, hlength]

end Zcpp

/-- A data packet that carries all its data and addresses bytes of the pixel buffer only. -/
structure DataPacket where
  datagram : Datagram
  token : Zcpp.TokenMatches datagram.eth
  type : Zcpp.packetType datagram.eth = 0x14
  inRange : (Zcpp.frameAddress datagram.eth).toNat +
    (Zcpp.packetDataLength datagram.eth).toNat ≤ 24576
  complete : 15 + (Zcpp.packetDataLength datagram.eth).toNat ≤ datagram.bytes.length

namespace DataPacket

variable (P : DataPacket)

def address : ℕ := (Zcpp.frameAddress P.datagram.eth).toNat

/-- The data bytes. -/
def data : List Byte := P.datagram.eth.slice 15 (Zcpp.packetDataLength P.datagram.eth).toNat

def patch : Patch ℕ Byte := rangePatch P.address P.data

variable {P}

/-- One iteration of the ZCPP listener applies the patch of the packet. -/
theorem zcppMulticastListen_eq (controllerName : Block 48) (net : Network) (c : Controller) :
    ∃ buffer : PixelBuffer,
      zcppMulticastListen controllerName net (some P.datagram) c =
        .ok ({ c with
          zcppEthBuffer := EthBuffer.recvfrom c.zcppEthBuffer (some P.datagram)
          pixelBuffer := buffer }, none) ∧
      buffer.get = P.patch.apply c.pixelBuffer.get := by
  have hcomplete := P.complete
  have hrange : P.address + (Zcpp.packetDataLength P.datagram.eth).toNat ≤ 24576 := P.inRange
  have hle := P.datagram.length_le
  set eth := EthBuffer.recvfrom c.zcppEthBuffer (some P.datagram) with heth
  have hget : ∀ i < P.datagram.bytes.length, eth.get i = P.datagram.eth.get i :=
    fun i hi => P.datagram.get_recvfrom c.zcppEthBuffer hi
  have hreceived : Zcpp.received eth = some .data := by
    rw [@Zcpp.received_congr _ P.datagram.eth fun i hi => hget i (by omega),
      Zcpp.received, if_pos P.token, P.type]
    rfl
  have hargs : Zcpp.dataArgs eth =
      ⟨P.address, 15, (Zcpp.packetDataLength P.datagram.eth).toNat⟩ :=
    Zcpp.dataArgs_congr fun i hi _ => hget i (by omega)
  have hlen : sizeT (Zcpp.packetDataLength P.datagram.eth).toNat =
      (Zcpp.packetDataLength P.datagram.eth).toNat := by
    rw [sizeT_of_nonneg (by omega) (by omega), Int.toNat_natCast]
  have hfit : Block.CopyFits 24576 1500 P.address 15
      (Zcpp.packetDataLength P.datagram.eth).toNat := by
    rw [Block.CopyFits]
    omega
  refine ⟨c.pixelBuffer.copy P.address eth 15 (Zcpp.packetDataLength P.datagram.eth).toNat,
    ?_, ?_⟩
  · simp only [zcppMulticastListen, Zcpp.dispatch, ← heth, hreceived, Zcpp.processData, hargs,
      hlen, Block.memcpy_of_fits hfit, Outcome.ok_bind, Outcome.pure_eq_ok, Int.toNat_natCast]
    rfl
  · rw [get_copy_eq_apply _ _ _ _ _ hrange, patch, data,
      @Block.slice_congr _ _ eth P.datagram.eth _ _ _ fun i hi => hget _ (by omega)]

end DataPacket

end PiPixelController
