import PiPixelController.Controller.Defs

/-!
# The ACN listener

One iteration of the loop of `acn_listen` (`acn.c`). The offsets are those of the packed
`ACNPacket` of `acn.h`: `RL.ACNPacketIdentifier` at 4, `FL.UniverseH/L` at 113 and 114,
`DMP.Properties.PropertyCountH/L` at 123 and 124, `DMP.Properties.Data` at 126. An `int`
expression that leaves the range of `int` wraps, as the instructions of the target do.
-/

namespace PiPixelController

open CSemantics

/-- `acnParam`; the buffer it points to is the pixel buffer. -/
structure AcnParam where
  /-- `universeStart`. -/
  universeStart : BitVec 32
  /-- `universeEnd`. -/
  universeEnd : BitVec 32
deriving Inhabited

/-- `listen_param` as `main` fills it in from the configuration. -/
def listenParam (universeStart universeCount : BitVec 32) : AcnParam where
  universeStart := universeStart
  universeEnd := universeStart + universeCount - 1

namespace Acn

/-- The bytes of `"ASC-E1.17"`, its terminating NUL included. -/
def identifier : List Byte := [0x41, 0x53, 0x43, 0x2D, 0x45, 0x31, 0x2E, 0x31, 0x37, 0x00]

/-- `!strcmp(acn_packet->RL.ACNPacketIdentifier, "ASC-E1.17")`. -/
def IdentifierMatches (eth : EthBuffer) : Prop := eth.slice 4 10 = identifier

instance (eth : EthBuffer) : Decidable (IdentifierMatches eth) := by
  unfold IdentifierMatches
  infer_instance

/-- The identifier is ten bytes of the buffer. -/
theorem identifierMatches_iff {eth : EthBuffer} :
    IdentifierMatches eth ↔ ∀ i < 10, eth.get (4 + i) = identifier.getD i 0 :=
  Block.slice_eq_iff rfl

theorem identifierMatches_congr {eth eth' : EthBuffer}
    (h : ∀ i < 10, eth.get (4 + i) = eth'.get (4 + i)) :
    IdentifierMatches eth ↔ IdentifierMatches eth' := by
  rw [identifierMatches_iff, identifierMatches_iff]
  exact forall₂_congr fun i hi => by rw [h i hi]

/-- `getUniverse`. -/
def getUniverse (eth : EthBuffer) : ℤ := (eth.get 113).toNat * 256 + (eth.get 114).toNat

/-- The 16-bit property count of the packet. -/
def propertyCount (eth : EthBuffer) : ℤ := (eth.get 123).toNat * 256 + (eth.get 124).toNat

/-- `getPropertyCount`: one less than the count, which includes the start code. -/
def getPropertyCount (eth : EthBuffer) : ℤ := propertyCount eth - 1

/-- `universe >= universeStart && universe <= universeEnd`. -/
def InUniverseRange (params : AcnParam) (univ : ℤ) : Prop :=
  params.universeStart.toInt ≤ univ ∧ univ ≤ params.universeEnd.toInt

instance (params : AcnParam) (univ : ℤ) :
    Decidable (InUniverseRange params univ) := by
  unfold InUniverseRange
  infer_instance

/-- `buffer_offset = (universe - universeStart) * 512`, an `int` expression. -/
def bufferOffset (params : AcnParam) (univ : ℤ) : BitVec 32 :=
  (BitVec.ofInt 32 univ - params.universeStart) * 512#32

/-- The `memcpy` an iteration makes, if it makes one. -/
def memcpyArgs (params : AcnParam) (eth : EthBuffer) : Option MemcpyArgs :=
  if IdentifierMatches eth then
    if InUniverseRange params (getUniverse eth) then
      -- no comparison with the size of the buffer; a property count of 0 asks for -1 bytes
      some
        { dst := (bufferOffset params (getUniverse eth)).toInt
          src := 126
          len := getPropertyCount eth }
    else none
  else none

end Acn

/-- One iteration of `acn_listen`: receive, then copy the slots of an accepted packet. -/
def acnListen (params : AcnParam) (recv : Option Datagram) (c : Controller) :
    Outcome Controller :=
  -- the number of bytes received is not looked at
  let eth := EthBuffer.recvfrom c.acnEthBuffer recv
  let c := { c with acnEthBuffer := eth }
  match Acn.memcpyArgs params eth with
  | none => .ok c
  | some args => do
      let buffer ← c.pixelBuffer.memcpy args.dst eth args.src (sizeT args.len)
      return { c with pixelBuffer := buffer }

end PiPixelController
