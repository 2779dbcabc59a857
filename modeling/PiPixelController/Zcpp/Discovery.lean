import PiPixelController.Controller.Defs

/-!
# The ZCPP discovery response

The 88-byte packet `zcpp_send_discovery_response` builds and sends, field by field in the
order of the assignments of `zcpp_implementation.c`, at the offsets of the packed
`ZCPP_DiscoveryResponse` of `ZCPP.h`. A response field is stored little-endian, whatever value
is assigned to it; `htons` and `htonl` are `ntohs` and `ntohl`.
-/

namespace PiPixelController

open CSemantics

/-- What the socket calls of `zcpp_send_discovery_response` do. -/
structure Network where
  /-- Whether `connect` succeeds on what `socket` returned. -/
  connectOk : Bool
  /-- `name.sin_addr.s_addr` after `getsockname`. -/
  localAddr : BitVec 32
deriving Inhabited

namespace Zcpp

/-- `ZCPP_token`. -/
def token : List Byte := [0x5A, 0x43, 0x50, 0x50]

/-- The response packet. `controllerName` is the 32-byte `controller_name` of `zcppParam`
followed by the two pointers that end the structure. -/
def discoveryResponse (controllerName : Block 48) (localAddr : BitVec 32) :
    Outcome (Block 88) := do
  let r : Block 88 := fun _ => 0
  let r := r.write 0 token
  -- ZCPP_TYPE_DISCOVERY_RESPONSE, then the three protocol versions
  let r := r.write 4 [0x01]
  let r := r.write 5 [0x00]
  let r := r.write 6 [0x00]
  let r := r.write 7 [0x00]
  -- vendor, model
  let r := r.store16 8 (ntohs 0x0000)
  let r := r.store16 10 (ntohs 0x0001)
  -- macAddress[0..2]
  let r := r.write 24 [0xA0, 0xFF, 0xFF]
  let r := r.store32 32 localAddr
  let r := r.store32 36 (ntohl 0xFFFFFF00)
  -- strcpy(userControllerName, controller_name)
  let r ← r.strcpy 40 controllerName
  -- maxTotalChannels is a 32-bit field assigned htons(4800)
  let r := r.store32 72 ((ntohs 4800).setWidth 32)
  -- pixelPorts, rsPorts
  let r := r.write 76 [0x04]
  let r := r.write 77 [0x00]
  -- channelsPerPixelPort, channelsPerRSPort, flags, protocolsSupported
  let r := r.store16 78 (ntohs 3600)
  let r := r.store16 80 (ntohs 0)
  let r := r.store16 82 (ntohs 0x0008)
  let r := r.store32 84 (ntohl 0x00000001)
  return r

/-- `zcpp_send_discovery_response`: the packet handed to `sendto`. A failed `connect` ends the
process; what `sendto` returns is not looked at. -/
def sendDiscoveryResponse (controllerName : Block 48) (net : Network) : Outcome (Block 88) :=
  if net.connectOk then discoveryResponse controllerName net.localAddr else .exit

/-- `ZCPP_FromWire16`: the field's bytes, most significant first. -/
def fromWire16 (value : BitVec 16) : BitVec 16 := word16 (lowByte value) (highByte value)

/-- `ZCPP_FromWire32`: the field's bytes, most significant first. -/
def fromWire32 (value : BitVec 32) : BitVec 32 :=
  word32 (value.extractLsb' 0 8) (value.extractLsb' 8 8) (value.extractLsb' 16 8)
    (value.extractLsb' 24 8)

end Zcpp

end PiPixelController
