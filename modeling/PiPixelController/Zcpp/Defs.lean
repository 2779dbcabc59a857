import PiPixelController.Zcpp.Discovery

/-!
# The ZCPP listener

One iteration of the loop of `zcpp_multicast_listen` (`zcpp_implementation.c`) with its packet
handlers. The offsets are those of the packed structures of `ZCPP.h`: `Header.token` at 0 and
`Header.type` at 4; in a configuration `sequenceNumber` at 6, `ports` at 43 and the 16-byte
`PortConfig` entries from 44; in a data packet `frameAddress` at 8, `packetDataLength` at 12
and `data` at 15.
-/

namespace PiPixelController

open CSemantics

/-- The fields of a `ZCPP_PortConfig` that the configuration handler stores. -/
structure PortConfig where
  /-- `port`. -/
  port : Byte
  /-- `string`. -/
  string : Byte
  /-- `ntohl(startChannel)`. -/
  startChannel : BitVec 32
  /-- `ntohl(channels)`. -/
  channels : BitVec 32
deriving DecidableEq

/-- The cell contents an entry asks for. -/
def PortConfig.cell (e : PortConfig) : Cell := ⟨e.channels, e.startChannel⟩

namespace Zcpp

/-- `!strncmp(Header.token, ZCPP_token, 4)`. -/
def TokenMatches (eth : EthBuffer) : Prop := eth.slice 0 4 = token

instance (eth : EthBuffer) : Decidable (TokenMatches eth) := by
  unfold TokenMatches
  infer_instance

/-- The token is four bytes of the buffer. -/
theorem tokenMatches_iff {eth : EthBuffer} :
    TokenMatches eth ↔ ∀ i < 4, eth.get i = token.getD i 0 := by
  rw [TokenMatches, Block.slice_eq_iff (show token.length = 4 from rfl)]
  simp only [Nat.zero_add]

theorem tokenMatches_congr {eth eth' : EthBuffer} (h : ∀ i < 4, eth.get i = eth'.get i) :
    TokenMatches eth ↔ TokenMatches eth' := by
  rw [tokenMatches_iff, tokenMatches_iff]
  exact forall₂_congr fun i hi => by rw [h i hi]

/-- `Header.type`. -/
def packetType (eth : EthBuffer) : Byte := eth.get 4

/-- `ntohs(Configuration.sequenceNumber)`. -/
def sequenceNumber (eth : EthBuffer) : BitVec 16 := ntohs (eth.load16 6)

/-- `Configuration.ports`. -/
def ports (eth : EthBuffer) : ℕ := (eth.get 43).toNat

/-- `Configuration.PortConfig[a]`. -/
def portConfig (eth : EthBuffer) (a : ℕ) : PortConfig where
  port := eth.get (44 + 16 * a)
  string := eth.get (44 + 16 * a + 1)
  startChannel := ntohl (eth.load32 (44 + 16 * a + 4))
  channels := ntohl (eth.load32 (44 + 16 * a + 8))

/-- Reading `PortConfig[a]`; the fields the handler looks at end 12 bytes into the entry. -/
def readPortConfig (eth : EthBuffer) (a : ℕ) : Outcome PortConfig :=
  if 44 + 16 * a + 12 ≤ 1500 then .ok (portConfig eth a) else .undefined

/-- The loop that clears the existing channel mappings. -/
def clearStores : List WordStore :=
  (List.range 4).flatMap fun p => (List.range 8).flatMap fun s => cellStores p s ⟨0, 0⟩

/-- One round of the loop over the entries. -/
def processEntry (eth : EthBuffer) (w : Workers) (a : ℕ) : Outcome Workers := do
  let e ← readPortConfig eth a
  w.storeAll (cellStores e.port.toNat e.string.toNat e.cell)

/-- `zcpp_process_config`. -/
def processConfig (eth : EthBuffer) (c : Controller) : Outcome Controller := do
  let sequence := (sequenceNumber eth).setWidth 32
  -- a new sequence number clears the mapping, a repeated one leaves it
  let c ←
    if c.lastConfigSequence ≠ sequence then do
      let w ← c.workers.storeAll clearStores
      pure { c with lastConfigSequence := sequence, workers := w }
    else pure c
  -- neither the port nor the string of an entry is checked
  let w ← (List.range (ports eth)).foldlM (processEntry eth) c.workers
  return { c with workers := w }

/-- `ntohl(Data.frameAddress)`. -/
def frameAddress (eth : EthBuffer) : BitVec 32 := ntohl (eth.load32 8)

/-- `ntohs(Data.packetDataLength)`. -/
def packetDataLength (eth : EthBuffer) : BitVec 16 := ntohs (eth.load16 12)

/-- The `memcpy` of `zcpp_process_data`. -/
def dataArgs (eth : EthBuffer) : MemcpyArgs where
  dst := (frameAddress eth).toNat
  src := 15
  len := (packetDataLength eth).toNat

/-- `zcpp_process_data`. -/
def processData (eth : EthBuffer) (c : Controller) : Outcome Controller := do
  -- no comparison with the size of the buffer
  let args := dataArgs eth
  let buffer ← c.pixelBuffer.memcpy args.dst eth args.src (sizeT args.len)
  return { c with pixelBuffer := buffer }

/-- The packet types of the `switch`. -/
inductive PacketKind where
  | discovery
  | config
  | extraData
  | queryConfig
  | data
  | sync
  | other
deriving DecidableEq

/-- The case a type byte selects. -/
def packetKind (type : Byte) : PacketKind :=
  if type = 0x00 then .discovery
  else if type = 0x0A then .config
  else if type = 0x0B then .extraData
  else if type = 0x0C then .queryConfig
  else if type = 0x14 then .data
  else if type = 0x15 then .sync
  else .other

/-- The packet a receive buffer holds: its kind, if the token matches. -/
def received (eth : EthBuffer) : Option PacketKind :=
  if TokenMatches eth then some (packetKind (packetType eth)) else none

/-- The `switch` of the listener, with the discovery response it sends, if any.
`zcpp_process_extra_data`, `zcpp_send_config_response` and `zcpp_process_sync` do nothing. -/
def dispatch (controllerName : Block 48) (net : Network) (eth : EthBuffer) (c : Controller) :
    Outcome (Controller × Option (Block 88)) :=
  match received eth with
  | some .discovery => do
      let r ← sendDiscoveryResponse controllerName net
      return (c, some r)
  | some .config => do
      let c ← processConfig eth c
      return (c, none)
  | some .data => do
      let c ← processData eth c
      return (c, none)
  | some .extraData | some .queryConfig | some .sync | some .other | none => .ok (c, none)

end Zcpp

/-- One iteration of `zcpp_multicast_listen`: receive, then handle the packet. -/
def zcppMulticastListen (controllerName : Block 48) (net : Network) (recv : Option Datagram)
    (c : Controller) : Outcome (Controller × Option (Block 88)) :=
  -- the number of bytes received is not looked at
  let eth := EthBuffer.recvfrom c.zcppEthBuffer recv
  Zcpp.dispatch controllerName net eth { c with zcppEthBuffer := eth }

/-- An iteration that completes has answered a discovery packet, handled a configuration or data, or
done nothing but receive. -/
theorem zcppMulticastListen_cases {controllerName : Block 48} {net : Network}
    {recv : Option Datagram} {c : Controller} {r : Controller × Option (Block 88)}
    (h : zcppMulticastListen controllerName net recv c = .ok r) :
    let eth := EthBuffer.recvfrom c.zcppEthBuffer recv
    let c₁ := { c with zcppEthBuffer := eth }
    (Zcpp.received eth = some .discovery ∧
      ∃ D, Zcpp.sendDiscoveryResponse controllerName net = .ok D ∧ r = (c₁, some D)) ∨
    (Zcpp.received eth = some .config ∧ ∃ c', Zcpp.processConfig eth c₁ = .ok c' ∧ r = (c', none)) ∨
    (Zcpp.received eth = some .data ∧ ∃ c', Zcpp.processData eth c₁ = .ok c' ∧ r = (c', none)) ∨
    r = (c₁, none) := by
  intro eth c₁
  change Zcpp.dispatch controllerName net eth c₁ = .ok r at h
  rw [Zcpp.dispatch] at h
  split at h
  next hkind =>
    obtain ⟨D, hD, hr⟩ := Outcome.bind_eq_ok_iff.mp h
    exact Or.inl ⟨hkind, D, hD, (Outcome.ok.inj hr).symm⟩
  next hkind =>
    obtain ⟨c', hc', hr⟩ := Outcome.bind_eq_ok_iff.mp h
    exact Or.inr (Or.inl ⟨hkind, c', hc', (Outcome.ok.inj hr).symm⟩)
  next hkind =>
    obtain ⟨c', hc', hr⟩ := Outcome.bind_eq_ok_iff.mp h
    exact Or.inr (Or.inr (Or.inl ⟨hkind, c', hc', (Outcome.ok.inj hr).symm⟩))
  all_goals exact Or.inr (Or.inr (Or.inr (Outcome.ok.inj h).symm))

end PiPixelController
