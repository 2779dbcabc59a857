import PiPixelController.CSemantics.Bytewise
import PiPixelController.Interleaving.Defs
import PiPixelController.System.Defs

/-!
# The listeners and the worker, byte by byte

The listeners store into the pixel buffer while the worker reads it. Here each `memcpy` of the
three threads is made byte by byte, in any order, and a step of one thread may fall between any two
bytes of another. A configuration is still handled in one step: its stores to the mapping are
in `Interleaving.Defs`, and `Reaches` are the runs between two configurations.
-/

namespace PiPixelController

open CSemantics

/-- Where the worker is in the block of a port. -/
inductive BytePc where
  /-- Before `if (config->pixel_ports > p)`. -/
  | gate
  /-- At the head of the string loop; the strings `rest` are still to pack. -/
  | strings (rest : List (Fin 8))
  /-- In the `memcpy` of string `a`, which still has to copy the bytes `todo`. -/
  | copy (a : Fin 8) (rest : List (Fin 8)) (todo : List ℕ)

/-- A transmitted frame. -/
structure PixelFrame extends Frame where
  /-- The pixel buffer as it was when the block of the port began, and after each store made into
  it until the transfer. The program has no such variable. -/
  past : List PixelBuffer

/-- The shared memory and the three threads. -/
structure ByteThreads where
  /-- The shared memory and the buffers of the threads. -/
  controller : Controller
  /-- What the `memcpy` of the ACN listener still has to store. -/
  acnStores : List (ℕ × Byte)
  /-- What the `memcpy` of the ZCPP listener still has to store. -/
  zcppStores : List (ℕ × Byte)
  /-- The port the worker is at. -/
  port : Fin 4
  /-- Where the worker is in the block of the port. -/
  pc : BytePc
  /-- The worker's variable `b`. -/
  b : ℤ
  /-- The strings copied for the port so far, not a variable of the program. -/
  copied : List (List Byte)
  /-- The pixel buffers since the block of the port began, not a variable of the program. -/
  past : List PixelBuffer
  /-- All stores the packets so far have asked for, not a variable of the program. -/
  carried : List (ℕ × Byte)
  /-- The frames transmitted so far. -/
  sent : List PixelFrame

/-- A step of one of the threads. -/
inductive ByteAct where
  /-- The ACN listener receives. -/
  | acn (recv : Option Datagram)
  /-- The ZCPP listener receives. -/
  | zcpp (net : Network) (recv : Option Datagram)
  /-- The ACN listener makes one of its stores. -/
  | acnStore (st : ℕ × Byte)
  /-- The ZCPP listener makes one of its stores. -/
  | zcppStore (st : ℕ × Byte)
  /-- The worker copies byte `j` if it is in a `memcpy`, and goes on otherwise; `ret` is what the
  `ioctl` returns if it is at one. -/
  | load (j : ℕ) (ret : ℤ)

/-- The stores of a listener's `memcpy`. -/
def MemcpyArgs.stores (args : MemcpyArgs) (eth : EthBuffer) : Outcome (List (ℕ × Byte)) :=
  if Block.CopyFits 24576 1500 args.dst args.src (sizeT args.len) then
    .ok (eth.copyStores args.dst.toNat args.src.toNat (sizeT args.len))
  else .undefined

namespace ByteThreads

/-- The threads before their first step. -/
def init (c : Controller) : ByteThreads where
  controller := c
  acnStores := []
  zcppStores := []
  port := Threads.firstPort
  pc := .gate
  b := 0
  copied := []
  past := []
  carried := []
  sent := []

variable (s : ByteThreads)

/-- The cell of string `a` of the current port. -/
def cell (a : Fin 8) : Cell := s.controller.workers.mapping (s.port, a)

/-- The payload buffer of the current port. -/
def payload : ControlBuffer := s.controller.payload s.port

/-- Overwrite the payload buffer of the current port. -/
def setPayload (payload : ControlBuffer) : ByteThreads :=
  { s with controller :=
    { s.controller with payload := Function.update s.controller.payload s.port payload } }

/-- A store into the pixel buffer. -/
def setPixel (st : ℕ × Byte) : ByteThreads :=
  let buffer := s.controller.pixelBuffer.set st.1 st.2
  { s with controller := { s.controller with pixelBuffer := buffer }, past := s.past ++ [buffer] }

/-- The ACN listener receives, unless it is still in a `memcpy`. -/
def receiveAcn (params : Params) (recv : Option Datagram) : Outcome ByteThreads :=
  match s.acnStores with
  | [] => do
      let eth := EthBuffer.recvfrom s.controller.acnEthBuffer recv
      let c := { s.controller with acnEthBuffer := eth }
      match Acn.memcpyArgs params.acn eth with
      | none => return { s with controller := c }
      | some args => do
          let sts ← args.stores eth
          return { s with controller := c, acnStores := sts, carried := s.carried ++ sts }
  | _ :: _ => .ok s

/-- The ZCPP listener receives, unless it is still in a `memcpy`. -/
def receiveZcpp (params : Params) (net : Network) (recv : Option Datagram) :
    Outcome ByteThreads :=
  match s.zcppStores with
  | [] => do
      let eth := EthBuffer.recvfrom s.controller.zcppEthBuffer recv
      if Zcpp.received eth = some .data then do
        -- the stores are made in steps of their own
        let sts ← (Zcpp.dataArgs eth).stores eth
        return { s with
          controller := { s.controller with zcppEthBuffer := eth }
          zcppStores := sts
          carried := s.carried ++ sts }
      else do
        let (c, _) ← zcppMulticastListen params.controllerName net recv s.controller
        return { s with controller := c }
  | _ :: _ => .ok s

/-- The next step of the worker. After port 3 comes port 0 of the next refresh. -/
def load (j : ℕ) (ret : ℤ) : Outcome ByteThreads :=
  match s.pc with
  | .gate =>
      if (s.port : ℤ) < s.controller.workers.pixelPorts.toInt then
        .ok { s with
          pc := .strings (List.finRange 8)
          b := 0
          copied := []
          past := [s.controller.pixelBuffer] }
      -- a port from `pixel_ports` on is skipped
      else .ok { s with port := Threads.nextPort s.port }
  | .strings (a :: rest) =>
      let count := (s.cell a).channelCount
      let counts := Function.update s.payload.channelCount a (count.setWidth 16)
      let s' := s.setPayload { s.payload with channelCount := counts }
      if count ≠ 0 then
        if Block.CopyFits 19200 24576 s.b (s.cell a).startChannel.toInt (sizeT count.toInt) then
          .ok { s' with pc := .copy a rest (List.range (sizeT count.toInt)) }
        else .undefined
      else .ok { s' with pc := .strings rest, copied := s.copied ++ [[]] }
  | .copy a rest [] =>
      -- `memcpy` returns, and `b` advances
      let count := (s.cell a).channelCount
      .ok { s with
        pc := .strings rest
        b := s.b + count.toInt
        copied := s.copied ++ [s.payload.channelData.slice s.b.toNat (sizeT count.toInt)] }
  | .copy a rest (k :: ks) =>
      if j ∈ k :: ks then
        let v := s.controller.pixelBuffer.get ((s.cell a).startChannel.toInt.toNat + j)
        let data := s.payload.channelData.set (s.b.toNat + j) v
        .ok { s.setPayload { s.payload with channelData := data } with
          pc := .copy a rest ((k :: ks).erase j) }
      else .ok s
  | .strings [] => do
      let (c, events) ← transferPort s.port ret s.b s.controller
      let sent := (frames (events.map (Prod.mk s.port))).map fun f =>
        ⟨⟨f.1, f.2, s.copied⟩, s.past⟩
      return { s with
        controller := c
        port := Threads.nextPort s.port
        pc := .gate
        sent := s.sent ++ sent }

/-- One step of one of the threads. -/
def step (params : Params) : ByteAct → Outcome ByteThreads
  | .acn recv => s.receiveAcn params recv
  | .zcpp net recv => s.receiveZcpp params net recv
  | .acnStore st =>
      if st ∈ s.acnStores then .ok { s.setPixel st with acnStores := s.acnStores.erase st }
      else .ok s
  | .zcppStore st =>
      if st ∈ s.zcppStores then .ok { s.setPixel st with zcppStores := s.zcppStores.erase st }
      else .ok s
  | .load j ret => s.load j ret

/-- The step does not handle a configuration. -/
def Unconfigured : ByteAct → Prop
  | .zcpp _ recv =>
      Zcpp.received (EthBuffer.recvfrom s.controller.zcppEthBuffer recv) ≠ some .config
  | .acn _ | .acnStore _ | .zcppStore _ | .load _ _ => True

/-- The states reached without handling a configuration. -/
def Reaches (params : Params) : ByteThreads → ByteThreads → Prop :=
  Relation.ReflTransGen fun s s' => ∃ a, s.Unconfigured a ∧ s.step params a = .ok s'

end ByteThreads

end PiPixelController
