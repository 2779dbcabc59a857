import Mathlib.Logic.Relation
import PiPixelController.Zcpp.Config
import PiPixelController.CSemantics.Framing

/-!
# The configuration handler and the worker, step by step

The ZCPP listener and the worker are two threads without any synchronisation. Here the handler
of a configuration is a sequence of single stores to `channel_count` and `start_channel`, and
the string loop of the worker a sequence of single loads of them: for each string the count is
loaded for the header, for the `if`, as the length of the `memcpy` and for the advance of `b`,
and the start channel once before the length.

A `Threads` state is the shared memory with the position of each thread; an `Act` is a step of
one of them, and steps happen in any order.
-/

namespace PiPixelController

open CSemantics

/-- Where the worker is in the block of a port. -/
inductive WorkerPc where
  /-- Before `if (config->pixel_ports > p)`. -/
  | gate
  /-- At the head of the string loop; the strings `rest` are still to pack. -/
  | strings (rest : List (Fin 8))
  /-- The header count of string `a` is stored; the `if` is next. -/
  | test (a : Fin 8) (rest : List (Fin 8))
  /-- The start channel of string `a` is loaded next. -/
  | start (a : Fin 8) (rest : List (Fin 8))
  /-- The length of the `memcpy` is loaded next. -/
  | copy (a : Fin 8) (rest : List (Fin 8)) (startChannel : BitVec 32)
  /-- The count `b` advances by is loaded next. -/
  | advance (a : Fin 8) (rest : List (Fin 8))

/-- A transmitted frame. -/
structure Frame where
  /-- The port it was sent for. -/
  port : Fin 4
  /-- The bytes of the SPI message. -/
  bytes : List Byte
  /-- The bytes the worker had copied for each of the strings, in order. -/
  copied : List (List Byte)

/-- What the receiver of the frame sees. -/
def Frame.message (f : Frame) : Fin 4 × List Byte := (f.port, f.bytes)

/-- The shared memory and the two threads. -/
structure Threads where
  /-- The shared memory and the buffers of the threads. -/
  controller : Controller
  /-- The stores the handler still has to make for the configuration it is processing. -/
  pending : List WordStore
  /-- The port the worker is at. -/
  port : Fin 4
  /-- Where the worker is in the block of the port. -/
  pc : WorkerPc
  /-- The worker's variable `b`. -/
  b : ℤ
  /-- The bytes copied for each string of the port so far. The program has no such variable;
  it is what the frames are compared with. -/
  copied : List (List Byte)
  /-- The frames transmitted so far. -/
  sent : List Frame

/-- A step of one of the threads. -/
inductive Act where
  /-- The listener receives a configuration. -/
  | receive (P : ConfigPacket)
  /-- The handler makes its next store. -/
  | store
  /-- The worker makes its next load; `ret` is what the `ioctl` returns if it is at one. -/
  | load (ret : ℤ)

namespace Threads

/-- Both threads before their first step. -/
def init (c : Controller) : Threads where
  controller := c
  pending := []
  port := 0
  pc := .gate
  b := 0
  copied := []
  sent := []

variable (s : Threads)

/-- Neither thread is in the middle of anything. -/
def Idle : Prop := s.pending = [] ∧ s.port = 0 ∧ s.pc = .gate

/-- The cell of string `a` of the current port, as it is in memory. -/
def cell (a : Fin 8) : Cell := s.controller.workers.mapping (s.port, a)

/-- The payload buffer of the current port. -/
def payload : ControlBuffer := s.controller.payload s.port

/-- Overwrite the payload buffer of the current port. -/
def setPayload (payload : ControlBuffer) : Threads :=
  { s with controller :=
    { s.controller with payload := Function.update s.controller.payload s.port payload } }

/-- The next step of the worker. After port 3 comes port 0 of the next refresh. -/
def load (ret : ℤ) : Outcome Threads :=
  match s.pc with
  | .gate =>
      if (s.port : ℤ) < s.controller.workers.pixelPorts.toInt then
        .ok { s with pc := .strings (List.finRange 8), b := 0, copied := [] }
      else
        -- a port from `pixel_ports` on is skipped
        .ok { s with port := s.port + 1 }
  | .strings (a :: rest) =>
      let counts := Function.update s.payload.channelCount a ((s.cell a).channelCount.setWidth 16)
      .ok { s.setPayload { s.payload with channelCount := counts } with pc := .test a rest }
  | .test a rest =>
      -- a second load: the count may no longer be the one in the header
      if (s.cell a).channelCount ≠ 0 then .ok { s with pc := .start a rest }
      else .ok { s with pc := .strings rest, copied := s.copied ++ [[]] }
  | .start a rest => .ok { s with pc := .copy a rest (s.cell a).startChannel }
  | .copy a rest startChannel => do
      -- a third load
      let len := sizeT (s.cell a).channelCount.toInt
      let data ← s.payload.channelData.memcpy s.b s.controller.pixelBuffer startChannel.toInt len
      let slice := s.controller.pixelBuffer.slice startChannel.toInt.toNat len
      return { s.setPayload { s.payload with channelData := data } with
        pc := .advance a rest
        copied := s.copied ++ [slice] }
  | .advance a rest =>
      -- a fourth load: the count may have changed since the copy, so the `int` sum can wrap
      let b := (BitVec.ofInt 32 (s.b + (s.cell a).channelCount.toInt)).toInt
      .ok { s with pc := .strings rest, b := b }
  | .strings [] => do
      let (c, events) ← transferPort s.port ret s.b s.controller
      let sent := (frames (events.map (Prod.mk s.port))).map fun f => ⟨f.1, f.2, s.copied⟩
      return { s with controller := c, port := s.port + 1, pc := .gate, sent := s.sent ++ sent }

/-- The port a refresh begins with. -/
abbrev firstPort : Fin 4 := 0

/-- The port after `p`; after port 3 comes port 0 of the next refresh. -/
abbrev nextPort (p : Fin 4) : Fin 4 := p + 1

/-- The next store of the handler, if it is processing a configuration. -/
def store : Outcome Threads :=
  match s.pending with
  | [] => .ok s
  | st :: pending => do
      let w ← s.controller.workers.store st
      return { s with controller := { s.controller with workers := w }, pending := pending }

/-- The listener hands the configuration to the handler; while it is processing another one, the
datagram waits in the socket. Only this thread uses `last_config_sequence`. -/
def receive (P : ConfigPacket) : Threads :=
  match s.pending with
  | [] =>
      { s with
        controller :=
          { s.controller with
            zcppEthBuffer := EthBuffer.recvfrom s.controller.zcppEthBuffer (some P.datagram)
            lastConfigSequence := P.sequenceNumber }
        pending := P.stores s.controller.lastConfigSequence }
  | _ :: _ => s

/-- One step of one of the threads. -/
def step : Act → Outcome Threads
  | .receive P => .ok (s.receive P)
  | .store => s.store
  | .load ret => s.load ret

end Threads

/-- The states reached by steps that are all allowed. -/
def Reaches (allow : Threads → Act → Prop) : Threads → Threads → Prop :=
  Relation.ReflTransGen fun s s' => ∃ a, allow s a ∧ s.step a = .ok s'

/-- The header counts account for all bytes of the frame, each is the number of bytes copied for
its string, and a receiver cuts the frame into what was copied for the strings. -/
def Frame.SelfConsistent (f : Frame) : Prop :=
  ∃ counts body, Framing.readHeader 8 f.bytes = some (counts, body) ∧
    (counts.map BitVec.toNat).sum = f.bytes.length - 16 ∧
    f.copied.map List.length = counts.map BitVec.toNat ∧
    Framing.decode 8 f.bytes = some f.copied

/-- A string before `a` in the order of the loop is another one. -/
theorem notMem_of_finRange_eq {n : ℕ} {pre rest : List (Fin n)} {a : Fin n}
    (h : List.finRange n = pre ++ a :: rest) : a ∉ pre := by
  have hnodup := List.nodup_finRange n
  rw [h, List.nodup_append] at hnodup
  exact fun hmem => hnodup.2.2 a hmem a List.mem_cons_self rfl

end PiPixelController
