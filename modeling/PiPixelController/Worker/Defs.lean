import Mathlib.Data.Fin.VecNotation
import Mathlib.Data.List.FinRange
import PiPixelController.Controller.Defs

/-!
# The output worker

One refresh of the loop of `worker` (`pipixelworker.c`) with `spi_transfer` (`spi_util.c`, the
`ORANGEPI` build that `rpihw.h` selects). The four blocks of the loop are the same code for
`led_string[p]` and payload buffer `p`, so they are one definition, `workerPort p`.

A refresh returns what it does on the pins and the SPI bus, tagged with the port being
processed.
-/

namespace PiPixelController

open CSemantics

/-- An action on the GPIO pins or the SPI bus. -/
inductive SpiEvent where
  /-- `digitalWrite(pin, level)`; `true` is `HIGH`. -/
  | digitalWrite (pin : ℕ) (level : Bool)
  /-- `ioctl(fd, SPI_IOC_MESSAGE(1), &tr)` with the transmitted bytes. -/
  | message (fd : BitVec 32) (bytes : List Byte)
deriving DecidableEq

/-- `pins`. -/
def pins : Fin 7 → ℕ := ![15, 16, 0, 0, 0, 0, 0]

/-- `spi_transfer` on a device, where `ret` is what the `ioctl` returns. The message carries
the first `count` bytes of the payload buffer the device points to. -/
def spiTransfer (payload : Fin 4 → ControlBuffer) (dev : SpiDevice) (ret : ℤ) :
    Outcome (ℤ × List SpiEvent) :=
  match dev.buffer with
  | none => .undefined
  | some i =>
      -- a control_buffer is 16 + 19200 bytes
      if dev.count.toNat ≤ 19216 then
        .ok (if ret < 1 then -1 else 0,
          [.digitalWrite (pins dev.spiCs) false,
            .message dev.devHandle ((payload i).bytes dev.count.toNat),
            .digitalWrite (pins dev.spiCs) true])
      else .undefined

/-- The body of the string loop: the header count of string `a` of port `p`, and its bytes
after the `b` bytes already packed. -/
def packString (w : Workers) (pixelBuffer : PixelBuffer) (p : Fin 4)
    (st : ControlBuffer × ℤ) (a : Fin 8) : Outcome (ControlBuffer × ℤ) := do
  let (payload, b) := st
  let count := (w.mapping (p, a)).channelCount
  -- the header field keeps the low 16 bits of the count
  let payload :=
    { payload with
      channelCount := Function.update payload.channelCount a (count.setWidth 16) }
  if count ≠ 0 then do
    -- as a `size_t` a negative count is a huge length
    let data ← payload.channelData.memcpy b pixelBuffer
      (w.mapping (p, a)).startChannel.toInt (sizeT count.toInt)
    return ({ payload with channelData := data }, b + count.toInt)
  else return (payload, b)

/-- The string loop of one port, from `b = 0`. -/
def packStrings (w : Workers) (pixelBuffer : PixelBuffer) (p : Fin 4)
    (payload : ControlBuffer) : Outcome (ControlBuffer × ℤ) :=
  (List.finRange 8).foldlM (packString w pixelBuffer p) (payload, 0)

/-- The end of the block for port `p`: point the port's device at the payload with
`count = sizeof(channel_count) + b`, transfer. The memory at the pointer is read as a record,
whether `main` put one there or not. -/
def transferPort (p : Fin 4) (ret : ℤ) (b : ℤ) (c : Controller) :
    Outcome (Controller × List SpiEvent) := do
  let ptr := c.workers.spiDev p
  -- `count` is a `uint16_t`
  let dev := { c.spiDev ptr with buffer := some p, count := BitVec.ofInt 16 (16 + b) }
  let c := { c with spiDev := Function.update c.spiDev ptr dev }
  let (_, events) ← spiTransfer c.payload dev ret
  return (c, events)

/-- The block of the worker for port `p`: pack the strings, then transfer. -/
def workerPort (p : Fin 4) (ret : ℤ) (c : Controller) : Outcome (Controller × List SpiEvent) := do
  let (payload, b) ← packStrings c.workers c.pixelBuffer p (c.payload p)
  transferPort p ret b { c with payload := Function.update c.payload p payload }

/-- One port of a refresh: `if (config->pixel_ports > p) { … }`. -/
def refreshPort (rets : Fin 4 → ℤ) (st : Controller × List (Fin 4 × SpiEvent)) (p : Fin 4) :
    Outcome (Controller × List (Fin 4 × SpiEvent)) :=
  if (p : ℤ) < st.1.workers.pixelPorts.toInt then do
    let (c, events) ← workerPort p (rets p) st.1
    return (c, st.2 ++ events.map (Prod.mk p))
  else return st

/-- One refresh of the worker: the ports in order. `rets p` is what the `ioctl` for port `p`
returns; nothing depends on it. -/
def workerRefresh (rets : Fin 4 → ℤ) (c : Controller) :
    Outcome (Controller × List (Fin 4 × SpiEvent)) :=
  (List.finRange 4).foldlM (refreshPort rets) (c, [])

/-- The SPI messages among the events, each with the port it was sent for. -/
def frames (events : List (Fin 4 × SpiEvent)) : List (Fin 4 × List Byte) :=
  events.filterMap fun
    | (p, .message _ bytes) => some (p, bytes)
    | (_, .digitalWrite _ _) => none

end PiPixelController
