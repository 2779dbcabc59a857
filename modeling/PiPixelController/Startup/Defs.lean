import Mathlib.Data.List.FinRange
import PiPixelController.Acn.Defs

/-!
# Reading the configuration at start-up

The part of `main` (`PiPixelController.c`) that fills in `workers[0]`: the channel records of
the configuration file, then `pixel_ports`, `buffer` and the `spi_dev` pointers. A
`ConfigFile` is what the `libconfig` lookups return on the file.
-/

namespace PiPixelController

open CSemantics

/-- One element of a `bus0.csN` list; a field is `none` when its lookup fails. -/
structure ChannelRecord where
  /-- `string`. -/
  string : Option (BitVec 32)
  /-- `start`. -/
  start : Option (BitVec 32)
  /-- `channels`. -/
  channels : Option (BitVec 32)

/-- The settings `main` looks up; `none` when the setting is missing. -/
structure ConfigFile where
  /-- `universe_start`. -/
  universeStart : Option (BitVec 32)
  /-- `universe_count`. -/
  universeCount : Option (BitVec 32)
  /-- `universe_size`. -/
  universeSize : Option (BitVec 32)
  /-- `controller_name`. -/
  controllerName : Option (List Byte)
  /-- `pixel_ports`. -/
  pixelPorts : Option (BitVec 32)
  /-- `port_type`. -/
  portType : Option (List Byte)
  /-- `spi_bus`. -/
  spiBus : Option (BitVec 32)
  /-- `listen_acn`. -/
  listenAcn : Option (BitVec 32)
  /-- The records of `bus0.cs0`, …, `bus0.cs3`. -/
  cs : Fin 4 → Option (List ChannelRecord)
deriving Inhabited

/-- Where the linker put what `main` stores the addresses of. -/
structure Addresses where
  /-- The allocated pixel buffer. -/
  pixelBuffer : BitVec 64
  /-- `&spi0_0_dev`, …, `&spi0_3_dev`. -/
  spiDev : Fin 4 → BitVec 64
deriving Inhabited

namespace ConfigFile

variable (file : ConfigFile)

/-- `pixel_port_count`, `PIXEL_PORTS` by default. -/
def pixelPortCount : BitVec 32 := file.pixelPorts.getD 4

/-- `listen_param`, with `START_UNIVERSE` and `MAX_UNIVERSES` by default. -/
def acnParam : AcnParam := listenParam (file.universeStart.getD 200) (file.universeCount.getD 48)

/-- The records of `bus0.csN`; none when the setting is missing. -/
def records (cs : Fin 4) : List ChannelRecord := (file.cs cs).getD []

end ConfigFile

/-- The assignments `main` makes for one record of `bus0.csN`; a record without one of its
three fields is skipped. -/
def recordStores (cs : Fin 4) (r : ChannelRecord) : List WordStore :=
  match r.string, r.start, r.channels with
  | some ledStr, some startChannel, some channelCount =>
      -- `ledStr` is used as an index as it is, negative values included
      cellStores cs ledStr.toInt ⟨channelCount, startChannel⟩
  | _, _, _ => []

/-- The assignments of the loops over `cs0`, …, `cs3` and their records. -/
def fileStores (file : ConfigFile) : List WordStore :=
  (List.finRange 4).flatMap fun cs => (file.records cs).flatMap (recordStores cs)

/-- The channel mapping read from the file into the cleared `workers[0]`. -/
def loadChannels (file : ConfigFile) : Outcome Workers :=
  Workers.zero.storeAll (fileStores file)

/-- Store a pointer to the two words from `i` on. -/
def Workers.setPointer (w : Workers) (i : ℕ) (h : i + 1 < 760) (ptr : BitVec 64) : Workers :=
  Function.update (Function.update w ⟨i, by omega⟩ (ptr.extractLsb' 0 32)) ⟨i + 1, h⟩
    (ptr.extractLsb' 32 32)

/-- The assignments to `pixel_ports`, `buffer` and the four `spi_dev` before the worker
starts. -/
def Workers.setFields (addresses : Addresses) (pixelPorts : BitVec 32) (w : Workers) : Workers :=
  let w : Workers := Function.update w Workers.pixelPortsIdx pixelPorts
  let w := w.setPointer 2 (by decide) addresses.pixelBuffer
  -- `led_string[p].spi_dev = &spi0_p_dev` for the four ports
  (List.finRange 4).foldl
    (fun w (p : Fin 4) => w.setPointer (4 + 18 * p + 16) (by omega) (addresses.spiDev p)) w

/-- `workers` when the worker and the ZCPP listener start. -/
def startWorkers (file : ConfigFile) (addresses : Addresses) : Outcome Workers := do
  let w ← loadChannels file
  return w.setFields addresses file.pixelPortCount

/-- The state in which the three threads start. The receive buffers and the device records are
left open. -/
structure Controller.StartsFrom (file : ConfigFile) (c : Controller) : Prop where
  /-- `workers` is what `main` filled in. -/
  workers : ∃ addresses, startWorkers file addresses = .ok c.workers
  /-- The initial value of the global `last_config_sequence`. -/
  lastConfigSequence : c.lastConfigSequence = 0
  /-- `memset(pixelBuffer, 0, PIXEL_BUFFER_SIZE)`. -/
  pixelBuffer : c.pixelBuffer = fun _ => 0
  /-- `memset(&payload1, 0, sizeof(control_buffer))` and its three siblings. -/
  payload : c.payload = fun _ => ⟨fun _ => 0, fun _ => 0⟩

end PiPixelController
