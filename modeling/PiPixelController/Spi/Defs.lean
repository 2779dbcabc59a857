import PiPixelController.CSemantics.Strings
import PiPixelController.Startup.Defs
import PiPixelController.Worker.Defs

/-!
# Initialising the SPI devices

`spi_init` (`spi_util.c`, the `ORANGEPI` build that `rpihw.h` selects) and the part of `main`
(`PiPixelController.c`) that calls it for the ports below `pixel_ports`. What the system calls
return is an input; the calls made are recorded in order.
-/

namespace PiPixelController

open CSemantics

/-- The value of the enumeration constant. -/
def OutputType.value : OutputType → ℤ
  | PIC => 0
  | PICO => 1

/-- The six configuration requests of `spi_init`, in its order. -/
inductive SpiRequest where
  | wrMode
  | rdMode
  | wrBitsPerWord
  | rdBitsPerWord
  | wrMaxSpeedHz
  | rdMaxSpeedHz
deriving DecidableEq

/-- The requests in the order of the source. -/
def SpiRequest.all : List SpiRequest :=
  [.wrMode, .rdMode, .wrBitsPerWord, .rdBitsPerWord, .wrMaxSpeedHz, .rdMaxSpeedHz]

theorem SpiRequest.mem_all (req : SpiRequest) : req ∈ all := by
  cases req <;> decide

/-- What the system calls of one `spi_init` return. -/
structure SpiReplies where
  /-- What `open` returns: a descriptor, or a negative number. -/
  openFd : BitVec 32
  /-- What each configuration `ioctl` returns. -/
  ioctl : SpiRequest → ℤ
  /-- What `SPI_IOC_RD_MODE` reads when it succeeds. -/
  mode : Byte
  /-- What `SPI_IOC_RD_BITS_PER_WORD` reads when it succeeds. -/
  bits : Byte
  /-- What `SPI_IOC_RD_MAX_SPEED_HZ` reads when it succeeds. -/
  speed : BitVec 32
deriving Inhabited

/-- A call `spi_init` makes. -/
inductive InitCall where
  /-- `wiringPiSetup()`. -/
  | wiringPiSetup
  /-- `open("/dev/spidev1.0", O_RDWR)`, with what it returns. -/
  | openDevice (fd : BitVec 32)
  /-- A configuration `ioctl` with the value it is passed and what it returns. -/
  | ioctl (fd : BitVec 32) (request : SpiRequest) (argument : BitVec 32) (ret : ℤ)
  /-- `pinMode(pin, OUTPUT)`. -/
  | pinMode (pin : ℕ)
deriving DecidableEq

/-- `SPI_MODE_0`. -/
def spiMode0 : Byte := 0

/-- `SPI_MODE_1`. -/
def spiMode1 : Byte := 1

/-- The global and static variables of `spi_util.c`. -/
structure SpiGlobals where
  /-- `wiringPi_init`. -/
  wiringPiInit : BitVec 32
  /-- `spi_fd`. -/
  spiFd : BitVec 32
  /-- `mode` of `spi_init`. -/
  mode : Byte
  /-- `bits` of `spi_init`. -/
  bits : Byte
deriving DecidableEq

/-- The variables before the first call: `bits = SPI_BITS`, the others zero. -/
def SpiGlobals.initial : SpiGlobals := ⟨0, 0, 0, 8⟩

/-- What one configuration `ioctl` works on, and the calls made so far. -/
structure ConfigState where
  globals : SpiGlobals
  /-- The local `speed`. -/
  speed : BitVec 32
  calls : List InitCall

/-- What the requests start from: `speed = TARGET_FREQ * 6`. -/
def ConfigState.start (globals : SpiGlobals) (calls : List InitCall) : ConfigState :=
  ⟨globals, 4800000, calls⟩

/-- The value a request is passed. -/
def ConfigState.argument (s : ConfigState) : SpiRequest → BitVec 32
  | .wrMode | .rdMode => s.globals.mode.setWidth 32
  | .wrBitsPerWord | .rdBitsPerWord => s.globals.bits.setWidth 32
  | .wrMaxSpeedHz | .rdMaxSpeedHz => s.speed

/-- The call of a request. -/
def ConfigState.issue (r : SpiReplies) (s : ConfigState) (req : SpiRequest) : ConfigState :=
  { s with calls := s.calls ++ [.ioctl s.globals.spiFd req (s.argument req) (r.ioctl req)] }

/-- A successful read request overwrites the variable it is passed. -/
def ConfigState.readBack (r : SpiReplies) (s : ConfigState) : SpiRequest → ConfigState
  | .rdMode => { s with globals := { s.globals with mode := r.mode } }
  | .rdBitsPerWord => { s with globals := { s.globals with bits := r.bits } }
  | .rdMaxSpeedHz => { s with speed := r.speed }
  | .wrMode | .wrBitsPerWord | .wrMaxSpeedHz => s

/-- The configuration `ioctl`s on `spi_fd`: `if (ioctl(…) < 0) return -1;` for each request in
turn. Returns whether all succeeded. -/
def configure (r : SpiReplies) : List SpiRequest → ConfigState → Bool × ConfigState
  | [], s => (true, s)
  | req :: reqs, s =>
      let s := s.issue r req
      if r.ioctl req < 0 then (false, s) else configure r reqs (s.readBack r req)

/-- What one `spi_init` returns and leaves. -/
structure SpiInitResult where
  /-- The return value. -/
  ret : ℤ
  globals : SpiGlobals
  dev : SpiDevice
  /-- The calls made, in order. -/
  calls : List InitCall

/-- The choice of the mode at the start of `spi_init`: the condition is the assignment
`spi_dev->device_type = PIC`, so the branch is that of the value assigned. -/
def chooseMode (dev : SpiDevice) : SpiDevice × Byte :=
  let dev := { dev with deviceType := .PIC }
  (dev, if dev.deviceType.value ≠ 0 then spiMode0 else spiMode1)

/-- The rest of `spi_init` behind the block that opens the device. -/
def configureDevice (r : SpiReplies) (globals : SpiGlobals) (dev : SpiDevice)
    (calls : List InitCall) : SpiInitResult :=
  let dev := { dev with devHandle := globals.spiFd }
  let (configured, s) := configure r SpiRequest.all (.start globals calls)
  if configured then ⟨0, s.globals, dev, s.calls ++ [.pinMode (pins dev.spiCs)]⟩
  else ⟨-1, s.globals, dev, s.calls⟩

/-- `spi_init`. -/
def spiInit (r : SpiReplies) (globals : SpiGlobals) (dev : SpiDevice) : SpiInitResult :=
  let (dev, mode) := chooseMode dev
  let globals := { globals with mode := mode }
  if globals.wiringPiInit = 0 then
    -- set before `open` is tried
    let globals := { globals with wiringPiInit := 1, spiFd := r.openFd }
    let calls := [.wiringPiSetup, .openDevice r.openFd]
    if r.openFd.toInt < 0 then ⟨-1, globals, dev, calls⟩
    else configureDevice r globals dev calls
  else configureDevice r globals dev []

namespace ConfigFile

variable (file : ConfigFile)

/-- The bytes of `"pico"`. -/
def picoName : List Byte := [0x70, 0x69, 0x63, 0x6F]

/-- The bytes of `"pic"`. -/
def picName : List Byte := [0x70, 0x69, 0x63]

/-- `port_type`: the comparisons of `main`, first with `"pico"`, then with `"pic"`; `PICO` when
the setting is missing. -/
def outputType : OutputType :=
  match file.portType with
  | some s =>
      if StrncmpEq picoName s 4 then .PICO
      else if StrncmpEq picName s 3 then .PIC
      else .PICO
  | none => .PICO

/-- `spi_bus`, `DEFAULT_SPI_BUS` by default. -/
def spiBusSetting : BitVec 32 := file.spiBus.getD 0

end ConfigFile

/-- `spi0_0_dev`, …, `spi0_3_dev` before `main` fills them in. -/
def SpiDevice.zero : SpiDevice := ⟨0, 0, .PIC, 0, 0, none⟩

/-- The variables of `spi_util.c` and the device records while `main` initialises the ports,
with the device `main` passed to `spi_init` for each port so far and what came back. -/
structure SpiStartup where
  globals : SpiGlobals
  devices : Fin 4 → SpiDevice
  results : Fin 4 → Option (SpiDevice × SpiInitResult)

/-- The `spi_cs` of the device of a port. -/
def portCs (p : Fin 4) : Fin 7 := p.castLE (by omega)

/-- The calls of all `spi_init`s so far. -/
def SpiStartup.calls (st : SpiStartup) : List InitCall :=
  (List.finRange 4).flatMap fun p => ((st.results p).map fun res => res.2.calls).getD []

def SpiStartup.initial : SpiStartup := ⟨.initial, fun _ => .zero, fun _ => none⟩

/-- `if(pixel_port_count > p) { … }` for device `p`. -/
def initPort (file : ConfigFile) (r : Fin 4 → SpiReplies) (st : SpiStartup) (p : Fin 4) :
    SpiStartup :=
  if (p : ℤ) < file.pixelPortCount.toInt then
    -- `count = MAX_CHANNELS_PER_DEVICE`
    let dev :=
      { st.devices p with
        spiBus := file.spiBusSetting, spiCs := portCs p, count := 19200#16 }
    let res := spiInit (r p) st.globals dev
    -- the result is only printed, and `device_type` is stored after the call
    { globals := res.globals
      devices := Function.update st.devices p { res.dev with deviceType := file.outputType }
      results := Function.update st.results p (some (dev, res)) }
  else st

/-- The four blocks of `main`. -/
def initDevices (file : ConfigFile) (r : Fin 4 → SpiReplies) : SpiStartup :=
  (List.finRange 4).foldl (initPort file r) .initial

/-- The state in which the threads start, with the device records `main` initialised; the four
records are distinct objects. -/
structure Controller.Boots (file : ConfigFile) (r : Fin 4 → SpiReplies) (c : Controller) :
    Prop extends c.StartsFrom file where
  spiDev_injective : Function.Injective c.workers.spiDev
  spiDev_eq : ∀ p, c.spiDev (c.workers.spiDev p) = (initDevices file r).devices p

end PiPixelController
