import PiPixelController.Sockets.Defs
import PiPixelController.Spi.Startup
import PiPixelController.System.Order
import PiPixelController.Zcpp.Response

/-!
# `main` and the threads it creates

The process from the clearing of the pixel buffer on. `main` executes its statements while the
threads it has created already run: the ACN listener handles datagrams while `main` is still
reading the channel records, the worker refreshes before the ZCPP listener exists. A thread whose
`pthread_create` fails does not run; `main` only prints the result.

A `Process` is the shared memory with the state of every thread, and a `ProcessStep` is one
statement of `main`, the start of a thread, or one iteration of its loop.
-/

namespace PiPixelController

open CSemantics

/-- What `main` finds: the configuration file, the addresses of its objects, what the system calls
of `spi_init` return for each port, and the pointers behind `controller_name`. -/
structure Environment where
  file : ConfigFile
  addresses : Addresses
  spiReplies : Fin 4 → SpiReplies
  pointers : Block 16

/-- What the loops read and never change. -/
def Environment.params (env : Environment) : Params :=
  ⟨env.file.acnParam, env.file.zcppControllerName env.pointers⟩

/-- `acn_active`, `DEFAULT_ACN_ACTIVE` by default. -/
def ConfigFile.acnActive (file : ConfigFile) : BitVec 32 := file.listenAcn.getD 1

/-- A statement of `main` that other threads may run around. -/
inductive Statement where
  /-- `if (pixel_port_count > p) { … spi_init(&spi0_p_dev) … }`. -/
  | initPort (p : Fin 4)
  /-- `pthread_create` for the thread of a loop. -/
  | create (t : Loop)
  /-- `memset(&workers[0], 0, sizeof(thread_ctrl))`. -/
  | clearWorkers
  /-- An assignment for a record of the file. -/
  | store (st : WordStore)
  /-- The assignments to `pixel_ports`, `buffer` and the `spi_dev` pointers. -/
  | setFields
  /-- The assignments to `zcpp_listen_param.buffer` and `zcpp_listen_param.hwconfig`. -/
  | setZcppParam
deriving DecidableEq

/-- What `main` does before the worker is created. -/
def statementsBeforeWorker (file : ConfigFile) : List Statement :=
  (List.finRange 4).map .initPort ++ (if file.acnActive ≠ 0 then [.create .acn] else []) ++
    .clearWorkers :: (fileStores file).map .store ++ [.setFields]

/-- The statements of `main` from the clearing of the pixel buffer to its final loop. -/
def statements (file : ConfigFile) : List Statement :=
  statementsBeforeWorker file ++ .create .worker :: [.setZcppParam, .create .zcpp]

/-- How far a thread is. -/
inductive ThreadState where
  /-- It does not exist. -/
  | absent
  /-- It is created and has not reached its loop. -/
  | created
  /-- It is in its loop; the listeners receive from `fd`. -/
  | looping (fd : BitVec 32)
  /-- It is a listener whose descriptor is 0, which ends `while(sockfd)` at once. -/
  | returned
deriving DecidableEq

/-- The memory `main` works on. -/
structure MainMemory where
  workers : Workers
  /-- The `spi_device` record at each address. -/
  spiDev : BitVec 64 → SpiDevice
  spi : SpiStartup

/-- The effect of a statement on the memory. -/
def MainMemory.exec (env : Environment) (m : MainMemory) : Statement → Outcome MainMemory
  | .initPort p =>
      let spi := initPort env.file env.spiReplies m.spi p
      .ok { m with
        spi := spi
        spiDev := Function.update m.spiDev (env.addresses.spiDev p) (spi.devices p) }
  | .clearWorkers =>
      -- `thread_ctrl` is 76 words
      .ok { m with workers := fun i => if i.val < 76 then 0 else m.workers i }
  | .store st => (fun w => { m with workers := w }) <$> m.workers.store st
  | .setFields =>
      .ok { m with workers := m.workers.setFields env.addresses env.file.pixelPortCount }
  | .create _ | .setZcppParam => .ok m

/-- The whole process. -/
structure Process where
  controller : Controller
  spi : SpiStartup
  thread : Loop → ThreadState
  /-- Whether the pointers in `zcpp_listen_param` are set. -/
  zcppParam : Bool
  /-- The statements `main` still has to execute. -/
  rest : List Statement
  /-- The socket calls made so far. -/
  calls : List SocketCall
  /-- The iterations of the loops so far. The program has no such variable. -/
  iterations : List Action

namespace Process

variable (env : Environment) (p : Process)

def memory : MainMemory := ⟨p.controller.workers, p.controller.spiDev, p.spi⟩

def withMemory (m : MainMemory) : Process :=
  { p with controller := { p.controller with workers := m.workers, spiDev := m.spiDev }
           spi := m.spi }

def setThread (t : Loop) (s : ThreadState) : Process :=
  { p with thread := Function.update p.thread t s }

theorem thread_setThread (t t' : Loop) (s : ThreadState) :
    (p.setThread t s).thread t' = if t' = t then s else p.thread t' :=
  Function.update_apply ..

/-- A statement of `main`; `ret` is what `pthread_create` returns if it is one. -/
def exec (ret : ℤ) : Statement → Outcome Process
  | .create t => .ok (if ret = 0 then p.setThread t .created else p)
  | .setZcppParam => .ok { p with zcppParam := true }
  | st => p.withMemory <$> p.memory.exec env st

/-- A listener enters its loop with the descriptor it got, or ends the process. -/
def listen (t : Loop) (opened : Calls (BitVec 32)) : Outcome Process := do
  let fd ← opened.2
  return { p.setThread t (if fd ≠ 0 then .looping fd else .returned) with
    calls := p.calls ++ opened.1 }

/-- What a thread does before its loop. -/
def start (r : SocketReplies) : Loop → Outcome Process
  | .acn => p.listen .acn (acnInit r acnSdt)
  | .zcpp => p.listen .zcpp (zcppMulticastInit r)
  | .worker =>
      -- `memset(&payload1, 0, sizeof(control_buffer))` and its three siblings
      .ok { p.setThread .worker (.looping 0) with
        controller := { p.controller with payload := fun _ => ⟨fun _ => 0, fun _ => 0⟩ } }

/-- An iteration of a loop. The ZCPP listener works through the pointers in its parameter. -/
def iterate (a : Action) : Outcome Process :=
  if a.loop = .zcpp ∧ p.zcppParam = false then .undefined
  else (fun c => { p with controller := c, iterations := p.iterations ++ [a] }) <$>
    p.controller.step env.params a

end Process

/-- A step of one of the threads. -/
inductive ProcessStep where
  /-- `main` executes its next statement, or sleeps in its final loop. -/
  | main (ret : ℤ)
  /-- A created thread gets to its loop. -/
  | start (t : Loop) (r : SocketReplies)
  /-- A thread in its loop makes an iteration. -/
  | iterate (a : Action)

namespace Process

/-- One step; nothing happens when it is not the thread's turn to make it. -/
def step (env : Environment) (p : Process) : ProcessStep → Outcome Process
  | .main ret =>
      match p.rest with
      | [] => .ok p
      | st :: rest => (fun p => { p with rest := rest }) <$> p.exec env ret st
  | .start t r => if p.thread t = .created then p.start r t else .ok p
  | .iterate a =>
      match p.thread a.loop with
      | .looping _ => p.iterate env a
      | _ => .ok p

def run (env : Environment) (p : Process) (steps : List ProcessStep) : Outcome Process :=
  steps.foldlM (step env) p

/-- The process when `main` has cleared the pixel buffer. The globals of the program are zero; the
receive buffers and the memory elsewhere are left open. -/
structure Fresh (env : Environment) (p : Process) : Prop where
  pixelBuffer : p.controller.pixelBuffer = fun _ => 0
  workers : p.controller.workers = Workers.zero
  lastConfigSequence : p.controller.lastConfigSequence = 0
  payload : p.controller.payload = fun _ => ⟨fun _ => 0, fun _ => 0⟩
  /-- The four device records are distinct objects. -/
  spiDev_injective : Function.Injective env.addresses.spiDev
  spi : p.spi = .initial
  thread : ∀ t, p.thread t = .absent
  zcppParam : p.zcppParam = false
  rest : p.rest = statements env.file
  calls : p.calls = []
  iterations : p.iterations = []

end Process

end PiPixelController
