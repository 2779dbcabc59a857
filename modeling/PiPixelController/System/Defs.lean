import PiPixelController.Startup.Defs
import PiPixelController.Worker.Defs
import PiPixelController.Zcpp.Defs

/-!
# The controller as a transition system

The ACN listener, the ZCPP listener and the worker run as three threads over one `Controller`.
An `Action` is one iteration of one of their loops; `Controller.run` executes the iterations in
the order in which they happen.
-/

namespace PiPixelController

open CSemantics

/-- What the loops read and never change. -/
structure Params where
  /-- `listen_param`. -/
  acn : AcnParam
  /-- `controller_name` and the pointers after it. -/
  controllerName : Block 48
deriving Inhabited

/-- One iteration of one of the three loops, with what the system calls do. -/
inductive Action where
  /-- `acn_listen`, with the datagram `recvfrom` copies to the receive buffer, if any. -/
  | acn (recv : Option Datagram)
  /-- `zcpp_multicast_listen`, likewise. -/
  | zcpp (net : Network) (recv : Option Datagram)
  /-- The worker refreshes all ports. -/
  | refresh (rets : Fin 4 → ℤ)

namespace Controller

/-- The state after one action. -/
def step (params : Params) (c : Controller) : Action → Outcome Controller
  | .acn recv => acnListen params.acn recv c
  | .zcpp net recv => Prod.fst <$> zcppMulticastListen params.controllerName net recv c
  | .refresh rets => Prod.fst <$> workerRefresh rets c

/-- The state after a sequence of actions. -/
def run (params : Params) (c : Controller) (actions : List Action) : Outcome Controller :=
  actions.foldlM (step params) c

theorem run_append {params : Params} {c : Controller} {pre : List Action} {a : Action} :
    c.run params (pre ++ [a]) = c.run params pre >>= fun c => c.step params a := by
  rw [run, List.foldlM_append]
  simp only [List.foldlM_cons, List.foldlM_nil, bind_pure]
  rfl

end Controller

end PiPixelController
