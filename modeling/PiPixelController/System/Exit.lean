import PiPixelController.System.Launch

/-!
# What ends the process

A listener that cannot open its socket and a discovery packet to which `connect` fails call `exit`.

* `run_eq_exit_iff` — nothing else ends the process, in any order of the steps.
-/

namespace PiPixelController

open CSemantics

/-! ### The loops -/

theorem acnListen_ne_exit (params : AcnParam) (recv : Option Datagram) (c : Controller) :
    acnListen params recv c ≠ .exit := by
  rw [Acn.acnListen_eq_effect, Ne, Outcome.map_eq_exit_iff]
  exact Acn.effect_ne_exit _ _ _

/-- The ZCPP listener ends the process exactly when a discovery packet finds no connection. -/
theorem zcppMulticastListen_eq_exit_iff {controllerName : Block 48} {net : Network}
    {recv : Option Datagram} {c : Controller} :
    zcppMulticastListen controllerName net recv c = .exit ↔
      Zcpp.received (EthBuffer.recvfrom c.zcppEthBuffer recv) = some .discovery ∧
        net.connectOk = false :=
  Zcpp.dispatch_eq_exit_iff

/-! ### The process -/

section

variable {env : Environment} {p₀ p : Process} {step : ProcessStep}

theorem exec_ne_exit (m : MainMemory) (st : Statement) : m.exec env st ≠ .exit := by
  cases st with
  | store st =>
      rw [MainMemory.exec, Ne, Outcome.map_eq_exit_iff, Workers.store]
      split <;> simp
  | _ => simp [MainMemory.exec]

/-- The step is one that calls `exit`: a listener that cannot open its socket, or a discovery packet
to which `connect` fails. -/
def Process.Ends (p : Process) : ProcessStep → Prop
  | .start .acn r => p.thread .acn = .created ∧ (r.socket.toInt < 0 ∨ r.bind < 0)
  | .start .zcpp r =>
      p.thread .zcpp = .created ∧ (r.socket.toInt < 0 ∨ r.bind < 0 ∨ r.setsockopt < 0)
  | .iterate (.zcpp net recv) =>
      (∃ fd, p.thread .zcpp = .looping fd) ∧
        Zcpp.received (EthBuffer.recvfrom p.controller.zcppEthBuffer recv) = some .discovery ∧
        net.connectOk = false
  | _ => False

theorem listen_eq_exit_iff {t : Loop} {opened : Calls (BitVec 32)} :
    p.listen t opened = .exit ↔ opened.2 = .exit := by
  rw [Process.listen, Outcome.bind_eq_exit_iff]
  simp

/-- An iteration ends the process only in the ZCPP listener. -/
theorem iterate_eq_exit_iff (hparam : p.thread .zcpp ≠ .absent → p.zcppParam = true) {a : Action}
    {fd : BitVec 32} (hfd : p.thread a.loop = .looping fd) :
    p.iterate env a = .exit ↔ p.Ends (.iterate a) := by
  cases a with
  | acn recv =>
      simp [Process.iterate, Process.Ends, Action.loop, Controller.step, Outcome.map_eq_exit_iff,
        acnListen_ne_exit]
  | refresh rets =>
      simp [Process.iterate, Process.Ends, Action.loop, Controller.step, Outcome.map_eq_exit_iff,
        workerRefresh_ne_exit]
  | zcpp net recv =>
      -- with its parameter set the listener makes the iteration
      change p.thread .zcpp = .looping fd at hfd
      have hset : p.zcppParam = true := hparam (by simp [hfd])
      simp [Process.iterate, Process.Ends, Controller.step, Outcome.map_eq_exit_iff,
        zcppMulticastListen_eq_exit_iff, hset, hfd]

/-- A step ends the process exactly when it is one that calls `exit`. -/
theorem step_eq_exit_iff (hparam : p.thread .zcpp ≠ .absent → p.zcppParam = true) :
    p.step env step = .exit ↔ p.Ends step := by
  cases step with
  | main ret =>
      rw [Process.step]
      cases p.rest with
      | nil => simp [Process.Ends]
      | cons st rest =>
          have hexec : p.exec env ret st ≠ .exit := by
            cases st <;> simp [Process.exec, Outcome.map_eq_exit_iff, exec_ne_exit]
          simp [Process.Ends, Outcome.map_eq_exit_iff, hexec]
  | start t r =>
      rw [Process.step]
      by_cases hcreated : p.thread t = .created
      · rw [if_pos hcreated]
        cases t with
        | acn =>
            rw [Process.start, listen_eq_exit_iff, acnInit, bindSocket_eq_exit_iff]
            simp [Process.Ends, hcreated]
        | zcpp =>
            rw [Process.start, listen_eq_exit_iff, zcppMulticastInit_eq_exit_iff]
            simp [Process.Ends, hcreated]
        | worker => simp [Process.start, Process.Ends]
      · rw [if_neg hcreated]
        cases t <;> simp [Process.Ends, hcreated]
  | iterate a =>
      rw [Process.step]
      cases hthread : p.thread a.loop with
      | looping fd => exact iterate_eq_exit_iff hparam hthread
      | _ =>
          -- no iteration without a loop
          cases a <;> simp_all [Process.Ends, Action.loop]

/-- For every order in which `main` and its threads run and every outcome of the system calls, the
process ends if and only if a step is reached in which a listener cannot open its socket, or a
discovery packet finds no connection. -/
theorem run_eq_exit_iff (hfresh : p₀.Fresh env) {steps : List ProcessStep} :
    p₀.run env steps = .exit ↔ ∃ pre step post p, steps = pre ++ step :: post ∧
      p₀.run env pre = .ok p ∧ p.Ends step := by
  rw [Process.run, Outcome.foldlM_eq_exit_iff]
  constructor
  · rintro ⟨pre, step, post, p, hsteps, hpre, hstep⟩
    have hparam := (exists_launched hfresh hpre).elim fun done h => h.elim fun m h => h.zcpp
    exact ⟨pre, step, post, p, hsteps, hpre, (step_eq_exit_iff hparam).mp hstep⟩
  · rintro ⟨pre, step, post, p, hsteps, hpre, hends⟩
    obtain ⟨done, m, h⟩ := exists_launched hfresh hpre
    exact ⟨pre, step, post, p, hsteps, hpre, (step_eq_exit_iff h.zcpp).mpr hends⟩

end

/-- `run_eq_exit_iff` when the ACN port is taken. -/
theorem run_eq_exit_iff_sample :
    sampleProcess.run sampleEnvironment (List.replicate 5 (.main 0) ++ [.start .acn ⟨3, -1, 0⟩]) =
      .exit := by
  refine (run_eq_exit_iff fresh_sampleProcess).mpr ⟨_, _, [], _, rfl, rfl, rfl, ?_⟩
  exact Or.inr (by decide)

end PiPixelController
