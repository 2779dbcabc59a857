import PiPixelController.System.Configured
import PiPixelController.System.Exit
import PiPixelController.System.Traffic

/-!
# What the process sends

The process from the start of `main` on, with all its threads, in any order of their steps. The
records of the file name strings of the table, and the sockets receive complete, in-range packets
and datagrams that are not for a handler.

* `run_eq_undefined_iff` — nothing it does is undefined but a refresh that finds a mapping which is
  not packable;
* `frames_of_process` — what a refresh sends, from the file and the datagrams alone.
-/

namespace PiPixelController

open CSemantics

section

variable {env : Environment} {p₀ p p' : Process} {done rest : List Statement} {m : MainMemory}
  {steps : List ProcessStep} {step : ProcessStep}

/-! ### The iterations of a schedule -/

/-- Every iteration in the schedule handles an arrival. -/
def Receives (env : Environment) (steps : List ProcessStep) : Prop :=
  ∀ a, .iterate a ∈ steps → ∃ r : Arrival env.params, r.action = a

/-- A step adds at most its own iteration. -/
theorem iterations_of_step (hstep : p.step env step = .ok p') :
    p'.iterations = p.iterations ∨
      ∃ a, step = .iterate a ∧ p'.iterations = p.iterations ++ [a] := by
  cases step with
  | main ret =>
      rw [Process.step] at hstep
      cases hrest : p.rest with
      | nil =>
          rw [hrest] at hstep
          cases hstep
          exact Or.inl rfl
      | cons st rest =>
          rw [hrest] at hstep
          -- a statement of `main` is no iteration
          obtain ⟨p₁, hexec, rfl⟩ := Outcome.map_eq_ok_iff.mp hstep
          left
          cases st with
          | create t =>
              cases hexec
              split <;> rfl
          | setZcppParam =>
              cases hexec
              rfl
          | _ =>
              obtain ⟨m, -, rfl⟩ := Outcome.map_eq_ok_iff.mp hexec
              rfl
  | start t r =>
      rw [Process.step] at hstep
      split at hstep
      next =>
        cases t with
        | worker =>
            cases hstep
            exact Or.inl rfl
        | _ =>
            obtain ⟨fd, -, hp'⟩ := Outcome.bind_eq_ok_iff.mp hstep
            cases hp'
            exact Or.inl rfl
      next =>
        cases hstep
        exact Or.inl rfl
  | iterate a =>
      rw [Process.step] at hstep
      cases hthread : p.thread a.loop with
      | looping fd =>
          rw [hthread] at hstep
          change p.iterate env a = .ok p' at hstep
          rw [Process.iterate] at hstep
          split at hstep
          next => cases hstep
          next =>
            obtain ⟨c, -, rfl⟩ := Outcome.map_eq_ok_iff.mp hstep
            exact Or.inr ⟨a, rfl, rfl⟩
      | _ =>
          rw [hthread] at hstep
          cases hstep
          exact Or.inl rfl

/-- The iterations of the loops are arrivals. -/
theorem exists_arrivals (hfresh : p₀.Fresh env) (hrec : Receives env steps)
    (hrun : p₀.run env steps = .ok p) :
    ∃ arrivals : List (Arrival env.params), p.iterations = arrivals.map Arrival.action := by
  have hmem : ∀ a ∈ p.iterations, ∃ r : Arrival env.params, r.action = a := by
    refine Outcome.foldlM_invariant
      (I := fun p => ∀ a ∈ p.iterations, ∃ r : Arrival env.params, r.action = a) ?_
      (by simp [hfresh.iterations]) hrun
    intro p step p' hstep hp hp'
    rcases iterations_of_step hp' with heq | ⟨a, rfl, heq⟩
    · rwa [heq]
    · rw [heq]
      intro b hb
      rcases List.mem_append.mp hb with hb | hb
      · exact hp b hb
      · obtain rfl := List.mem_singleton.mp hb
        exact hrec b hstep
  -- the arrivals are chosen one by one
  have hrange : p.iterations ∈ Set.range (List.map (@Arrival.action env.params)) := by
    rw [Set.range_list_map]
    exact hmem
  obtain ⟨arrivals, harrivals⟩ := hrange
  exact ⟨arrivals, harrivals.symm⟩

/-! ### Steps that complete -/

/-- The state follows the arrivals from a state in which the memory of `main` is filled in. -/
theorem Launched.follows (h : Launched env p₀ p done m) (hfresh : p₀.Fresh env)
    (hrange : env.params.acn.universeEnd.toInt - env.params.acn.universeStart.toInt < 48)
    (hname : env.params.controllerName.strlen.isSome) {arrivals : List (Arrival env.params)}
    (harrivals : p.iterations = arrivals.map Arrival.action) :
    Follows (p₀.controller.withMain m) (eventsOf arrivals) p.controller := by
  refine follows_of_run hrange hname hfresh.pixelBuffer ?_
  rw [← harrivals]
  exact h.run

/-- The mapping in force after the arrivals, from that of the file on. -/
def ConfigFile.mappingAfter {params : Params} (file : ConfigFile)
    (arrivals : List (Arrival params)) : Mapping :=
  PiPixelController.mappingAfter 0 file.mapping (eventsOf arrivals)

/-- The worker finds the mapping in force and the number of ports of the file. -/
theorem Launched.mapping_of_looping (h : Launched env p₀ p done m) (hfresh : p₀.Fresh env)
    (hrange : env.params.acn.universeEnd.toInt - env.params.acn.universeStart.toInt < 48)
    (hname : env.params.controllerName.strlen.isSome) {arrivals : List (Arrival env.params)}
    (harrivals : p.iterations = arrivals.map Arrival.action) {fd : BitVec 32}
    (hworker : p.thread .worker = .looping fd) :
    p.controller.workers.pixelPorts = env.file.pixelPortCount ∧
      (p₀.controller.withMain m).mappingAfter (eventsOf arrivals) =
        env.file.mappingAfter arrivals ∧
      p.controller.workers.mapping = env.file.mappingAfter arrivals := by
  -- a worker that is in its loop has been created, so `main` has filled in its memory
  have hcreated : .create .worker ∈ done := by
    by_contra hdone
    rw [(h.early hdone).2.1] at hworker
    cases hworker
  have hstarts := (h.boots hfresh hcreated).toStartsFrom
  have hfollows := h.follows hfresh hrange hname harrivals
  have hmapping : (p₀.controller.withMain m).mappingAfter (eventsOf arrivals) =
      env.file.mappingAfter arrivals := by
    rw [Controller.mappingAfter, hstarts.lastConfigSequence, hstarts.mapping_eq]
    rfl
  exact ⟨hfollows.pixelPorts.trans hstarts.pixelPorts_eq, hmapping,
    hfollows.mapping_eq.trans hmapping⟩

/-- The records of a file in the table store inside `workers`. -/
theorem ConfigFile.InTable.store_ne_undefined (hfile : env.file.InTable) {st : WordStore}
    (hst : st ∈ fileStores env.file) (w : Workers) : w.store st ≠ .undefined := by
  intro hundef
  have haddr : ¬(0 ≤ st.addr ∧ st.addr < 760) := by
    intro haddr
    rw [Workers.store, dif_pos haddr] at hundef
    cases hundef
  -- reading the file would be undefined too
  obtain ⟨w', hw', -⟩ := Workers.zero.storeAll_entries env.file.entries hfile.entries
  rw [← hfile.fileStores_eq, Workers.storeAll] at hw'
  have hexit : ∀ (w : Workers), ∀ st' ∈ fileStores env.file, w.store st' ≠ .exit := by
    intro w st' _
    rw [Workers.store]
    split <;> simp
  have hall := Outcome.foldlM_eq_undefined hexit hst (fun _ => Workers.store_of_not_mem haddr)
    Workers.zero
  rw [hw'] at hall
  cases hall

/-- A statement of `main` completes. -/
theorem exec_ne_undefined (hfile : env.file.InTable) {st : Statement}
    (hst : st ∈ statements env.file) (m : MainMemory) : m.exec env st ≠ .undefined := by
  cases st with
  | store st =>
      have hmem : st ∈ fileStores env.file := by
        simpa [statements, statementsBeforeWorker] using hst
      rw [MainMemory.exec, Ne, Outcome.map_eq_undefined_iff]
      exact hfile.store_ne_undefined hmem _
  | _ => simp [MainMemory.exec]

theorem start_ne_undefined (r : SocketReplies) (t : Loop) : p.start r t ≠ .undefined := by
  cases t with
  | acn => simp [Process.start, Process.listen, Outcome.bind_eq_undefined_iff, acnInit,
      bindSocket_ne_undefined]
  | zcpp => simp [Process.start, Process.listen, Outcome.bind_eq_undefined_iff,
      zcppMulticastInit_ne_undefined]
  | worker => simp [Process.start]

/-- A refresh is undefined exactly when the mapping it finds is not packable. -/
theorem refresh_eq_undefined_iff {params : Params} {c : Controller} {rets : Fin 4 → ℤ} :
    c.step params (.refresh rets) = .undefined ↔
      ¬Packable c.workers.pixelPorts c.workers.mapping := by
  rw [Controller.step, Outcome.map_eq_undefined_iff]
  exact not_iff_not.mp (workerRefresh_ne_undefined_iff.trans not_not.symm)

/-- The step is a refresh that finds a mapping which is not packable. -/
def Unpackable (env : Environment) (p : Process) (step : ProcessStep) : Prop :=
  ∃ rets, step = .iterate (.refresh rets) ∧ (∃ fd, p.thread .worker = .looping fd) ∧
    ∃ arrivals : List (Arrival env.params), p.iterations = arrivals.map Arrival.action ∧
      ¬Packable env.file.pixelPortCount (env.file.mappingAfter arrivals)

/-- An iteration is undefined only in the worker. -/
theorem iterate_eq_undefined_iff (h : Launched env p₀ p done m) (hfresh : p₀.Fresh env)
    (hrange : env.params.acn.universeEnd.toInt - env.params.acn.universeStart.toInt < 48)
    (hname : env.params.controllerName.strlen.isSome) {arrivals : List (Arrival env.params)}
    (harrivals : p.iterations = arrivals.map Arrival.action) (r : Arrival env.params)
    {fd : BitVec 32} (hfd : p.thread r.action.loop = .looping fd) :
    p.iterate env r.action = .undefined ↔ Unpackable env p (.iterate r.action) := by
  -- the pointers the ZCPP listener works through are set
  have hparam : ¬(r.action.loop = .zcpp ∧ p.zcppParam = false) := by
    rintro ⟨hloop, hparam⟩
    rw [h.zcpp (by rw [← hloop, hfd]; simp)] at hparam
    cases hparam
  rw [Process.iterate, if_neg hparam, Outcome.map_eq_undefined_iff]
  have hfollows := h.follows hfresh hrange hname harrivals
  by_cases hrefresh : ∃ rets, r.action = .refresh rets
  · obtain ⟨rets, hr⟩ := hrefresh
    rw [hr] at hfd ⊢
    obtain ⟨hports, -, hmapping⟩ := h.mapping_of_looping hfresh hrange hname harrivals hfd
    rw [refresh_eq_undefined_iff, hports, hmapping]
    constructor
    · exact fun hpack => ⟨rets, rfl, ⟨fd, hfd⟩, arrivals, harrivals, hpack⟩
    · -- the arrivals of the refresh that is not packable may be others, but the mapping is the same
      rintro ⟨-, -, -, arrivals', harrivals', hpack⟩
      obtain ⟨-, -, hmapping'⟩ := h.mapping_of_looping hfresh hrange hname harrivals' hfd
      rwa [← hmapping, hmapping']
  · -- an iteration of a listener completes
    obtain ⟨c', hc', -⟩ := follows_arrival hrange hname hfollows r fun rets hr => by
      refine absurd ⟨rets, ?_⟩ hrefresh
      cases r with
      | event e => rw [Arrival.action, Option.some.inj hr]; rfl
      | _ => cases hr
    rw [hc']
    constructor
    · intro hundef
      cases hundef
    · rintro ⟨rets, hr, -⟩
      exact absurd ⟨rets, ProcessStep.iterate.inj hr⟩ hrefresh

/-- A step is undefined exactly when it is a refresh that finds a mapping which is not packable. -/
theorem step_eq_undefined_iff (h : Launched env p₀ p done m) (hfresh : p₀.Fresh env)
    (hfile : env.file.InTable)
    (hrange : env.params.acn.universeEnd.toInt - env.params.acn.universeStart.toInt < 48)
    (hname : env.params.controllerName.strlen.isSome) {arrivals : List (Arrival env.params)}
    (harrivals : p.iterations = arrivals.map Arrival.action)
    (hrec : ∀ a, step = .iterate a → ∃ r : Arrival env.params, r.action = a) :
    p.step env step = .undefined ↔ Unpackable env p step := by
  cases step with
  | main ret =>
      rw [Process.step]
      cases hrest : p.rest with
      | nil => simp [Unpackable]
      | cons st rest =>
          have hst : st ∈ statements env.file := by
            rw [h.statements, hrest]
            simp
          have hexec : p.exec env ret st ≠ .undefined := by
            cases st <;>
              simp [Process.exec, Outcome.map_eq_undefined_iff, exec_ne_undefined hfile hst]
          simp [Unpackable, Outcome.map_eq_undefined_iff, hexec]
  | start t r =>
      rw [Process.step]
      split <;> simp [Unpackable, start_ne_undefined]
  | iterate a =>
      obtain ⟨r, rfl⟩ := hrec a rfl
      rw [Process.step]
      cases hthread : p.thread r.action.loop with
      | looping fd =>
          exact iterate_eq_undefined_iff h hfresh hrange hname harrivals r hthread
      | _ =>
          -- a thread that is not in its loop does nothing
          simp only [reduceCtorEq, false_iff]
          rintro ⟨rets, hr, ⟨fd, hfd⟩, -⟩
          rw [ProcessStep.iterate.inj hr, Action.loop, hfd] at hthread
          cases hthread

/-- For every order in which `main` and its threads run and every outcome of the system calls, when
the records of the file name strings of the table, the range has at most 48 universes, the name has
a NUL in `zcppParam`, and the sockets receive complete, in-range packets and datagrams that are not
for a handler: the process runs into undefined behaviour if and only if a refresh is reached at
which the mapping in force, from the file and the configurations received, is not packable. -/
theorem run_eq_undefined_iff (hfresh : p₀.Fresh env) (hfile : env.file.InTable)
    (hrange : env.params.acn.universeEnd.toInt - env.params.acn.universeStart.toInt < 48)
    (hname : env.params.controllerName.strlen.isSome) (hrec : Receives env steps) :
    p₀.run env steps = .undefined ↔ ∃ pre step post p, steps = pre ++ step :: post ∧
      p₀.run env pre = .ok p ∧ Unpackable env p step := by
  -- a schedule is undefined at the first step that is, which follows a prefix that completes
  have hstep : ∀ pre step post p, steps = pre ++ step :: post → p₀.run env pre = .ok p →
      (p.step env step = .undefined ↔ Unpackable env p step) := by
    intro pre step post p hsteps hpre
    obtain ⟨done, m, h⟩ := exists_launched hfresh hpre
    have hmem : ∀ st, st ∈ pre ∨ st = step → st ∈ steps := by
      intro st hst
      rw [hsteps]
      rcases hst with hst | rfl <;> simp [*]
    obtain ⟨arrivals, harrivals⟩ :=
      exists_arrivals hfresh (fun a ha => hrec a (hmem _ (Or.inl ha))) hpre
    exact step_eq_undefined_iff h hfresh hfile hrange hname harrivals
      fun a ha => hrec a (hmem _ (Or.inr ha.symm))
  rw [Process.run, Outcome.foldlM_eq_undefined_iff]
  constructor
  · rintro ⟨pre, step, post, p, hsteps, hpre, hundef⟩
    exact ⟨pre, step, post, p, hsteps, hpre, (hstep pre step post p hsteps hpre).mp hundef⟩
  · rintro ⟨pre, step, post, p, hsteps, hpre, hundef⟩
    exact ⟨pre, step, post, p, hsteps, hpre, (hstep pre step post p hsteps hpre).mpr hundef⟩

/-- For every order in which `main` and its threads run and every outcome of the system calls, when
the range has at most 48 universes and the name has a NUL in `zcppParam`: when the worker is in its
loop, whatever complete, in-range packets and other datagrams the sockets have received, before the
worker existed or after, a refresh that finds a packable mapping sends to each port of the file one
frame, which a receiver decodes to the eight strings of the mapping in force over the bytes last
stored by a packet. -/
theorem frames_of_process (hfresh : p₀.Fresh env)
    (hrange : env.params.acn.universeEnd.toInt - env.params.acn.universeStart.toInt < 48)
    (hname : env.params.controllerName.strlen.isSome) (hrun : p₀.run env steps = .ok p)
    {arrivals : List (Arrival env.params)}
    (harrivals : p.iterations = arrivals.map Arrival.action) {fd : BitVec 32}
    (hworker : p.thread .worker = .looping fd)
    (hpack : Packable env.file.pixelPortCount (env.file.mappingAfter arrivals))
    (rets : Fin 4 → ℤ) :
    ∃ c events, workerRefresh rets p.controller = .ok (c, events) ∧
      (frames events).map (fun frame => (frame.1, Framing.decode 8 frame.2)) =
        ((List.finRange 4).filter fun q : Fin 4 =>
          (q : ℤ) < env.file.pixelPortCount.toInt).map fun q =>
            (q, some ((List.finRange 8).map fun s =>
              stringAfter (eventsOf arrivals) (env.file.mappingAfter arrivals (q, s)))) := by
  obtain ⟨done, m, h⟩ := exists_launched hfresh hrun
  have hfollows := h.follows hfresh hrange hname harrivals
  obtain ⟨hports, hmapping, hmapping'⟩ :=
    h.mapping_of_looping hfresh hrange hname harrivals hworker
  have hpackable : Packable p.controller.workers.pixelPorts p.controller.workers.mapping := by
    rw [hports, hmapping']
    exact hpack
  obtain ⟨c, events, hrefresh, -, hframes⟩ := workerRefresh_of_packable hpackable rets
  refine ⟨c, events, hrefresh, ?_⟩
  rw [hframes, hfollows.decode_refreshFrames hpackable, hmapping, ← hfollows.pixelPorts, hports]

end

/-! ### A schedule -/

/-- `main` to its end, the worker and the ZCPP listener in their loops, then the iterations. -/
def stepsFor (actions : List Action) : List ProcessStep :=
  List.replicate 10 (.main 0) ++ [.start .worker ⟨0, 0, 0⟩, .start .zcpp ⟨4, 0, 0⟩] ++
    actions.map .iterate

/-- The packet that gives string 0 of port 0 `count` channels from 5 on. -/
def configOf (count : BitVec 32) : ConfigPacket :=
  ConfigPacket.encode 1 [⟨0, 0, 5, count⟩] (by simp)

theorem inTable_configOf (count : BitVec 32) : (configOf count).InTable :=
  ConfigPacket.inTable_encode.mpr (by simp [PortConfig.InTable])

theorem mappingAfter_configOf {params : Params} (file : ConfigFile) (count : BitVec 32)
    {arrivals : List (Arrival params)} (h : configs (eventsOf arrivals) = [configOf count]) :
    file.mappingAfter arrivals = fun k =>
      ((lastEntry [⟨0, 0, 5, count⟩] k).map PortConfig.cell).getD ⟨0, 0⟩ := by
  rw [ConfigFile.mappingAfter, mappingAfter, h, configOf, inForce_encode]
  rfl

theorem inTable_sampleFile : sampleEnvironment.file.InTable := by
  rw [ConfigFile.InTable]
  decide

/-- `run_eq_undefined_iff` for a refresh after a configuration with a string longer than the payload
buffer. -/
theorem run_eq_undefined_iff_sample :
    sampleProcess.run sampleEnvironment
      (stepsFor [(configOf 20000).action default, .refresh fun _ => 0]) = .undefined := by
  have hrec : Receives sampleEnvironment
      (stepsFor [(configOf 20000).action default, .refresh fun _ => 0]) := by
    intro a ha
    simp only [stepsFor, List.map_cons, List.map_nil, List.mem_append, List.mem_replicate,
      List.mem_cons, List.not_mem_nil, reduceCtorEq, and_false, false_or, or_false,
      ProcessStep.iterate.injEq] at ha
    rcases ha with rfl | rfl
    · exact ⟨.event (.config default (configOf 20000) (inTable_configOf _)), rfl⟩
    · exact ⟨.event (.refresh fun _ => 0), rfl⟩
  refine (run_eq_undefined_iff fresh_sampleProcess inTable_sampleFile (by decide) (by decide)
    hrec).mpr ⟨stepsFor [(configOf 20000).action default], _, [], _, rfl, rfl, ?_⟩
  refine ⟨_, rfl, ⟨0, rfl⟩,
    [.event (.config default (configOf 20000) (inTable_configOf _))], rfl, ?_⟩
  rw [mappingAfter_configOf _ 20000 rfl]
  decide

/-- `frames_of_process` after a configuration and a data packet. -/
theorem frames_of_process_sample :
    ∃ p c events, sampleProcess.run sampleEnvironment (stepsFor
        [(configOf 2).action default, .zcpp default (some sampleData.datagram)]) = .ok p ∧
      workerRefresh (fun _ => 0) p.controller = .ok (c, events) ∧
      (frames events).map (fun frame => (frame.1, Framing.decode 8 frame.2)) =
        [(0, some [[7, 8], [], [], [], [], [], [], []]), (1, some (List.replicate 8 [])),
          (2, some (List.replicate 8 [])), (3, some (List.replicate 8 []))] := by
  let arrivals : List (Arrival sampleEnvironment.params) :=
    [.event (.config default (configOf 2) (inTable_configOf _)), .event (.data default sampleData)]
  have hmapping := @mappingAfter_configOf _ sampleEnvironment.file 2 arrivals rfl
  have hports : sampleEnvironment.file.pixelPortCount = 4 := rfl
  have hpack : Packable sampleEnvironment.file.pixelPortCount
      (sampleEnvironment.file.mappingAfter arrivals) := by
    rw [hports, hmapping]
    decide
  obtain ⟨p, hrun, hworker, harrivals⟩ : ∃ p,
      sampleProcess.run sampleEnvironment (stepsFor (arrivals.map Arrival.action)) = .ok p ∧
      p.thread .worker = .looping 0 ∧ p.iterations = arrivals.map Arrival.action :=
    ⟨_, rfl, rfl, rfl⟩
  obtain ⟨c, events, hrefresh, hframes⟩ := frames_of_process fresh_sampleProcess (by decide)
    (by decide) hrun harrivals hworker hpack fun _ => 0
  refine ⟨p, c, events, hrun, hrefresh, hframes.trans ?_⟩
  rw [hports, hmapping]
  decide

end PiPixelController
