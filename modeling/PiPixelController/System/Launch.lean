import PiPixelController.System.Failures
import PiPixelController.System.Main

/-!
# What the threads find

However the scheduler runs `main` and the threads it creates, the loops behave as if they had all
started in a state in which `main` was done (`Controller.Boots`): what runs before the worker
exists is the ACN listener alone, and it works on nothing `main` still has to fill in.

* `launched_step` — every step of the process keeps `Launched`;
* `controller_eq_run` — once the worker is created, the shared memory is the result of the
  iterations so far on such a state, and before that only the ACN listener has run.
-/

namespace PiPixelController

open CSemantics

/-! ### The order of the statements -/

section

variable {α : Type} {pre post done rest : List α} {x y : α}

/-- What comes after `x` in a list has `x` before it in every split. -/
theorem mem_of_append_cons_eq (h : pre ++ x :: post = done ++ y :: rest) (hpre : y ∉ pre)
    (hne : y ≠ x) : x ∈ done := by
  -- `done` reaches beyond `pre`, or the other way round
  rcases List.append_eq_append_iff.mp h with ⟨as, rfl, has⟩ | ⟨bs, rfl, hbs⟩
  · cases as with
    | nil => exact absurd (List.cons.inj has).1.symm hne
    | cons a as =>
        obtain ⟨rfl, -⟩ := List.cons.inj has
        simp
  · cases bs with
    | nil => exact absurd (List.cons.inj hbs).1 hne
    | cons b bs =>
        obtain ⟨rfl, -⟩ := List.cons.inj hbs
        simp at hpre

/-- When the only `x` is done, the rest is part of what comes after it. -/
theorem suffix_of_append_cons_eq (h : pre ++ x :: post = done ++ rest) (hpre : x ∉ pre)
    (hx : x ∈ done) : ∃ as, done = pre ++ x :: as ∧ post = as ++ rest := by
  rcases List.append_eq_append_iff.mp h with ⟨as, rfl, has⟩ | ⟨bs, rfl, -⟩
  · cases as with
    | nil => simp [hpre] at hx
    | cons a as =>
        obtain ⟨rfl, hpost⟩ := List.cons.inj has
        exact ⟨as, rfl, hpost⟩
  · simp [hx] at hpre

end

section

variable {file : ConfigFile} {done rest : List Statement} {st : Statement}

theorem notMem_statementsBeforeWorker (h : st = .create .worker ∨ st = .setZcppParam ∨
    st = .create .zcpp) : st ∉ statementsBeforeWorker file := by
  rcases h with rfl | rfl | rfl <;> simp [statementsBeforeWorker]

/-- After the creation of the worker come only the statements for the ZCPP listener. -/
theorem eq_of_created (h : statements file = done ++ st :: rest)
    (hcreated : .create .worker ∈ done) : st = .setZcppParam ∨ st = .create .zcpp := by
  obtain ⟨as, -, hpost⟩ := suffix_of_append_cons_eq h
    (notMem_statementsBeforeWorker (Or.inl rfl)) hcreated
  have hmem : st ∈ [Statement.setZcppParam, .create .zcpp] := by simp [hpost]
  simpa using hmem

/-- The ZCPP listener is created after the worker. -/
theorem worker_created (h : statements file = done ++ st :: rest)
    (hst : st = .setZcppParam ∨ st = .create .zcpp) : .create .worker ∈ done :=
  mem_of_append_cons_eq h (notMem_statementsBeforeWorker (Or.inr hst))
    (by rcases hst with rfl | rfl <;> simp)

/-- The ZCPP listener is created after its parameter is set. -/
theorem zcppParam_set (h : statements file = done ++ .create .zcpp :: rest) :
    .setZcppParam ∈ done := by
  have hsplit : (statementsBeforeWorker file ++ [.create .worker]) ++ .setZcppParam ::
      [.create .zcpp] = done ++ .create .zcpp :: rest := by
    rw [← h, statements, List.append_assoc]
    rfl
  refine mem_of_append_cons_eq hsplit ?_ (by simp)
  simp [notMem_statementsBeforeWorker (Or.inr (Or.inr rfl))]

end

/-! ### The ACN listener and the memory of `main` -/

/-- The state with the memory `main` works on replaced. -/
def Controller.withMain (c : Controller) (m : MainMemory) : Controller :=
  { c with workers := m.workers, spiDev := m.spiDev }

section

variable {params : Params} {c c' : Controller} {m : MainMemory} {as : List Action}

theorem acnListen_withMain (acn : AcnParam) (recv : Option Datagram) :
    acnListen acn recv (c.withMain m) = (·.withMain m) <$> acnListen acn recv c := by
  rw [Acn.acnListen_eq_effect, Acn.acnListen_eq_effect, Functor.map_map]
  rfl

/-- Iterations of the ACN listener do not look at the memory of `main`. -/
theorem run_withMain (hacn : ∀ a ∈ as, a.loop = .acn) :
    (c.withMain m).run params as = (·.withMain m) <$> c.run params as := by
  induction as generalizing c with
  | nil => rfl
  | cons a as ih =>
      have has : ∀ a ∈ as, a.loop = .acn := fun b hb => hacn b (List.mem_cons_of_mem a hb)
      cases a with
      | acn recv =>
          -- the memory of `main` is replaced after the iteration instead of before it
          change (acnListen params.acn recv (c.withMain m) >>= fun c => c.run params as) =
            _ <$> (acnListen params.acn recv c >>= fun c => c.run params as)
          rw [acnListen_withMain, bind_map_left, map_bind]
          exact bind_congr fun c => ih has
      | zcpp net recv => exact absurd (hacn _ List.mem_cons_self) (by simp [Action.loop])
      | refresh rets => exact absurd (hacn _ List.mem_cons_self) (by simp [Action.loop])

/-- So they leave it alone. -/
theorem withMain_of_run (hacn : ∀ a ∈ as, a.loop = .acn)
    (hrun : (c.withMain m).run params as = .ok c') : c'.withMain m = c' := by
  have hself := hrun
  rw [run_withMain hacn, Outcome.map_eq_ok_iff] at hself
  obtain ⟨c'', -, rfl⟩ := hself
  rfl

/-- Only the worker writes the payload buffers. -/
theorem payload_of_step {a : Action} (ha : a.loop ≠ .worker) (h : c.step params a = .ok c') :
    c'.payload = c.payload := by
  cases a with
  | acn recv =>
      change acnListen params.acn recv c = .ok c' at h
      rw [Acn.acnListen_eq_effect, Outcome.map_eq_ok_iff] at h
      obtain ⟨buffer, -, rfl⟩ := h
      rfl
  | zcpp net recv =>
      obtain ⟨r, hr, rfl⟩ := Outcome.map_eq_ok_iff.mp h
      obtain ⟨buffer, w, sequence, heq⟩ := eq_of_zcppMulticastListen hr
      rw [heq]
  | refresh rets => exact absurd rfl ha

end

/-! ### The memory when the worker is created -/

section

variable {env : Environment} {m m' : MainMemory}

theorem exec_stores (sts : List WordStore) :
    (sts.map Statement.store).foldlM (MainMemory.exec env) m =
      (fun w => { m with workers := w }) <$> m.workers.storeAll sts := by
  induction sts generalizing m with
  | nil => rfl
  | cons st sts ih =>
      rw [List.map_cons, List.foldlM_cons, MainMemory.exec, bind_map_left,
        Workers.storeAll_cons, map_bind]
      exact bind_congr fun w => ih

/-- `spi_init` for one port leaves the records of the others alone. -/
theorem devices_initPort_of_ne {file : ConfigFile} {r : Fin 4 → SpiReplies} {st : SpiStartup}
    {p q : Fin 4} (h : q ≠ p) : (initPort file r st p).devices q = st.devices q := by
  rw [initPort]
  split
  · exact Function.update_of_ne h _ _
  · rfl

/-- After the four blocks of `main` every device record is the one `spi_init` left. -/
theorem exec_ports (hinj : Function.Injective env.addresses.spiDev) (hspi : m.spi = .initial)
    (h : ((List.finRange 4).map Statement.initPort).foldlM (MainMemory.exec env) m = .ok m') :
    m'.workers = m.workers ∧ ∀ p, m'.spiDev (env.addresses.spiDev p) =
      (initDevices env.file env.spiReplies).devices p := by
  rw [List.foldlM_map] at h
  have hports : m'.workers = m.workers ∧
      m'.spi = (List.finRange 4).foldl (initPort env.file env.spiReplies) .initial ∧
      ∀ p ∈ List.finRange 4, m'.spiDev (env.addresses.spiDev p) = m'.spi.devices p := by
    refine Outcome.foldlM_partial (fun pre m' => m'.workers = m.workers ∧
      m'.spi = pre.foldl (initPort env.file env.spiReplies) .initial ∧
      ∀ p ∈ pre, m'.spiDev (env.addresses.spiDev p) = m'.spi.devices p)
      ⟨rfl, hspi, by simp⟩ ?_ h
    rintro pre q post hsplit m₁ m₂ ⟨hw, hfold, hdev⟩ hm
    cases hm
    refine ⟨hw, by rw [List.foldl_append, ← hfold]; rfl, fun p hp => ?_⟩
    -- no port is initialised twice
    have hnodup : (pre ++ q :: post).Nodup := hsplit ▸ List.nodup_finRange 4
    rcases List.mem_append.mp hp with hmem | hmem
    · have hne : p ≠ q := by
        rintro rfl
        exact (List.nodup_append.mp hnodup).2.2 p hmem p List.mem_cons_self rfl
      change Function.update _ _ _ _ = _
      rw [Function.update_of_ne (hinj.ne hne), hdev p hmem, devices_initPort_of_ne hne]
    · obtain rfl := List.mem_singleton.mp hmem
      exact Function.update_self ..
  obtain ⟨hw, hfold, hdev⟩ := hports
  exact ⟨hw, fun p => by rw [hdev p (List.mem_finRange p), hfold, initDevices]⟩

/-- When the worker is created `workers` and the device records are filled in. -/
theorem exec_statementsBeforeWorker (hinj : Function.Injective env.addresses.spiDev)
    (hworkers : m.workers = Workers.zero) (hspi : m.spi = .initial)
    (h : (statementsBeforeWorker env.file).foldlM (MainMemory.exec env) m = .ok m') :
    startWorkers env.file env.addresses = .ok m'.workers ∧
      ∀ p, m'.spiDev (env.addresses.spiDev p) =
        (initDevices env.file env.spiReplies).devices p := by
  rw [statementsBeforeWorker, List.foldlM_append, List.foldlM_append, List.foldlM_append] at h
  obtain ⟨m₃, h, hset⟩ := Outcome.bind_eq_ok_iff.mp h
  obtain ⟨m₂, h, hstores⟩ := Outcome.bind_eq_ok_iff.mp h
  obtain ⟨m₁, hports, hacn⟩ := Outcome.bind_eq_ok_iff.mp h
  obtain ⟨hw, hdev⟩ := exec_ports hinj hspi hports
  -- creating the ACN listener changes nothing here
  have hm₂ : m₂ = m₁ := by
    split at hacn <;> exact (Outcome.ok.inj hacn).symm
  subst hm₂
  rw [List.foldlM_cons, MainMemory.exec, Outcome.ok_bind, exec_stores,
    Outcome.map_eq_ok_iff] at hstores
  obtain ⟨w, hload, rfl⟩ := hstores
  cases hset
  have hzero : (fun i : Fin 760 => if i.val < 76 then 0 else m₂.workers i) = Workers.zero := by
    funext i
    rw [hw, hworkers]
    exact ite_self _
  refine ⟨?_, hdev⟩
  rw [startWorkers, loadChannels, ← hzero, hload]
  rfl

end

/-! ### The invariant -/

/-- A thread that receives does so on a socket it opened and bound to its port; the ZCPP listener
has joined the group. -/
structure Listening (p : Process) : Prop where
  acn : ∀ fd, p.thread .acn = .looping fd → fd ≠ 0 ∧ BoundTo p.calls fd acnSdt
  zcpp : ∀ fd, p.thread .zcpp = .looping fd →
    fd ≠ 0 ∧ BoundTo p.calls fd zcppPort ∧ Joined p.calls fd zcppMulticastAddress

/-- `main` has executed `done`, which leaves the memory `m`; the shared memory is the result of the
iterations so far on a state that holds `m` from the start. -/
structure Launched (env : Environment) (p₀ p : Process) (done : List Statement) (m : MainMemory) :
    Prop where
  statements : statements env.file = done ++ p.rest
  memory : done.foldlM (MainMemory.exec env) p₀.memory = .ok m
  spi : p.spi = m.spi
  run : (p₀.controller.withMain m).run env.params p.iterations = .ok p.controller
  /-- Before the worker is created only the ACN listener runs. -/
  early : .create .worker ∉ done → (∀ a ∈ p.iterations, a.loop = .acn) ∧
    p.thread .worker = .absent ∧ p.thread .zcpp = .absent
  /-- Before the worker is in its loop the payload buffers are zero. -/
  payload : (∀ fd, p.thread .worker ≠ .looping fd) →
    p.controller.payload = fun _ => ⟨fun _ => 0, fun _ => 0⟩
  /-- The ZCPP listener finds its parameter set. -/
  param : .setZcppParam ∈ done → p.zcppParam = true
  zcpp : p.thread .zcpp ≠ .absent → p.zcppParam = true
  listening : Listening p

section

variable {env : Environment} {p₀ p p' : Process} {done rest : List Statement} {m m' : MainMemory}
  {st : Statement} {ret : ℤ}

/-- Initially nothing is done. -/
theorem Process.Fresh.launched (h : p₀.Fresh env) : Launched env p₀ p₀ [] p₀.memory where
  statements := h.rest.symm
  memory := rfl
  spi := rfl
  run := by rw [h.iterations]; rfl
  early := fun _ => ⟨by simp [h.iterations], h.thread _, h.thread _⟩
  payload := fun _ => h.payload
  param := by simp
  zcpp := fun hne => absurd (h.thread _) hne
  listening := ⟨by simp [h.thread], by simp [h.thread]⟩

namespace Launched

/-- Before the worker is created, `main` is the only thread that works on its memory. -/
theorem memory_eq (h : Launched env p₀ p done m) (hdone : .create .worker ∉ done) :
    p.memory = m := by
  have hself := withMain_of_run (h.early hdone).1 h.run
  rw [Process.memory, h.spi, ← hself]
  rfl

/-- A statement of `main` that stores. -/
theorem exec (h : Launched env p₀ p done m) (hrest : p.rest = st :: rest)
    (hdone : .create .worker ∉ done) (hparam : st ≠ .setZcppParam)
    (hexec : m.exec env st = .ok m') :
    Launched env p₀ { p.withMemory m' with rest := rest } (done ++ [st]) m' where
  statements := by rw [h.statements, hrest, List.append_assoc]; rfl
  memory := by
    rw [List.foldlM_append, h.memory, Outcome.ok_bind, List.foldlM_cons, hexec]
    rfl
  spi := rfl
  run := by
    -- the iterations so far were the ACN listener's, and would have gone the same way on `m'`
    have hacn := (h.early hdone).1
    have hrun := h.run
    rw [run_withMain hacn, Outcome.map_eq_ok_iff] at hrun
    obtain ⟨c, hc, hcontroller⟩ := hrun
    change (p₀.controller.withMain m').run env.params p.iterations =
      .ok (p.controller.withMain m')
    rw [run_withMain hacn, hc, Outcome.map_ok, ← hcontroller]
    rfl
  early := fun _ => h.early hdone
  payload := h.payload
  param := fun hmem => h.param (by simpa [hparam.symm] using hmem)
  zcpp := h.zcpp
  listening := ⟨h.listening.acn, h.listening.zcpp⟩

/-- The worker is created once. -/
theorem not_created (h : Launched env p₀ p done m) (hrest : p.rest = .create .worker :: rest) :
    .create .worker ∉ done := by
  intro hcreated
  rcases eq_of_created (h.statements.trans (by rw [hrest])) hcreated with heq | heq
  · cases heq
  · cases heq

/-- Setting the parameter of the ZCPP listener. -/
theorem setZcppParam (h : Launched env p₀ p done m) (hrest : p.rest = .setZcppParam :: rest) :
    Launched env p₀ { p with zcppParam := true, rest := rest } (done ++ [.setZcppParam]) m where
  statements := by rw [h.statements, hrest, List.append_assoc]; rfl
  memory := by
    rw [List.foldlM_append, h.memory]
    rfl
  spi := h.spi
  run := h.run
  early := fun hdone => h.early fun hmem => hdone (List.mem_append_left _ hmem)
  payload := h.payload
  param := fun _ => rfl
  zcpp := fun _ => rfl
  listening := ⟨h.listening.acn, h.listening.zcpp⟩

/-- A `pthread_create` that fails changes nothing. -/
theorem createFailed {t : Loop} (h : Launched env p₀ p done m)
    (hrest : p.rest = .create t :: rest) :
    Launched env p₀ { p with rest := rest } (done ++ [.create t]) m where
  statements := by rw [h.statements, hrest, List.append_assoc]; rfl
  memory := by
    rw [List.foldlM_append, h.memory]
    rfl
  spi := h.spi
  run := h.run
  early := fun hdone => h.early fun hmem => hdone (List.mem_append_left _ hmem)
  payload := h.payload
  param := fun hmem => h.param (by simpa using hmem)
  zcpp := h.zcpp
  listening := ⟨h.listening.acn, h.listening.zcpp⟩

/-- A `pthread_create` that succeeds. -/
theorem create {t : Loop} (h : Launched env p₀ p done m) (hrest : p.rest = .create t :: rest) :
    Launched env p₀ { p.setThread t .created with rest := rest } (done ++ [.create t]) m := by
  have hfailed := h.createFailed hrest
  refine { hfailed with early := ?_, payload := ?_, zcpp := ?_, listening := ⟨?_, ?_⟩ }
  · intro hdone
    -- neither the worker nor the ZCPP listener is created as long as the worker is not
    have ht : t = .acn := by
      cases t with
      | acn => rfl
      | worker => simp at hdone
      | zcpp =>
          have hcreated := worker_created (h.statements.trans (by rw [hrest])) (Or.inr rfl)
          exact absurd (List.mem_append_left _ hcreated) hdone
    subst ht
    exact hfailed.early hdone
  · intro hnot
    -- a created thread is not in its loop, and the worker was not there before its creation
    refine h.payload fun fd hfd => ?_
    have hfd' := hnot fd
    change (p.setThread t .created).thread .worker ≠ _ at hfd'
    rw [Process.thread_setThread] at hfd'
    split at hfd'
    next ht =>
      subst ht
      rw [(h.early (h.not_created hrest)).2.1] at hfd
      cases hfd
    next => exact hfd' hfd
  · intro hne
    -- the parameter is set before the ZCPP listener is created
    change (p.setThread t .created).thread .zcpp ≠ _ at hne
    rw [Process.thread_setThread] at hne
    split at hne
    next ht =>
      subst ht
      exact h.param (zcppParam_set (h.statements.trans (by rw [hrest])))
    next => exact h.zcpp hne
  · intro fd hfd
    change (p.setThread t .created).thread .acn = _ at hfd
    rw [Process.thread_setThread] at hfd
    split at hfd
    next => cases hfd
    next => exact h.listening.acn fd hfd
  · intro fd hfd
    change (p.setThread t .created).thread .zcpp = _ at hfd
    rw [Process.thread_setThread] at hfd
    split at hfd
    next => cases hfd
    next => exact h.listening.zcpp fd hfd

/-- An iteration of a loop. -/
theorem iterate (h : Launched env p₀ p done m) {a : Action} {fd : BitVec 32}
    (hfd : p.thread a.loop = .looping fd) {c : Controller}
    (hstep : p.controller.step env.params a = .ok c) :
    Launched env p₀ { p with controller := c, iterations := p.iterations ++ [a] } done m where
  statements := h.statements
  memory := h.memory
  spi := h.spi
  run := by rw [Controller.run_append, h.run, Outcome.ok_bind, hstep]
  early := by
    intro hdone
    obtain ⟨hacn, hworker, hzcpp⟩ := h.early hdone
    refine ⟨fun b hb => ?_, hworker, hzcpp⟩
    rcases List.mem_append.mp hb with hb | hb
    · exact hacn b hb
    · obtain rfl := List.mem_singleton.mp hb
      -- the other threads do not exist yet
      cases hloop : b.loop with
      | acn => rfl
      | zcpp =>
          rw [hloop, hzcpp] at hfd
          cases hfd
      | worker =>
          rw [hloop, hworker] at hfd
          cases hfd
  payload := by
    intro hnot
    have hne : a.loop ≠ .worker := fun hloop => hnot fd (hloop ▸ hfd)
    exact (payload_of_step hne hstep).trans (h.payload hnot)
  param := h.param
  zcpp := h.zcpp
  listening := ⟨h.listening.acn, h.listening.zcpp⟩

/-- The worker enters its loop. -/
theorem startWorker (h : Launched env p₀ p done m) (hcreated : p.thread .worker = .created) :
    Launched env p₀ { p.setThread .worker (.looping 0) with
      controller := { p.controller with payload := fun _ => ⟨fun _ => 0, fun _ => 0⟩ } }
      done m := by
  have hpayload := h.payload (by simp [hcreated])
  -- the payload buffers are zero already
  rw [← hpayload]
  refine { h with early := ?_, payload := ?_, zcpp := ?_, listening := ⟨?_, ?_⟩ }
  · intro hdone
    rw [(h.early hdone).2.1] at hcreated
    cases hcreated
  · exact fun _ => hpayload
  · exact fun hne => h.zcpp hne
  · intro fd hfd
    exact h.listening.acn fd hfd
  · intro fd hfd
    exact h.listening.zcpp fd hfd

/-- The ACN listener opens its socket. -/
theorem startAcn (h : Launched env p₀ p done m) {r : SocketReplies}
    (hp' : p.start r .acn = .ok p') : Launched env p₀ p' done m := by
  obtain ⟨fd, hfd, hp'⟩ := Outcome.bind_eq_ok_iff.mp hp'
  cases hp'
  -- the calls that another listener has made stay
  have hsub : p.calls ⊆ p.calls ++ (acnInit r acnSdt).1 := List.subset_append_left _ _
  refine { h with early := ?_, payload := ?_, zcpp := ?_, listening := ⟨?_, ?_⟩ }
  · exact fun hdone => h.early hdone
  · exact fun hnot => h.payload hnot
  · exact fun hne => h.zcpp hne
  · intro fd' hfd'
    change (p.setThread .acn _).thread .acn = _ at hfd'
    rw [Process.thread_setThread, if_pos rfl] at hfd'
    split at hfd'
    next hne =>
      -- only a descriptor other than 0 gets the thread into its loop
      cases hfd'
      exact ⟨hne, (boundTo_bindSocket hfd).mono (List.subset_append_right _ _)⟩
    next => cases hfd'
  · intro fd' hfd'
    obtain ⟨hne, hbound, hjoined⟩ := h.listening.zcpp fd' hfd'
    exact ⟨hne, hbound.mono hsub, hjoined.mono hsub⟩

/-- The ZCPP listener opens its socket. -/
theorem startZcpp (h : Launched env p₀ p done m) (hcreated : p.thread .zcpp = .created)
    {r : SocketReplies} (hp' : p.start r .zcpp = .ok p') : Launched env p₀ p' done m := by
  obtain ⟨fd, hfd, hp'⟩ := Outcome.bind_eq_ok_iff.mp hp'
  cases hp'
  have hsub : p.calls ⊆ p.calls ++ (zcppMulticastInit r).1 := List.subset_append_left _ _
  refine { h with early := ?_, payload := ?_, zcpp := ?_, listening := ⟨?_, ?_⟩ }
  · intro hdone
    rw [(h.early hdone).2.2] at hcreated
    cases hcreated
  · exact fun hnot => h.payload hnot
  · exact fun _ => h.zcpp (by simp [hcreated])
  · intro fd' hfd'
    obtain ⟨hne, hbound⟩ := h.listening.acn fd' hfd'
    exact ⟨hne, hbound.mono hsub⟩
  · intro fd' hfd'
    change (p.setThread .zcpp _).thread .zcpp = _ at hfd'
    rw [Process.thread_setThread, if_pos rfl] at hfd'
    split at hfd'
    next hne =>
      cases hfd'
      obtain ⟨hbound, hjoined⟩ := boundTo_zcppMulticastInit hfd
      exact ⟨hne, hbound.mono (List.subset_append_right _ _),
        hjoined.mono (List.subset_append_right _ _)⟩
    next => cases hfd'

end Launched

/-- A statement of `main`, executed. -/
theorem launched_main (h : Launched env p₀ p done m) (hrest : p.rest = st :: rest)
    (hp' : p.exec env ret st = .ok p') :
    ∃ m', Launched env p₀ { p' with rest := rest } (done ++ [st]) m' := by
  -- the statements that store come before the creation of the worker
  have hstores : st ≠ .setZcppParam → st ≠ .create .zcpp →
      p.withMemory <$> p.memory.exec env st = .ok p' →
      ∃ m', Launched env p₀ { p' with rest := rest } (done ++ [st]) m' := by
    intro hparam hzcpp hexec
    have hdone : .create .worker ∉ done := by
      intro hcreated
      rcases eq_of_created (h.statements.trans (by rw [hrest])) hcreated with heq | heq
      · exact hparam heq
      · exact hzcpp heq
    rw [h.memory_eq hdone, Outcome.map_eq_ok_iff] at hexec
    obtain ⟨m', hm', rfl⟩ := hexec
    exact ⟨m', h.exec hrest hdone hparam hm'⟩
  cases st with
  | create t =>
      cases hp'
      split
      · exact ⟨m, h.create hrest⟩
      · exact ⟨m, h.createFailed hrest⟩
  | setZcppParam =>
      cases hp'
      exact ⟨m, h.setZcppParam hrest⟩
  | initPort q => exact hstores (by simp) (by simp) hp'
  | clearWorkers => exact hstores (by simp) (by simp) hp'
  | store st => exact hstores (by simp) (by simp) hp'
  | setFields => exact hstores (by simp) (by simp) hp'

/-- One step of the process. -/
theorem launched_step (h : Launched env p₀ p done m) {step : ProcessStep}
    (hp' : p.step env step = .ok p') : ∃ done' m', Launched env p₀ p' done' m' := by
  cases step with
  | main ret =>
      rw [Process.step] at hp'
      cases hrest : p.rest with
      | nil =>
          rw [hrest] at hp'
          cases hp'
          exact ⟨done, m, h⟩
      | cons st rest =>
          rw [hrest] at hp'
          obtain ⟨p₁, hexec, rfl⟩ := Outcome.map_eq_ok_iff.mp hp'
          obtain ⟨m', hm'⟩ := launched_main h hrest hexec
          exact ⟨_, m', hm'⟩
  | start t r =>
      rw [Process.step] at hp'
      split at hp'
      next hcreated =>
        cases t with
        | acn => exact ⟨done, m, h.startAcn hp'⟩
        | zcpp => exact ⟨done, m, h.startZcpp hcreated hp'⟩
        | worker =>
            cases hp'
            exact ⟨done, m, h.startWorker hcreated⟩
      next =>
        cases hp'
        exact ⟨done, m, h⟩
  | iterate a =>
      rw [Process.step] at hp'
      cases hthread : p.thread a.loop with
      | looping fd =>
          rw [hthread] at hp'
          change p.iterate env a = .ok p' at hp'
          rw [Process.iterate] at hp'
          split at hp'
          next => cases hp'
          next =>
            obtain ⟨c, hc, rfl⟩ := Outcome.map_eq_ok_iff.mp hp'
            exact ⟨done, m, h.iterate hthread hc⟩
      | _ =>
          rw [hthread] at hp'
          cases hp'
          exact ⟨done, m, h⟩

/-- A schedule of the process. -/
theorem exists_launched (hfresh : p₀.Fresh env) {steps : List ProcessStep}
    (hrun : p₀.run env steps = .ok p) : ∃ done m, Launched env p₀ p done m :=
  Outcome.foldlM_invariant (I := fun p => ∃ done m, Launched env p₀ p done m)
    (fun _ _ _ _ h hstep => by
      obtain ⟨done, m, h⟩ := h
      exact launched_step h hstep)
    ⟨[], _, hfresh.launched⟩ hrun

/-! ### What the loops work on -/

/-- The device pointers the worker starts with are the addresses of the records. -/
theorem spiDev_startWorkers {file : ConfigFile} {addresses : Addresses} {w : Workers}
    (h : startWorkers file addresses = .ok w) : w.spiDev = addresses.spiDev := by
  rw [startWorkers, Outcome.bind_eq_ok_iff] at h
  obtain ⟨w₀, -, hset⟩ := h
  cases hset
  funext q
  exact Workers.spiDev_setFields ..

namespace Launched

/-- When the worker is created, `main` stores no more. -/
theorem memory_of_created (h : Launched env p₀ p done m) (hcreated : .create .worker ∈ done) :
    (statementsBeforeWorker env.file).foldlM (MainMemory.exec env) p₀.memory = .ok m := by
  obtain ⟨as, rfl, hpost⟩ := suffix_of_append_cons_eq h.statements
    (notMem_statementsBeforeWorker (Or.inl rfl)) hcreated
  have hmemory := h.memory
  rw [List.foldlM_append, Outcome.bind_eq_ok_iff] at hmemory
  obtain ⟨m₁, hm₁, hrest⟩ := hmemory
  -- the creation of a thread and the parameter of the ZCPP listener are not part of `m`
  have hsame : m = m₁ := by
    refine Outcome.foldlM_invariant (I := (· = m₁)) ?_ rfl hrest
    rintro _ st m₂ hst rfl hexec
    have hmem : st ∈ [Statement.create .worker, .setZcppParam, .create .zcpp] := by
      rw [hpost]
      rcases List.mem_cons.mp hst with rfl | hst
      · exact List.mem_cons_self
      · exact List.mem_cons_of_mem _ (List.mem_append_left _ hst)
    simp only [List.mem_cons, List.not_mem_nil, or_false] at hmem
    rcases hmem with rfl | rfl | rfl <;> exact (Outcome.ok.inj hexec).symm
  rw [hm₁, hsame]

/-- Then the loops work on a state in which `main` has filled in everything. -/
theorem boots (h : Launched env p₀ p done m) (hfresh : p₀.Fresh env)
    (hcreated : .create .worker ∈ done) :
    (p₀.controller.withMain m).Boots env.file env.spiReplies := by
  obtain ⟨hworkers, hdev⟩ := exec_statementsBeforeWorker hfresh.spiDev_injective hfresh.workers
    hfresh.spi (h.memory_of_created hcreated)
  have hptr : (p₀.controller.withMain m).workers.spiDev = env.addresses.spiDev :=
    spiDev_startWorkers hworkers
  refine ⟨⟨⟨_, hworkers⟩, hfresh.lastConfigSequence, hfresh.pixelBuffer, hfresh.payload⟩, ?_, ?_⟩
  · rw [hptr]
    exact hfresh.spiDev_injective
  · intro q
    rw [hptr]
    exact hdev q

end Launched

/-- For every order in which `main` and its threads run and every outcome of the system calls:
until the worker is created only the ACN listener has run, and from then on the shared memory is
the result of the iterations so far on a state in which the threads would have started after all of
`main`. -/
theorem controller_eq_run (hfresh : p₀.Fresh env) {steps : List ProcessStep}
    (hrun : p₀.run env steps = .ok p) :
    (.create .worker ∈ p.rest → ∀ a ∈ p.iterations, a.loop = .acn) ∧
    (.create .worker ∉ p.rest → ∃ c₀ : Controller, c₀.Boots env.file env.spiReplies ∧
      c₀.run env.params p.iterations = .ok p.controller) := by
  obtain ⟨done, m, h⟩ := exists_launched hfresh hrun
  constructor
  · intro hrest
    -- the creation of the worker cannot be both done and ahead
    refine (h.early fun hcreated => ?_).1
    obtain ⟨as, -, hpost⟩ := suffix_of_append_cons_eq h.statements
      (notMem_statementsBeforeWorker (Or.inl rfl)) hcreated
    have hmem : Statement.create .worker ∈ [Statement.setZcppParam, .create .zcpp] := by
      rw [hpost]
      exact List.mem_append_right _ hrest
    simp at hmem
  · intro hrest
    have hmem : Statement.create .worker ∈ done ++ p.rest := by
      rw [← h.statements, statements]
      simp
    have hcreated := (List.mem_append.mp hmem).resolve_right hrest
    exact ⟨_, h.boots hfresh hcreated, h.run⟩

/-- For every order in which `main` and its threads run, a listener that is in its loop receives
from a descriptor other than 0 that `socket` returned and that is bound to its port, the ZCPP
listener also joined the group, and the pointers in the parameter of the ZCPP listener are set. -/
theorem listening_of_run (hfresh : p₀.Fresh env) {steps : List ProcessStep}
    (hrun : p₀.run env steps = .ok p) :
    Listening p ∧ (p.thread .zcpp ≠ .absent → p.zcppParam = true) := by
  obtain ⟨done, m, h⟩ := exists_launched hfresh hrun
  exact ⟨h.listening, h.zcpp⟩

end

/-! ### A schedule -/

/-- A file without settings. -/
def sampleEnvironment : Environment where
  file := default
  addresses := ⟨0, fun p => BitVec.ofNat 64 p⟩
  spiReplies := default
  pointers := default

/-- The process at its start. -/
def sampleProcess : Process where
  controller := { (default : Controller) with
    pixelBuffer := fun _ => 0, workers := Workers.zero, lastConfigSequence := 0
    payload := fun _ => ⟨fun _ => 0, fun _ => 0⟩ }
  spi := .initial
  thread := fun _ => .absent
  zcppParam := false
  rest := statements sampleEnvironment.file
  calls := []
  iterations := []

theorem fresh_sampleProcess : sampleProcess.Fresh sampleEnvironment where
  pixelBuffer := rfl
  workers := rfl
  lastConfigSequence := rfl
  payload := rfl
  spiDev_injective := by
    rw [Function.Injective]
    decide
  spi := rfl
  thread := fun _ => rfl
  zcppParam := rfl
  rest := rfl
  calls := rfl
  iterations := rfl

/-- The ACN listener opens its socket and receives nothing while `main` is at the records. -/
def sampleSteps : List ProcessStep :=
  List.replicate 5 (.main 0) ++ [.start .acn ⟨3, 0, 0⟩, .iterate (.acn none)] ++
    List.replicate 4 (.main 0) ++ [.start .zcpp ⟨4, 0, 0⟩, .main 0, .start .zcpp ⟨4, 0, 0⟩]

theorem exists_run_sampleSteps :
    ∃ p, sampleProcess.run sampleEnvironment sampleSteps = .ok p ∧ p.rest = [] ∧
      p.thread .acn = .looping 3 ∧ p.thread .zcpp = .looping 4 :=
  ⟨_, rfl, rfl, rfl, rfl⟩

theorem controller_eq_run_sample :
    ∃ (p : Process) (c₀ : Controller), sampleProcess.run sampleEnvironment sampleSteps = .ok p ∧
      c₀.Boots sampleEnvironment.file sampleEnvironment.spiReplies ∧
      c₀.run sampleEnvironment.params p.iterations = .ok p.controller := by
  obtain ⟨p, hrun, hrest, -⟩ := exists_run_sampleSteps
  obtain ⟨c₀, hboots, hc₀⟩ := (controller_eq_run fresh_sampleProcess hrun).2 (by simp [hrest])
  exact ⟨p, c₀, hrun, hboots, hc₀⟩

theorem listening_of_run_sample :
    ∃ p, sampleProcess.run sampleEnvironment sampleSteps = .ok p ∧ BoundTo p.calls 3 5568 := by
  obtain ⟨p, hrun, -, hacn, -⟩ := exists_run_sampleSteps
  exact ⟨p, hrun, ((listening_of_run fresh_sampleProcess hrun).1.acn 3 hacn).2⟩

end PiPixelController
