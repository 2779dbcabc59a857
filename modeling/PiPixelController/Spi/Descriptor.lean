import PiPixelController.Spi.ChipSelect

/-!
# The SPI descriptor

`main` only prints what `spi_init` returns, and `wiringPi_init` is set before `open` is tried, so
the worker sends to every port below `pixel_ports` whatever came of its initialisation.

* `WorkerReaches.mem_message` — along every run, the messages of a port go to the handle in its
  record;
* `messages_initialised_iff` — they go to an opened descriptor the port was initialised on
  exactly when every system call of start-up succeeds.
-/

namespace PiPixelController

/-- A descriptor that an `open` of start-up returned. -/
def OpenReturned (file : ConfigFile) (r : Fin 4 → SpiReplies) (fd : BitVec 32) : Prop :=
  .openDevice fd ∈ (initDevices file r).calls ∧ 0 ≤ fd.toInt

/-- The initialisation of a port returned 0, and left the descriptor in its record. -/
def InitialisedOn (file : ConfigFile) (r : Fin 4 → SpiReplies) (p : Fin 4) (fd : BitVec 32) :
    Prop :=
  ∃ dev res, (initDevices file r).results p = some (dev, res) ∧ res.ret = 0 ∧
    res.dev.devHandle = fd

/-- Along every run of the worker, every message goes to a descriptor that `open` returned and
on which the port was initialised. -/
def MessagesInitialised (file : ConfigFile) (r : Fin 4 → SpiReplies) (c₀ : Controller) : Prop :=
  ∀ c p es, WorkerReaches c₀ c p es → ∀ q fd bytes, (q, .message fd bytes) ∈ es →
    OpenReturned file r fd ∧ InitialisedOn file r q fd

/-- When an initialisation fails to open the device, the next one tries again. -/
def RetriesOpen (file : ConfigFile) (r : Fin 4 → SpiReplies) : Prop :=
  ∀ p q : Fin 4, q.val = p.val + 1 → ∀ dev res dev' res',
    (initDevices file r).results p = some (dev, res) →
    (initDevices file r).results q = some (dev', res') →
    (∃ fd, .openDevice fd ∈ res.calls ∧ fd.toInt < 0) → ∃ fd, .openDevice fd ∈ res'.calls

section

variable {file : ConfigFile} {r : Fin 4 → SpiReplies} {c₀ c : Controller} {p q : Fin 4}
  {es : List (Fin 4 × SpiEvent)}

/-- Along every run the messages of a port below `pixel_ports` go to the handle in its record,
and the other ports get none. -/
theorem WorkerReaches.mem_message (h : WorkerReaches c₀ c p es) (hboot : c₀.Boots file r)
    {fd : BitVec 32} {bytes : List CSemantics.Byte} (hmem : (q, .message fd bytes) ∈ es) :
    (q : ℤ) < file.pixelPortCount.toInt ∧ fd = (startedDevice file r q).devHandle := by
  have hports : c₀.workers.pixelPorts = file.pixelPortCount := hboot.pixelPorts_eq
  revert hmem
  refine h.events_induction (motive := fun _ es => (q, .message fd bytes) ∈ es → _) ?_ ?_ ?_
  · intro hmem
    cases hmem
  · intro p es dev bytes' hp hwiring ih hmem
    rw [hports] at hp
    rcases List.mem_append.mp hmem with hmem | hmem
    · exact ih hmem
    · -- the message of the transfer
      simp only [transferEvents, List.map_cons, List.map_nil, List.mem_cons, Prod.mk.injEq,
        SpiEvent.message.injEq, List.not_mem_nil, reduceCtorEq, and_false, false_or,
        or_false] at hmem
      obtain ⟨rfl, rfl, -⟩ := hmem
      exact ⟨hp, (hboot.sameWiring hp hwiring).devHandle⟩
  · exact fun _ _ _ ih => ih

/-- Some run sends a message to a port below `pixel_ports`. -/
theorem exists_message (hboot : c₀.Boots file r) (hp : (p : ℤ) < file.pixelPortCount.toInt) :
    ∃ c q es bytes, WorkerReaches c₀ c q es ∧
      (p, .message (startedDevice file r p).devHandle bytes) ∈ es := by
  obtain ⟨c, es, hreach⟩ := WorkerReaches.exists_reaches c₀ p
  obtain ⟨c', dev, bytes, hreach', hwiring⟩ := hreach.exists_transfer (by
    rwa [hboot.pixelPorts_eq])
  refine ⟨c', _, _, bytes, hreach', List.mem_append_right _ ?_⟩
  rw [← (hboot.sameWiring hp hwiring).devHandle]
  simp [transferEvents]

theorem openDevice_mem_portInit (hp : (p : ℤ) < file.pixelPortCount.toInt) {fd : BitVec 32} :
    .openDevice fd ∈ (portInit file r p).calls ↔ p = 0 ∧ fd = (r 0).openFd := by
  rw [portInit, openDevice_mem_spiInit, wiringPiInit_startupBefore_eq_zero_iff hp]
  refine and_congr_right fun h => ?_
  rw [h]

/-- A port that is sent messages was initialised, so every system call made for it succeeded. -/
theorem MessagesInitialised.replies (hboot : c₀.Boots file r)
    (h : MessagesInitialised file r c₀) (hp : (p : ℤ) < file.pixelPortCount.toInt) :
    (p = 0 → 0 ≤ (r 0).openFd.toInt) ∧ ∀ req, 0 ≤ (r p).ioctl req := by
  obtain ⟨c, q, es, bytes, hreach, hmem⟩ := exists_message hboot hp
  obtain ⟨-, dev, res, hres, hret, -⟩ := h c q es hreach p _ bytes hmem
  rw [results_initDevices, if_pos hp] at hres
  cases hres
  exact (portInit_ret_eq_zero_iff hp).mp hret

/-- When every system call succeeds, every message goes to the one descriptor. -/
theorem messagesInitialised_of_replies (hboot : c₀.Boots file r)
    (hopen : 0 ≤ (r 0).openFd.toInt)
    (hioctl : ∀ p : Fin 4, (p : ℤ) < file.pixelPortCount.toInt → ∀ req, 0 ≤ (r p).ioctl req) :
    MessagesInitialised file r c₀ := by
  intro c p es hreach q fd bytes hmem
  obtain ⟨hq, rfl⟩ := hreach.mem_message hboot hmem
  have hhandle : (startedDevice file r q).devHandle = (r 0).openFd := by
    rw [startedDevice_devHandle hq, if_neg (by omega)]
  have hzero := zero_lt_pixelPortCount hq
  refine ⟨⟨?_, hhandle ▸ hopen⟩, passedDevice file q, portInit file r q, ?_, ?_, rfl⟩
  · rw [hhandle, SpiStartup.calls, List.mem_flatMap]
    refine ⟨0, List.mem_finRange 0, ?_⟩
    rw [results_initDevices, if_pos hzero]
    exact (openDevice_mem_portInit hzero).mpr ⟨rfl, rfl⟩
  · rw [results_initDevices, if_pos hq]
  · exact (portInit_ret_eq_zero_iff hq).mpr ⟨fun _ => hopen, hioctl q hq⟩

/-- A device that was opened is not opened again. -/
theorem retriesOpen_of_replies (hopen : 0 ≤ (r 0).openFd.toInt) : RetriesOpen file r := by
  rintro p q - dev res dev' res' hres - ⟨fd, hmem, hneg⟩
  rw [results_initDevices] at hres
  split at hres
  next hp =>
    cases hres
    obtain ⟨-, rfl⟩ := (openDevice_mem_portInit hp).mp hmem
    omega
  next => cases hres

/-- For every file and every pattern of results of the system calls of start-up: along every run
of the worker every message goes to a descriptor that `open` returned and on which the port was
initialised, and a failed `open` is tried again, if and only if no port is enabled, or `open`
succeeds and so do the six `ioctl`s of every enabled port. -/
theorem messages_initialised_iff (hboot : c₀.Boots file r) :
    MessagesInitialised file r c₀ ∧ RetriesOpen file r ↔
      file.pixelPortCount.toInt ≤ 0 ∨ (0 ≤ (r 0).openFd.toInt ∧
        ∀ p : Fin 4, (p : ℤ) < file.pixelPortCount.toInt → ∀ req, 0 ≤ (r p).ioctl req) := by
  constructor
  · rintro ⟨h, -⟩
    by_cases hports : file.pixelPortCount.toInt ≤ 0
    · exact Or.inl hports
    · have hzero : ((0 : Fin 4) : ℤ) < file.pixelPortCount.toInt := not_le.mp hports
      exact Or.inr ⟨(h.replies hboot hzero).1 rfl, fun p hp => (h.replies hboot hp).2⟩
  · rintro (hports | ⟨hopen, hioctl⟩)
    · -- no port is initialised, and none is sent a message
      refine ⟨fun c p es hreach q fd bytes hmem => ?_, ?_⟩
      · have := (hreach.mem_message hboot hmem).1
        omega
      · rintro p q - dev res dev' res' hres
        rw [results_initDevices, if_neg (by omega)] at hres
        cases hres
    · exact ⟨messagesInitialised_of_replies hboot hopen hioctl, retriesOpen_of_replies hopen⟩

end

/-- `messages_initialised_iff` with two ports and no failure. -/
theorem messages_initialised_sample :
    ∃ c₀ : Controller, MessagesInitialised (ConfigFile.ofPorts 2) default c₀ ∧
      RetriesOpen (ConfigFile.ofPorts 2) default := by
  obtain ⟨c₀, hboot⟩ := @exists_boots (ConfigFile.ofPorts 2) Workers.zero rfl default
  refine ⟨c₀, (messages_initialised_iff hboot).mpr (Or.inr ⟨by decide, fun p _ req => ?_⟩)⟩
  exact le_refl 0

/-- With one port and a failed `open`, messages are sent all the same. -/
theorem not_messages_initialised_sample :
    ¬∀ (file : ConfigFile) (r : Fin 4 → SpiReplies) (c₀ : Controller), c₀.Boots file r →
      MessagesInitialised file r c₀ ∧ RetriesOpen file r := by
  intro h
  let r : Fin 4 → SpiReplies := fun _ => { (default : SpiReplies) with openFd := -1 }
  obtain ⟨c₀, hboot⟩ := @exists_boots (ConfigFile.ofPorts 1) Workers.zero rfl r
  have hreplies := (h _ r c₀ hboot).1.replies hboot (p := 0) (by decide)
  have hopen := hreplies.1 rfl
  exact absurd hopen (by decide)

end PiPixelController
