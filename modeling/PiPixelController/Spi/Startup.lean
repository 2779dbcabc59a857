import PiPixelController.Spi.Defs
import PiPixelController.Startup.Mapping

/-!
# The device records after start-up

What one `spi_init` returns and leaves, and what `main` makes of it for the ports below
`pixel_ports`.

Main results:

* `spiInit_ret_eq_zero_iff` — an initialisation succeeds exactly when every system call it makes
  does;
* `results_initDevices`, `devices_initDevices` — the port `p` below `pixel_ports` is initialised
  by `portInit`, and its record is the one `portInit` leaves;
* `globals_startupBefore` — the call for port 0 opens the device, and no later call does.
-/

namespace PiPixelController

open CSemantics

/-! ### One initialisation -/

section

variable {r : SpiReplies} {globals : SpiGlobals} {dev : SpiDevice}

/-- The configuration succeeds exactly when every request does. -/
theorem configure_eq_true_iff {reqs : List SpiRequest} {s : ConfigState} :
    (configure r reqs s).1 = true ↔ ∀ req ∈ reqs, 0 ≤ r.ioctl req := by
  induction reqs generalizing s with
  | nil => simp [configure]
  | cons req reqs ih =>
      rw [configure, List.forall_mem_cons]
      by_cases h : r.ioctl req < 0
      · simp [h]
      · simp only [h, if_false, ih]
        exact (and_iff_right (not_lt.mp h)).symm

theorem readBack_globals (s : ConfigState) (req : SpiRequest) :
    (s.readBack r req).globals.wiringPiInit = s.globals.wiringPiInit ∧
      (s.readBack r req).globals.spiFd = s.globals.spiFd := by
  cases req <;> exact ⟨rfl, rfl⟩

theorem readBack_calls (s : ConfigState) (req : SpiRequest) :
    (s.readBack r req).calls = s.calls := by
  cases req <;> rfl

/-- No configuration request changes `wiringPi_init` or `spi_fd`. -/
theorem configure_globals (reqs : List SpiRequest) (s : ConfigState) :
    (configure r reqs s).2.globals.wiringPiInit = s.globals.wiringPiInit ∧
      (configure r reqs s).2.globals.spiFd = s.globals.spiFd := by
  induction reqs generalizing s with
  | nil => exact ⟨rfl, rfl⟩
  | cons req reqs ih =>
      rw [configure]
      split
      · exact ⟨rfl, rfl⟩
      · obtain ⟨hinit, hfd⟩ := ih ((s.issue r req).readBack r req)
        obtain ⟨hinit', hfd'⟩ := @readBack_globals r (s.issue r req) req
        exact ⟨hinit.trans hinit', hfd.trans hfd'⟩

/-- The configuration adds `ioctl`s of its requests to the calls. -/
theorem configure_calls (reqs : List SpiRequest) (s : ConfigState) :
    ∃ added, (configure r reqs s).2.calls = s.calls ++ added ∧
      ∀ call ∈ added, ∃ fd req arg ret, req ∈ reqs ∧ call = .ioctl fd req arg ret := by
  induction reqs generalizing s with
  | nil => exact ⟨[], by simp [configure]⟩
  | cons req reqs ih =>
      rw [configure]
      split
      · refine ⟨_, rfl, fun call hcall => ?_⟩
        rw [List.mem_singleton.mp hcall]
        exact ⟨_, req, _, _, List.mem_cons_self, rfl⟩
      · obtain ⟨added, hcalls, hadded⟩ := ih ((s.issue r req).readBack r req)
        rw [hcalls, readBack_calls, ConfigState.issue, List.append_assoc]
        refine ⟨_, rfl, fun call hcall => ?_⟩
        rcases List.mem_cons.mp hcall with rfl | hcall
        · exact ⟨_, req, _, _, List.mem_cons_self, rfl⟩
        · obtain ⟨fd, req', arg, ret, hreq, heq⟩ := hadded call hcall
          exact ⟨fd, req', arg, ret, List.mem_cons_of_mem _ hreq, heq⟩

/-- Past the block that opens the device: the result is 0 exactly when all six requests
succeed, and the device gets the handle in `spi_fd`. -/
theorem configureDevice_spec (globals : SpiGlobals) (dev : SpiDevice) (calls : List InitCall) :
    let res := configureDevice r globals dev calls
    (res.ret = 0 ↔ ∀ req, 0 ≤ r.ioctl req) ∧
      res.globals.wiringPiInit = globals.wiringPiInit ∧ res.globals.spiFd = globals.spiFd ∧
      res.dev = { dev with devHandle := globals.spiFd } := by
  intro res
  have hconfigured := @configure_eq_true_iff r SpiRequest.all (.start globals calls)
  simp only [SpiRequest.mem_all, forall_const] at hconfigured
  obtain ⟨hinit, hfd⟩ := @configure_globals r SpiRequest.all (.start globals calls)
  rw [← hconfigured]
  simp only [res, configureDevice]
  split
  next h => exact ⟨by simp [h], hinit, hfd, rfl⟩
  next h => exact ⟨by simp [h], hinit, hfd, rfl⟩

/-- The calls past the block that opens the device: first `SPI_IOC_WR_MODE` with the mode
chosen, then other requests and `pinMode`. -/
theorem configureDevice_calls (globals : SpiGlobals) (dev : SpiDevice) (calls : List InitCall) :
    ∃ added, (configureDevice r globals dev calls).calls =
        calls ++ .ioctl globals.spiFd .wrMode (globals.mode.setWidth 32) (r.ioctl .wrMode) ::
          added ∧
      ∀ call ∈ added, (∃ fd req arg ret, req ≠ .wrMode ∧ call = .ioctl fd req arg ret) ∨
        ∃ pin, call = .pinMode pin := by
  -- the first request is issued whatever comes after it
  obtain ⟨added, hcalls, hadded⟩ : ∃ added,
      (configure r SpiRequest.all (.start globals calls)).2.calls =
        calls ++ .ioctl globals.spiFd .wrMode (globals.mode.setWidth 32) (r.ioctl .wrMode) ::
          added ∧
      ∀ call ∈ added, ∃ fd req arg ret, req ≠ .wrMode ∧ call = .ioctl fd req arg ret := by
    rw [SpiRequest.all, configure]
    split
    · exact ⟨[], rfl, by simp⟩
    · obtain ⟨added, hcalls, hadded⟩ := @configure_calls r
        [.rdMode, .wrBitsPerWord, .rdBitsPerWord, .wrMaxSpeedHz, .rdMaxSpeedHz]
        (((ConfigState.start globals calls).issue r .wrMode).readBack r .wrMode)
      refine ⟨added, hcalls.trans (List.append_assoc ..), fun call hcall => ?_⟩
      obtain ⟨fd, req, arg, ret, hreq, heq⟩ := hadded call hcall
      exact ⟨fd, req, arg, ret, by rintro rfl; simp at hreq, heq⟩
  simp only [configureDevice]
  split
  · refine ⟨added ++ [.pinMode (pins dev.spiCs)], by simp [hcalls], fun call hcall => ?_⟩
    rcases List.mem_append.mp hcall with hcall | hcall
    · exact Or.inl (hadded call hcall)
    · exact Or.inr ⟨_, List.mem_singleton.mp hcall⟩
  · exact ⟨added, hcalls, fun call hcall => Or.inl (hadded call hcall)⟩

/-- The variables `spi_init` works on behind the choice of the mode. -/
def SpiGlobals.withMode (globals : SpiGlobals) (dev : SpiDevice) : SpiGlobals :=
  { globals with mode := (chooseMode dev).2 }

/-- Once `wiringPi_init` is set the device is not opened again. -/
theorem spiInit_of_init (h : globals.wiringPiInit ≠ 0) :
    spiInit r globals dev =
      configureDevice r (globals.withMode dev) { dev with deviceType := .PIC } [] := by
  rw [spiInit]
  exact if_neg h

/-- The first call opens the device, and gives up when that fails. -/
theorem spiInit_of_not_init (h : globals.wiringPiInit = 0) :
    spiInit r globals dev =
      let opened := { globals.withMode dev with wiringPiInit := 1, spiFd := r.openFd }
      let calls := [.wiringPiSetup, .openDevice r.openFd]
      if r.openFd.toInt < 0 then ⟨-1, opened, { dev with deviceType := .PIC }, calls⟩
      else configureDevice r opened { dev with deviceType := .PIC } calls := by
  rw [spiInit]
  exact if_pos h

/-- An initialisation succeeds exactly when every system call it makes does. -/
theorem spiInit_ret_eq_zero_iff :
    (spiInit r globals dev).ret = 0 ↔
      (globals.wiringPiInit = 0 → 0 ≤ r.openFd.toInt) ∧ ∀ req, 0 ≤ r.ioctl req := by
  by_cases h : globals.wiringPiInit = 0
  · rw [spiInit_of_not_init h]
    dsimp only
    split
    next hopen => simp [h, hopen]
    next hopen =>
      rw [(configureDevice_spec ..).1]
      simp [h, not_lt.mp hopen]
  · rw [spiInit_of_init h, (configureDevice_spec ..).1]
    exact ⟨fun hreqs => ⟨fun h0 => absurd h0 h, hreqs⟩, fun hall => hall.2⟩

/-- After any call `wiringPi_init` is set, and `spi_fd` is what the first call's `open`
returned. -/
theorem spiInit_globals :
    (spiInit r globals dev).globals.wiringPiInit ≠ 0 ∧
      (spiInit r globals dev).globals.spiFd =
        if globals.wiringPiInit = 0 then r.openFd else globals.spiFd := by
  by_cases h : globals.wiringPiInit = 0
  · rw [spiInit_of_not_init h, if_pos h]
    dsimp only
    split
    · exact ⟨by simp, rfl⟩
    · obtain ⟨-, hinit, hfd, -⟩ := configureDevice_spec (r := r)
        { globals.withMode dev with wiringPiInit := 1, spiFd := r.openFd }
        { dev with deviceType := .PIC } [.wiringPiSetup, .openDevice r.openFd]
      exact ⟨by rw [hinit]; simp, hfd⟩
  · obtain ⟨-, hinit, hfd, -⟩ := configureDevice_spec (r := r) (globals.withMode dev)
      { dev with deviceType := .PIC } []
    rw [spiInit_of_init h, if_neg h]
    exact ⟨by rw [hinit]; exact h, hfd⟩

/-- Past the block that opens the device no call opens it. -/
theorem openDevice_mem_configureDevice {calls : List InitCall} {fd : BitVec 32} :
    .openDevice fd ∈ (configureDevice r globals dev calls).calls ↔ .openDevice fd ∈ calls := by
  obtain ⟨added, hcalls, hadded⟩ := @configureDevice_calls r globals dev calls
  rw [hcalls, List.mem_append, List.mem_cons]
  constructor
  · rintro (h | h | h)
    · exact h
    · cases h
    · rcases hadded _ h with ⟨_, _, _, _, -, heq⟩ | ⟨_, heq⟩ <;> cases heq
  · exact Or.inl

/-- A call of `spi_init` opens the device exactly when `wiringPi_init` is unset. -/
theorem openDevice_mem_spiInit {fd : BitVec 32} :
    .openDevice fd ∈ (spiInit r globals dev).calls ↔
      globals.wiringPiInit = 0 ∧ fd = r.openFd := by
  by_cases h : globals.wiringPiInit = 0
  · have hcalls : .openDevice fd ∈ [InitCall.wiringPiSetup, .openDevice r.openFd] ↔
        fd = r.openFd := by simp
    rw [spiInit_of_not_init h, and_iff_right h, ← hcalls]
    dsimp only
    split
    · rfl
    · exact openDevice_mem_configureDevice
  · rw [spiInit_of_init h, openDevice_mem_configureDevice]
    exact ⟨fun hmem => (List.not_mem_nil hmem).elim, fun hmem => absurd hmem.1 h⟩

/-- The record `spi_init` leaves: the handle is stored unless `open` failed. -/
theorem spiInit_dev :
    (spiInit r globals dev).dev =
      { dev with
        deviceType := .PIC
        devHandle :=
          if globals.wiringPiInit = 0 then
            if r.openFd.toInt < 0 then dev.devHandle else r.openFd
          else globals.spiFd } := by
  by_cases h : globals.wiringPiInit = 0
  · rw [spiInit_of_not_init h, if_pos h]
    dsimp only
    split
    · rfl
    · exact (configureDevice_spec ..).2.2.2
  · rw [spiInit_of_init h, if_neg h]
    exact (configureDevice_spec ..).2.2.2

end

/-! ### The ports in turn -/

section

variable (file : ConfigFile) (r : Fin 4 → SpiReplies)

/-- The variables and records before the block of port `p` of `main`. -/
def startupBefore (p : ℕ) : SpiStartup :=
  ((List.finRange 4).take p).foldl (initPort file r) .initial

/-- The device `main` passes to `spi_init` for a port. -/
def passedDevice (p : Fin 4) : SpiDevice :=
  { SpiDevice.zero with spiBus := file.spiBusSetting, spiCs := portCs p, count := 19200#16 }

/-- The call of `spi_init` for a port. -/
def portInit (p : Fin 4) : SpiInitResult :=
  spiInit (r p) (startupBefore file r p).globals (passedDevice file p)

/-- The record of a port whose initialisation has been called. -/
def startedDevice (p : Fin 4) : SpiDevice :=
  { (portInit file r p).dev with deviceType := file.outputType }

variable {file : ConfigFile} {r : Fin 4 → SpiReplies}

theorem startupBefore_succ {k : ℕ} (hk : k < 4) :
    startupBefore file r (k + 1) = initPort file r (startupBefore file r k) ⟨k, hk⟩ := by
  rw [startupBefore, List.take_succ_eq_append_getElem (by simpa using hk), List.foldl_append]
  simp [startupBefore]

/-- After the blocks of the first `k` ports, those below `pixel_ports` are initialised and the
other records are as the program starts with them. -/
theorem startupBefore_spec {k : ℕ} (hk : k ≤ 4) (q : Fin 4) :
    (startupBefore file r k).devices q =
        (if (q : ℕ) < k ∧ (q : ℤ) < file.pixelPortCount.toInt then startedDevice file r q
          else .zero) ∧
      (startupBefore file r k).results q =
        (if (q : ℕ) < k ∧ (q : ℤ) < file.pixelPortCount.toInt then
          some (passedDevice file q, portInit file r q) else none) := by
  induction k with
  | zero => simp [startupBefore, SpiStartup.initial]
  | succ k ih =>
      obtain ⟨hdev, hres⟩ := ih (by omega)
      have hk' : k < 4 := hk
      rw [startupBefore_succ hk', initPort]
      by_cases hp : ((⟨k, hk'⟩ : Fin 4) : ℤ) < file.pixelPortCount.toInt
      · rw [if_pos hp]
        by_cases hq : q = ⟨k, hk'⟩
        · -- its record was still untouched
          subst hq
          rw [if_neg (by simp)] at hdev
          have hlt : k < k + 1 ∧ ((⟨k, hk'⟩ : Fin 4) : ℤ) < file.pixelPortCount.toInt :=
            ⟨Nat.lt_succ_self k, hp⟩
          simp only [Function.update_self, hdev, if_pos hlt]
          exact ⟨rfl, rfl⟩
        · have hne : (q : ℕ) ≠ k := fun h => hq (Fin.ext h)
          have hiff : (q : ℕ) < k + 1 ↔ (q : ℕ) < k := by omega
          simp only [Function.update_of_ne hq, hiff]
          exact ⟨hdev, hres⟩
      · rw [if_neg hp]
        have hiff : (q : ℕ) < k + 1 ∧ (q : ℤ) < file.pixelPortCount.toInt ↔
            (q : ℕ) < k ∧ (q : ℤ) < file.pixelPortCount.toInt := by
          have : ¬(k : ℤ) < file.pixelPortCount.toInt := hp
          omega
        simp only [hiff]
        exact ⟨hdev, hres⟩

theorem initDevices_eq : initDevices file r = startupBefore file r 4 := rfl

variable {p : Fin 4}

/-- What `spi_init` returned for a port below `pixel_ports`. -/
theorem results_initDevices (p : Fin 4) :
    (initDevices file r).results p =
      if (p : ℤ) < file.pixelPortCount.toInt then some (passedDevice file p, portInit file r p)
      else none := by
  rw [initDevices_eq, (startupBefore_spec le_rfl p).2]
  simp

/-- The record of a port below `pixel_ports`. -/
theorem devices_initDevices (hp : (p : ℤ) < file.pixelPortCount.toInt) :
    (initDevices file r).devices p = startedDevice file r p := by
  rw [initDevices_eq, (startupBefore_spec le_rfl p).1, if_pos ⟨p.isLt, hp⟩]

/-- Only the call for port 0 finds `wiringPi_init` unset; the later ones find what its `open`
returned in `spi_fd`. -/
theorem globals_startupBefore (hports : 0 < file.pixelPortCount.toInt) {k : ℕ} (hk : k < 4) :
    (startupBefore file r (k + 1)).globals.wiringPiInit ≠ 0 ∧
      (startupBefore file r (k + 1)).globals.spiFd = (r 0).openFd := by
  induction k with
  | zero =>
      rw [startupBefore_succ hk, initPort,
        if_pos (show ((⟨0, hk⟩ : Fin 4) : ℤ) < file.pixelPortCount.toInt from hports)]
      exact spiInit_globals
  | succ k ih =>
      obtain ⟨hinit, hfd⟩ := ih (by omega)
      rw [startupBefore_succ hk, initPort]
      split
      · refine ⟨spiInit_globals.1, spiInit_globals.2.trans ?_⟩
        rw [if_neg hinit, hfd]
      · exact ⟨hinit, hfd⟩

/-- Where some port is enabled, port 0 is. -/
theorem zero_lt_pixelPortCount (hp : (p : ℤ) < file.pixelPortCount.toInt) :
    ((0 : Fin 4) : ℤ) < file.pixelPortCount.toInt :=
  lt_of_le_of_lt (Int.natCast_nonneg p) hp

/-- The call for an enabled port behind the first finds the device opened. -/
theorem globals_startupBefore_of_ne_zero (hp : (p : ℤ) < file.pixelPortCount.toInt)
    (h0 : p ≠ 0) :
    (startupBefore file r p).globals.wiringPiInit ≠ 0 ∧
      (startupBefore file r p).globals.spiFd = (r 0).openFd := by
  obtain ⟨k, hk⟩ := Nat.exists_eq_succ_of_ne_zero (fun h => h0 (Fin.ext h))
  have hlt := p.isLt
  rw [hk]
  exact globals_startupBefore (zero_lt_pixelPortCount hp) (by omega)

theorem wiringPiInit_startupBefore_eq_zero_iff (hp : (p : ℤ) < file.pixelPortCount.toInt) :
    (startupBefore file r p).globals.wiringPiInit = 0 ↔ p = 0 := by
  constructor
  · intro h
    by_contra hne
    exact (globals_startupBefore_of_ne_zero hp hne).1 h
  · rintro rfl
    rfl

/-- A port's initialisation succeeds exactly when its six requests do, and for port 0 also
`open`. -/
theorem portInit_ret_eq_zero_iff (hp : (p : ℤ) < file.pixelPortCount.toInt) :
    (portInit file r p).ret = 0 ↔
      (p = 0 → 0 ≤ (r 0).openFd.toInt) ∧ ∀ req, 0 ≤ (r p).ioctl req := by
  rw [portInit, spiInit_ret_eq_zero_iff, wiringPiInit_startupBefore_eq_zero_iff hp]
  refine and_congr_left fun _ => forall_congr' fun h => ?_
  rw [h]

/-- The handle in the record of a port: what the `open` of port 0 returned, except that for port
0 a failed `open` leaves the record as it was. -/
theorem startedDevice_devHandle (hp : (p : ℤ) < file.pixelPortCount.toInt) :
    (startedDevice file r p).devHandle =
      if p = 0 ∧ (r 0).openFd.toInt < 0 then 0 else (r 0).openFd := by
  rw [startedDevice, portInit, spiInit_dev]
  by_cases h0 : p = 0
  · subst h0
    simp only [true_and]
    rfl
  · obtain ⟨hinit, hfd⟩ := @globals_startupBefore_of_ne_zero file r p hp h0
    simp only [hinit, if_false, h0, false_and]
    exact hfd

theorem startedDevice_spiCs : (startedDevice file r p).spiCs = portCs p := by
  rw [startedDevice, portInit, spiInit_dev]
  rfl

/-- Start-up reaches such a state when the records store inside `workers`. -/
theorem exists_boots {w : Workers} (h : loadChannels file = .ok w) (r : Fin 4 → SpiReplies) :
    ∃ c : Controller, c.Boots file r := by
  let addresses : Addresses := { pixelBuffer := 0, spiDev := fun p => BitVec.ofNat 64 p }
  let c : Controller :=
    { (default : Controller) with
      workers := w.setFields addresses file.pixelPortCount
      spiDev := fun address => (initDevices file r).devices (Fin.ofNat 4 address.toNat) }
  have hptr : ∀ p, (c.workers.spiDev p).toNat = p := by
    intro p
    have hp := p.isLt
    rw [show c.workers.spiDev p = BitVec.ofNat 64 p from Workers.spiDev_setFields _ _ w p,
      BitVec.toNat_ofNat]
    omega
  refine ⟨c, ⟨⟨⟨addresses, ?_⟩, rfl, rfl, rfl⟩, fun p q hpq => ?_, fun p => ?_⟩⟩
  · rw [startWorkers, h, Outcome.ok_bind, Outcome.pure_eq_ok]
  · have htoNat := congrArg BitVec.toNat hpq
    rw [hptr, hptr] at htoNat
    exact Fin.ext htoNat
  · change (initDevices file r).devices (Fin.ofNat 4 (c.workers.spiDev p).toNat) = _
    rw [hptr]
    exact congrArg (initDevices file r).devices (Fin.ext (Nat.mod_eq_of_lt p.isLt))

end

end PiPixelController
