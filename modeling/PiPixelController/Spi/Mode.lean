import PiPixelController.Spi.Startup

/-!
# The SPI mode

`spi_init` chooses the mode under `if(spi_dev->device_type = PIC)`, an assignment of the value 0,
and `main` stores the parsed type only after the call.

* `parsesType` — what `main` parses;
* `mode_portInit`, `writesMode_portInit_iff` — every initialisation writes `SPI_MODE_1`, which is
  the mode of the parsed type for `PICO` only;
* `modeFollowsType_iff` — mode and record follow the parsed type only where no initialisation
  succeeds.
-/

namespace PiPixelController

open CSemantics

/-- `PIC` is parsed exactly for a string that begins with `pic` but not with `pico`. -/
def ParsesType (file : ConfigFile) : Prop :=
  file.outputType = .PIC ↔
    ∃ s, file.portType = some s ∧ ConfigFile.picName <+: s ∧ ¬ConfigFile.picoName <+: s

/-- The mode of an output type. -/
def OutputType.spiMode : OutputType → Byte
  | PIC => spiMode0
  | PICO => spiMode1

/-- `SPI_IOC_WR_MODE` is called, and only with the given mode. -/
structure WritesMode (calls : List InitCall) (mode : Byte) : Prop where
  called : ∃ fd arg ret, .ioctl fd .wrMode arg ret ∈ calls
  argument : ∀ fd arg ret, .ioctl fd .wrMode arg ret ∈ calls → arg = mode.setWidth 32

/-- The type is parsed as said, and for every port whose initialisation succeeds the mode written
is that of the parsed type, which is in the record both when the mode is chosen and after
start-up. -/
def ModeFollowsType (file : ConfigFile) (r : Fin 4 → SpiReplies) : Prop :=
  ParsesType file ∧ ∀ p dev res, (initDevices file r).results p = some (dev, res) → res.ret = 0 →
    WritesMode res.calls file.outputType.spiMode ∧
      (chooseMode dev).1.deviceType = file.outputType ∧
      ((initDevices file r).devices p).deviceType = file.outputType

theorem parsesType (file : ConfigFile) : ParsesType file := by
  rw [ParsesType, ConfigFile.outputType]
  cases file.portType with
  | none => simp
  | some s =>
      -- the two comparisons are tests for the prefixes
      simp only [strncmp_eq_zero_iff (show ConfigFile.picoName.length = 4 from rfl),
        strncmp_eq_zero_iff (show ConfigFile.picName.length = 3 from rfl), Option.some.injEq,
        exists_eq_left']
      by_cases hpico : ConfigFile.picoName <+: s
      · simp [hpico]
      · by_cases hpic : ConfigFile.picName <+: s <;> simp [hpico, hpic]

section

variable {file : ConfigFile} {r : Fin 4 → SpiReplies} {p : Fin 4}

theorem WritesMode.unique {calls : List InitCall} {mode mode' : Byte} (h : WritesMode calls mode)
    (h' : WritesMode calls mode') : mode = mode' := by
  obtain ⟨fd, arg, ret, hmem⟩ := h.called
  have heq := (h.argument fd arg ret hmem).symm.trans (h'.argument fd arg ret hmem)
  have htoNat := congrArg BitVec.toNat heq
  rw [BitVec.toNat_setWidth, BitVec.toNat_setWidth, Nat.mod_eq_of_lt (by omega),
    Nat.mod_eq_of_lt (by omega)] at htoNat
  exact BitVec.eq_of_toNat_eq htoNat

/-- Past the block that opens the device the mode in `mode` is written. -/
theorem writesMode_configureDevice {reply : SpiReplies} {globals : SpiGlobals} {dev : SpiDevice}
    {calls : List InitCall} (h : ∀ fd arg ret, .ioctl fd .wrMode arg ret ∉ calls) :
    WritesMode (configureDevice reply globals dev calls).calls globals.mode := by
  obtain ⟨added, hcalls, hadded⟩ := @configureDevice_calls reply globals dev calls
  rw [hcalls]
  refine ⟨⟨_, _, _, List.mem_append_right _ List.mem_cons_self⟩, fun fd arg ret hmem => ?_⟩
  rcases List.mem_append.mp hmem with hmem | hmem
  · exact absurd hmem (h fd arg ret)
  · rcases List.mem_cons.mp hmem with heq | hmem
    · cases heq
      rfl
    · rcases hadded _ hmem with ⟨_, req, _, _, hne, heq⟩ | ⟨_, heq⟩
      · cases heq
        exact absurd rfl hne
      · cases heq

/-- Every initialisation that succeeds writes `SPI_MODE_1`. -/
theorem mode_portInit (hret : (portInit file r p).ret = 0) :
    WritesMode (portInit file r p).calls spiMode1 := by
  rw [portInit] at hret ⊢
  by_cases h : (startupBefore file r p).globals.wiringPiInit = 0
  · rw [spiInit_of_not_init h] at hret ⊢
    dsimp only at hret ⊢
    split
    next hopen =>
      rw [if_pos hopen] at hret
      cases hret
    next => exact writesMode_configureDevice (by simp)
  · rw [spiInit_of_init h]
    exact writesMode_configureDevice (by simp)

/-- The mode an initialisation writes is that of the parsed type for `PICO` only. -/
theorem writesMode_portInit_iff (hret : (portInit file r p).ret = 0) :
    WritesMode (portInit file r p).calls file.outputType.spiMode ↔ file.outputType = .PICO := by
  constructor
  · intro h
    have heq := h.unique (mode_portInit hret)
    cases htype : file.outputType with
    | PIC =>
        rw [htype] at heq
        exact absurd heq (by decide)
    | PICO => rfl
  · intro h
    rw [h]
    exact mode_portInit hret

/-- For every `port_type` setting or its absence, every `pixel_ports` and every pattern of results
of the system calls: the mode and the record follow the parsed type if and only if no enabled
port is initialised, that is, for every enabled port one of its six `ioctl`s fails, or for port 0
`open` does. -/
theorem modeFollowsType_iff (file : ConfigFile) (r : Fin 4 → SpiReplies) :
    ModeFollowsType file r ↔
      ∀ p : Fin 4, (p : ℤ) < file.pixelPortCount.toInt →
        (p = 0 ∧ (r 0).openFd.toInt < 0) ∨ ∃ req, (r p).ioctl req < 0 := by
  have hfails : ∀ p : Fin 4, (p : ℤ) < file.pixelPortCount.toInt →
      ((portInit file r p).ret ≠ 0 ↔
        (p = 0 ∧ (r 0).openFd.toInt < 0) ∨ ∃ req, (r p).ioctl req < 0) := by
    intro p hp
    rw [ne_eq, portInit_ret_eq_zero_iff hp, not_and_or]
    push Not
    rfl
  constructor
  · rintro ⟨-, h⟩ p hp
    rw [← hfails p hp]
    intro hret
    obtain ⟨hmode, htype, -⟩ := h p _ _ (by rw [results_initDevices, if_pos hp]) hret
    -- the record holds `PIC` when the mode of `PICO` is chosen
    have hpic : file.outputType = .PIC := htype.symm
    have hpico := (writesMode_portInit_iff hret).mp hmode
    rw [hpic] at hpico
    cases hpico
  · intro h
    refine ⟨parsesType file, fun p dev res hres hret => ?_⟩
    rw [results_initDevices] at hres
    split at hres
    next hp =>
      cases hres
      exact absurd hret ((hfails p hp).mpr (h p hp))
    next => cases hres

end

/-- A port of type `pic` that is initialised gets the wrong mode. -/
theorem not_modeFollowsType_sample :
    ¬∀ (file : ConfigFile) (r : Fin 4 → SpiReplies), ModeFollowsType file r := by
  intro h
  let file : ConfigFile :=
    { (default : ConfigFile) with portType := some ConfigFile.picName, pixelPorts := some 1 }
  have hzero : ((0 : Fin 4) : ℤ) < file.pixelPortCount.toInt := by decide
  have hret : (portInit file default 0).ret = 0 :=
    (portInit_ret_eq_zero_iff hzero).mpr ⟨fun _ => le_refl 0, fun _ => le_refl 0⟩
  obtain ⟨hmode, -⟩ := (h file default).2 0 _ _ (by rw [results_initDevices, if_pos hzero]) hret
  have hpico := (writesMode_portInit_iff hret).mp hmode
  exact absurd hpico (by decide)

end PiPixelController
