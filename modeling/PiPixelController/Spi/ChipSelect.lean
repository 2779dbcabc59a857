import PiPixelController.Spi.Startup
import PiPixelController.Worker.Runs

/-!
# Chip select

All ports share one SPI descriptor, so a device hears a message exactly when its select pin is
low. `spi_transfer` pulls the pin of its device low around the message, but `spi_init` only makes
the pins outputs, and the table `pins` gives ports 2 and 3 the same pin.

* `chipSelectExclusive_iff` — along every run of the worker each message finds its own pin low
  and the other enabled pins high exactly when at most three ports are enabled and the pins of
  the ports behind the first were high before start-up.
-/

namespace PiPixelController

open CSemantics WriteLog

/-- The select pin of a port. -/
def selectPin (p : Fin 4) : ℕ := pins (portCs p)

/-- The output levels a call of the worker sets. -/
def SpiEvent.patch : SpiEvent → Patch ℕ Bool
  | .digitalWrite pin level => Patch.single pin level
  | .message _ _ => fun _ => none

/-- The output levels a call of `spi_init` sets: `pinMode` leaves them as they are. -/
def InitCall.patch : InitCall → Patch ℕ Bool
  | .wiringPiSetup | .openDevice _ | .ioctl _ _ _ _ | .pinMode _ => fun _ => none

/-- The levels of the pins after the calls of start-up. -/
def startLevels (file : ConfigFile) (r : Fin 4 → SpiReplies) (before : ℕ → Bool) : ℕ → Bool :=
  replay ((initDevices file r).calls.map InitCall.patch) before

/-- The levels of the pins after events of the worker. -/
def levels (before : ℕ → Bool) (es : List (Fin 4 × SpiEvent)) : ℕ → Bool :=
  replay (es.map fun e => e.2.patch) before

/-- The pin of `p` is low and the pins of all other enabled ports are high. -/
def SelectedAlone (pixelPorts : BitVec 32) (level : ℕ → Bool) (p : Fin 4) : Prop :=
  level (selectPin p) = false ∧
    ∀ q : Fin 4, q ≠ p → (q : ℤ) < pixelPorts.toInt → level (selectPin q) = true

/-- The pins of all enabled ports are high. -/
def AllDeselected (pixelPorts : BitVec 32) (level : ℕ → Bool) : Prop :=
  ∀ q : Fin 4, (q : ℤ) < pixelPorts.toInt → level (selectPin q) = true

/-- Every message of the events finds its port selected and the others not. -/
def MessagesSelected (pixelPorts : BitVec 32) (before : ℕ → Bool)
    (es : List (Fin 4 × SpiEvent)) : Prop :=
  ∀ pre p fd bytes post, es = pre ++ (p, .message fd bytes) :: post →
    SelectedAlone pixelPorts (levels before pre) p

/-- Along every run of the worker from `c₀`: every message finds its port selected and the other
enabled ports not, and between transfers no enabled port is selected. -/
structure ChipSelectExclusive (pixelPorts : BitVec 32) (before : ℕ → Bool) (c₀ : Controller) :
    Prop where
  messages : ∀ {c p es}, WorkerReaches c₀ c p es → MessagesSelected pixelPorts before es
  between : ∀ {c p es}, WorkerReaches c₀ c p es → es ≠ [] →
    AllDeselected pixelPorts (levels before es)

/-! ### Levels -/

section

variable {before : ℕ → Bool}

/-- Start-up leaves every pin at its level. -/
theorem startLevels_eq (file : ConfigFile) (r : Fin 4 → SpiReplies) (before : ℕ → Bool) :
    startLevels file r before = before := by
  funext pin
  rw [startLevels, replay_apply]
  -- none of the calls sets a level
  have hnone : latest ((initDevices file r).calls.map InitCall.patch) pin = none := by
    rw [latest_eq_none_iff]
    intro f hf
    obtain ⟨call, -, rfl⟩ := List.mem_map.mp hf
    cases call <;> rfl
  rw [hnone, Option.getD_none]

theorem levels_append (es es' : List (Fin 4 × SpiEvent)) :
    levels before (es ++ es') = levels (levels before es) es' := by
  rw [levels, List.map_append, replay_append]
  rfl

/-- At the message of a transfer the pin of its device is low. -/
theorem levels_selected (p : Fin 4) (pin : ℕ) :
    levels before [(p, .digitalWrite pin false)] = Function.update before pin false :=
  Patch.apply_single ..

/-- After a transfer the pin of its device is high. -/
theorem levels_transfer (p : Fin 4) (dev : SpiDevice) (bytes : List Byte) :
    levels before ((transferEvents dev bytes).map (Prod.mk p)) =
      Function.update before (pins dev.spiCs) true := by
  change (Patch.single (pins dev.spiCs) true).apply
    ((Patch.single (pins dev.spiCs) false).apply before) = _
  rw [Patch.apply_single, Patch.apply_single, Function.update_idem]

end

/-- A message of the events and one transfer is one of the events, or the message of the
transfer. -/
theorem message_append_transfer {es pre post : List (Fin 4 × SpiEvent)} {p q : Fin 4}
    {dev : SpiDevice} {bytes bytes' : List Byte} {fd : BitVec 32}
    (h : es ++ (transferEvents dev bytes).map (Prod.mk p) =
      pre ++ (q, .message fd bytes') :: post) :
    (∃ post', es = pre ++ (q, .message fd bytes') :: post') ∨
      (q = p ∧ fd = dev.devHandle ∧ bytes' = bytes ∧
        pre = es ++ [(p, .digitalWrite (pins dev.spiCs) false)]) := by
  rcases List.append_eq_append_iff.mp h with ⟨mid, hpre, htail⟩ | ⟨mid, hes, htail⟩
  · -- the message is behind `es`, where the only message is the second event
    rw [transferEvents, List.map_cons, List.map_cons, List.map_cons, List.map_nil] at htail
    rcases mid with _ | ⟨e₁, _ | ⟨e₂, _ | ⟨e₃, mid⟩⟩⟩
    · simp at htail
    · simp only [List.cons_append, List.nil_append, List.cons.injEq, Prod.mk.injEq,
        SpiEvent.message.injEq] at htail
      obtain ⟨rfl, ⟨rfl, rfl, rfl⟩, -⟩ := htail
      exact Or.inr ⟨rfl, rfl, rfl, hpre⟩
    · simp at htail
    · simp at htail
  · rcases mid with _ | ⟨e, mid⟩
    · simp [transferEvents] at htail
    · rw [List.cons_append, List.cons.injEq] at htail
      exact Or.inl ⟨mid, by rw [hes, ← htail.1]⟩

/-! ### Runs of the worker -/

section

variable {file : ConfigFile} {r : Fin 4 → SpiReplies} {c₀ c c' : Controller} {p : Fin 4}
  {es es' : List (Fin 4 × SpiEvent)} {before : ℕ → Bool}

/-- A device wired as when the worker starts is wired as `spi_init` left the port's. -/
theorem Controller.Boots.sameWiring (hboot : c₀.Boots file r)
    (hp : (p : ℤ) < file.pixelPortCount.toInt) {dev : SpiDevice}
    (hwiring : SpiDevice.SameWiring (c₀.spiDev (c₀.workers.spiDev p)) dev) :
    SpiDevice.SameWiring (startedDevice file r p) dev := by
  rwa [hboot.spiDev_eq, devices_initDevices hp] at hwiring

/-- The enabled ports behind the first are deselected, and from the first transfer on all
are; every message so far found its port selected. -/
structure ChipSelectInv (pixelPorts : BitVec 32) (before : ℕ → Bool) (p : Fin 4)
    (es : List (Fin 4 × SpiEvent)) : Prop where
  deselected : ∀ q : Fin 4, (q : ℤ) < pixelPorts.toInt → q ≠ 0 ∨ es ≠ [] →
    levels before es (selectPin q) = true
  started : p ≠ 0 → 0 < pixelPorts.toInt → es ≠ []
  messages : MessagesSelected pixelPorts before es

/-- Among the first three ports no two share a pin. -/
theorem selectPin_ne {p q : Fin 4} (h : q ≠ p) (hp : p.val < 3) (hq : q.val < 3) :
    selectPin q ≠ selectPin p := by
  revert p q
  decide

/-- A transfer keeps the invariant. -/
theorem ChipSelectInv.transfer {pixelPorts : BitVec 32} (h : ChipSelectInv pixelPorts before p es)
    (hthree : pixelPorts.toInt ≤ 3) (hp : (p : ℤ) < pixelPorts.toInt) {dev : SpiDevice}
    (hdev : dev.spiCs = portCs p) (bytes : List Byte) :
    ChipSelectInv pixelPorts before (p + 1)
      (es ++ (transferEvents dev bytes).map (Prod.mk p)) := by
  have hpin : pins dev.spiCs = selectPin p := by rw [hdev, selectPin]
  -- port 0 has been transferred before any other port
  have hother : ∀ q : Fin 4, q ≠ p → (q : ℤ) < pixelPorts.toInt →
      selectPin q ≠ selectPin p ∧ levels before es (selectPin q) = true := by
    intro q hqp hq
    refine ⟨selectPin_ne hqp (by omega) (by omega), h.deselected q hq ?_⟩
    by_cases hq0 : q = 0
    · exact Or.inr (h.started (fun hp0 => hqp (hq0.trans hp0.symm)) (by omega))
    · exact Or.inl hq0
  refine ⟨fun q hq _ => ?_, fun _ _ => by simp [transferEvents], ?_⟩
  · rw [levels_append, levels_transfer, hpin]
    by_cases hqp : q = p
    · rw [hqp, Function.update_self]
    · rw [Function.update_of_ne (hother q hqp hq).1]
      exact (hother q hqp hq).2
  · intro pre q fd bytes' post heq
    rcases message_append_transfer heq with ⟨post', hes⟩ | ⟨rfl, -, -, rfl⟩
    · exact h.messages pre q fd bytes' post' hes
    · rw [levels_append, levels_selected, hpin]
      refine ⟨Function.update_self .., fun q' hne hq' => ?_⟩
      rw [Function.update_of_ne (hother q' hne hq').1]
      exact (hother q' hne hq').2

/-- With at most three ports whose later pins are high before start-up, every run keeps the
invariant. -/
theorem WorkerReaches.chipSelectInv (h : WorkerReaches c₀ c p es) (hboot : c₀.Boots file r)
    (hthree : file.pixelPortCount.toInt ≤ 3)
    (hhigh : ∀ q : Fin 4, q ≠ 0 → (q : ℤ) < file.pixelPortCount.toInt →
      before (selectPin q) = true) :
    ChipSelectInv file.pixelPortCount before p es := by
  have hports : c₀.workers.pixelPorts = file.pixelPortCount := hboot.pixelPorts_eq
  refine h.events_induction ?_ ?_ ?_
  · refine ⟨fun q hq hor => hhigh q (hor.resolve_right (by simp)) hq, by simp, ?_⟩
    intro pre p fd bytes post heq
    simp at heq
  · intro p es dev bytes hp hwiring ih
    rw [hports] at hp
    have hcs : dev.spiCs = portCs p := (hboot.sameWiring hp hwiring).spiCs.trans startedDevice_spiCs
    exact ih.transfer hthree hp hcs bytes
  · intro p es hp ih
    rw [hports] at hp
    refine ⟨ih.deselected, fun _ hpos => ih.started ?_ hpos, ih.messages⟩
    -- a port that is not enabled is not the first
    rintro rfl
    exact hp hpos

/-- The device of the first transfer to an enabled port has the pin of the port. -/
theorem pins_of_sameWiring (hboot : c₀.Boots file r) (hp : (p : ℤ) < file.pixelPortCount.toInt)
    {dev : SpiDevice}
    (hwiring : SpiDevice.SameWiring (c₀.spiDev (c₀.workers.spiDev p)) dev) :
    pins dev.spiCs = selectPin p := by
  rw [(hboot.sameWiring hp hwiring).spiCs, startedDevice_spiCs, selectPin]

/-- With four ports the message for port 2 finds the pin of port 3 low. -/
theorem ChipSelectExclusive.pixelPorts_le (hboot : c₀.Boots file r)
    (h : ChipSelectExclusive file.pixelPortCount before c₀) :
    file.pixelPortCount.toInt ≤ 3 := by
  by_contra hfour
  have htwo : ((2 : Fin 4) : ℤ) < file.pixelPortCount.toInt := by
    rw [show ((2 : Fin 4) : ℤ) = 2 from rfl]
    omega
  have hthree : ((3 : Fin 4) : ℤ) < file.pixelPortCount.toInt := by
    rw [show ((3 : Fin 4) : ℤ) = 3 from rfl]
    omega
  obtain ⟨c, es, hreach⟩ := WorkerReaches.exists_reaches c₀ 2
  obtain ⟨c', dev, bytes, hreach', hwiring⟩ := hreach.exists_transfer (by
    rwa [hboot.pixelPorts_eq])
  have halone := h.messages hreach' (es ++ [(2, .digitalWrite (pins dev.spiCs) false)]) 2
    dev.devHandle bytes [(2, .digitalWrite (pins dev.spiCs) true)] (by simp [transferEvents])
  have hhigh := halone.2 3 (by decide) hthree
  -- it is the pin of port 2
  rw [pins_of_sameWiring hboot htwo hwiring, levels_append, levels_selected,
    show selectPin 3 = selectPin 2 from rfl, Function.update_self] at hhigh
  cases hhigh

theorem selectPin_ne_zero {p : Fin 4} (h : p ≠ 0) : selectPin p ≠ selectPin 0 := by
  revert p
  decide

/-- After the transfer of port 0 nothing has set the pins of the other ports yet. -/
theorem ChipSelectExclusive.high_before (hboot : c₀.Boots file r)
    (h : ChipSelectExclusive file.pixelPortCount before c₀) (hp0 : p ≠ 0)
    (hp : (p : ℤ) < file.pixelPortCount.toInt) : before (selectPin p) = true := by
  have hzero := zero_lt_pixelPortCount hp
  obtain ⟨c', dev, bytes, hreach, hwiring⟩ := WorkerReaches.start.exists_transfer (by
    rwa [hboot.pixelPorts_eq])
  have hhigh := h.between hreach (by simp [transferEvents]) p hp
  rwa [List.nil_append, levels_transfer, pins_of_sameWiring hboot hzero hwiring,
    Function.update_of_ne (selectPin_ne_zero hp0)] at hhigh

/-- From the state start-up leaves, for every file, every pattern of results of the
initialisation calls and every level of the pins before start-up: along every run of the worker,
whatever its `ioctl`s return, every message finds the pin of its port low and those of the other
enabled ports high, and between transfers all of them are high, if and only if at most three
ports are enabled and the pin of every enabled port behind the first was high before start-up. -/
theorem chipSelectExclusive_iff (hboot : c₀.Boots file r) (before : ℕ → Bool) :
    ChipSelectExclusive file.pixelPortCount (startLevels file r before) c₀ ↔
      file.pixelPortCount.toInt ≤ 3 ∧
        ∀ p : Fin 4, p ≠ 0 → (p : ℤ) < file.pixelPortCount.toInt →
          before (selectPin p) = true := by
  rw [startLevels_eq]
  constructor
  · intro h
    exact ⟨h.pixelPorts_le hboot, fun p hp0 hp => h.high_before hboot hp0 hp⟩
  · rintro ⟨hthree, hhigh⟩
    refine ⟨fun hreach => (hreach.chipSelectInv hboot hthree hhigh).messages,
      fun hreach hne q hq => ?_⟩
    exact (hreach.chipSelectInv hboot hthree hhigh).deselected q hq (Or.inr hne)

end

/-- A file whose only setting is `pixel_ports`. -/
def ConfigFile.ofPorts (pixelPorts : BitVec 32) : ConfigFile :=
  { (default : ConfigFile) with pixelPorts := some pixelPorts }

/-- `chipSelectExclusive_iff` with three ports whose pins were high. -/
theorem chipSelectExclusive_sample :
    ∃ c₀ : Controller, ChipSelectExclusive 3
      (startLevels (ConfigFile.ofPorts 3) default fun _ => true) c₀ := by
  obtain ⟨c₀, hboot⟩ := @exists_boots (ConfigFile.ofPorts 3) Workers.zero rfl default
  exact ⟨c₀, (chipSelectExclusive_iff hboot fun _ => true).mpr ⟨by decide, fun _ _ _ => rfl⟩⟩

/-- With four ports it fails even when every pin was high. -/
theorem not_chipSelectExclusive_sample :
    ¬∀ (file : ConfigFile) (r : Fin 4 → SpiReplies) (before : ℕ → Bool) (c₀ : Controller),
      c₀.Boots file r → 1 ≤ file.pixelPortCount.toInt → file.pixelPortCount.toInt ≤ 4 →
        ChipSelectExclusive file.pixelPortCount (startLevels file r before) c₀ := by
  intro h
  obtain ⟨c₀, hboot⟩ := @exists_boots (ConfigFile.ofPorts 4) Workers.zero rfl default
  have hle := (h _ _ (fun _ => true) c₀ hboot (by decide) (by decide)).pixelPorts_le hboot
  exact absurd hle (by decide)

end PiPixelController
