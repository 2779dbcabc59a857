import PiPixelController.Worker.Correctness
import PiPixelController.Zcpp.Config

/-!
# Runs of the worker

The worker executes the four port blocks of its loop over and over, while the listeners change
the pixel buffer and the mapping between them. `WorkerReaches` is that transition system, at the
granularity of a block: every transfer is inside one block.

Main results:

* `refreshPort_eq_ok` — a block below `pixel_ports` makes one transfer on the port's own device,
  a block from `pixel_ports` on does nothing;
* `WorkerReaches.sameDevices` — the device records keep what `main` stored in them;
* `WorkerReaches.events_induction` — what a run sends is built from transfers of the enabled
  ports;
* `WorkerReaches.refresh` — a refresh is four blocks;
* `WorkerReaches.exists_transfers` — from every state some run reaches the block of any port.
-/

namespace PiPixelController

open CSemantics

/-- The calls of one transfer on a device: select, send, deselect. -/
def transferEvents (dev : SpiDevice) (bytes : List Byte) : List SpiEvent :=
  [.digitalWrite (pins dev.spiCs) false, .message dev.devHandle bytes,
    .digitalWrite (pins dev.spiCs) true]

/-- The fields of a device record the worker reads and never changes agree. -/
structure SpiDevice.SameWiring (dev dev' : SpiDevice) : Prop where
  spiCs : dev'.spiCs = dev.spiCs
  deviceType : dev'.deviceType = dev.deviceType
  devHandle : dev'.devHandle = dev.devHandle

theorem SpiDevice.SameWiring.refl (dev : SpiDevice) : SameWiring dev dev := ⟨rfl, rfl, rfl⟩

theorem SpiDevice.SameWiring.trans {d₁ d₂ d₃ : SpiDevice} (h : SameWiring d₁ d₂)
    (h' : SameWiring d₂ d₃) : SameWiring d₁ d₃ :=
  ⟨h'.spiCs.trans h.spiCs, h'.deviceType.trans h.deviceType, h'.devHandle.trans h.devHandle⟩

/-- What another thread may change under the worker: the pixel buffer, the mapping and what it
keeps itself, but not `pixel_ports`, the device pointers or the device records. -/
structure ListenerChange (c c' : Controller) : Prop where
  outside : Workers.SameOutsideTable c'.workers c.workers
  spiDev : c'.spiDev = c.spiDev

/-- The states a worker that starts in `c₀` reaches, each with the port whose block is next and
the events so far. -/
inductive WorkerReaches (c₀ : Controller) :
    Controller → Fin 4 → List (Fin 4 × SpiEvent) → Prop
  | start : WorkerReaches c₀ c₀ 0 []
  | listeners {c c' : Controller} {p : Fin 4} {es : List (Fin 4 × SpiEvent)} :
      WorkerReaches c₀ c p es → ListenerChange c c' → WorkerReaches c₀ c' p es
  | block {c c' : Controller} {p : Fin 4} {es es' : List (Fin 4 × SpiEvent)}
      (rets : Fin 4 → ℤ) :
      WorkerReaches c₀ c p es → refreshPort rets (c, es) p = .ok (c', es') →
        WorkerReaches c₀ c' (p + 1) es'

/-- `workers` outside the mapping and the wiring of every port's device agree. -/
structure SameDevices (c c' : Controller) : Prop where
  outside : Workers.SameOutsideTable c'.workers c.workers
  wiring : ∀ p, SpiDevice.SameWiring (c.spiDev (c.workers.spiDev p))
    (c'.spiDev (c'.workers.spiDev p))

theorem SameDevices.refl (c : Controller) : SameDevices c c :=
  ⟨Workers.SameOutsideTable.refl _, fun _ => SpiDevice.SameWiring.refl _⟩

theorem SameDevices.trans {c₁ c₂ c₃ : Controller} (h : SameDevices c₁ c₂)
    (h' : SameDevices c₂ c₃) : SameDevices c₁ c₃ :=
  ⟨h'.outside.trans h.outside, fun p => (h.wiring p).trans (h'.wiring p)⟩

theorem ListenerChange.sameDevices {c c' : Controller} (h : ListenerChange c c') :
    SameDevices c c' where
  outside := h.outside
  wiring p := by
    rw [h.spiDev, h.outside.spiDev p]
    exact SpiDevice.SameWiring.refl _

section

variable {c c' : Controller} {p : Fin 4} {rets : Fin 4 → ℤ}

/-- The state after the block of port `p` has stored a payload and transferred `count` bytes. -/
def Controller.sent (c : Controller) (p : Fin 4) (payload : ControlBuffer) (count : BitVec 16) :
    Controller :=
  { c with
    payload := Function.update c.payload p payload
    spiDev := Function.update c.spiDev (c.workers.spiDev p)
      { c.spiDev (c.workers.spiDev p) with buffer := some p, count := count } }

/-- A block that completes packs a payload and transfers its first `count` bytes on the port's
device: it selects, sends and deselects. -/
theorem workerPort_eq_ok {ret : ℤ} {r : Controller × List SpiEvent}
    (h : workerPort p ret c = .ok r) :
    ∃ payload count, r = (c.sent p payload count,
      transferEvents (c.spiDev (c.workers.spiDev p)) (payload.bytes count.toNat)) := by
  rw [workerPort, Outcome.bind_eq_ok_iff] at h
  obtain ⟨⟨payload, b⟩, -, htransfer⟩ := h
  refine ⟨payload, BitVec.ofInt 16 (16 + b), ?_⟩
  simp only [transferPort, spiTransfer, Function.update_self] at htransfer
  split at htransfer
  · cases htransfer
    rfl
  · cases htransfer

/-- The block changes no wiring. -/
theorem sameDevices_sent (payload : ControlBuffer) (count : BitVec 16) :
    SameDevices c (c.sent p payload count) := by
  refine ⟨Workers.SameOutsideTable.refl _, fun q => ?_⟩
  -- the record of the port keeps its wiring, the others are not touched
  rw [Controller.sent]
  by_cases hq : c.workers.spiDev q = c.workers.spiDev p
  · simp only [hq, Function.update_self]
    exact ⟨rfl, rfl, rfl⟩
  · simp only [Function.update_of_ne hq]
    exact SpiDevice.SameWiring.refl _

/-- One block: a transfer below `pixel_ports`, nothing from `pixel_ports` on. -/
theorem refreshPort_eq_ok {es es' : List (Fin 4 × SpiEvent)}
    (h : refreshPort rets (c, es) p = .ok (c', es')) :
    SameDevices c c' ∧
      if (p : ℤ) < c.workers.pixelPorts.toInt then
        ∃ bytes, es' =
          es ++ (transferEvents (c.spiDev (c.workers.spiDev p)) bytes).map (Prod.mk p)
      else es' = es := by
  by_cases hp : (p : ℤ) < c.workers.pixelPorts.toInt
  · rw [refreshPort, if_pos hp, Outcome.bind_eq_ok_iff] at h
    obtain ⟨⟨s, events⟩, hport, hret⟩ := h
    cases hret
    obtain ⟨payload, count, heq⟩ := workerPort_eq_ok hport
    obtain ⟨rfl, rfl⟩ := Prod.mk.inj heq
    exact ⟨sameDevices_sent payload count, by rw [if_pos hp]; exact ⟨_, rfl⟩⟩
  · rw [refreshPort, if_neg hp] at h
    cases h
    exact ⟨SameDevices.refl c, by rw [if_neg hp]⟩

end

theorem portPackable_cleared (p : Fin 4) : PortPackable (fun _ => ⟨0, 0⟩) p := by
  revert p
  decide

section

variable {c₀ c : Controller} {p : Fin 4} {es : List (Fin 4 × SpiEvent)}

namespace WorkerReaches

/-- No run changes `pixel_ports`, a device pointer or the wiring of a device. -/
theorem sameDevices (h : WorkerReaches c₀ c p es) : SameDevices c₀ c := by
  induction h with
  | start => exact SameDevices.refl c₀
  | listeners _ hchange ih => exact ih.trans hchange.sameDevices
  | block rets _ hblock ih => exact ih.trans (refreshPort_eq_ok hblock).1

theorem pixelPorts (h : WorkerReaches c₀ c p es) :
    c.workers.pixelPorts = c₀.workers.pixelPorts :=
  h.sameDevices.outside.pixelPorts

/-- What holds of no events, and is kept by the transfer of a port below `pixel_ports` and by the
block of any other port, holds of the events of every run. -/
theorem events_induction {motive : Fin 4 → List (Fin 4 × SpiEvent) → Prop}
    (h : WorkerReaches c₀ c p es) (hstart : motive 0 [])
    (htransfer : ∀ (p : Fin 4) es dev bytes, (p : ℤ) < c₀.workers.pixelPorts.toInt →
      SpiDevice.SameWiring (c₀.spiDev (c₀.workers.spiDev p)) dev → motive p es →
        motive (p + 1) (es ++ (transferEvents dev bytes).map (Prod.mk p)))
    (hskip : ∀ (p : Fin 4) es, ¬(p : ℤ) < c₀.workers.pixelPorts.toInt → motive p es →
      motive (p + 1) es) :
    motive p es := by
  induction h with
  | start => exact hstart
  | listeners _ _ ih => exact ih
  | @block c c' p es es' rets hreach hblock ih =>
      have hevents := (refreshPort_eq_ok hblock).2
      rw [hreach.pixelPorts] at hevents
      by_cases hp : (p : ℤ) < c₀.workers.pixelPorts.toInt
      · rw [if_pos hp] at hevents
        obtain ⟨bytes, rfl⟩ := hevents
        exact htransfer p es _ bytes hp (hreach.sameDevices.wiring p) ih
      · rw [if_neg hp] at hevents
        exact hevents ▸ hskip p es hp ih

/-- From every state in which a block below `pixel_ports` is next, some run makes its transfer:
the listeners may clear the mapping first. -/
theorem exists_transfer (h : WorkerReaches c₀ c p es)
    (hp : (p : ℤ) < c₀.workers.pixelPorts.toInt) :
    ∃ c' dev bytes, WorkerReaches c₀ c' (p + 1) (es ++ (transferEvents dev bytes).map (Prod.mk p))
      ∧ SpiDevice.SameWiring (c₀.spiDev (c₀.workers.spiDev p)) dev := by
  obtain ⟨w, -, hmap, hout⟩ := Zcpp.storeAll_clearStores c.workers
  let cleared : Controller := { c with workers := w }
  have hclear : WorkerReaches c₀ cleared p es := h.listeners ⟨hout, rfl⟩
  have hpack : PortPackable cleared.workers.mapping p := by
    rw [show cleared.workers.mapping = fun _ => ⟨0, 0⟩ from hmap]
    exact portPackable_cleared p
  obtain ⟨c', events, hport, -⟩ := workerPort_of_packable hpack 0
  have hp' : (p : ℤ) < cleared.workers.pixelPorts.toInt := by rwa [hclear.pixelPorts]
  have hblock : refreshPort (fun _ => 0) (cleared, es) p =
      .ok (c', es ++ events.map (Prod.mk p)) := by
    rw [refreshPort, if_pos hp', hport, Outcome.ok_bind]
    rfl
  obtain ⟨payload, count, heq⟩ := workerPort_eq_ok hport
  obtain ⟨-, rfl⟩ := Prod.mk.inj heq
  exact ⟨c', _, _, hclear.block _ hblock, hclear.sameDevices.wiring p⟩

/-- A block from `pixel_ports` on does nothing. -/
theorem skip (h : WorkerReaches c₀ c p es) (hp : ¬(p : ℤ) < c₀.workers.pixelPorts.toInt) :
    WorkerReaches c₀ c (p + 1) es := by
  refine h.block (fun _ => 0) ?_
  rw [refreshPort, if_neg (by rwa [h.pixelPorts])]
  rfl

/-- Some run reaches the block of port `p`. -/
theorem exists_reaches (c₀ : Controller) (p : Fin 4) : ∃ c es, WorkerReaches c₀ c p es := by
  have hnext : ∀ {c p es}, WorkerReaches c₀ c p es → ∃ c' es', WorkerReaches c₀ c' (p + 1) es' := by
    intro c p es h
    by_cases hp : (p : ℤ) < c₀.workers.pixelPorts.toInt
    · obtain ⟨c', dev, bytes, hreach, -⟩ := h.exists_transfer hp
      exact ⟨c', _, hreach⟩
    · exact ⟨c, es, h.skip hp⟩
  have h₀ : WorkerReaches c₀ c₀ 0 [] := start
  obtain ⟨c₁, es₁, h₁⟩ := hnext h₀
  obtain ⟨c₂, es₂, h₂⟩ := hnext h₁
  obtain ⟨c₃, es₃, h₃⟩ := hnext h₂
  match p with
  | 0 => exact ⟨c₀, [], h₀⟩
  | 1 => exact ⟨c₁, es₁, h₁⟩
  | 2 => exact ⟨c₂, es₂, h₂⟩
  | 3 => exact ⟨c₃, es₃, h₃⟩

end WorkerReaches

end

/-! ### Refreshes and listener iterations are such steps -/

/-- Earlier events stay in front. -/
theorem refreshPort_append (rets : Fin 4 → ℤ) (c : Controller)
    (es es' : List (Fin 4 × SpiEvent)) (p : Fin 4) :
    refreshPort rets (c, es ++ es') p =
      (fun st => (st.1, es ++ st.2)) <$> refreshPort rets (c, es') p := by
  simp only [refreshPort]
  split
  · cases workerPort p (rets p) c with
    | ok r => exact congrArg Outcome.ok (Prod.ext rfl (List.append_assoc ..))
    | exit => rfl
    | undefined => rfl
  · rfl

theorem foldlM_refreshPort_append (rets : Fin 4 → ℤ) (ps : List (Fin 4)) (c : Controller)
    (es es' : List (Fin 4 × SpiEvent)) :
    ps.foldlM (refreshPort rets) (c, es ++ es') =
      (fun st => (st.1, es ++ st.2)) <$> ps.foldlM (refreshPort rets) (c, es') := by
  induction ps generalizing c es' with
  | nil => rfl
  | cons p ps ih =>
      rw [List.foldlM_cons, List.foldlM_cons, refreshPort_append]
      cases refreshPort rets (c, es') p with
      | ok st => exact ih st.1 st.2
      | exit => rfl
      | undefined => rfl

/-- A refresh of the worker is four blocks. -/
theorem WorkerReaches.refresh {c₀ c c' : Controller} {es es' : List (Fin 4 × SpiEvent)}
    {rets : Fin 4 → ℤ} (h : WorkerReaches c₀ c 0 es)
    (hrefresh : workerRefresh rets c = .ok (c', es')) : WorkerReaches c₀ c' 0 (es ++ es') := by
  have hfold := foldlM_refreshPort_append rets (List.finRange 4) c es []
  rw [List.append_nil] at hfold
  rw [workerRefresh] at hrefresh
  rw [hrefresh, Outcome.map_ok] at hfold
  -- the blocks of ports 0, 1, 2 and 3 one after the other
  change [0, 1, 2, 3].foldlM (refreshPort rets) (c, es) = _ at hfold
  simp only [List.foldlM_cons, List.foldlM_nil, Outcome.bind_eq_ok_iff, Outcome.pure_eq_ok,
    Outcome.ok.injEq] at hfold
  obtain ⟨⟨c₁, es₁⟩, h₁, ⟨c₂, es₂⟩, h₂, ⟨c₃, es₃⟩, h₃, ⟨c₄, es₄⟩, h₄, heq⟩ := hfold
  cases heq
  exact (((h.block rets h₁).block rets h₂).block rets h₃).block rets h₄

/-- What the ACN listener does between two blocks. -/
theorem listenerChange_acnListen {params : AcnParam} {recv : Option Datagram}
    {c c' : Controller} (h : acnListen params recv c = .ok c') : ListenerChange c c' := by
  rw [acnListen] at h
  dsimp only at h
  split at h
  · cases h
    exact ⟨Workers.SameOutsideTable.refl _, rfl⟩
  · rw [Outcome.bind_eq_ok_iff] at h
    obtain ⟨buffer, -, hret⟩ := h
    cases hret
    exact ⟨Workers.SameOutsideTable.refl _, rfl⟩

/-- What a configuration packet with entries in the table does between two blocks. -/
theorem SameExceptConfig.listenerChange {c c' : Controller} (h : SameExceptConfig c c') :
    ListenerChange c c' :=
  ⟨h.outside, h.spiDev⟩

end PiPixelController
