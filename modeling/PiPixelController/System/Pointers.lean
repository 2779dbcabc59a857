import PiPixelController.Residue.Listeners
import PiPixelController.Startup.Mapping
import PiPixelController.Worker.Correctness

/-!
# The device pointers

For every enabled port the worker follows `led_string[p].spi_dev`. `Controller.spiDev` reads a
record at any address, but only the four records whose addresses `main` stores are device records,
and an entry of a configuration outside the 4×8 table may overwrite a pointer. `Controller.stepIn`
is the iteration in which a pointer to anything else is not followed: its behaviour is undefined.

* `runIn_eq_run` — as long as the entries of all configurations are in the table, the pointers stay
  those of `main`, and a run is the run of `Controller.step`.
-/

namespace PiPixelController

open CSemantics

/-- The `spi_dev` pointer of every enabled port is the address of a device record. -/
def Workers.PointsToDevices (addresses : Addresses) (w : Workers) : Prop :=
  ∀ p : Fin 4, (p : ℤ) < w.pixelPorts.toInt → ∃ q, w.spiDev p = addresses.spiDev q

instance (addresses : Addresses) (w : Workers) : Decidable (w.PointsToDevices addresses) := by
  unfold Workers.PointsToDevices
  infer_instance

namespace Controller

/-- The state after one action; a refresh through a pointer to anything but a device record is
undefined. -/
def stepIn (addresses : Addresses) (params : Params) (c : Controller) :
    Action → Outcome Controller
  | .acn recv => c.step params (.acn recv)
  | .zcpp net recv => c.step params (.zcpp net recv)
  | .refresh rets =>
      if c.workers.PointsToDevices addresses then c.step params (.refresh rets) else .undefined

/-- The state after a sequence of such actions. -/
def runIn (addresses : Addresses) (params : Params) (c : Controller) (actions : List Action) :
    Outcome Controller :=
  actions.foldlM (stepIn addresses params) c

variable {addresses : Addresses} {params : Params} {c c' : Controller} {a : Action}

theorem stepIn_of_pointsToDevices (h : c.workers.PointsToDevices addresses) :
    c.stepIn addresses params a = c.step params a := by
  cases a with
  | acn recv => rfl
  | zcpp net recv => rfl
  | refresh rets => rw [stepIn, if_pos h]

theorem runIn_append {pre : List Action} :
    c.runIn addresses params (pre ++ [a]) =
      c.runIn addresses params pre >>= fun c => c.stepIn addresses params a := by
  rw [runIn, List.foldlM_append]
  simp only [List.foldlM_cons, List.foldlM_nil, bind_pure]
  rfl

end Controller

/-! ### Entries in the table -/

/-- A configuration the iteration handles has its entries in the table. -/
def EntriesInTable (c : Controller) : Action → Prop
  | .zcpp _ recv =>
      let eth := EthBuffer.recvfrom c.zcppEthBuffer recv
      Zcpp.received eth = some .config →
        ∀ a < Zcpp.ports eth, (Zcpp.portConfig eth a).InTable
  | _ => True

/-- Such a configuration changes words of the table only. -/
theorem sameOutsideTable_of_configEffect {eth : EthBuffer} {last : BitVec 32} {w w' : Workers}
    (h : ∀ a < Zcpp.ports eth, (Zcpp.portConfig eth a).InTable)
    (heffect : Zcpp.configEffect eth last w = .ok w') : Workers.SameOutsideTable w' w := by
  rw [Zcpp.configEffect, Outcome.bind_eq_ok_iff] at heffect
  obtain ⟨w₁, hclear, hentries⟩ := heffect
  have hcleared : Workers.SameOutsideTable w₁ w := by
    rw [Zcpp.clearMappings] at hclear
    split at hclear
    · obtain ⟨w₂, hclear', -, hout⟩ := Zcpp.storeAll_clearStores w
      obtain rfl : w₁ = w₂ := Outcome.ok.inj (hclear.symm.trans hclear')
      exact hout
    · rw [Outcome.ok.inj hclear]
      exact Workers.SameOutsideTable.refl _
  refine Outcome.foldlM_invariant (I := fun s => Workers.SameOutsideTable s w)
    (fun s a s' ha hs hstep => ?_) hcleared hentries
  -- an entry in the table writes its cell
  obtain ⟨hport, hstring⟩ := h a (List.mem_range.mp ha)
  rw [Zcpp.processEntry, Outcome.bind_eq_ok_iff] at hstep
  obtain ⟨e, hread, hstore⟩ := hstep
  rw [Zcpp.readPortConfig] at hread
  split at hread
  · obtain rfl := Outcome.ok.inj hread
    have hcell := s.storeAll_cellStores (⟨_, hport⟩, ⟨_, hstring⟩) (Zcpp.portConfig eth a).cell
    rw [Outcome.ok.inj (hstore.symm.trans hcell)]
    exact (Workers.sameOutsideTable_setCell _ _).trans hs
  · cases hread

/-- An iteration with entries in the table changes words of the table only. -/
theorem sameOutsideTable_of_step {params : Params} {c c' : Controller} {a : Action}
    (h : EntriesInTable c a) (hstep : c.step params a = .ok c') :
    Workers.SameOutsideTable c'.workers c.workers := by
  cases a with
  | acn recv =>
      rw [Controller.step, Acn.acnListen_eq_effect, Outcome.map_eq_ok_iff] at hstep
      obtain ⟨buffer, -, rfl⟩ := hstep
      exact Workers.SameOutsideTable.refl _
  | zcpp net recv =>
      rw [Controller.step, Outcome.map_eq_ok_iff] at hstep
      obtain ⟨⟨c'', response⟩, hlisten, rfl⟩ := hstep
      rcases zcppMulticastListen_cases hlisten with
        ⟨-, D, -, hr⟩ | ⟨hconfig, c₁, hprocess, hr⟩ | ⟨-, c₁, hprocess, hr⟩ | hr <;> cases hr
      · exact Workers.SameOutsideTable.refl _
      · rw [Zcpp.processConfig_eq] at hprocess
        obtain ⟨w, heffect, hc₁⟩ := Outcome.bind_eq_ok_iff.mp hprocess
        cases hc₁
        exact sameOutsideTable_of_configEffect (h hconfig) heffect
      · rw [Zcpp.processData_eq] at hprocess
        obtain ⟨buffer, -, hc₁⟩ := Outcome.bind_eq_ok_iff.mp hprocess
        cases hc₁
        exact Workers.SameOutsideTable.refl _
      · exact Workers.SameOutsideTable.refl _
  | refresh rets =>
      rw [Controller.step, Outcome.map_eq_ok_iff] at hstep
      obtain ⟨⟨c'', events⟩, hrefresh, rfl⟩ := hstep
      obtain ⟨c₁, events', hrefresh', hsame, -⟩ :=
        workerRefresh_of_packable (packable_of_workerRefresh hrefresh) rets
      obtain ⟨rfl, -⟩ := Prod.mk.inj (Outcome.ok.inj (hrefresh.symm.trans hrefresh'))
      rw [hsame.workers]
      exact Workers.SameOutsideTable.refl _

/-- Words outside the table hold the pointers and `pixel_ports`. -/
theorem Workers.PointsToDevices.of_sameOutsideTable {addresses : Addresses} {w w' : Workers}
    (h : w.PointsToDevices addresses) (hsame : SameOutsideTable w' w) :
    w'.PointsToDevices addresses := by
  intro p hp
  rw [hsame.pixelPorts] at hp
  rw [hsame.spiDev]
  exact h p hp

theorem pointsToDevices_startWorkers {file : ConfigFile} {addresses : Addresses} {w : Workers}
    (h : startWorkers file addresses = .ok w) : w.PointsToDevices addresses := by
  rw [startWorkers, Outcome.bind_eq_ok_iff] at h
  obtain ⟨w₀, -, hset⟩ := h
  obtain rfl := Outcome.ok.inj hset
  exact fun p _ => ⟨p, Workers.spiDev_setFields addresses file.pixelPortCount w₀ p⟩

/-- In a run whose configurations have their entries in the table, the worker follows the pointers
of `main` only. -/
theorem runIn_eq_run {addresses : Addresses} {params : Params} {c : Controller}
    {actions : List Action} (hstart : c.workers.PointsToDevices addresses)
    (h : ∀ pre a post, actions = pre ++ a :: post → ∀ c', c.run params pre = .ok c' →
      EntriesInTable c' a) :
    c.runIn addresses params actions = c.run params actions := by
  induction actions generalizing c with
  | nil => rfl
  | cons a actions ih =>
      rw [Controller.runIn, Controller.run, List.foldlM_cons, List.foldlM_cons,
        Controller.stepIn_of_pointsToDevices hstart]
      cases hstep : c.step params a with
      | ok c₁ =>
          have hsame := sameOutsideTable_of_step (h [] a actions rfl c rfl) hstep
          refine ih (hstart.of_sameOutsideTable hsame) fun pre b post hactions c' hrun => ?_
          refine h (a :: pre) b post (by rw [hactions]; rfl) c' ?_
          rw [Controller.run, List.foldlM_cons, hstep]
          exact hrun
      | exit => rfl
      | undefined => rfl

end PiPixelController
