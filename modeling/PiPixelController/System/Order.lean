import PiPixelController.Acn.Encode
import PiPixelController.CSemantics.Schedules
import PiPixelController.Residue.Listeners
import PiPixelController.System.History

/-!
# The order of the listeners

The two listeners handle their datagrams in whatever order the scheduler picks. An iteration of
the ACN listener works on the pixel buffer and its own receive buffer only, so it can be exchanged
with an iteration of the ZCPP listener unless both copy to the same bytes.

* `exchange_acn_zcpp` — two iterations that do not copy to the same bytes can be exchanged;
* `outputs_eq_of_apart` — then the final state, the events on the pins and the SPI bus and the
  responses do not depend on the order in which the listeners run between two refreshes.
-/

namespace PiPixelController

open CSemantics

/-- The loop an iteration belongs to. -/
inductive Loop where
  | acn
  | zcpp
  | worker
deriving DecidableEq

namespace Loop

/-- The order of the iterations of two loops may matter, except that of the two listeners. -/
def Dependent : Loop → Loop → Prop
  | acn, zcpp | zcpp, acn => False
  | _, _ => True

end Loop

def Action.loop : Action → Loop
  | acn _ => .acn
  | zcpp _ _ => .zcpp
  | refresh _ => .worker

/-- Whatever the receive buffers hold, the two listeners do not copy to the same bytes of the pixel
buffer when they receive `recv` and `recv'`. -/
def Apart (params : AcnParam) (recv recv' : Option Datagram) : Prop :=
  ∀ eth eth' args, Acn.memcpyArgs params (EthBuffer.recvfrom eth recv) = some args →
    Zcpp.received (EthBuffer.recvfrom eth' recv') = some .data →
      args.dst + sizeT args.len ≤ (Zcpp.frameAddress (EthBuffer.recvfrom eth' recv')).toNat ∨
        ((Zcpp.frameAddress (EthBuffer.recvfrom eth' recv')).toNat : ℤ) +
          (Zcpp.packetDataLength (EthBuffer.recvfrom eth' recv')).toNat ≤ args.dst

/-! ### What the program puts out -/

/-- A state with the events on the pins and the SPI bus and the discovery responses so far. -/
structure Outputs where
  controller : Controller
  events : List (Fin 4 × SpiEvent)
  responses : List (Block 88)

namespace Outputs

/-- One iteration, with what it puts out. -/
def step (params : Params) (o : Outputs) : Action → Outcome Outputs
  | .acn recv => (fun c => { o with controller := c }) <$> acnListen params.acn recv o.controller
  | .zcpp net recv =>
      (fun r => { o with controller := r.1, responses := o.responses ++ r.2.toList }) <$>
        zcppMulticastListen params.controllerName net recv o.controller
  | .refresh rets =>
      (fun r => { o with controller := r.1, events := o.events ++ r.2 }) <$>
        workerRefresh rets o.controller

def run (params : Params) (o : Outputs) (actions : List Action) : Outcome Outputs :=
  actions.foldlM (step params) o

variable {params : Params}

/-- The state is the one the controller's own step leaves. -/
theorem controller_step (o : Outputs) (a : Action) :
    controller <$> o.step params a = o.controller.step params a := by
  cases a with
  | acn recv => exact (Functor.map_map ..).trans (id_map _)
  | zcpp net recv => exact Functor.map_map ..
  | refresh rets => exact Functor.map_map ..

theorem controller_run (o : Outputs) (actions : List Action) :
    controller <$> o.run params actions = o.controller.run params actions := by
  induction actions generalizing o with
  | nil => rfl
  | cons a actions ih =>
      rw [run, Controller.run, List.foldlM_cons, List.foldlM_cons, ← controller_step,
        map_bind, bind_map_left]
      exact bind_congr fun o' => ih o'

end Outputs

/-! ### Exchanging iterations of the listeners -/

/-- The state with the parts the ACN listener works on replaced. -/
def Controller.withPixels (c : Controller) (buffer : PixelBuffer) (eth : EthBuffer) :
    Controller :=
  { c with pixelBuffer := buffer, acnEthBuffer := eth }

section

variable {params : Params} {controllerName : Block 48} {net : Network}
  {recv recv' : Option Datagram} {c : Controller}

/-- A configuration is handled without the pixel buffer and the ACN listener's receive buffer. -/
theorem processConfig_withPixels (eth : EthBuffer) (buffer : PixelBuffer) (acnEth : EthBuffer) :
    Zcpp.processConfig eth (c.withPixels buffer acnEth) =
      (·.withPixels buffer acnEth) <$> Zcpp.processConfig eth c := by
  rw [Zcpp.processConfig_eq, Zcpp.processConfig_eq, map_bind]
  rfl

/-- An iteration of the ZCPP listener that does not receive data works on neither of them. -/
theorem zcppMulticastListen_withPixels
    (h : Zcpp.received (EthBuffer.recvfrom c.zcppEthBuffer recv) ≠ some .data)
    (buffer : PixelBuffer) (acnEth : EthBuffer) :
    zcppMulticastListen controllerName net recv (c.withPixels buffer acnEth) =
      (fun r => (r.1.withPixels buffer acnEth, r.2)) <$>
        zcppMulticastListen controllerName net recv c := by
  set eth := EthBuffer.recvfrom c.zcppEthBuffer recv with heth
  change Zcpp.dispatch controllerName net eth
      ({ c with zcppEthBuffer := eth }.withPixels buffer acnEth) =
    _ <$> Zcpp.dispatch controllerName net eth { c with zcppEthBuffer := eth }
  rw [Zcpp.dispatch, Zcpp.dispatch]
  cases hkind : Zcpp.received eth with
  | none => rfl
  | some kind =>
      cases kind with
      | data => exact absurd hkind h
      | config =>
          simp only [processConfig_withPixels, map_bind, bind_map_left]
          rfl
      | discovery =>
          simp only [map_bind]
          rfl
      | _ => rfl

/-- An iteration of the ZCPP listener that receives data copies them. -/
theorem zcppMulticastListen_of_data
    (h : Zcpp.received (EthBuffer.recvfrom c.zcppEthBuffer recv) = some .data) :
    zcppMulticastListen controllerName net recv c =
      (fun buffer => ({ c with
        zcppEthBuffer := EthBuffer.recvfrom c.zcppEthBuffer recv
        pixelBuffer := buffer }, none)) <$>
        Zcpp.dataEffect (EthBuffer.recvfrom c.zcppEthBuffer recv) c.pixelBuffer := by
  rw [zcppMulticastListen, Zcpp.dispatch, h]
  simp only [Zcpp.processData_eq, Outcome.pure_eq_ok, bind_assoc, Outcome.ok_bind]
  rfl

/-- An iteration of the ZCPP listener stores to the pixel buffer, to `workers` and to
`last_config_sequence` only, apart from its receive buffer. -/
theorem eq_of_zcppMulticastListen {r : Controller × Option (Block 88)}
    (hr : zcppMulticastListen controllerName net recv c = .ok r) :
    ∃ buffer w sequence, r.1 = { c with
      zcppEthBuffer := EthBuffer.recvfrom c.zcppEthBuffer recv
      pixelBuffer := buffer, workers := w, lastConfigSequence := sequence } := by
  rcases zcppMulticastListen_cases hr with
    ⟨-, D, -, rfl⟩ | ⟨-, c', hprocess, rfl⟩ | ⟨-, c', hprocess, rfl⟩ | rfl
  · exact ⟨_, _, _, rfl⟩
  · rw [Zcpp.processConfig_eq] at hprocess
    obtain ⟨w, -, hc'⟩ := Outcome.bind_eq_ok_iff.mp hprocess
    cases hc'
    exact ⟨_, _, _, rfl⟩
  · rw [Zcpp.processData_eq] at hprocess
    obtain ⟨buffer, -, hc'⟩ := Outcome.bind_eq_ok_iff.mp hprocess
    cases hc'
    exact ⟨_, _, _, rfl⟩
  · exact ⟨_, _, _, rfl⟩

/-- What an iteration without data leaves alone. -/
theorem pixels_of_zcppMulticastListen
    (h : Zcpp.received (EthBuffer.recvfrom c.zcppEthBuffer recv) ≠ some .data)
    {r : Controller × Option (Block 88)}
    (hr : zcppMulticastListen controllerName net recv c = .ok r) :
    r.1.pixelBuffer = c.pixelBuffer ∧ r.1.acnEthBuffer = c.acnEthBuffer := by
  have hself := @zcppMulticastListen_withPixels controllerName net recv c h c.pixelBuffer
    c.acnEthBuffer
  change zcppMulticastListen controllerName net recv c = _ at hself
  rw [hr, Outcome.map_ok, Outcome.ok.injEq] at hself
  rw [hself]
  exact ⟨rfl, rfl⟩

/-- Copies of the two listeners to different bytes can be made in either order. -/
theorem effect_dataEffect_comm {eth eth' : EthBuffer} (buffer : PixelBuffer)
    (h : ∀ args, Acn.memcpyArgs params.acn eth = some args →
      args.dst + sizeT args.len ≤ (Zcpp.frameAddress eth').toNat ∨
        ((Zcpp.frameAddress eth').toNat : ℤ) + (Zcpp.packetDataLength eth').toNat ≤ args.dst) :
    (Acn.effect params.acn eth buffer >>= Zcpp.dataEffect eth') =
      Zcpp.dataEffect eth' buffer >>= Acn.effect params.acn eth := by
  cases hargs : Acn.memcpyArgs params.acn eth with
  | none =>
      -- without a `memcpy` there is nothing to exchange
      have heffect : Acn.effect params.acn eth = Outcome.ok := by
        funext b
        rw [Acn.effect, hargs]
      rw [heffect, Outcome.ok_bind]
      exact (bind_pure (Zcpp.dataEffect eth' buffer)).symm
  | some args =>
      have heffect : Acn.effect params.acn eth =
          fun b => b.memcpy args.dst eth args.src (sizeT args.len) := by
        funext b
        rw [Acn.effect, hargs]
      rw [heffect]
      exact Block.memcpy_memcpy_of_disjoint buffer (h args hargs)

namespace Outputs

/-- An iteration of the ACN listener, with its outputs. -/
theorem step_acn (o : Outputs) :
    o.step params (.acn recv) =
      (fun buffer => { o with
        controller := o.controller.withPixels buffer
          (EthBuffer.recvfrom o.controller.acnEthBuffer recv) }) <$>
        Acn.effect params.acn (EthBuffer.recvfrom o.controller.acnEthBuffer recv)
          o.controller.pixelBuffer := by
  rw [step, Acn.acnListen_eq_effect, Functor.map_map]
  rfl

/-- An iteration of the ZCPP listener that receives data, with its outputs. -/
theorem step_zcpp_of_data (o : Outputs)
    (h : Zcpp.received (EthBuffer.recvfrom o.controller.zcppEthBuffer recv) = some .data) :
    o.step params (.zcpp net recv) =
      (fun buffer => { o with
        controller := { o.controller with
          zcppEthBuffer := EthBuffer.recvfrom o.controller.zcppEthBuffer recv
          pixelBuffer := buffer } }) <$>
        Zcpp.dataEffect (EthBuffer.recvfrom o.controller.zcppEthBuffer recv)
          o.controller.pixelBuffer := by
  rw [step, zcppMulticastListen_of_data h, Functor.map_map]
  simp only [Option.toList_none, List.append_nil]

end Outputs

/-- Iterations of the two listeners that do not copy to the same bytes can be exchanged. -/
theorem exchange_acn_zcpp (h : Apart params.acn recv recv') :
    Exchange (Outputs.step params) (.acn recv) (.zcpp net recv') := by
  intro o o'
  simp only [List.foldlM_cons, List.foldlM_nil, bind_pure]
  by_cases hdata :
      Zcpp.received (EthBuffer.recvfrom o.controller.zcppEthBuffer recv') = some .data
  · -- both copy, to different bytes
    set eth := EthBuffer.recvfrom o.controller.acnEthBuffer recv with heth
    set eth' := EthBuffer.recvfrom o.controller.zcppEthBuffer recv' with heth'
    let after : PixelBuffer → Outputs := fun buffer =>
      { o with controller := { o.controller with
        acnEthBuffer := eth, zcppEthBuffer := eth', pixelBuffer := buffer } }
    have hacn : (o.step params (.acn recv) >>= fun o => o.step params (.zcpp net recv')) =
        after <$>
          (Acn.effect params.acn eth o.controller.pixelBuffer >>= Zcpp.dataEffect eth') := by
      rw [Outputs.step_acn, bind_map_left, map_bind]
      exact bind_congr fun buffer => Outputs.step_zcpp_of_data _ hdata
    have hzcpp : (o.step params (.zcpp net recv') >>= fun o => o.step params (.acn recv)) =
        after <$>
          (Zcpp.dataEffect eth' o.controller.pixelBuffer >>= Acn.effect params.acn eth) := by
      rw [Outputs.step_zcpp_of_data _ hdata, bind_map_left, map_bind]
      exact bind_congr fun buffer => Outputs.step_acn _
    rw [hacn, hzcpp, effect_dataEffect_comm _ fun args hargs =>
      h o.controller.acnEthBuffer o.controller.zcppEthBuffer args hargs hdata]
  · -- what the ZCPP listener does commutes with what the ACN listener replaces
    constructor
    · intro hrun
      obtain ⟨o₁, hacn, hzcpp⟩ := Outcome.bind_eq_ok_iff.mp hrun
      rw [Outputs.step_acn, Outcome.map_eq_ok_iff] at hacn
      obtain ⟨buffer, hbuffer, rfl⟩ := hacn
      rw [Outputs.step, zcppMulticastListen_withPixels hdata, Functor.map_map,
        Outcome.map_eq_ok_iff] at hzcpp
      obtain ⟨r, hr, rfl⟩ := hzcpp
      obtain ⟨hpixels, heth⟩ := pixels_of_zcppMulticastListen hdata hr
      refine Outcome.bind_eq_ok_iff.mpr ⟨_, Outcome.map_eq_ok_iff.mpr ⟨r, hr, rfl⟩, ?_⟩
      rw [Outputs.step_acn, hpixels, heth, hbuffer, Outcome.map_ok]
    · intro hrun
      obtain ⟨o₁, hzcpp, hacn⟩ := Outcome.bind_eq_ok_iff.mp hrun
      rw [Outputs.step, Outcome.map_eq_ok_iff] at hzcpp
      obtain ⟨r, hr, rfl⟩ := hzcpp
      obtain ⟨hpixels, heth⟩ := pixels_of_zcppMulticastListen hdata hr
      rw [Outputs.step_acn, hpixels, heth, Outcome.map_eq_ok_iff] at hacn
      obtain ⟨buffer, hbuffer, rfl⟩ := hacn
      rw [Outputs.step_acn, hbuffer, Outcome.map_ok, Outcome.ok_bind, Outputs.step,
        zcppMulticastListen_withPixels hdata, Functor.map_map, hr, Outcome.map_ok]

/-- The view of two loops is part of the view of all loops but a third. -/
theorem filter_loops_eq {actions actions' : List Action} {i j k : Loop} (hi : i ≠ k) (hj : j ≠ k)
    (h : actions.filter (·.loop ≠ k) = actions'.filter (·.loop ≠ k)) :
    actions.filter (fun a => a.loop = i ∨ a.loop = j) =
      actions'.filter fun a => a.loop = i ∨ a.loop = j := by
  have hpart : ∀ as : List Action, (as.filter (·.loop ≠ k)).filter
      (fun a => a.loop = i ∨ a.loop = j) = as.filter fun a => a.loop = i ∨ a.loop = j := by
    intro as
    rw [List.filter_filter]
    apply List.filter_congr
    intro a _
    by_cases ha : a.loop = k
    · simp [ha, hi.symm, hj.symm]
    · simp [ha]
  rw [← hpart actions, h, hpart]

/-- In two schedules with the same iterations of each listener in the same order and in the same
places between the refreshes, in which no iteration of one listener copies to bytes an iteration of
the other copies to, the loops end in the same state and put out the same. -/
theorem outputs_eq_of_apart {actions actions' : List Action}
    (hacn : actions.filter (·.loop ≠ .zcpp) = actions'.filter (·.loop ≠ .zcpp))
    (hzcpp : actions.filter (·.loop ≠ .acn) = actions'.filter (·.loop ≠ .acn))
    (hapart : ∀ recv net recv', .acn recv ∈ actions' → .zcpp net recv' ∈ actions' →
      Apart params.acn recv recv') (o o' : Outputs) :
    o.run params actions = .ok o' ↔ o.run params actions' = .ok o' := by
  apply Reordering.foldlM_eq_ok_iff
  -- only the two listeners are independent loops
  have hrefl : ∀ i : Loop, i.Dependent i := by
    intro i
    cases i <;> trivial
  refine Reordering.of_filter_eq Action.loop hrefl ?_ ?_
  · intro i j hij
    -- a dependent pair leaves out one of the listeners
    by_cases hnot : i = .zcpp ∨ j = .zcpp
    · have hne : i ≠ .acn ∧ j ≠ .acn := by
        cases i <;> cases j <;> simp_all [Loop.Dependent]
      exact filter_loops_eq hne.1 hne.2 hzcpp
    · rw [not_or] at hnot
      exact filter_loops_eq hnot.1 hnot.2 hacn
  · intro a ha b hb hind
    cases a with
    | acn recv =>
        cases b with
        | zcpp net recv' => exact exchange_acn_zcpp (hapart recv net recv' ha hb)
        | _ => exact absurd trivial hind
    | zcpp net recv' =>
        cases b with
        | acn recv => exact (exchange_acn_zcpp (hapart recv net recv' hb ha)).symm
        | _ => exact absurd trivial hind
    | refresh rets => exact absurd (by cases b <;> trivial) hind

/-! ### Packets that are apart -/

/-- A complete configuration packet copies nothing. -/
theorem apart_config (P : ConfigPacket) : Apart params.acn recv (some P.datagram) := by
  intro eth eth' args _ hdata
  rw [P.received_eq] at hdata
  cases hdata

/-- Complete packets for disjoint ranges of the pixel buffer are apart. -/
theorem apart_data (P : AcnPacket params.acn) (Q : DataPacket)
    (hrange : Acn.getUniverse P.datagram.eth - params.acn.universeStart.toInt < 48)
    (h : P.address + P.slots.length ≤ Q.address ∨ Q.address + Q.data.length ≤ P.address) :
    Apart params.acn (some P.datagram) (some Q.datagram) := by
  intro eth eth' args hargs _
  -- nothing of the old contents of the receive buffers is read
  have hone := P.one_le
  have hcount := P.le
  have hcomplete := P.complete
  have hlo := P.inRange.1
  have hcomplete' := Q.complete
  have hlength := P.length_slots
  rw [@Acn.memcpyArgs_congr _ P.datagram.eth fun i hi => P.datagram.get_recvfrom eth (by omega),
    Acn.memcpyArgs, if_pos P.identifier, if_pos P.inRange, Option.some.injEq] at hargs
  subst hargs
  -- both headers are carried, so the addresses are those of the packets
  have hlen : sizeT (Acn.getPropertyCount P.datagram.eth) = P.slots.length := by
    rw [hlength, Acn.getPropertyCount]
    exact sizeT_of_nonneg (by omega) (by omega)
  have hoffset : (Acn.bufferOffset params.acn (Acn.getUniverse P.datagram.eth)).toInt =
      P.address := by
    rw [Acn.toInt_bufferOffset_of_lt P.inRange (by omega), AcnPacket.address,
      Int.toNat_of_nonneg (by omega)]
  have hdata : Zcpp.dataArgs (EthBuffer.recvfrom eth' (some Q.datagram)) =
      Zcpp.dataArgs Q.datagram.eth :=
    Zcpp.dataArgs_congr fun i hi _ => Q.datagram.get_recvfrom eth' (by omega)
  have haddress : ((Zcpp.frameAddress (EthBuffer.recvfrom eth' (some Q.datagram))).toNat : ℤ) =
      Q.address := congrArg MemcpyArgs.dst hdata
  have hdatalen :
      ((Zcpp.packetDataLength (EthBuffer.recvfrom eth' (some Q.datagram))).toNat : ℤ) =
        Q.data.length := by
    rw [DataPacket.data, Block.length_slice]
    exact congrArg MemcpyArgs.len hdata
  simp only [hlen, hoffset, haddress, hdatalen]
  omega

end

/-- `outputs_eq_of_apart` with a packet for the second of 48 universes and a data packet for the
first bytes of the buffer. -/
theorem outputs_eq_of_apart_sample :
    let params : Params := ⟨⟨1, 48⟩, default⟩
    let P : AcnPacket params.acn := AcnPacket.encode 2 (by decide) [9] (by decide)
    let acn : Action := .acn (some P.datagram)
    let zcpp : Action := .zcpp default (some sampleData.datagram)
    ∃ o, Outputs.run params ⟨default, [], []⟩ [acn, zcpp] = .ok o ∧
      Outputs.run params ⟨default, [], []⟩ [zcpp, acn] = .ok o := by
  intro params P acn zcpp
  have huniv : Acn.getUniverse P.datagram.eth - params.acn.universeStart.toInt < 48 := by
    rw [AcnPacket.getUniverse_encode]
    decide
  have haddress : P.address = 512 := by
    rw [AcnPacket.address, AcnPacket.getUniverse_encode]
    rfl
  have hapart : Apart params.acn (some P.datagram) (some sampleData.datagram) := by
    refine apart_data P sampleData huniv (Or.inr ?_)
    rw [haddress]
    decide
  -- both packets are complete and in range, so the run completes
  have hrange : params.acn.universeEnd.toInt - params.acn.universeStart.toInt < 48 := by decide
  obtain ⟨c, hc, -⟩ := @exists_follows params default [.acn P, .data default sampleData] hrange rfl
    (by
      intro pre rets post hsplit
      have hmem : Event.refresh rets ∈ [Event.acn P, .data default sampleData] := by
        simp [hsplit]
      simp at hmem)
  have hcontroller := @Outputs.controller_run params ⟨default, [], []⟩ [acn, zcpp]
  obtain ⟨o, ho⟩ := Outcome.exists_map_eq_ok_iff.mp ⟨c, hcontroller.trans hc⟩
  refine ⟨o, ho, (outputs_eq_of_apart ?_ ?_ ?_ ⟨default, [], []⟩ o).mp ho⟩
  · rfl
  · rfl
  · intro recv net recv' hrecv hrecv'
    simp only [List.mem_cons, List.not_mem_nil, or_false, reduceCtorEq, false_or, acn, zcpp,
      Action.acn.injEq, Action.zcpp.injEq] at hrecv hrecv'
    rw [hrecv, hrecv'.2]
    exact hapart

end PiPixelController
