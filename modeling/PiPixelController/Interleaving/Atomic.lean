import PiPixelController.Interleaving.Defs
import PiPixelController.Worker.Correctness

/-!
# Atomic actions as runs of single steps

The handling of a configuration and the refresh of the worker, each without a step of the other
thread in between, are runs of the single stores and loads. So every run of the controller made
of these two actions is one of the interleaved runs (`reaches_of_run`).
-/

namespace PiPixelController

open CSemantics

namespace Threads

variable (s : Threads) (payload : ControlBuffer) (pc : WorkerPc) (b : ℤ)
  (copied : List (List Byte))

/-- The state with the worker's own variables and the current payload buffer replaced. -/
def withWorker : Threads := { s.setPayload payload with pc := pc, b := b, copied := copied }

@[simp]
theorem payload_withWorker : (s.withWorker payload pc b copied).payload = payload :=
  Function.update_self ..

@[simp]
theorem withWorker_withWorker (payload' : ControlBuffer) (pc' : WorkerPc) (b' : ℤ)
    (copied' : List (List Byte)) :
    (s.withWorker payload pc b copied).withWorker payload' pc' b' copied' =
      s.withWorker payload' pc' b' copied' := by
  simp only [withWorker, setPayload, Function.update_idem]

theorem withWorker_payload : s.withWorker s.payload pc b copied =
    { s with pc := pc, b := b, copied := copied } := by
  rw [withWorker, setPayload, payload, Function.update_eq_self]

/-! ### The loads of one string -/

variable (ret : ℤ) (a : Fin 8) (rest : List (Fin 8))

theorem load_strings :
    (s.withWorker payload (.strings (a :: rest)) b copied).load ret =
      .ok (s.withWorker
        { payload with channelCount :=
            Function.update payload.channelCount a ((s.cell a).channelCount.setWidth 16) }
        (.test a rest) b copied) := by
  have h := withWorker_withWorker s payload (.strings (a :: rest)) b copied
  rw [load]
  simp only [payload_withWorker]
  exact congrArg Outcome.ok (h _ (.test a rest) b copied)

theorem load_test_of_ne (h : (s.cell a).channelCount ≠ 0) :
    (s.withWorker payload (.test a rest) b copied).load ret =
      .ok (s.withWorker payload (.start a rest) b copied) :=
  if_pos h

theorem load_test_of_eq (h : (s.cell a).channelCount = 0) :
    (s.withWorker payload (.test a rest) b copied).load ret =
      .ok (s.withWorker payload (.strings rest) b (copied ++ [[]])) :=
  if_neg (not_not.mpr h)

theorem load_start :
    (s.withWorker payload (.start a rest) b copied).load ret =
      .ok (s.withWorker payload (.copy a rest (s.cell a).startChannel) b copied) := rfl

theorem load_copy {startChannel : BitVec 32} {data : Block 19200}
    (h : payload.channelData.memcpy b s.controller.pixelBuffer startChannel.toInt
      (sizeT (s.cell a).channelCount.toInt) = .ok data) :
    (s.withWorker payload (.copy a rest startChannel) b copied).load ret =
      .ok (s.withWorker { payload with channelData := data } (.advance a rest) b
        (copied ++ [s.controller.pixelBuffer.slice startChannel.toInt.toNat
          (sizeT (s.cell a).channelCount.toInt)])) := by
  rw [load]
  simp only [payload_withWorker]
  change (payload.channelData.memcpy b s.controller.pixelBuffer startChannel.toInt
    (sizeT (s.cell a).channelCount.toInt) >>= _) = _
  rw [h, Outcome.ok_bind]
  exact congrArg Outcome.ok (withWorker_withWorker s payload _ b copied _ (.advance a rest) b _)

theorem load_advance (h : 0 ≤ b + (s.cell a).channelCount.toInt)
    (h' : b + (s.cell a).channelCount.toInt < 2 ^ 31) :
    (s.withWorker payload (.advance a rest) b copied).load ret =
      .ok (s.withWorker payload (.strings rest) (b + (s.cell a).channelCount.toInt) copied) := by
  have hsum := BitVec.toInt_ofInt_eq_self (show 0 < 32 by decide) (le_trans (by norm_num) h) h'
  exact congrArg (fun b => Outcome.ok (s.withWorker payload (.strings rest) b copied)) hsum

end Threads

/-! ### Runs of loads -/

/-- From the head of the string loop with `payload`, the worker gets to the head of the loop with
`st` after the strings `pre`. -/
def StringsReached (allow : Threads → Act → Prop) (s : Threads) (payload : ControlBuffer)
    (pre : List (Fin 8)) (st : ControlBuffer × ℤ) : Prop :=
  0 ≤ st.2 ∧ st.2 ≤ 19200 ∧ ∃ rest copied, List.finRange 8 = pre ++ rest ∧
    Reaches allow (s.withWorker payload (.strings (List.finRange 8)) 0 [])
      (s.withWorker st.1 (.strings rest) st.2 copied)

section

variable {allow : Threads → Act → Prop} {s s' : Threads}

theorem Reaches.load {ret : ℤ} (hallow : allow s (.load ret)) (h : s.load ret = .ok s') :
    Reaches allow s s' :=
  Relation.ReflTransGen.single ⟨.load ret, hallow, h⟩

variable (hload : ∀ t ret, allow t (.load ret))

include hload

/-- The loads of one string are one round of the string loop. -/
theorem reaches_of_packString {payload payload' : ControlBuffer} {b b' : ℤ}
    {copied : List (List Byte)} {a : Fin 8} {rest : List (Fin 8)} (hb : 0 ≤ b) (hb' : b ≤ 19200)
    (h : packString s.controller.workers s.controller.pixelBuffer s.port (payload, b) a =
      .ok (payload', b')) :
    ∃ copied', Reaches allow (s.withWorker payload (.strings (a :: rest)) b copied)
      (s.withWorker payload' (.strings rest) b' copied') := by
  obtain ⟨⟨⟨hcount, -⟩, hle⟩, -⟩ := (packString_eq_ok_iff hb hb').mp h
  let counted : ControlBuffer :=
    { payload with channelCount :=
        Function.update payload.channelCount a ((s.cell a).channelCount.setWidth 16) }
  have hheader : Reaches allow (s.withWorker payload (.strings (a :: rest)) b copied)
      (s.withWorker counted (.test a rest) b copied) :=
    Reaches.load (hload _ 0) (s.load_strings payload b copied 0 a rest)
  rw [packString] at h
  change (if (s.cell a).channelCount ≠ 0 then _ else _) = _ at h
  by_cases hzero : (s.cell a).channelCount = 0
  · rw [if_neg (not_not.mpr hzero), Outcome.pure_eq_ok, Outcome.ok.injEq, Prod.mk.injEq] at h
    obtain ⟨rfl, rfl⟩ := h
    have htest := Reaches.load (hload _ 0) (s.load_test_of_eq counted b copied 0 a rest hzero)
    exact ⟨_, hheader.trans htest⟩
  · rw [if_pos hzero, Outcome.bind_eq_ok_iff] at h
    obtain ⟨data, hdata, h⟩ := h
    rw [Outcome.pure_eq_ok, Outcome.ok.injEq, Prod.mk.injEq] at h
    obtain ⟨rfl, rfl⟩ := h
    have htest := Reaches.load (hload _ 0) (s.load_test_of_ne counted b copied 0 a rest hzero)
    have hstart := Reaches.load (hload _ 0) (s.load_start counted b copied 0 a rest)
    have hcopy := Reaches.load (hload _ 0) (s.load_copy counted b copied 0 a rest hdata)
    have hadvance := s.load_advance { counted with channelData := data } b
      (copied ++ [s.controller.pixelBuffer.slice (s.cell a).startChannel.toInt.toNat
        (sizeT (s.cell a).channelCount.toInt)]) 0 a rest (add_nonneg hb hcount)
      (lt_of_le_of_lt hle (by decide))
    exact ⟨_, ((hheader.trans htest).trans hstart).trans
      (hcopy.trans (Reaches.load (hload _ 0) hadvance))⟩

/-- The loads of the string loop are the string loop. -/
theorem reaches_of_packStrings {payload payload' : ControlBuffer} {b' : ℤ}
    (h : packStrings s.controller.workers s.controller.pixelBuffer s.port payload =
      .ok (payload', b')) :
    ∃ copied, Reaches allow (s.withWorker payload (.strings (List.finRange 8)) 0 [])
      (s.withWorker payload' (.strings []) b' copied) := by
  have h0 : StringsReached allow s payload [] (payload, 0) :=
    ⟨le_refl 0, by norm_num, List.finRange 8, [], rfl, Relation.ReflTransGen.refl⟩
  have hrun : StringsReached allow s payload (List.finRange 8) (payload', b') := by
    refine Outcome.foldlM_partial (StringsReached allow s payload) h0 ?_ h
    rintro pre a post hsplit ⟨payload₁, b₁⟩ ⟨payload₂, b₂⟩ ⟨hb, hb', rest, copied, hrest, hreaches⟩
      hpack
    -- the worker is at the string the loop is at
    obtain rfl : rest = a :: post := List.append_cancel_left (hrest.symm.trans hsplit)
    obtain ⟨⟨hin, hle⟩, hpacked⟩ := (packString_eq_ok_iff hb hb').mp hpack
    obtain ⟨-, rfl⟩ := Prod.mk.inj hpacked
    obtain ⟨copied', hstring⟩ := reaches_of_packString hload hb hb' hpack
    exact ⟨add_nonneg hb hin.1, hle, post, copied', by rw [hsplit, List.append_assoc]; rfl,
      hreaches.trans hstring⟩
  obtain ⟨-, -, rest, copied, hrest, hreaches⟩ := hrun
  obtain rfl : rest = [] := List.self_eq_append_right.mp hrest
  exact ⟨copied, hreaches⟩

/-- The loads of a port are the block of the worker for it. -/
theorem reaches_of_workerPort (hpc : s.pc = .gate)
    (hport : (s.port : ℤ) < s.controller.workers.pixelPorts.toInt) {ret : ℤ} {c' : Controller}
    {events : List SpiEvent} (h : workerPort s.port ret s.controller = .ok (c', events)) :
    ∃ s', Reaches allow s s' ∧ s'.controller = c' ∧ s'.pending = s.pending ∧
      s'.port = s.port + 1 ∧ s'.pc = .gate ∧
      s'.sent.map Frame.message = s.sent.map Frame.message ++
        frames (events.map (Prod.mk s.port)) := by
  rw [workerPort, Outcome.bind_eq_ok_iff] at h
  obtain ⟨⟨payload, b⟩, hpack, htransfer⟩ := h
  have hgate : s.load 0 = .ok (s.withWorker s.payload (.strings (List.finRange 8)) 0 []) := by
    rw [Threads.withWorker_payload, Threads.load, hpc]
    exact if_pos hport
  obtain ⟨copied, hstrings⟩ := reaches_of_packStrings hload hpack
  have hlast : (s.withWorker payload (.strings []) b copied).load ret = .ok
      { s.withWorker payload .gate b copied with
        controller := c'
        port := s.port + 1
        sent := s.sent ++ (frames (events.map (Prod.mk s.port))).map
          fun f => ⟨f.1, f.2, copied⟩ } := by
    replace htransfer : transferPort s.port ret b
      (s.withWorker payload (.strings []) b copied).controller = .ok (c', events) := htransfer
    change (transferPort s.port ret b
      (s.withWorker payload (.strings []) b copied).controller >>= _) = _
    rw [htransfer, Outcome.ok_bind]
    rfl
  refine ⟨_, ((Reaches.load (hload _ 0) hgate).trans hstrings).trans
    (Reaches.load (hload _ ret) hlast), rfl, rfl, rfl, rfl, ?_⟩
  simp only [List.map_append, List.map_map]
  congr 1
  exact List.map_id _

/-- From `s`, with the worker before port 0, the threads get to the worker before port `n`, the
shared memory being that of `st` and the frames of `st` having been sent. -/
def PortsReached (allow : Threads → Act → Prop) (s : Threads) (n : ℕ)
    (st : Controller × List (Fin 4 × SpiEvent)) : Prop :=
  ∃ s', Reaches allow s s' ∧ s'.controller = st.1 ∧ s'.pending = s.pending ∧
    (s'.port : ℕ) = n % 4 ∧ s'.pc = .gate ∧
    s'.sent.map Frame.message = s.sent.map Frame.message ++ frames st.2

/-- The loads of a refresh are the refresh. -/
theorem reaches_of_workerRefresh (hpc : s.pc = .gate) (hport : s.port = 0) {rets : Fin 4 → ℤ}
    {st : Controller × List (Fin 4 × SpiEvent)} (h : workerRefresh rets s.controller = .ok st) :
    PortsReached allow s 4 st := by
  have h0 : PortsReached allow s 0 (s.controller, []) :=
    ⟨s, Relation.ReflTransGen.refl, rfl, rfl, by rw [hport]; rfl, hpc, (List.append_nil _).symm⟩
  refine Outcome.foldlM_partial (fun pre => PortsReached allow s pre.length) h0 ?_ h
  rintro pre p post hsplit ⟨c, events⟩ st' ⟨t, hreaches, rfl, hpending, htport, htpc, hsent⟩ hst'
  -- port `p` is the one at its own position in the list of ports
  have hlen : pre.length = p.val := by
    have hp : (List.finRange 4)[pre.length]? = some p := by
      rw [hsplit, List.getElem?_append_right (le_refl _), Nat.sub_self]
      rfl
    obtain ⟨hlt, hget⟩ := List.getElem?_eq_some_iff.mp hp
    rw [← hget, List.getElem_finRange]
    rfl
  have hp : t.port = p := Fin.ext (by rw [htport, hlen, Nat.mod_eq_of_lt p.isLt])
  have hnext : ((t.port + 1 : Fin 4) : ℕ) = (pre ++ [p]).length % 4 := by
    rw [Fin.val_add, htport, List.length_append, List.length_singleton]
    exact Nat.mod_add_mod _ _ _
  rw [refreshPort] at hst'
  split at hst'
  next hlt =>
    rw [Outcome.bind_eq_ok_iff] at hst'
    obtain ⟨⟨c', events'⟩, hworker, hst'⟩ := hst'
    obtain rfl := Outcome.ok.inj hst'
    rw [← hp] at hlt hworker
    obtain ⟨s', hreaches', hc, hpending', hport', hpc', hsent'⟩ :=
      reaches_of_workerPort hload htpc hlt hworker
    refine ⟨s', hreaches.trans hreaches', hc, hpending'.trans hpending, hport' ▸ hnext, hpc', ?_⟩
    rw [hsent', hsent, hp, frames, frames, frames, List.filterMap_append, List.append_assoc]
  next hge =>
    -- the port is not processed
    obtain rfl := Outcome.ok.inj hst'
    rw [← hp] at hge
    have hskip : t.load 0 = .ok { t with port := t.port + 1 } := by
      rw [Threads.load, htpc]
      exact if_neg hge
    exact ⟨_, hreaches.trans (Reaches.load (hload _ 0) hskip), rfl, hpending, hnext, htpc, hsent⟩

end

/-! ### Runs of stores -/

/-- The states reached by any steps. -/
abbrev Interleaved : Threads → Threads → Prop := Reaches fun _ _ => True

/-- The stores of the handler, one after the other. -/
theorem reaches_of_storeAll {allow : Threads → Act → Prop} (hstore : ∀ t, allow t .store)
    {sts : List WordStore} {w : Workers} (s : Threads)
    (h : s.controller.workers.storeAll sts = .ok w) :
    Reaches allow { s with pending := sts }
      { s with controller := { s.controller with workers := w }, pending := [] } := by
  induction sts generalizing s with
  | nil =>
      obtain rfl := Outcome.ok.inj h
      exact Relation.ReflTransGen.refl
  | cons st sts ih =>
      -- the first store is one step, the others are a run from the state after it
      rw [Workers.storeAll_cons, Outcome.bind_eq_ok_iff] at h
      obtain ⟨w₁, hw₁, h⟩ := h
      have hstep : Threads.step { s with pending := st :: sts } .store =
          .ok { s with controller := { s.controller with workers := w₁ }, pending := sts } := by
        rw [Threads.step, Threads.store]
        simp only [hw₁, Outcome.ok_bind, Outcome.pure_eq_ok]
      exact (Relation.ReflTransGen.single ⟨.store, hstore _, hstep⟩).trans
        (ih { s with controller := { s.controller with workers := w₁ } } h)

/-- Receiving a configuration and making its stores is the action of the listener. -/
theorem reaches_of_configPacket {P : ConfigPacket} {s : Threads}
    (hpending : s.pending = []) {params : Params} {net : Network} {c' : Controller}
    (h : s.controller.step params (P.action net) = .ok c') :
    Interleaved s { s with controller := c' } := by
  rw [ConfigPacket.step_action, Outcome.bind_eq_ok_iff] at h
  obtain ⟨w, hw, h⟩ := h
  obtain rfl := Outcome.ok.inj h
  have hreceive : s.step (.receive P) = .ok (s.receive P) := rfl
  rw [Threads.receive, hpending] at hreceive
  have hstores : Interleaved _ _ := reaches_of_storeAll (fun _ => trivial)
    { s with controller :=
      { s.controller with
        zcppEthBuffer := EthBuffer.recvfrom s.controller.zcppEthBuffer (some P.datagram)
        lastConfigSequence := P.sequenceNumber } } hw
  have hreaches := (Relation.ReflTransGen.single ⟨_, trivial, hreceive⟩).trans hstores
  rwa [← hpending] at hreaches

/-! ### Runs of atomic actions -/

/-- The action is one of the two this part is about. -/
def Action.IsConfigOrRefresh (a : Action) : Prop :=
  (∃ (P : ConfigPacket) (net : Network), a = P.action net) ∨ ∃ rets, a = .refresh rets

/-- Every run of configurations and refreshes, each of them atomic, is an interleaved run. -/
theorem reaches_of_run {params : Params} {actions : List Action}
    (hactions : ∀ a ∈ actions, a.IsConfigOrRefresh) {c c' : Controller}
    (h : c.run params actions = .ok c') :
    ∃ s, Interleaved (Threads.init c) s ∧ s.controller = c' ∧ s.Idle := by
  have h0 : ∃ s, Interleaved (Threads.init c) s ∧ s.controller = c ∧ s.Idle :=
    ⟨_, Relation.ReflTransGen.refl, rfl, rfl, rfl, rfl⟩
  refine Outcome.foldlM_invariant
    (I := fun c' => ∃ s, Interleaved (Threads.init c) s ∧ s.controller = c' ∧ s.Idle) ?_ h0 h
  rintro _ a c' ha ⟨s, hreaches, rfl, hpending, hport, hpc⟩ hstep
  rcases hactions a ha with ⟨P, net, rfl⟩ | ⟨rets, rfl⟩
  · exact ⟨_, hreaches.trans (reaches_of_configPacket hpending hstep), rfl, hpending, hport, hpc⟩
  · obtain ⟨st, hrefresh, rfl⟩ := Outcome.map_eq_ok_iff.mp hstep
    have hports : PortsReached (fun _ _ => True) s 4 st :=
      reaches_of_workerRefresh (fun _ _ => trivial) hpc hport hrefresh
    obtain ⟨s', hreaches', hc, hpending', hport', hpc', -⟩ := hports
    exact ⟨s', hreaches.trans hreaches', hc, hpending'.trans hpending, Fin.ext hport', hpc'⟩

end PiPixelController
