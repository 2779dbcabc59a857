import PiPixelController.Interleaving.Tearing
import PiPixelController.System.Order
import PiPixelController.Worker.Runs

/-!
# Whole iterations, byte by byte

The controller of `System.Defs` makes each iteration of a loop in one step. Every such iteration is
a sequence of the steps of `Interleaving.Bytes`, so what holds in all runs byte by byte holds in the
runs of whole iterations.

* `ByteThreads.reaches_step` — an iteration of a loop, byte by byte;
* `exists_reaches_of_run` — a run of the loops, with the frames it sends.
-/

namespace PiPixelController

open CSemantics

namespace ByteThreads

/-- The worker is before the block of port `p`, the listeners are not in a `memcpy`, and the
controller and the frames sent are those of `st`. -/
structure Between (p : Fin 4) (st : Controller × List (Fin 4 × SpiEvent)) (s : ByteThreads) :
    Prop where
  acnStores : s.acnStores = []
  zcppStores : s.zcppStores = []
  port : s.port = p
  pc : s.pc = .gate
  controller : s.controller = st.1
  sent : s.sent.map (·.message) = frames st.2

variable {params : Params} {s s' s'' : ByteThreads}

/-- A step that does not handle a configuration, and more steps. -/
theorem Reaches.head {a : ByteAct} (hstep : s.step params a = .ok s') (ha : s.Unconfigured a)
    (h : Reaches params s' s'') : Reaches params s s'' :=
  Relation.ReflTransGen.head ⟨a, ha, hstep⟩ h

theorem Reaches.trans (h : Reaches params s s') (h' : Reaches params s' s'') :
    Reaches params s s'' :=
  Relation.ReflTransGen.trans h h'

/-! ### A `memcpy` of a listener -/

/-- The ACN listener makes its stores one after the other. -/
theorem reaches_acnStores (sts : List (ℕ × Byte)) (s : ByteThreads) (h : s.acnStores = sts) :
    ∃ past, Reaches params s { s with
      controller := { s.controller with
        pixelBuffer := sts.foldl (fun b st => b.set st.1 st.2) s.controller.pixelBuffer }
      acnStores := []
      past := past } := by
  induction sts generalizing s with
  | nil => exact ⟨s.past, by rw [List.foldl_nil, ← h]; exact .refl⟩
  | cons st sts ih =>
      have hstep : s.step params (.acnStore st) = .ok { s.setPixel st with acnStores := sts } := by
        simp only [step, h, List.mem_cons_self, if_pos, List.erase_cons_head]
      obtain ⟨past, hreaches⟩ := ih { s.setPixel st with acnStores := sts } rfl
      exact ⟨past, hreaches.head hstep trivial⟩

/-- The ZCPP listener makes its stores one after the other. -/
theorem reaches_zcppStores (sts : List (ℕ × Byte)) (s : ByteThreads) (h : s.zcppStores = sts) :
    ∃ past, Reaches params s { s with
      controller := { s.controller with
        pixelBuffer := sts.foldl (fun b st => b.set st.1 st.2) s.controller.pixelBuffer }
      zcppStores := []
      past := past } := by
  induction sts generalizing s with
  | nil => exact ⟨s.past, by rw [List.foldl_nil, ← h]; exact .refl⟩
  | cons st sts ih =>
      have hstep :
          s.step params (.zcppStore st) = .ok { s.setPixel st with zcppStores := sts } := by
        simp only [step, h, List.mem_cons_self, if_pos, List.erase_cons_head]
      obtain ⟨past, hreaches⟩ := ih { s.setPixel st with zcppStores := sts } rfl
      exact ⟨past, hreaches.head hstep trivial⟩

/-- The stores of a completed `memcpy` are the copy. -/
theorem stores_of_memcpy {args : MemcpyArgs} {eth : EthBuffer} {buffer buffer' : PixelBuffer}
    (h : buffer.memcpy args.dst eth args.src (sizeT args.len) = .ok buffer') :
    ∃ sts, args.stores eth = .ok sts ∧
      sts.foldl (fun b st => b.set st.1 st.2) buffer = buffer' := by
  obtain ⟨hfits, rfl⟩ := Block.memcpy_eq_ok_iff.mp h
  exact ⟨_, if_pos hfits, Block.foldl_set_copyStores (List.Perm.refl _) buffer⟩

/-! ### A port of a refresh -/

/-- The worker copies the bytes of a string one after the other. -/
theorem reaches_copy {a : Fin 8} {rest : List (Fin 8)} (todo : List ℕ) (s : ByteThreads)
    (hpc : s.pc = .copy a rest todo) :
    Reaches params s { s.setPayload { s.payload with
        channelData := (todo.map fun j => (s.b.toNat + j, s.controller.pixelBuffer.get
          ((s.cell a).startChannel.toInt.toNat + j))).foldl (fun b st => b.set st.1 st.2)
            s.payload.channelData } with
      pc := .copy a rest [] } := by
  -- in the order of the addresses
  induction todo generalizing s with
  | nil =>
      have hself : { s.setPayload s.payload with pc := BytePc.copy a rest [] } = s := by
        rw [setPayload, payload, Function.update_eq_self, ← hpc]
      exact hself.symm ▸ Relation.ReflTransGen.refl
  | cons j todo ih =>
      have hstep : s.step params (.load j 0) = .ok { s.setPayload { s.payload with
            channelData := s.payload.channelData.set (s.b.toNat + j)
              (s.controller.pixelBuffer.get ((s.cell a).startChannel.toInt.toNat + j)) } with
          pc := .copy a rest todo } := by
        simp only [step, load, hpc, List.mem_cons_self, if_pos, List.erase_cons_head]
      refine Reaches.head hstep trivial ?_
      have hih := ih { s.setPayload { s.payload with
            channelData := s.payload.channelData.set (s.b.toNat + j)
              (s.controller.pixelBuffer.get ((s.cell a).startChannel.toInt.toNat + j)) } with
          pc := .copy a rest todo } rfl
      simpa only [setPayload, payload, cell, Function.update_self, Function.update_idem,
        List.map_cons, List.foldl_cons] using hih

/-- The worker makes a whole `memcpy`. -/
theorem reaches_memcpy {a : Fin 8} {rest : List (Fin 8)} (s : ByteThreads)
    (hpc : s.pc = .copy a rest (List.range (sizeT (s.cell a).channelCount.toInt))) :
    ∃ copied, Reaches params s { s.setPayload { s.payload with
        channelData := s.payload.channelData.copy s.b.toNat s.controller.pixelBuffer
          (s.cell a).startChannel.toInt.toNat (sizeT (s.cell a).channelCount.toInt) } with
      pc := .strings rest
      b := s.b + (s.cell a).channelCount.toInt
      copied := copied } := by
  -- the stores of the bytes, one after the other, are the copy
  rw [← Block.foldl_set_copyStores (List.Perm.refl _) s.payload.channelData]
  exact ⟨_, (reaches_copy _ s hpc).trans (Reaches.head (a := .load 0 0) rfl trivial .refl)⟩

/-- The worker packs a string. -/
theorem reaches_packString {a : Fin 8} {rest : List (Fin 8)} (s : ByteThreads)
    (hpc : s.pc = .strings (a :: rest)) {payload : ControlBuffer} {b : ℤ}
    (h : packString s.controller.workers s.controller.pixelBuffer s.port (s.payload, s.b) a =
      .ok (payload, b)) :
    ∃ copied, Reaches params s
      { s.setPayload payload with pc := .strings rest, b := b, copied := copied } := by
  have hcell : s.controller.workers.mapping (s.port, a) = s.cell a := rfl
  rw [packString, hcell] at h
  simp only at h
  split at h
  next hne =>
    simp only [Outcome.bind_eq_ok_iff, Outcome.pure_eq_ok, Outcome.ok.injEq] at h
    obtain ⟨data, hcopy, heq⟩ := h
    obtain ⟨rfl, rfl⟩ := Prod.mk.inj heq
    obtain ⟨hfits, rfl⟩ := Block.memcpy_eq_ok_iff.mp hcopy
    -- the header count is stored, and the worker is at the first byte
    let counts := Function.update s.payload.channelCount a ((s.cell a).channelCount.setWidth 16)
    let s₁ : ByteThreads := { s.setPayload { s.payload with channelCount := counts } with
      pc := .copy a rest (List.range (sizeT (s.cell a).channelCount.toInt)) }
    have hstep : s.step params (.load 0 0) = .ok s₁ := by
      simp only [step, load, hpc, if_pos hne, if_pos hfits]
      rfl
    obtain ⟨copied, hreaches⟩ := @reaches_memcpy params a rest s₁ rfl
    refine ⟨copied, Reaches.head hstep trivial ?_⟩
    simpa only [s₁, counts, setPayload, ByteThreads.payload, cell, Function.update_self,
      Function.update_idem] using hreaches
  next hzero =>
    simp only [Outcome.pure_eq_ok, Outcome.ok.injEq] at h
    obtain ⟨rfl, rfl⟩ := Prod.mk.inj h
    refine ⟨s.copied ++ [[]], Reaches.head (a := .load 0 0) ?_ trivial .refl⟩
    simp only [step, load, hpc, if_neg hzero]
    rfl

/-- The worker packs the strings that are left. -/
theorem reaches_strings (rest : List (Fin 8)) (s : ByteThreads) (hpc : s.pc = .strings rest)
    {payload : ControlBuffer} {b : ℤ}
    (h : rest.foldlM (packString s.controller.workers s.controller.pixelBuffer s.port)
      (s.payload, s.b) = .ok (payload, b)) :
    ∃ copied, Reaches params s
      { s.setPayload payload with pc := .strings [], b := b, copied := copied } := by
  induction rest generalizing s with
  | nil =>
      rw [List.foldlM_nil, Outcome.pure_eq_ok, Outcome.ok.injEq] at h
      obtain ⟨rfl, rfl⟩ := Prod.mk.inj h
      have hself : { s.setPayload s.payload with pc := BytePc.strings [] } = s := by
        rw [setPayload, ByteThreads.payload, Function.update_eq_self, ← hpc]
      exact ⟨s.copied, hself.symm ▸ Relation.ReflTransGen.refl⟩
  | cons a rest ih =>
      rw [List.foldlM_cons, Outcome.bind_eq_ok_iff] at h
      obtain ⟨⟨payload₁, b₁⟩, hpack, hrest⟩ := h
      obtain ⟨copied₁, hreaches₁⟩ := reaches_packString s hpc hpack
      obtain ⟨copied, hreaches⟩ := ih
        { s.setPayload payload₁ with pc := .strings rest, b := b₁, copied := copied₁ } rfl (by
          rw [show ByteThreads.payload { s.setPayload payload₁ with
            pc := .strings rest, b := b₁, copied := copied₁ } = payload₁ from
              Function.update_self ..]
          exact hrest)
      refine ⟨copied, hreaches₁.trans ?_⟩
      simpa only [setPayload, Function.update_idem] using hreaches

/-- The worker goes through the block of a port, or skips it. -/
theorem Between.refreshPort {p : Fin 4} {rets : Fin 4 → ℤ}
    {st st' : Controller × List (Fin 4 × SpiEvent)} (h : s.Between p st)
    (hport : PiPixelController.refreshPort rets st p = .ok st') :
    ∃ s', Reaches params s s' ∧ s'.Between (p + 1) st' := by
  obtain ⟨c, es⟩ := st
  obtain ⟨hacn, hzcpp, rfl, hpc, rfl, hsent⟩ := h
  rw [PiPixelController.refreshPort] at hport
  split at hport
  next hp =>
    simp only [workerPort, packStrings, Outcome.bind_eq_ok_iff, Outcome.pure_eq_ok,
      Outcome.ok.injEq] at hport
    obtain ⟨⟨c', events⟩, ⟨⟨payload, b⟩, hpack, htransfer⟩, rfl⟩ := hport
    -- from the gate to the strings, to their end and over the transfer
    let s₁ : ByteThreads := { s with
      pc := .strings (List.finRange 8), b := 0, copied := [], past := [s.controller.pixelBuffer] }
    have hgate : s.step params (.load 0 0) = .ok s₁ := by
      simp only [step, load, hpc, if_pos hp]
      rfl
    obtain ⟨copied, hstrings⟩ := @reaches_strings params _ s₁ rfl payload b hpack
    let s₂ : ByteThreads :=
      { s₁.setPayload payload with pc := .strings [], b := b, copied := copied }
    let sent := (frames (events.map (Prod.mk s.port))).map fun f =>
      PixelFrame.mk ⟨f.1, f.2, copied⟩ s₂.past
    have hlast : s₂.step params (.load 0 (rets s.port)) = .ok { s₂ with
        controller := c', port := s.port + 1, pc := .gate, sent := s.sent ++ sent } := by
      change transferPort s.port (rets s.port) b s₂.controller >>= _ = _
      rw [show transferPort s.port (rets s.port) b s₂.controller = .ok (c', events) from htransfer]
      rfl
    refine ⟨_, Reaches.head hgate trivial (hstrings.trans (Reaches.head hlast trivial .refl)),
      ⟨hacn, hzcpp, rfl, rfl, rfl, ?_⟩⟩
    have happend : frames (es ++ events.map (Prod.mk s.port)) =
        frames es ++ frames (events.map (Prod.mk s.port)) := List.filterMap_append
    have hmessages : sent.map (·.message) = frames (events.map (Prod.mk s.port)) := by
      rw [List.map_map]
      exact List.map_id'' (fun _ => rfl) _
    rw [List.map_append, hsent, hmessages, happend]
  next hp =>
    -- the port is skipped in one step
    simp only [Outcome.pure_eq_ok, Outcome.ok.injEq] at hport
    obtain rfl := hport
    have hskip : s.step params (.load 0 0) = .ok { s with pc := .gate, port := s.port + 1 } := by
      simp only [step, load, hpc, if_neg hp]
    exact ⟨_, Reaches.head hskip trivial .refl, ⟨hacn, hzcpp, rfl, rfl, rfl, hsent⟩⟩

/-! ### Iterations of the loops -/

/-- The worker refreshes all ports. -/
theorem Between.refresh {rets : Fin 4 → ℤ} {es : List (Fin 4 × SpiEvent)}
    {st : Controller × List (Fin 4 × SpiEvent)} (h : s.Between 0 (s.controller, es))
    (hrefresh : (List.finRange 4).foldlM (PiPixelController.refreshPort rets) (s.controller, es) =
      .ok st) :
    ∃ s', Reaches params s s' ∧ s'.Between 0 st := by
  rw [Workers.finRange_four] at hrefresh
  simp only [List.foldlM_cons, List.foldlM_nil, Outcome.bind_eq_ok_iff, Outcome.pure_eq_ok,
    Outcome.ok.injEq] at hrefresh
  obtain ⟨st₀, hport₀, st₁, hport₁, st₂, hport₂, st₃, hport₃, rfl⟩ := hrefresh
  obtain ⟨s₀, hreaches₀, h₀⟩ := @Between.refreshPort params _ _ _ _ _ h hport₀
  obtain ⟨s₁, hreaches₁, h₁⟩ := h₀.refreshPort hport₁
  obtain ⟨s₂, hreaches₂, h₂⟩ := h₁.refreshPort hport₂
  obtain ⟨s₃, hreaches₃, h₃⟩ := h₂.refreshPort hport₃
  exact ⟨s₃, hreaches₀.trans (hreaches₁.trans (hreaches₂.trans hreaches₃)), h₃⟩

/-- An iteration of the ACN listener. -/
theorem Between.acnListen {recv : Option Datagram} {p : Fin 4} {es : List (Fin 4 × SpiEvent)}
    {c' : Controller} (h : s.Between p (s.controller, es))
    (hlisten : PiPixelController.acnListen params.acn recv s.controller = .ok c') :
    ∃ s', Reaches params s s' ∧ s'.Between p (c', es) := by
  rw [PiPixelController.acnListen] at hlisten
  have hreceive : s.step params (.acn recv) = s.receiveAcn params recv := rfl
  rw [receiveAcn, h.acnStores] at hreceive
  simp only at hlisten hreceive
  cases hargs : Acn.memcpyArgs params.acn
    (EthBuffer.recvfrom s.controller.acnEthBuffer recv) with
  | none =>
      simp only [hargs, Outcome.ok.injEq] at hlisten hreceive
      obtain rfl := hlisten
      exact ⟨_, Reaches.head hreceive trivial .refl,
        ⟨rfl, h.zcppStores, h.port, h.pc, rfl, h.sent⟩⟩
  | some args =>
      simp only [hargs, Outcome.bind_eq_ok_iff, Outcome.pure_eq_ok, Outcome.ok.injEq] at hlisten
      obtain ⟨buffer, hcopy, rfl⟩ := hlisten
      -- the listener receives, then makes its stores while the others wait
      obtain ⟨sts, hsts, rfl⟩ := stores_of_memcpy hcopy
      simp only [hargs, hsts, Outcome.ok_bind, Outcome.pure_eq_ok] at hreceive
      let s₁ : ByteThreads := { s with
        controller := { s.controller with
          acnEthBuffer := EthBuffer.recvfrom s.controller.acnEthBuffer recv }
        acnStores := sts
        carried := s.carried ++ sts }
      obtain ⟨past, hstores⟩ := @reaches_acnStores params sts s₁ rfl
      exact ⟨_, Reaches.head hreceive trivial hstores,
        ⟨rfl, h.zcppStores, h.port, h.pc, rfl, h.sent⟩⟩

/-- An iteration of the ZCPP listener that does not receive a configuration. -/
theorem Between.zcppMulticastListen {net : Network} {recv : Option Datagram} {p : Fin 4}
    {es : List (Fin 4 × SpiEvent)} {r : Controller × Option (Block 88)}
    (h : s.Between p (s.controller, es)) (hconfig : s.Unconfigured (.zcpp net recv))
    (hlisten : PiPixelController.zcppMulticastListen params.controllerName net recv s.controller =
      .ok r) :
    ∃ s', Reaches params s s' ∧ s'.Between p (r.1, es) := by
  have hreceive : s.step params (.zcpp net recv) = s.receiveZcpp params net recv := rfl
  rw [receiveZcpp, h.zcppStores] at hreceive
  simp only at hreceive
  by_cases hdata :
      Zcpp.received (EthBuffer.recvfrom s.controller.zcppEthBuffer recv) = some .data
  · simp only [PiPixelController.zcppMulticastListen, Zcpp.dispatch, hdata, Zcpp.processData,
      Outcome.bind_eq_ok_iff, Outcome.pure_eq_ok, Outcome.ok.injEq] at hlisten
    obtain ⟨_, ⟨buffer, hcopy, rfl⟩, rfl⟩ := hlisten
    obtain ⟨sts, hsts, rfl⟩ := stores_of_memcpy hcopy
    simp only [if_pos hdata, hsts, Outcome.ok_bind, Outcome.pure_eq_ok] at hreceive
    let s₁ : ByteThreads := { s with
      controller := { s.controller with
        zcppEthBuffer := EthBuffer.recvfrom s.controller.zcppEthBuffer recv }
      zcppStores := sts
      carried := s.carried ++ sts }
    obtain ⟨past, hstores⟩ := @reaches_zcppStores params sts s₁ rfl
    exact ⟨_, Reaches.head hreceive hconfig hstores,
      ⟨h.acnStores, rfl, h.port, h.pc, rfl, h.sent⟩⟩
  · -- every other packet is handled in one step
    rw [if_neg hdata, hlisten] at hreceive
    exact ⟨_, Reaches.head hreceive hconfig .refl,
      ⟨h.acnStores, rfl, h.port, h.pc, rfl, h.sent⟩⟩

/-- An iteration of a loop that does not handle a configuration. -/
theorem reaches_step {o o' : Outputs} {a : Action} (h : s.Between 0 (o.controller, o.events))
    (hconfig : ∀ net recv, a = .zcpp net recv → s.Unconfigured (.zcpp net recv))
    (hstep : o.step params a = .ok o') :
    ∃ s', Reaches params s s' ∧ s'.Between 0 (o'.controller, o'.events) := by
  have hcontroller : s.controller = o.controller := h.controller
  rw [← hcontroller] at h
  cases a with
  | acn recv =>
      rw [Outputs.step, Outcome.map_eq_ok_iff, ← hcontroller] at hstep
      obtain ⟨c', hlisten, rfl⟩ := hstep
      exact h.acnListen hlisten
  | zcpp net recv =>
      rw [Outputs.step, Outcome.map_eq_ok_iff, ← hcontroller] at hstep
      obtain ⟨r, hlisten, rfl⟩ := hstep
      exact h.zcppMulticastListen (hconfig net recv rfl) hlisten
  | refresh rets =>
      rw [Outputs.step, Outcome.map_eq_ok_iff, ← hcontroller] at hstep
      obtain ⟨⟨c', es⟩, hrefresh, rfl⟩ := hstep
      -- the refresh puts its events behind the earlier ones
      have hfold := foldlM_refreshPort_append rets (List.finRange 4) s.controller o.events []
      rw [List.append_nil, show (List.finRange 4).foldlM (refreshPort rets) (s.controller, []) =
        .ok (c', es) from hrefresh, Outcome.map_ok] at hfold
      exact h.refresh hfold

theorem between_init (c : Controller) : (init c).Between 0 (c, []) :=
  ⟨rfl, rfl, rfl, rfl, rfl, rfl⟩

end ByteThreads

/-- For every initial state and every run of the three loops without a configuration there is a run
byte by byte that leaves the same controller with all threads between two iterations, and sends
the same frames. -/
theorem exists_reaches_of_run {params : Params} {c : Controller} {actions : List Action}
    {o : Outputs} (hrun : (Outputs.mk c [] []).run params actions = .ok o)
    (hconfig : ∀ pre net recv post, actions = pre ++ .zcpp net recv :: post →
      ∀ c', c.run params pre = .ok c' →
        Zcpp.received (EthBuffer.recvfrom c'.zcppEthBuffer recv) ≠ some .config) :
    ∃ s, ByteThreads.Reaches params (ByteThreads.init c) s ∧
      s.Between 0 (o.controller, o.events) := by
  -- with the run so far, since the hypothesis is about the state it leaves
  suffices h : (Outputs.mk c [] []).run params actions = .ok o ∧
      ∃ s, ByteThreads.Reaches params (ByteThreads.init c) s ∧
        s.Between 0 (o.controller, o.events) from h.2
  refine Outcome.foldlM_partial (fun pre o => (Outputs.mk c [] []).run params pre = .ok o ∧
    ∃ s, ByteThreads.Reaches params (ByteThreads.init c) s ∧
      s.Between 0 (o.controller, o.events))
    ⟨rfl, _, .refl, ByteThreads.between_init c⟩ ?_ hrun
  rintro pre a post hsplit o o' ⟨hpre, s, hreaches, hbetween⟩ hstep
  refine ⟨?_, ?_⟩
  · rw [Outputs.run, List.foldlM_append] at *
    rw [hpre, Outcome.ok_bind]
    simp only [List.foldlM_cons, List.foldlM_nil, hstep]
    rfl
  · have hcontroller : c.run params pre = .ok o.controller := by
      rw [← Outputs.controller_run ⟨c, [], []⟩, hpre, Outcome.map_ok]
    obtain ⟨s', hreaches', hbetween'⟩ := ByteThreads.reaches_step hbetween (by
      rintro net recv rfl
      rw [ByteThreads.Unconfigured, hbetween.controller]
      exact hconfig pre net recv post hsplit _ hcontroller) hstep
    exact ⟨s', hreaches.trans hreaches', hbetween'⟩

/-- `exists_reaches_of_run` for a data packet and a refresh. -/
theorem exists_reaches_of_run_sample :
    ∃ s, ByteThreads.Reaches default (ByteThreads.init (tornController (0, 0))) s ∧
      s.sent.map (fun f => f.bytes.drop 16) = [[7, 9]] := by
  let actions : List Action := [.zcpp default (some tornData), .refresh fun _ => 0]
  have hok : (fun o => (frames o.events).map fun f => f.2.drop 16) <$>
      (Outputs.mk (tornController (0, 0)) [] []).run default actions = .ok [[7, 9]] := by
    decide +kernel
  obtain ⟨o, hrun, hbytes⟩ := Outcome.map_eq_ok_iff.mp hok
  obtain ⟨s, hreaches, hbetween⟩ := exists_reaches_of_run hrun (by
    intro pre net recv post hsplit c' hc'
    cases pre with
    | nil =>
        obtain ⟨⟨⟩, -⟩ := List.cons.inj hsplit
        obtain rfl := Outcome.ok.inj hc'
        decide
    | cons a pre =>
        obtain ⟨-, htail⟩ := List.cons.inj hsplit
        cases pre with
        | nil => cases (List.cons.inj htail).1
        | cons a pre => exact absurd (List.cons.inj htail).2 (by simp))
  refine ⟨s, hreaches, ?_⟩
  rw [← hbytes, ← hbetween.sent, List.map_map]
  rfl

end PiPixelController
