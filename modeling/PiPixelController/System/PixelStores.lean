import PiPixelController.System.Pointers

/-!
# Stores into the pixel buffer

Both listeners store into the pixel buffer with one `memcpy` whose destination and length come
from the packet. The only check either makes on them is that the universe is in the configured
range; the property count, the universe's place in the buffer, `frameAddress` and
`packetDataLength` are used as received.

* `storeSafe_iff` — an iteration is defined and stores inside the buffer, or nothing, exactly when
  what the receive buffer asks for lies in its objects;
* `stores_inside_iff` — the same for every iteration of a run.
-/

namespace PiPixelController

open CSemantics

/-- A length that is not negative, and a destination inside the pixel buffer if there is
anything to store. -/
def MemcpyArgs.Inside (args : MemcpyArgs) : Prop :=
  0 ≤ args.len ∧ (args.len = 0 ∨ (0 ≤ args.dst ∧ args.dst + args.len ≤ 24576))

/-- The store into the pixel buffer an iteration is asked for, with the receive buffer it reads. -/
def pixelStore (params : Params) (c : Controller) : Action → Option (MemcpyArgs × EthBuffer)
  | .acn recv =>
      let eth := EthBuffer.recvfrom c.acnEthBuffer recv
      (Acn.memcpyArgs params.acn eth).map fun args => (args, eth)
  | .zcpp _ recv =>
      let eth := EthBuffer.recvfrom c.zcppEthBuffer recv
      if Zcpp.received eth = some .data then some (Zcpp.dataArgs eth, eth) else none
  | .refresh _ => none

/-- The iteration has no undefined behaviour, and if it completes, the pixel buffer is what it was,
or what it was with the store the iteration is asked for, which lies inside. -/
structure StoreSafe (addresses : Addresses) (params : Params) (c : Controller) (a : Action) :
    Prop where
  defined : c.stepIn addresses params a ≠ .undefined
  stored : ∀ c', c.stepIn addresses params a = .ok c' → c'.pixelBuffer = c.pixelBuffer ∨
    ∃ args eth, pixelStore params c a = some (args, eth) ∧ args.Inside ∧
      c'.pixelBuffer = c.pixelBuffer.copy args.dst.toNat eth args.src.toNat args.len.toNat

/-- What the iteration is asked to access lies in its objects: the slots of an ACN packet, what
handling a ZCPP packet accesses, and the device records and strings of the enabled ports. -/
def AccessInside (addresses : Addresses) (params : Params) (c : Controller) : Action → Prop
  | .acn recv => Acn.CopyInside params.acn (EthBuffer.recvfrom c.acnEthBuffer recv)
  | .zcpp net recv =>
      Zcpp.HandlingInside params.controllerName net (EthBuffer.recvfrom c.zcppEthBuffer recv)
  | .refresh _ => c.workers.PointsToDevices addresses ∧
      Packable c.workers.pixelPorts c.workers.mapping

section

variable {addresses : Addresses} {params : Params} {c c' : Controller} {a : Action}

/-! ### What is stored -/

/-- A copy into the pixel buffer that is defined is inside, and is made as asked. -/
theorem inside_of_memcpy {args : MemcpyArgs} (hge : -1 ≤ args.len) (hlt : args.len < 2 ^ 32)
    {buffer buffer' : PixelBuffer} {eth : EthBuffer}
    (h : buffer.memcpy args.dst eth args.src (sizeT args.len) = .ok buffer') :
    args.Inside ∧ buffer' = buffer.copy args.dst.toNat eth args.src.toNat args.len.toNat := by
  obtain ⟨hfit, rfl⟩ := Block.memcpy_eq_ok_iff.mp h
  have hnonneg : 0 ≤ args.len := by
    -- as a `size_t` a negative length exceeds every buffer
    by_contra hneg
    have := le_sizeT_of_neg (not_le.mp hneg) (by omega)
    rw [Block.CopyFits] at hfit
    omega
  rw [sizeT_of_nonneg hnonneg (by omega)] at hfit ⊢
  refine ⟨⟨hnonneg, ?_⟩, rfl⟩
  rw [Block.CopyFits] at hfit
  omega

/-- The lengths both listeners ask for lie between -1 and 65535. -/
theorem pixelStore_len {args : MemcpyArgs} {eth : EthBuffer}
    (h : pixelStore params c a = some (args, eth)) : -1 ≤ args.len ∧ args.len < 2 ^ 32 := by
  cases a with
  | acn recv =>
      simp only [pixelStore, Option.map_eq_some_iff, Prod.mk.injEq] at h
      obtain ⟨_, h, rfl, -⟩ := h
      rw [Acn.memcpyArgs] at h
      split at h
      · split at h
        · cases h
          simp only [Acn.getPropertyCount, Acn.propertyCount]
          omega
        · cases h
      · cases h
  | zcpp net recv =>
      simp only [pixelStore] at h
      split at h
      · cases h
        simp only [Zcpp.dataArgs]
        omega
      · cases h
  | refresh rets => cases h

/-- An iteration that completes changes the pixel buffer by the store it is asked for, if any. -/
theorem pixelBuffer_of_stepIn (h : c.stepIn addresses params a = .ok c') :
    (pixelStore params c a = none ∧ c'.pixelBuffer = c.pixelBuffer) ∨
      ∃ args eth, pixelStore params c a = some (args, eth) ∧
        c.pixelBuffer.memcpy args.dst eth args.src (sizeT args.len) = .ok c'.pixelBuffer := by
  cases a with
  | acn recv =>
      change acnListen params.acn recv c = _ at h
      rw [Acn.acnListen_eq_effect, Outcome.map_eq_ok_iff] at h
      obtain ⟨buffer, heffect, rfl⟩ := h
      simp only [Acn.effect] at heffect
      simp only [pixelStore]
      cases hargs : Acn.memcpyArgs params.acn (EthBuffer.recvfrom c.acnEthBuffer recv) with
      | none =>
          rw [hargs] at heffect
          exact Or.inl ⟨rfl, (Outcome.ok.inj heffect).symm⟩
      | some args =>
          rw [hargs] at heffect
          exact Or.inr ⟨args, _, rfl, heffect⟩
  | zcpp net recv =>
      -- the buffer is what is observed of it
      change c.step params (.zcpp net recv) = _ at h
      have hobs := @Zcpp.observed_step net c params recv
      rw [h, Outcome.map_ok] at hobs
      simp only [pixelStore]
      by_cases hdata : Zcpp.received (EthBuffer.recvfrom c.zcppEthBuffer recv) = some .data
      · rw [Zcpp.effect_of_data hdata] at hobs
        obtain ⟨buffer, hcopy, hsame⟩ := Outcome.map_eq_ok_iff.mp hobs.symm
        obtain rfl : buffer = c'.pixelBuffer := congrArg Prod.fst hsame
        rw [Zcpp.dataEffect_eq_memcpy] at hcopy
        exact Or.inr ⟨_, _, if_pos hdata, hcopy⟩
      · refine Or.inl ⟨if_neg hdata, ?_⟩
        by_cases hconfig : Zcpp.received (EthBuffer.recvfrom c.zcppEthBuffer recv) = some .config
        · rw [Zcpp.effect_of_config hconfig] at hobs
          obtain ⟨w, -, hsame⟩ := Outcome.map_eq_ok_iff.mp hobs.symm
          exact (congrArg Prod.fst hsame).symm
        · exact congrArg Prod.fst (Zcpp.effect_eq_observed hconfig hdata hobs.symm)
  | refresh rets =>
      rw [Controller.stepIn] at h
      split at h
      · obtain ⟨⟨c₁, events⟩, hrefresh, rfl⟩ := Outcome.map_eq_ok_iff.mp h
        obtain ⟨c₂, events', hrefresh', hsame, -⟩ :=
          workerRefresh_of_packable (packable_of_workerRefresh hrefresh) rets
        obtain ⟨rfl, -⟩ := Prod.mk.inj (Outcome.ok.inj (hrefresh.symm.trans hrefresh'))
        exact Or.inl ⟨rfl, hsame.pixelBuffer⟩
      · cases h

/-- A defined iteration stores inside: nothing is ever dropped. -/
theorem storeSafe_iff_defined :
    StoreSafe addresses params c a ↔ c.stepIn addresses params a ≠ .undefined := by
  refine ⟨fun h => h.defined, fun h => ⟨h, fun c' hc' => ?_⟩⟩
  rcases pixelBuffer_of_stepIn hc' with ⟨-, hsame⟩ | ⟨args, eth, hargs, hcopy⟩
  · exact Or.inl hsame
  · obtain ⟨hge, hlt⟩ := pixelStore_len hargs
    obtain ⟨hinside, hbuffer⟩ := inside_of_memcpy hge hlt hcopy
    exact Or.inr ⟨args, eth, hargs, hinside, hbuffer⟩

/-! ### When an iteration is defined -/

theorem stepIn_ne_undefined_iff :
    c.stepIn addresses params a ≠ .undefined ↔ AccessInside addresses params c a := by
  -- what is observed of an outcome is undefined when the outcome is
  have hobserved : ∀ x : Outcome Controller,
      x ≠ .undefined ↔ Controller.observed <$> x ≠ .undefined :=
    fun x => not_congr Outcome.map_eq_undefined_iff.symm
  cases a with
  | acn recv =>
      rw [hobserved, Controller.stepIn, Acn.observed_step, Ne, Outcome.map_eq_undefined_iff]
      exact Acn.effect_ne_undefined_iff
  | zcpp net recv =>
      rw [hobserved, Controller.stepIn, Zcpp.observed_step]
      exact Zcpp.effect_ne_undefined_iff
  | refresh rets =>
      rw [Controller.stepIn, AccessInside, Controller.step]
      split
      next hpointers =>
        rw [and_iff_right hpointers, Ne, Outcome.map_eq_undefined_iff]
        exact workerRefresh_ne_undefined_iff
      next hpointers => exact iff_of_false (by simp) fun h => hpointers h.1

theorem storeSafe_iff :
    StoreSafe addresses params c a ↔ AccessInside addresses params c a :=
  storeSafe_iff_defined.trans stepIn_ne_undefined_iff

/-- A run whose iterations are safe has no undefined behaviour. -/
theorem runIn_ne_undefined {actions : List Action}
    (h : ∀ pre a post, actions = pre ++ a :: post → ∀ c',
      c.runIn addresses params pre = .ok c' → StoreSafe addresses params c' a) :
    c.runIn addresses params actions ≠ .undefined := by
  intro hundef
  obtain ⟨pre, a, post, c', hactions, hpre, hstep⟩ := Outcome.foldlM_eq_undefined_iff.mp hundef
  exact (h pre a post hactions c' hpre).defined hstep

/-- For every universe range the file can supply, every initial state and every sequence of
iterations of the three loops: the run has no undefined behaviour and every iteration reached stores
inside the pixel buffer or leaves it as it was, if and only if in every iteration reached what the
receive buffer asks for lies in its objects. -/
theorem stores_inside_iff (universeStart universeCount : BitVec 32) (controllerName : Block 48)
    (addresses : Addresses) (c : Controller) (actions : List Action) :
    (c.runIn addresses ⟨listenParam universeStart universeCount, controllerName⟩ actions ≠
        .undefined ∧
      ∀ pre a post, actions = pre ++ a :: post → ∀ c',
        c.runIn addresses ⟨listenParam universeStart universeCount, controllerName⟩ pre = .ok c' →
          StoreSafe addresses ⟨listenParam universeStart universeCount, controllerName⟩ c' a) ↔
    ∀ pre a post, actions = pre ++ a :: post → ∀ c',
      c.runIn addresses ⟨listenParam universeStart universeCount, controllerName⟩ pre = .ok c' →
        AccessInside addresses ⟨listenParam universeStart universeCount, controllerName⟩ c' a := by
  simp only [← storeSafe_iff]
  exact ⟨fun h => h.2, fun h => ⟨runIn_ne_undefined h, h⟩⟩

end

/-- A data packet with one byte for the address behind the last byte of the pixel buffer is not
dropped. -/
theorem not_storeSafe_sample :
    ¬∀ (universeStart universeCount : BitVec 32) (c : Controller), c.StartsFrom default →
      ∀ actions pre a post, actions = pre ++ a :: post → ∀ c',
        c.run ⟨listenParam universeStart universeCount, fun _ => 0⟩ pre = .ok c' →
        ∀ args eth,
          pixelStore ⟨listenParam universeStart universeCount, fun _ => 0⟩ c' a = some (args, eth) →
          args.Inside ∨ ∃ c'',
            c'.step ⟨listenParam universeStart universeCount, fun _ => 0⟩ a = .ok c'' ∧
              c''.pixelBuffer = c'.pixelBuffer := by
  intro h
  obtain ⟨c, hc, -⟩ := @exists_startsFrom default Workers.zero rfl
  let d : Datagram :=
    ⟨[0x5A, 0x43, 0x50, 0x50, 0x14, 0, 0, 0, 0, 0, 0x60, 0, 0, 1, 0, 7], by decide⟩
  have hget : ∀ i < 16, (EthBuffer.recvfrom c.zcppEthBuffer (some d)).get i = d.eth.get i :=
    fun i hi => d.get_recvfrom c.zcppEthBuffer hi
  have hreceived : Zcpp.received (EthBuffer.recvfrom c.zcppEthBuffer (some d)) = some .data := by
    rw [@Zcpp.received_congr _ d.eth fun i hi => hget i (by omega)]
    decide
  have hargs : Zcpp.dataArgs (EthBuffer.recvfrom c.zcppEthBuffer (some d)) = ⟨24576, 15, 1⟩ := by
    rw [@Zcpp.dataArgs_congr _ d.eth fun i hi _ => hget i (by omega)]
    decide
  have hstore : pixelStore ⟨listenParam 200 48, fun _ => 0⟩ c (.zcpp default (some d)) =
      some (⟨24576, 15, 1⟩, EthBuffer.recvfrom c.zcppEthBuffer (some d)) := by
    rw [pixelStore, if_pos hreceived, hargs]
  have hout : ¬MemcpyArgs.Inside ⟨24576, 15, 1⟩ := by simp [MemcpyArgs.Inside]
  obtain ⟨c', hstep, -⟩ := (h 200 48 c hc [.zcpp default (some d)] [] _ [] rfl c rfl _ _
    hstore).resolve_left hout
  have hstepIn : c.stepIn default ⟨listenParam 200 48, fun _ => 0⟩ (.zcpp default (some d)) =
      .ok c' := hstep
  -- a step that completed would have made the store, inside
  rcases pixelBuffer_of_stepIn hstepIn with ⟨hnone, -⟩ | ⟨args, eth, hsome, hcopy⟩
  · rw [hstore] at hnone
    cases hnone
  · rw [hstore] at hsome
    cases hsome
    exact hout (inside_of_memcpy (by decide) (by decide) hcopy).1

end PiPixelController
