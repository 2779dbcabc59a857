import PiPixelController.Residue.Listeners
import PiPixelController.System.Pointers

/-!
# Failing system calls

The loops of the listeners and the worker with every outcome of their system calls. A failed
`recvfrom` is not noticed: the listener handles what its receive buffer holds. A failed `connect`
ends the process.

* `tolerates_iff` — what an iteration must find for it to complete, to change what is observed only
  on a received datagram and as the datagram dictates, and to change nothing if a call fails;
* `failures_tolerated_iff` — every iteration of a run is such exactly when every iteration reached
  finds that.
-/

namespace PiPixelController

open CSemantics WriteLog

/-! ### Iterations and their system calls -/

/-- What the calls of `zcpp_send_discovery_response` return. -/
structure SocketCalls where
  /-- What `socket` returns: a descriptor, or a negative number. -/
  socket : ℤ
  /-- What `connect` returns, negative on failure. -/
  connect : ℤ
  /-- What `getsockname` returns, negative on failure. -/
  getsockname : ℤ
  /-- `name.sin_addr.s_addr` after `getsockname`, whatever the stack held if it failed. -/
  localAddr : BitVec 32
  /-- What `sendto` returns, negative on failure. -/
  sendto : ℤ
  /-- There is nothing to connect without a descriptor. -/
  connect_of_socket : socket < 0 → connect < 0

namespace SocketCalls

/-- Some call fails. -/
def Fails (calls : SocketCalls) : Prop :=
  calls.socket < 0 ∨ calls.connect < 0 ∨ calls.getsockname < 0 ∨ calls.sendto < 0

/-- What the response depends on: only `connect` is checked. -/
def network (calls : SocketCalls) : Network := ⟨decide (0 ≤ calls.connect), calls.localAddr⟩

end SocketCalls

/-- What a `recvfrom` of a listener does. -/
inductive Receive where
  /-- It returns a datagram. -/
  | datagram (d : Datagram)
  /-- It fails, before or after it has copied a datagram to the receive buffer. After, when `len`,
  which `zcpp_multicast_listen` does not initialise, is negative: the address of the sender is
  stored last. -/
  | failure (copied : Option Datagram)

namespace Receive

/-- The datagram it copies to the receive buffer. -/
def copied : Receive → Option Datagram
  | datagram d => some d
  | failure copied => copied

/-- The datagram it returns. -/
def returned : Receive → Option Datagram
  | datagram d => some d
  | failure _ => none

end Receive

/-- One iteration of one of the three loops. -/
inductive Iteration where
  /-- `acn_listen`, with what its `recvfrom` does. -/
  | acn (recv : Receive)
  /-- `zcpp_multicast_listen`. -/
  | zcpp (calls : SocketCalls) (recv : Receive)
  /-- The worker, with what the `ioctl` of each port returns. -/
  | refresh (rets : Fin 4 → ℤ)

namespace Iteration

def action : Iteration → Action
  | acn recv => .acn recv.copied
  | zcpp calls recv => .zcpp calls.network recv.copied
  | refresh rets => .refresh rets

/-- The datagram the `recvfrom` of the iteration returned. -/
def received : Iteration → Option Datagram
  | acn recv | zcpp _ recv => recv.returned
  | refresh _ => none

/-- A system call of the iteration fails. -/
def Fails (c : Controller) : Iteration → Prop
  | acn recv => recv.returned = none
  | zcpp calls recv => recv.returned = none ∨
      Zcpp.received (EthBuffer.recvfrom c.zcppEthBuffer recv.copied) = some .discovery ∧ calls.Fails
  | refresh rets => ∃ p : Fin 4, (p : ℤ) < c.workers.pixelPorts.toInt ∧ rets p < 0

/-- The state with something else in the receive buffer of the iteration. -/
def withResidue (c : Controller) (eth : EthBuffer) : Iteration → Controller
  | acn _ => { c with acnEthBuffer := eth }
  | zcpp _ _ => { c with zcppEthBuffer := eth }
  | refresh _ => c

end Iteration

/-- The iteration completes; without a datagram, or if a call fails, it leaves the pixel buffer,
the mapping and the sequence number of the last configuration as they were; with a datagram it
leaves the same whatever the receive buffer held before. -/
structure Tolerates (addresses : Addresses) (params : Params) (c : Controller) (it : Iteration) :
    Prop where
  completes : ∃ c', c.stepIn addresses params it.action = .ok c'
  unchanged : it.received = none ∨ it.Fails c → ∀ c',
    c.stepIn addresses params it.action = .ok c' → c'.observed = c.observed
  dictated : it.received ≠ none → ∀ c', c.stepIn addresses params it.action = .ok c' → ∀ eth,
    Controller.observed <$> (it.withResidue c eth).stepIn addresses params it.action =
      .ok c'.observed

/-! ### What an iteration must find -/

namespace Acn

/-- The slots of an accepted packet are in the pixel buffer already. -/
def SlotsStored (params : AcnParam) (eth : EthBuffer) (buffer : PixelBuffer) : Prop :=
  IdentifierMatches eth → InUniverseRange params (getUniverse eth) →
    ∀ j < sizeT (getPropertyCount eth),
      buffer.get ((bufferOffset params (getUniverse eth)).toInt.toNat + j) = eth.get (126 + j)

end Acn

namespace Zcpp

/-- The assignments of the entries of a configuration. -/
def entryStores (eth : EthBuffer) : List WordStore :=
  (List.range (ports eth)).flatMap fun a => (portConfig eth a).stores

/-- Handling the packet completes: what it accesses is inside, and a discovery can connect. -/
def HandledInside (controllerName : Block 48) (calls : SocketCalls) (eth : EthBuffer) : Prop :=
  HandlingInside controllerName calls.network eth ∧
    (received eth = some .discovery → 0 ≤ calls.connect)

/-- What the packet stores is there already. -/
def ContentsStored (eth : EthBuffer) (c : Controller) : Prop :=
  match received eth with
  | some .config => c.lastConfigSequence = (sequenceNumber eth).setWidth 32 ∧
      ∀ i : Fin 760, TableWord i → ∀ v,
        latest ((entryStores eth).map WordStore.patch) i = some v → c.workers i = v
  | some .data => ∀ j < (packetDataLength eth).toNat,
      c.pixelBuffer.get ((frameAddress eth).toNat + j) = eth.get (15 + j)
  | _ => True

end Zcpp

/-- What an iteration must find. With a failed `recvfrom`: what the receive buffer holds after it
can be handled and is stored already. With a datagram: its bytes determine what happens, and a
discovery can connect. For the worker: the strings of the enabled ports fit, and their pointers are
those of device records. -/
def Harmless (addresses : Addresses) (params : Params) (c : Controller) : Iteration → Prop
  | .acn (.failure copied) =>
      let eth := EthBuffer.recvfrom c.acnEthBuffer copied
      Acn.CopyInside params.acn eth ∧ Acn.SlotsStored params.acn eth c.pixelBuffer
  | .acn (.datagram d) => Acn.Determined params.acn d
  | .zcpp calls (.failure copied) =>
      let eth := EthBuffer.recvfrom c.zcppEthBuffer copied
      Zcpp.HandledInside params.controllerName calls eth ∧ Zcpp.ContentsStored eth c
  | .zcpp calls (.datagram d) =>
      Zcpp.Determined params.controllerName calls.network d ∧
        (Zcpp.received d.eth = some .discovery → 0 ≤ calls.connect)
  | .refresh _ => c.workers.PointsToDevices addresses ∧
      Packable c.workers.pixelPorts c.workers.mapping

/-! ### What a packet does -/

namespace Acn

variable {params : AcnParam} {eth : EthBuffer} {buffer : PixelBuffer}

theorem effect_eq_self_iff : effect params eth buffer = .ok buffer ↔
    CopyInside params eth ∧ SlotsStored params eth buffer := by
  rw [← @effect_ne_undefined_iff params eth buffer]
  by_cases h : IdentifierMatches eth ∧ InUniverseRange params (getUniverse eth)
  · rw [effect_of_accepted h.1 h.2, SlotsStored, Block.memcpy_ne_undefined_iff,
      Block.memcpy_eq_self_iff]
    simp only [h.1, h.2, forall_const]
    rfl
  · rw [effect_of_not_accepted (not_and_or.mp h)]
    exact iff_of_true rfl ⟨by simp, fun hid huniv => absurd ⟨hid, huniv⟩ h⟩

end Acn

namespace Zcpp

variable {controllerName : Block 48} {calls : SocketCalls} {eth : EthBuffer} {c : Controller}
  {w : Workers} {last : BitVec 32}

/-! #### The entries of a configuration -/

/-- Entries in the receive buffer make their assignments in order. -/
theorem foldlM_processEntry_eq (h : ∀ a < ports eth, ¬EntryOutside eth a) (w : Workers) :
    (List.range (ports eth)).foldlM (processEntry eth) w = w.storeAll (entryStores eth) := by
  rw [entryStores, Workers.storeAll_flatMap]
  refine Outcome.foldlM_congr (fun w a ha => ?_) w
  have hlt := lt_of_not_entryOutside (h a (List.mem_range.mp ha))
  rw [processEntry, readPortConfig, if_pos (by omega), Outcome.ok_bind]
  rfl

/-- With the last sequence number the mapping stays exactly when it holds the entries. -/
theorem mapping_configEffect_iff (hlast : last = (sequenceNumber eth).setWidth 32) :
    Workers.mapping <$> configEffect eth last w = .ok w.mapping ↔
      (∀ a < ports eth, ¬EntryOutside eth a) ∧ ∀ i : Fin 760, TableWord i → ∀ v,
        latest ((entryStores eth).map WordStore.patch) i = some v → w i = v := by
  rw [Outcome.map_eq_ok_iff]
  have hclear : configEffect eth last w =
      (List.range (ports eth)).foldlM (processEntry eth) w := by
    rw [configEffect, clearMappings, if_neg (not_not.mpr hlast)]
    rfl
  constructor
  · rintro ⟨w', hw', hmap⟩
    have hinside := exists_configEffect_iff.mp ⟨w', hw'⟩
    rw [hclear, foldlM_processEntry_eq hinside] at hw'
    refine ⟨hinside, fun i hi v hv => ?_⟩
    have hword := Workers.storeAll_apply hw' i
    rw [hv, Option.getD_some] at hword
    rw [← hword, Workers.mapping_eq_iff.mp hmap i hi]
  · rintro ⟨hinside, hstored⟩
    obtain ⟨w', hw'⟩ := exists_foldlM_processEntry hinside w
    refine ⟨w', hclear.trans hw', Workers.mapping_eq_iff.mpr fun i hi => ?_⟩
    rw [foldlM_processEntry_eq hinside] at hw'
    rw [Workers.storeAll_apply hw' i]
    cases hv : latest ((entryStores eth).map WordStore.patch) i with
    | none => rfl
    | some v => exact (hstored i hi v hv).symm

/-! #### One packet -/

/-- The process is not ended exactly when a discovery can connect. -/
theorem effect_ne_exit_iff : effect controllerName calls.network eth c ≠ .exit ↔
    (received eth = some .discovery → 0 ≤ calls.connect) := by
  rw [effect, Ne, Outcome.map_eq_exit_iff, dispatch_eq_exit_iff, not_and, SocketCalls.network]
  simp

/-- Handling the packet completes exactly when it is inside. -/
theorem exists_effect_iff : (∃ obs, effect controllerName calls.network eth c = .ok obs) ↔
    HandledInside controllerName calls eth := by
  rw [HandledInside, ← effect_ne_undefined_iff (c := c), ← effect_ne_exit_iff (c := c)]
  cases effect controllerName calls.network eth c <;> simp

/-- Handling the packet changes nothing exactly when, besides, what it stores is there already. -/
theorem effect_eq_observed_iff : effect controllerName calls.network eth c = .ok c.observed ↔
    HandledInside controllerName calls eth ∧ ContentsStored eth c := by
  rw [← exists_effect_iff (c := c), ContentsStored]
  split
  next h =>
    rw [effect_of_config h, Outcome.exists_map_eq_ok_iff, exists_configEffect_iff,
      Outcome.map_eq_ok_iff]
    constructor
    · rintro ⟨w', hw', hobs⟩
      have hmap : w'.mapping = c.workers.mapping := congrArg (fun obs => obs.2.1) hobs
      have hlast : c.lastConfigSequence = (sequenceNumber eth).setWidth 32 :=
        (congrArg (fun obs => obs.2.2) hobs).symm
      obtain ⟨hinside, hstored⟩ := (mapping_configEffect_iff hlast).mp
        (Outcome.map_eq_ok_iff.mpr ⟨w', hw', hmap⟩)
      exact ⟨hinside, hlast, hstored⟩
    · rintro ⟨hinside, hlast, hstored⟩
      obtain ⟨w', hw', hmap⟩ := Outcome.map_eq_ok_iff.mp
        ((mapping_configEffect_iff hlast).mpr ⟨hinside, hstored⟩)
      exact ⟨w', hw', by rw [hmap, ← hlast]; rfl⟩
  next h =>
    rw [effect_of_data h, Outcome.exists_map_eq_ok_iff, exists_dataEffect_iff,
      Outcome.map_eq_ok_iff]
    constructor
    · rintro ⟨buffer, hbuffer, hobs⟩
      obtain rfl : buffer = c.pixelBuffer := congrArg Prod.fst hobs
      exact Block.memcpy_eq_self_iff.mp hbuffer
    · exact fun hstored => ⟨c.pixelBuffer, Block.memcpy_eq_self_iff.mpr hstored, rfl⟩
  next hconfig hdata =>
    rw [and_true]
    refine ⟨fun h => ⟨_, h⟩, fun ⟨obs, h⟩ => ?_⟩
    rw [h, effect_eq_observed hconfig hdata h]

end Zcpp

/-! ### One iteration -/

/-- One completed result for all residues: the datagram decides what happens, and that is not the
end of the process. -/
theorem exists_forall_residue_iff {α : Type} (d : Datagram) (effect : EthBuffer → Outcome α) :
    (∃ obs, ∀ eth, effect (EthBuffer.recvfrom eth (some d)) = .ok obs) ↔
      d.Decides effect ∧ effect d.eth ≠ .exit := by
  constructor
  · rintro ⟨obs, hall⟩
    have hcarried : ∀ eth, d.CarriedBy eth → effect eth = .ok obs := by
      intro eth heth
      rw [← heth.recvfrom_eq]
      exact hall eth
    exact ⟨⟨.ok obs, by simp, hcarried⟩, by simp [hcarried d.eth d.carriedBy_eth]⟩
  · rintro ⟨⟨r, hne, hr⟩, hexit⟩
    rw [hr d.eth d.carriedBy_eth] at hexit
    cases r with
    | ok obs => exact ⟨obs, fun eth => hr _ (d.carriedBy_recvfrom eth)⟩
    | exit => exact absurd rfl hexit
    | undefined => exact absurd rfl hne

section

variable {addresses : Addresses} {params : Params} {c : Controller} {it : Iteration}

/-- Without a datagram, that everything observed stays as it was is all that is asked. -/
theorem tolerates_iff_of_unreceived (h : it.received = none) :
    Tolerates addresses params c it ↔
      Controller.observed <$> c.stepIn addresses params it.action = .ok c.observed := by
  rw [Outcome.map_eq_ok_iff]
  constructor
  · rintro ⟨⟨c', hc'⟩, hunchanged, -⟩
    exact ⟨c', hc', hunchanged (Or.inl h) c' hc'⟩
  · rintro ⟨c', hc', hobs⟩
    refine ⟨⟨c', hc'⟩, fun _ c'' hc'' => ?_, fun hne => absurd h hne⟩
    obtain rfl : c' = c'' := Outcome.ok.inj (hc'.symm.trans hc'')
    exact hobs

/-- With a datagram: some result is that of every residue, and it is the state before if a call
fails. -/
theorem tolerates_iff_of_received (h : it.received ≠ none) (eth₀ : EthBuffer)
    (hself : it.withResidue c eth₀ = c) :
    Tolerates addresses params c it ↔ ∃ obs,
      (∀ eth, Controller.observed <$>
        (it.withResidue c eth).stepIn addresses params it.action = .ok obs) ∧
        (it.Fails c → obs = c.observed) := by
  constructor
  · rintro ⟨⟨c', hc'⟩, hunchanged, hdictated⟩
    exact ⟨c'.observed, hdictated h c' hc', fun hfails => hunchanged (Or.inr hfails) c' hc'⟩
  · rintro ⟨obs, hall, hfails⟩
    have hown := hall eth₀
    rw [hself, Outcome.map_eq_ok_iff] at hown
    obtain ⟨c', hc', rfl⟩ := hown
    have hunique : ∀ c'', c.stepIn addresses params it.action = .ok c'' → c'' = c' :=
      fun c'' hc'' => Outcome.ok.inj (hc''.symm.trans hc')
    refine ⟨⟨c', hc'⟩, fun hor c'' hc'' => ?_, fun _ c'' hc'' => ?_⟩
    · rw [hunique c'' hc'']
      exact hfails (hor.resolve_left h)
    · rw [hunique c'' hc'']
      exact hall

/-- The ACN listener. -/
theorem tolerates_acn_iff (recv : Receive) :
    Tolerates addresses params c (.acn recv) ↔ Harmless addresses params c (.acn recv) := by
  have hinj : Function.Injective fun b : PixelBuffer =>
      (b, c.workers.mapping, c.lastConfigSequence) := Prod.mk_left_injective _
  cases recv with
  | failure copied =>
      rw [tolerates_iff_of_unreceived rfl, Harmless, ← Acn.effect_eq_self_iff]
      change Controller.observed <$> c.step params (.acn copied) = _ ↔ _
      rw [Acn.observed_step]
      exact Outcome.map_inj hinj (y := .ok c.pixelBuffer)
  | datagram d =>
      have hsome : (Iteration.acn (.datagram d)).received ≠ none := Option.some_ne_none d
      have hfails : ¬(Iteration.acn (.datagram d)).Fails c := Option.some_ne_none d
      have hstep : ∀ eth, Controller.observed <$>
          ((Iteration.acn (.datagram d)).withResidue c eth).stepIn addresses params
            (Iteration.acn (.datagram d)).action =
          (fun b => (b, c.workers.mapping, c.lastConfigSequence)) <$>
            Acn.effect params.acn (EthBuffer.recvfrom eth (some d)) c.pixelBuffer :=
        fun eth => Acn.observed_step params (some d) { c with acnEthBuffer := eth }
      rw [tolerates_iff_of_received hsome c.acnEthBuffer rfl, Harmless]
      simp only [hstep, hfails, false_implies, and_true]
      rw [exists_forall_residue_iff d fun eth => (fun b => (b, c.workers.mapping,
        c.lastConfigSequence)) <$> Acn.effect params.acn eth c.pixelBuffer,
        Datagram.Decides.map_iff hinj, Acn.decides_iff, Ne, Outcome.map_eq_exit_iff]
      exact and_iff_left (Acn.effect_ne_exit _ _ _)

/-- The ZCPP listener. -/
theorem tolerates_zcpp_iff (calls : SocketCalls) (recv : Receive) :
    Tolerates addresses params c (.zcpp calls recv) ↔
      Harmless addresses params c (.zcpp calls recv) := by
  cases recv with
  | failure copied =>
      rw [tolerates_iff_of_unreceived rfl, Harmless, ← Zcpp.effect_eq_observed_iff]
      change Controller.observed <$> c.step params (.zcpp calls.network copied) = _ ↔ _
      rw [Zcpp.observed_step]
  | datagram d =>
      have hsome : (Iteration.zcpp calls (.datagram d)).received ≠ none := Option.some_ne_none d
      have hstep : ∀ eth, Controller.observed <$>
          ((Iteration.zcpp calls (.datagram d)).withResidue c eth).stepIn addresses params
            (Iteration.zcpp calls (.datagram d)).action =
          Zcpp.effect params.controllerName calls.network (EthBuffer.recvfrom eth (some d)) c :=
        fun eth => (Zcpp.observed_step params (some d)).trans
          (Zcpp.effect_zcppEthBuffer _)
      -- a failed call is one of the response, which changes nothing observed
      have hfails : ∀ obs, (∀ eth, Zcpp.effect params.controllerName calls.network
          (EthBuffer.recvfrom eth (some d)) c = .ok obs) →
          (Iteration.zcpp calls (.datagram d)).Fails c → obs = c.observed := by
        rintro obs hall (hnone | ⟨hdiscovery, -⟩)
        · cases hnone
        · change Zcpp.received (EthBuffer.recvfrom c.zcppEthBuffer (some d)) = _ at hdiscovery
          exact Zcpp.effect_eq_observed (by simp [hdiscovery]) (by simp [hdiscovery])
            (hall c.zcppEthBuffer)
      rw [tolerates_iff_of_received hsome c.zcppEthBuffer rfl, Harmless]
      simp only [hstep]
      rw [exists_congr fun obs => and_iff_left_of_imp (hfails obs),
        exists_forall_residue_iff d fun eth =>
          Zcpp.effect params.controllerName calls.network eth c, Zcpp.decides_iff,
        Zcpp.effect_ne_exit_iff]

/-- The worker. -/
theorem tolerates_refresh_iff (rets : Fin 4 → ℤ) :
    Tolerates addresses params c (.refresh rets) ↔
      Harmless addresses params c (.refresh rets) := by
  rw [tolerates_iff_of_unreceived rfl, Harmless]
  change Controller.observed <$> c.stepIn addresses params (.refresh rets) = _ ↔ _
  rw [Controller.stepIn]
  split
  next hpointers =>
    rw [and_iff_right hpointers, Outcome.map_eq_ok_iff, Controller.step]
    constructor
    · rintro ⟨c', hc', -⟩
      rw [Outcome.map_eq_ok_iff] at hc'
      obtain ⟨r, hr, -⟩ := hc'
      exact packable_of_workerRefresh hr
    · intro hpackable
      obtain ⟨c', events, hrun, hsame, -⟩ := workerRefresh_of_packable hpackable rets
      refine ⟨c', by rw [hrun]; rfl, ?_⟩
      rw [Controller.observed, Controller.observed, hsame.pixelBuffer, hsame.workers,
        hsame.lastConfigSequence]
  next hpointers => exact iff_of_false (by simp [Outcome.map_eq_ok_iff]) (fun h => hpointers h.1)

/-- An iteration is as asked exactly when it finds a harmless state. -/
theorem tolerates_iff : Tolerates addresses params c it ↔ Harmless addresses params c it := by
  cases it with
  | acn recv => exact tolerates_acn_iff recv
  | zcpp calls recv => exact tolerates_zcpp_iff calls recv
  | refresh rets => exact tolerates_refresh_iff rets

/-! ### Runs -/

/-- A run whose iterations find harmless states completes. -/
theorem exists_run_of_harmless {c₀ : Controller} {its : List Iteration}
    (h : ∀ pre it post, its = pre ++ it :: post → ∀ c,
      c₀.runIn addresses params (pre.map Iteration.action) = .ok c →
        Harmless addresses params c it) :
    ∀ pre post, its = pre ++ post →
      ∃ c, c₀.runIn addresses params (pre.map Iteration.action) = .ok c := by
  intro pre
  induction pre using List.reverseRecOn with
  | nil => exact fun _ _ => ⟨c₀, rfl⟩
  | append_singleton pre it ih =>
      intro post hits
      rw [List.append_assoc, List.singleton_append] at hits
      obtain ⟨c, hc⟩ := ih (it :: post) hits
      obtain ⟨c', hc'⟩ := (tolerates_iff.mpr (h pre it post hits c hc)).completes
      exact ⟨c', by rw [List.map_append, List.map_singleton, Controller.runIn_append, hc,
        Outcome.ok_bind, hc']⟩

end

/-- For every state the loops start in, every sequence of their iterations and every outcome of
their system calls: every iteration is reached, completes, changes the pixel buffer, the mapping
and the sequence number only on a received datagram and as the datagram dictates, and leaves them
as they were if a call fails, if and only if every iteration reached finds a harmless state. -/
theorem failures_tolerated_iff (addresses : Addresses) (params : Params) (c₀ : Controller)
    (its : List Iteration) :
    (∀ pre it post, its = pre ++ it :: post →
      ∃ c, c₀.runIn addresses params (pre.map Iteration.action) = .ok c ∧
        Tolerates addresses params c it) ↔
    ∀ pre it post, its = pre ++ it :: post → ∀ c,
      c₀.runIn addresses params (pre.map Iteration.action) = .ok c →
        Harmless addresses params c it := by
  constructor
  · intro h pre it post hits c hc
    obtain ⟨c', hc', htolerates⟩ := h pre it post hits
    obtain rfl : c' = c := Outcome.ok.inj (hc'.symm.trans hc)
    exact tolerates_iff.mp htolerates
  · intro h pre it post hits
    obtain ⟨c, hc⟩ := exists_run_of_harmless h pre (it :: post) hits
    exact ⟨c, hc, tolerates_iff.mpr (h pre it post hits c hc)⟩

/-- The calls of a response without a route to the receiver. -/
def unreachable : SocketCalls := ⟨3, -1, 0, 0, 0, fun h => absurd h (by decide)⟩

/-- A discovery packet to which `connect` fails ends the process. -/
theorem not_failures_tolerated_sample :
    ¬∀ (file : ConfigFile) (addresses : Addresses) (pointers : Block 16) (c₀ : Controller),
      c₀.StartsFrom file → startWorkers file addresses = .ok c₀.workers →
      ∀ its pre it post, its = pre ++ it :: post →
        ∃ c, c₀.runIn addresses ⟨file.acnParam, file.zcppControllerName pointers⟩
            (pre.map Iteration.action) = .ok c ∧
          Tolerates addresses ⟨file.acnParam, file.zcppControllerName pointers⟩ c it := by
  intro h
  obtain ⟨c₀, hc₀, -⟩ := @exists_startsFrom default Workers.zero rfl
  obtain ⟨addresses, hworkers⟩ := hc₀.workers
  let d : Datagram := ⟨Zcpp.token ++ [0x00], by decide⟩
  obtain ⟨c, -, htolerates⟩ := h default addresses default c₀ hc₀ hworkers
    [.zcpp unreachable (.datagram d)] [] (.zcpp unreachable (.datagram d)) [] rfl
  obtain ⟨-, hconnect⟩ := tolerates_iff.mp htolerates
  exact absurd (hconnect (by decide)) (by decide)

end PiPixelController
