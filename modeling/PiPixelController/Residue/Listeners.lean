import Mathlib.Data.List.GetD
import PiPixelController.Residue.Acn
import PiPixelController.Residue.Config
import PiPixelController.Residue.Data
import PiPixelController.Zcpp.Response

/-!
# Residue in the listeners

The ZCPP listener looks at the token and the type of the packet before it hands the receive
buffer to a handler.

* `listeners_independent_iff` — for each listener, handling a datagram has the same outcome
  whatever the receive buffer held before exactly when the bytes of the datagram determine the
  outcome (`Acn.Determined`, `Zcpp.Determined`).
-/

namespace PiPixelController

open CSemantics

/-- Whatever the receive buffer held, handling the datagram is defined and has the same observable
outcome. -/
def ZcppIndependent (controllerName : Block 48) (net : Network) (d : Datagram) : Prop :=
  ∀ (c : Controller) (eth eth' : EthBuffer),
    (fun r => r.1.observed) <$>
        zcppMulticastListen controllerName net (some d) { c with zcppEthBuffer := eth } =
      (fun r => r.1.observed) <$>
        zcppMulticastListen controllerName net (some d) { c with zcppEthBuffer := eth' } ∧
    (fun r => r.1.observed) <$>
        zcppMulticastListen controllerName net (some d) { c with zcppEthBuffer := eth } ≠ .undefined

namespace Zcpp

/-- A byte of the token that the datagram carries is wrong. -/
def TokenRefuted (d : Datagram) : Prop :=
  ∃ i < 4, i < d.bytes.length ∧ d.eth.get i ≠ token.getD i 0

/-- The bytes of the datagram alone decide what the listener does: they rule out the token, or
give a type that is handled without looking at the rest, or determine the configuration or the
data packet. A discovery that can connect copies the name, whose NUL must lie in `zcppParam`. -/
def Determined (controllerName : Block 48) (net : Network) (d : Datagram) : Prop :=
  TokenRefuted d ∨ 5 ≤ d.bytes.length ∧
    match packetKind (packetType d.eth) with
    | .discovery => net.connectOk → controllerName.strlen.isSome
    | .config => ConfigDetermined d
    | .data => DataDetermined d
    | _ => True

/-- What a listener iteration does, as far as it is observed. -/
def effect (controllerName : Block 48) (net : Network) (eth : EthBuffer) (c : Controller) :
    Outcome (PixelBuffer × Mapping × BitVec 32) :=
  (fun r => r.1.observed) <$> dispatch controllerName net eth c

section

variable {controllerName : Block 48} {net : Network} {d : Datagram} {eth eth' : EthBuffer}
  {c : Controller}

theorem effect_of_config (h : received eth = some .config) :
    effect controllerName net eth c =
      (fun w => (c.pixelBuffer, w.mapping, (sequenceNumber eth).setWidth 32)) <$>
        configEffect eth c.lastConfigSequence c.workers := by
  rw [effect, dispatch, h]
  simp only [processConfig_eq]
  cases configEffect eth c.lastConfigSequence c.workers <;> rfl

theorem effect_of_data (h : received eth = some .data) :
    effect controllerName net eth c =
      (fun buffer => (buffer, c.workers.mapping, c.lastConfigSequence)) <$>
        dataEffect eth c.pixelBuffer := by
  rw [effect, dispatch, h]
  simp only [processData_eq]
  cases dataEffect eth c.pixelBuffer <;> rfl

theorem effect_of_discovery (h : received eth = some .discovery) (net : Network) :
    effect controllerName net eth c =
      (fun _ => c.observed) <$> sendDiscoveryResponse controllerName net := by
  rw [effect, dispatch, h]
  cases sendDiscoveryResponse controllerName net <;> rfl

theorem effect_of_other (hdiscovery : received eth ≠ some .discovery)
    (hconfig : received eth ≠ some .config) (hdata : received eth ≠ some .data)
    (net : Network) : effect controllerName net eth c = .ok c.observed := by
  rw [effect, dispatch]
  cases hkind : received eth with
  | none => rfl
  | some kind =>
      cases kind with
      | discovery => exact absurd hkind hdiscovery
      | config => exact absurd hkind hconfig
      | data => exact absurd hkind hdata
      | _ => rfl

/-- Only configurations and data packets change what is observed. -/
theorem effect_eq_observed (hconfig : received eth ≠ some .config)
    (hdata : received eth ≠ some .data) {obs : PixelBuffer × Mapping × BitVec 32}
    (h : effect controllerName net eth c = .ok obs) : obs = c.observed := by
  by_cases hdiscovery : received eth = some .discovery
  · rw [effect_of_discovery hdiscovery, Outcome.map_eq_ok_iff] at h
    obtain ⟨D, -, rfl⟩ := h
    rfl
  · rw [effect_of_other hdiscovery hconfig hdata] at h
    exact (Outcome.ok.inj h).symm

/-- A packet ends the process exactly when it is a discovery that cannot connect. -/
theorem dispatch_eq_exit_iff : dispatch controllerName net eth c = .exit ↔
    received eth = some .discovery ∧ net.connectOk = false := by
  rw [dispatch]
  cases hkind : received eth with
  | none => simp
  | some kind =>
      cases kind with
      | discovery =>
          -- with a connection the response is built, which ends nothing
          rw [Outcome.bind_eq_exit_iff, sendDiscoveryResponse]
          cases net.connectOk <;> simp [discoveryResponse_ne_exit]
      | config => simp [processConfig_eq, Outcome.bind_eq_exit_iff, configEffect_ne_exit]
      | data => simp [Outcome.bind_eq_exit_iff, processData, Block.memcpy_ne_exit]
      | _ => simp

/-- What handling the packet accesses lies in its objects: the name ends in `zcppParam` if a
response is built, the entries are in the receive buffer and in `workers`, the data in both
buffers. -/
def HandlingInside (controllerName : Block 48) (net : Network) (eth : EthBuffer) : Prop :=
  match received eth with
  | some .discovery => net.connectOk → controllerName.strlen.isSome
  | some .config => ∀ a < ports eth, ¬EntryOutside eth a
  | some .data => packetDataLength eth = 0 ∨ (packetDataLength eth).toNat ≤ 1485 ∧
      (frameAddress eth).toNat + (packetDataLength eth).toNat ≤ 24576
  | _ => True

/-- A packet is handled without undefined behaviour exactly when it is inside. -/
theorem effect_ne_undefined_iff :
    effect controllerName net eth c ≠ .undefined ↔ HandlingInside controllerName net eth := by
  rw [HandlingInside]
  split
  next h =>
    rw [effect_of_discovery h, Ne, Outcome.map_eq_undefined_iff]
    exact sendDiscoveryResponse_ne_undefined_iff
  next h =>
    rw [effect_of_config h, Ne, Outcome.map_eq_undefined_iff, ← exists_configEffect_iff]
    exact Outcome.ne_undefined_iff (configEffect_ne_exit _ _ _)
  next h =>
    have hzero : packetDataLength eth = 0 ↔ (packetDataLength eth).toNat = 0 :=
      BitVec.toNat_inj (y := 0) |>.symm
    rw [effect_of_data h, Ne, Outcome.map_eq_undefined_iff, ← Ne,
      Outcome.ne_undefined_iff (dataEffect_ne_exit _ _), exists_dataEffect_iff, Block.CopyFits,
      hzero]
    omega
  next hdiscovery hconfig hdata =>
    rw [effect_of_other hdiscovery hconfig hdata]
    simp

/-- The effect does not depend on the receive buffer kept in the state. -/
theorem effect_zcppEthBuffer (buffer : EthBuffer) :
    effect controllerName net eth { c with zcppEthBuffer := buffer } =
      effect controllerName net eth c := by
  by_cases hconfig : received eth = some .config
  · rw [effect_of_config hconfig, effect_of_config hconfig]
  · by_cases hdata : received eth = some .data
    · rw [effect_of_data hdata, effect_of_data hdata]
    · rw [effect, effect, dispatch, dispatch]
      cases hkind : received eth with
      | none => rfl
      | some kind =>
          cases kind with
          | discovery => cases sendDiscoveryResponse controllerName net <;> rfl
          | config => exact absurd hkind hconfig
          | data => exact absurd hkind hdata
          | _ => rfl

/-- An iteration of the listener, as far as it is observed. -/
theorem observed_zcppMulticastListen (recv : Option Datagram) :
    (fun r => r.1.observed) <$> zcppMulticastListen controllerName net recv c =
      effect controllerName net (EthBuffer.recvfrom c.zcppEthBuffer recv) c :=
  effect_zcppEthBuffer _

theorem observed_step (params : Params) (recv : Option Datagram) :
    Controller.observed <$> c.step params (.zcpp net recv) =
      effect params.controllerName net (EthBuffer.recvfrom c.zcppEthBuffer recv) c := by
  rw [Controller.step, Functor.map_map]
  exact observed_zcppMulticastListen recv

/-- Independence, in terms of the buffers that carry the datagram. -/
theorem zcppIndependent_iff_decides :
    ZcppIndependent controllerName net d ↔
      ∀ c, d.Decides fun eth => effect controllerName net eth c := by
  have heffect : ∀ (c : Controller) eth,
      (fun r => r.1.observed) <$>
          zcppMulticastListen controllerName net (some d) { c with zcppEthBuffer := eth } =
        effect controllerName net (EthBuffer.recvfrom eth (some d)) c :=
    fun c eth => (observed_zcppMulticastListen _).trans (effect_zcppEthBuffer _)
  simp only [ZcppIndependent, heffect, ← Datagram.Decides.forall_recvfrom_iff]

/-! ### Determined datagrams -/

theorem received_of_tokenRefuted (h : TokenRefuted d) (heth : d.CarriedBy eth) :
    received eth = none := by
  have hmatch : ¬TokenMatches eth := by
    rw [tokenMatches_iff]
    intro hmatch
    obtain ⟨i, hi, hlt, hne⟩ := h
    exact hne (by rw [← heth i hlt, hmatch i hi])
  rw [received, if_neg hmatch]

/-- The token and the type are carried by a datagram of 5 bytes. -/
theorem received_of_length (hlen : 5 ≤ d.bytes.length) (heth : d.CarriedBy eth) :
    received eth = received d.eth :=
  received_congr fun i hi => heth i (by omega)

/-- A packet of another type decides what happens: nothing. -/
theorem decides_of_other (h : ∀ eth, d.CarriedBy eth → received eth ≠ some .discovery ∧
    received eth ≠ some .config ∧ received eth ≠ some .data) (net : Network) (c : Controller) :
    d.Decides fun eth => effect controllerName net eth c :=
  ⟨.ok c.observed, by simp, fun eth heth => by
    obtain ⟨hdiscovery, hconfig, hdata⟩ := h eth heth
    exact effect_of_other hdiscovery hconfig hdata net⟩

/-- A discovery packet decides what happens exactly when it cannot connect, which ends the process,
or the name ends in `zcppParam`. -/
theorem decides_discovery_iff (h : ∀ eth, d.CarriedBy eth → received eth = some .discovery)
    (c : Controller) :
    (d.Decides fun eth => effect controllerName net eth c) ↔
      (net.connectOk → controllerName.strlen.isSome) := by
  have heffect : ∀ eth, d.CarriedBy eth → effect controllerName net eth c =
      (fun _ => c.observed) <$> sendDiscoveryResponse controllerName net :=
    fun eth heth => effect_of_discovery (h eth heth) net
  rw [Datagram.Decides.congr heffect, Datagram.Decides.const_iff, Ne, Outcome.map_eq_undefined_iff]
  exact sendDiscoveryResponse_ne_undefined_iff

/-- A configuration of 44 bytes decides what happens when it decides the mapping. -/
theorem decides_config_iff (h : ∀ eth, d.CarriedBy eth → received eth = some .config)
    (net : Network) (c : Controller) :
    (d.Decides fun eth => effect controllerName net eth c) ↔ ConfigDetermined d := by
  have heffect : ∀ eth, d.CarriedBy eth → effect controllerName net eth c =
      (fun w => (c.pixelBuffer, w.mapping, (sequenceNumber eth).setWidth 32)) <$>
        configEffect eth c.lastConfigSequence c.workers :=
    fun eth heth => effect_of_config (h eth heth)
  rw [Datagram.Decides.congr heffect]
  constructor
  · intro hdecides
    have hmapping := hdecides.map fun obs => obs.2.1
    simp only [Functor.map_map] at hmapping
    exact configDecides_iff.mp hmapping
  · intro hdet
    have hlong : 44 ≤ d.bytes.length := hdet.1
    have hmapping := (@configDecides_iff d c.workers c.lastConfigSequence |>.mpr hdet).map
      fun m => (c.pixelBuffer, m, (sequenceNumber d.eth).setWidth 32)
    refine (Datagram.Decides.congr fun eth heth => ?_).mpr hmapping
    rw [sequenceNumber_congr fun i hi => heth i (by omega), Functor.map_map]

/-- A data packet decides what happens when it decides the pixel buffer. -/
theorem decides_data_iff (h : ∀ eth, d.CarriedBy eth → received eth = some .data)
    (net : Network) (c : Controller) :
    (d.Decides fun eth => effect controllerName net eth c) ↔ DataDetermined d := by
  rw [Datagram.Decides.congr fun eth heth => effect_of_data (h eth heth),
    Datagram.Decides.map_iff (Prod.mk_left_injective _), dataDecides_iff]

/-- Before the type is carried, the residue can make a data packet of one byte. -/
theorem not_decides_of_short (htoken : ¬TokenRefuted d) (hlen : d.bytes.length < 5)
    (net : Network) (c : Controller) :
    ¬d.Decides fun eth => effect controllerName net eth c := by
  -- address 0, length 1, and the data byte left open
  set t := EthBuffer.set (d.eth.write 0 (token ++ [0x14])) 13 1 with ht
  have hhead : ∀ i < 5, t.get i = (token ++ [0x14]).getD i 0 := by
    intro i hi
    have hlt : i < (token ++ [0x14]).length := hi
    rw [ht, EthBuffer.get_set_of_ne _ (by omega),
      Block.get_write_of_mem _ (by omega) (Nat.zero_le i) (by simpa using hlt),
      List.getD_eq_getElem?_getD, List.getElem?_eq_getElem hlt, Option.getD_some]
    simp only [Nat.sub_zero]
  have hrest : ∀ i, 5 ≤ i → i ≠ 13 → t.get i = 0 := by
    intro i hi hne
    rw [ht, EthBuffer.get_set_of_ne _ hne, Block.get_write_of_notMem _ (Or.inr hi),
      Datagram.eth_get_of_le (by omega)]
  have hcarried : d.CarriedBy t := by
    intro i hi
    rw [TokenRefuted] at htoken
    push Not at htoken
    have hlt : i < token.length := show i < 4 by omega
    rw [hhead i (by omega), List.getD_append _ _ _ _ hlt, htoken i (by omega) hi]
  have hreceived : ∀ {e : EthBuffer}, (∀ i < 5, e.get i = t.get i) →
      received e = some .data := by
    intro e he
    have hmatch : TokenMatches e := by
      rw [tokenMatches_iff]
      intro i hi
      rw [he i (by omega), hhead i (by omega)]
      exact List.getD_append _ _ _ _ hi
    rw [received, if_pos hmatch, packetType, he 4 (by decide), hhead 4 (by decide)]
    rfl
  have hlength : (packetDataLength t).toNat = 0 + 1 := by
    rw [toNat_packetDataLength, hrest 12 (by decide) (by decide),
      EthBuffer.get_set_self _ (by decide)]
    rfl
  have haddress : (frameAddress t).toNat = 0 := by
    rw [toNat_frameAddress, hrest 8 (by decide) (by decide), hrest 9 (by decide) (by decide),
      hrest 10 (by decide) (by decide), hrest 11 (by decide) (by decide)]
    rfl
  have hne : dataEffect (t.set (15 + 0) 1) c.pixelBuffer ≠ dataEffect t c.pixelBuffer :=
    dataEffect_set_ne 0 hlength (by omega) (by decide) (hrest _ (by decide) (by decide))
  have hdata : received (t.set (15 + 0) 1) = some .data :=
    hreceived fun i hi => EthBuffer.get_set_of_ne _ (by omega) _
  intro hdecides
  have heq := hdecides.eq (hcarried.set (show d.bytes.length ≤ 15 + 0 by omega) 1) hcarried
  simp only [effect_of_data hdata, effect_of_data (hreceived fun _ _ => rfl)] at heq
  exact hne ((Outcome.map_inj (Prod.mk_left_injective _)).mp heq)

/-- A datagram decides what happens in a given state exactly when it is determined. -/
theorem decides_iff (c : Controller) :
    (d.Decides fun eth => effect controllerName net eth c) ↔
      Determined controllerName net d := by
  by_cases htoken : TokenRefuted d
  · refine iff_of_true (decides_of_other (fun eth heth => ?_) net c) (Or.inl htoken)
    rw [received_of_tokenRefuted htoken heth]
    simp
  · rw [Determined, or_iff_right htoken]
    by_cases hlen : 5 ≤ d.bytes.length
    · rw [and_iff_right hlen]
      -- the token is carried, and right
      have hmatch : TokenMatches d.eth := by
        rw [TokenRefuted] at htoken
        push Not at htoken
        exact tokenMatches_iff.mpr fun i hi => htoken i hi (by omega)
      have hreceived : ∀ e, d.CarriedBy e →
          received e = some (packetKind (packetType d.eth)) := by
        intro e he
        rw [received_of_length hlen he, received, if_pos hmatch]
      cases hkind : packetKind (packetType d.eth) with
      | discovery => exact decides_discovery_iff (hkind ▸ hreceived) c
      | config => exact decides_config_iff (hkind ▸ hreceived) net c
      | data => exact decides_data_iff (hkind ▸ hreceived) net c
      | _ =>
          refine iff_of_true (decides_of_other (fun eth heth => ?_) net c) trivial
          rw [hreceived eth heth, hkind]
          simp
    · exact iff_of_false (not_decides_of_short htoken (not_le.mp hlen) net c) (by simp [hlen])

end

end Zcpp

/-- The effect of a datagram on the ZCPP side is defined and independent of the residue exactly when
the datagram determines it. -/
theorem zcppIndependent_iff {controllerName : Block 48} {net : Network} {d : Datagram} :
    ZcppIndependent controllerName net d ↔ Zcpp.Determined controllerName net d := by
  simp only [Zcpp.zcppIndependent_iff_decides, Zcpp.decides_iff, forall_const]

/-- For each listener, every datagram and every outcome of the calls of a response: in every state,
and whatever earlier datagrams left in the receive buffer, handling the datagram is defined and
gives the same pixel buffer, mapping and sequence number (or ends the process) if and only if the
datagram determines the outcome. -/
theorem listeners_independent_iff (params : AcnParam) (controllerName : Block 48) (net : Network)
    (d : Datagram) :
    (AcnIndependent params d ↔ Acn.Determined params d) ∧
      (ZcppIndependent controllerName net d ↔ Zcpp.Determined controllerName net d) :=
  ⟨acnIndependent_iff, zcppIndependent_iff⟩

/-- A data packet that ends after its type: the address, the length and the data are residue. -/
def shortData : Datagram := ⟨Zcpp.token ++ [0x14], by decide⟩

/-- After a receive buffer of zeros the packet does nothing; after one that holds a data packet
of one byte, it stores that byte again. -/
theorem not_listeners_independent_sample :
    ¬∀ (controllerName : Block 48) (net : Network) (d : Datagram) (c : Controller)
      (eth eth' : EthBuffer),
      (fun r => r.1.observed) <$>
          zcppMulticastListen controllerName net (some d) { c with zcppEthBuffer := eth } =
        (fun r => r.1.observed) <$>
          zcppMulticastListen controllerName net (some d) { c with zcppEthBuffer := eth' } := by
  intro h
  let stale : EthBuffer := Block.write (fun _ => 0) 13 [1, 0, 1]
  have hfirst := congrArg (fun x => (fun obs => obs.1.get 0) <$> x)
    (h default default shortData default (fun _ => 0) stale)
  simp only [Functor.map_map] at hfirst
  exact absurd hfirst (by decide)

end PiPixelController
