import PiPixelController.Residue.Basic
import PiPixelController.System.Packets

/-!
# Residue in the ACN listener

The listener looks at the identifier, the universe, the property count and the slots wherever
they lie in the receive buffer, without looking at the length of the datagram.

* `acnIndependent_iff` — the effect of a datagram is independent of the residue exactly when the
  datagram determines it (`Acn.Determined`).
-/

namespace PiPixelController

open CSemantics

/-- Whatever the receive buffer held, handling the datagram is defined and has the same observable
outcome. -/
def AcnIndependent (params : AcnParam) (d : Datagram) : Prop :=
  ∀ (c : Controller) (eth eth' : EthBuffer),
    Controller.observed <$> acnListen params (some d) { c with acnEthBuffer := eth } =
        Controller.observed <$> acnListen params (some d) { c with acnEthBuffer := eth' } ∧
      Controller.observed <$> acnListen params (some d) { c with acnEthBuffer := eth } ≠ .undefined

namespace Acn

/-- A byte of the identifier that the datagram carries is wrong. -/
def IdentifierRefuted (d : Datagram) : Prop :=
  ∃ i < 10, 4 + i < d.bytes.length ∧ d.eth.get (4 + i) ≠ identifier.getD i 0

/-- No universe that agrees with the bytes the datagram carries is in the range. -/
def UniverseRefuted (params : AcnParam) (d : Datagram) : Prop :=
  ∀ hi lo : Byte, (113 < d.bytes.length → hi = d.eth.get 113) →
    (114 < d.bytes.length → lo = d.eth.get 114) →
    ¬InUniverseRange params (hi.toNat * 256 + lo.toNat)

/-- The datagram carries the property count and all slots, and the slots have a place in the pixel
buffer; with a property count of 1 there are none. -/
def SlotsCarried (params : AcnParam) (d : Datagram) : Prop :=
  125 ≤ d.bytes.length ∧ (propertyCount d.eth = 1 ∨ 2 ≤ propertyCount d.eth ∧
    125 + propertyCount d.eth ≤ d.bytes.length ∧
    0 ≤ (bufferOffset params (getUniverse d.eth)).toInt ∧
    (bufferOffset params (getUniverse d.eth)).toInt + propertyCount d.eth ≤ 24577)

/-- The bytes of the datagram alone decide what the listener does: they rule the packet out, or
hold everything the packet declares. -/
def Determined (params : AcnParam) (d : Datagram) : Prop :=
  IdentifierRefuted d ∨ UniverseRefuted params d ∨ SlotsCarried params d

/-- The copy of an accepted packet lies in the pixel buffer and the receive buffer: the property
count is not 0, and it is 1 or the slots fit. -/
def CopyInside (params : AcnParam) (eth : EthBuffer) : Prop :=
  IdentifierMatches eth → InUniverseRange params (getUniverse eth) →
    propertyCount eth = 1 ∨ 2 ≤ propertyCount eth ∧ propertyCount eth ≤ 1375 ∧
      0 ≤ (bufferOffset params (getUniverse eth)).toInt ∧
      (bufferOffset params (getUniverse eth)).toInt + propertyCount eth ≤ 24577

/-- What an iteration does to the pixel buffer. -/
def effect (params : AcnParam) (eth : EthBuffer) (buffer : PixelBuffer) : Outcome PixelBuffer :=
  match memcpyArgs params eth with
  | none => .ok buffer
  | some args => buffer.memcpy args.dst eth args.src (sizeT args.len)

section

variable {params : AcnParam} {d : Datagram} {eth eth' : EthBuffer} {buffer : PixelBuffer}

/-- An iteration receives and has its effect on the pixel buffer. -/
theorem acnListen_eq_effect (recv : Option Datagram) (c : Controller) :
    acnListen params recv c =
      (fun buffer => { c with
        acnEthBuffer := EthBuffer.recvfrom c.acnEthBuffer recv
        pixelBuffer := buffer }) <$>
        effect params (EthBuffer.recvfrom c.acnEthBuffer recv) c.pixelBuffer := by
  rw [acnListen, effect]
  cases memcpyArgs params (EthBuffer.recvfrom c.acnEthBuffer recv) with
  | none => rfl
  | some args => rfl

theorem effect_ne_exit (params : AcnParam) (eth : EthBuffer) (buffer : PixelBuffer) :
    effect params eth buffer ≠ .exit := by
  rw [effect]
  cases memcpyArgs params eth <;> simp [Block.memcpy_ne_exit]

theorem observed_acnListen (recv : Option Datagram) (c : Controller) :
    Controller.observed <$> acnListen params recv c =
      (fun buffer => (buffer, c.workers.mapping, c.lastConfigSequence)) <$>
        effect params (EthBuffer.recvfrom c.acnEthBuffer recv) c.pixelBuffer := by
  rw [acnListen_eq_effect, Functor.map_map]
  rfl

theorem observed_step (params : Params) (recv : Option Datagram) (c : Controller) :
    Controller.observed <$> c.step params (.acn recv) =
      (fun buffer => (buffer, c.workers.mapping, c.lastConfigSequence)) <$>
        effect params.acn (EthBuffer.recvfrom c.acnEthBuffer recv) c.pixelBuffer :=
  observed_acnListen recv c

/-- Independence, in terms of the buffers that carry the datagram. -/
theorem acnIndependent_iff_decides :
    AcnIndependent params d ↔ ∀ buffer, d.Decides fun eth => effect params eth buffer := by
  have hstate : ∀ c : Controller,
      (∀ eth eth' : EthBuffer,
        Controller.observed <$> acnListen params (some d) { c with acnEthBuffer := eth } =
          Controller.observed <$> acnListen params (some d) { c with acnEthBuffer := eth' } ∧
        Controller.observed <$> acnListen params (some d) { c with acnEthBuffer := eth } ≠
          .undefined) ↔ d.Decides fun eth => effect params eth c.pixelBuffer := by
    intro c
    rw [← Datagram.Decides.map_iff (f := fun buffer =>
      (buffer, c.workers.mapping, c.lastConfigSequence)) (Prod.mk_left_injective _),
      ← Datagram.Decides.forall_recvfrom_iff]
    simp only [observed_acnListen]
  refine (forall_congr' hstate).trans ⟨fun h buffer => ?_, fun h c => h c.pixelBuffer⟩
  exact h { (default : Controller) with pixelBuffer := buffer }

/-! ### Determined datagrams -/

theorem not_identifierMatches (h : IdentifierRefuted d) (heth : d.CarriedBy eth) :
    ¬IdentifierMatches eth := by
  rw [identifierMatches_iff]
  intro hmatch
  obtain ⟨i, hi, hlt, hne⟩ := h
  exact hne (by rw [← heth _ hlt, hmatch i hi])

theorem not_inUniverseRange (h : UniverseRefuted params d) (heth : d.CarriedBy eth) :
    ¬InUniverseRange params (getUniverse eth) :=
  h (eth.get 113) (eth.get 114) (heth 113) (heth 114)

/-- A packet that is not accepted has no effect. -/
theorem effect_of_not_accepted
    (h : ¬IdentifierMatches eth ∨ ¬InUniverseRange params (getUniverse eth)) :
    effect params eth buffer = .ok buffer := by
  have hargs : memcpyArgs params eth = none := by
    rw [memcpyArgs]
    rcases h with h | h
    · rw [if_neg h]
    · rw [if_neg h, ite_self]
  rw [effect, hargs]

/-- An accepted packet copies its slots. -/
theorem effect_of_accepted (hid : IdentifierMatches eth)
    (hrange : InUniverseRange params (getUniverse eth)) :
    effect params eth buffer =
      buffer.memcpy (bufferOffset params (getUniverse eth)).toInt eth 126
        (sizeT (getPropertyCount eth)) := by
  rw [effect, memcpyArgs, if_pos hid, if_pos hrange]

theorem propertyCount_lt (eth : EthBuffer) : propertyCount eth < 65536 := by
  rw [propertyCount]
  omega

theorem sizeT_getPropertyCount (h : 1 ≤ propertyCount eth) :
    sizeT (getPropertyCount eth) = (propertyCount eth - 1).toNat := by
  have := propertyCount_lt eth
  exact sizeT_of_nonneg (by rw [getPropertyCount]; omega) (by rw [getPropertyCount]; omega)

/-- An iteration is defined exactly when its copy is inside; with a property count of 0 it would be
of 2^64 - 1 bytes. -/
theorem effect_ne_undefined_iff :
    effect params eth buffer ≠ .undefined ↔ CopyInside params eth := by
  by_cases haccept : IdentifierMatches eth ∧ InUniverseRange params (getUniverse eth)
  · obtain ⟨hid, hrange⟩ := haccept
    have hlt := propertyCount_lt eth
    rw [effect_of_accepted hid hrange, Block.memcpy_ne_undefined_iff, CopyInside]
    simp only [hid, hrange, forall_const]
    by_cases hpos : 1 ≤ propertyCount eth
    · rw [sizeT_getPropertyCount hpos, Block.CopyFits]
      omega
    · have hneg : getPropertyCount eth < 0 ∧ -2 ^ 32 ≤ getPropertyCount eth := by
        have hnonneg : 0 ≤ propertyCount eth := by
          rw [propertyCount]
          omega
        rw [getPropertyCount]
        omega
      have hbig := le_sizeT_of_neg hneg.1 hneg.2
      rw [Block.CopyFits]
      omega
  · rw [effect_of_not_accepted (not_and_or.mp haccept)]
    exact iff_of_true (by simp) fun hid hrange => absurd ⟨hid, hrange⟩ haccept

/-- The identifier and the universe of a datagram that carries them. -/
theorem accepted_congr (hlen : 115 ≤ d.bytes.length) (heth : d.CarriedBy eth) :
    (IdentifierMatches eth ↔ IdentifierMatches d.eth) ∧ getUniverse eth = getUniverse d.eth := by
  constructor
  · exact identifierMatches_congr fun i hi => heth (4 + i) (by omega)
  · rw [getUniverse, getUniverse, heth 113 (by omega), heth 114 (by omega)]

/-- Only the copies of accepted packets are left to compare. -/
theorem effect_eq_of_memcpy_eq (hlen : 115 ≤ d.bytes.length) (heth : d.CarriedBy eth)
    (h : buffer.memcpy (bufferOffset params (getUniverse d.eth)).toInt eth 126
        (sizeT (getPropertyCount eth)) =
      buffer.memcpy (bufferOffset params (getUniverse d.eth)).toInt d.eth 126
        (sizeT (getPropertyCount d.eth))) :
    effect params eth buffer = effect params d.eth buffer := by
  obtain ⟨hid, huniv⟩ := accepted_congr hlen heth
  -- both buffers are accepted or neither is
  by_cases haccept : IdentifierMatches d.eth ∧ InUniverseRange params (getUniverse d.eth)
  · obtain ⟨hid', hrange⟩ := haccept
    have hrange' : InUniverseRange params (getUniverse eth) := by rwa [huniv]
    rw [effect_of_accepted (hid.mpr hid') hrange', effect_of_accepted hid' hrange, huniv, h]
  · rw [not_and_or] at haccept
    have haccept' : ¬IdentifierMatches eth ∨ ¬InUniverseRange params (getUniverse eth) := by
      rwa [huniv, hid]
    rw [effect_of_not_accepted haccept, effect_of_not_accepted haccept']

theorem effect_of_slotsCarried (h : SlotsCarried params d) (heth : d.CarriedBy eth) :
    effect params eth buffer = effect params d.eth buffer := by
  obtain ⟨hlen, hslots⟩ := h
  apply effect_eq_of_memcpy_eq (by omega) heth
  have hcount : propertyCount eth = propertyCount d.eth := by
    rw [propertyCount, propertyCount, heth 123 (by omega), heth 124 (by omega)]
  rw [getPropertyCount, hcount, ← getPropertyCount]
  change buffer.memcpy _ eth ((126 : ℕ) : ℤ) _ = buffer.memcpy _ d.eth ((126 : ℕ) : ℤ) _
  apply Block.memcpy_congr
  intro _ i hi
  apply heth
  rw [sizeT_getPropertyCount (by omega)] at hi
  omega

/-- Carried slots are copied inside both buffers. -/
theorem SlotsCarried.copyInside (h : SlotsCarried params d) : CopyInside params d.eth := by
  obtain ⟨-, hslots⟩ := h
  have hle := d.length_le
  exact fun _ _ => by omega

/-- A determined datagram decides what happens. -/
theorem decides_of_determined (h : Determined params d) (buffer : PixelBuffer) :
    d.Decides fun eth => effect params eth buffer := by
  rcases h with h | h | h
  · exact ⟨.ok buffer, by simp, fun eth heth =>
      effect_of_not_accepted (Or.inl (not_identifierMatches h heth))⟩
  · exact ⟨.ok buffer, by simp, fun eth heth =>
      effect_of_not_accepted (Or.inr (not_inUniverseRange h heth))⟩
  · exact .of_eth (effect_ne_undefined_iff.mpr h.copyInside) fun eth heth =>
      effect_of_slotsCarried h heth

/-! ### Undetermined datagrams -/

/-- A residue can complete an accepted packet, unless the datagram rules that out. -/
theorem exists_accepted (hid : ¬IdentifierRefuted d) (huniv : ¬UniverseRefuted params d) :
    ∃ t : EthBuffer, d.CarriedBy t ∧ IdentifierMatches t ∧
      InUniverseRange params (getUniverse t) ∧ ∀ i, 115 ≤ i → t.get i = d.eth.get i := by
  rw [UniverseRefuted] at huniv
  push Not at huniv
  obtain ⟨hi, lo, hhi, hlo, hrange⟩ := huniv
  -- the residue completes the identifier and then the universe
  set base : EthBuffer := d.eth.write 4 identifier with hbase
  have hlen : identifier.length = 10 := rfl
  have hwritten : ∀ j < 10, base.get (4 + j) = identifier.getD j 0 := by
    intro j hj
    rw [hbase, Block.get_write_of_mem _ (by omega) (by omega) (by omega),
      List.getD_eq_getElem?_getD, List.getElem?_eq_getElem (by omega), Option.getD_some]
    congr 1
    omega
  have hget : ∀ i, i < 4 ∨ 14 ≤ i → base.get i = d.eth.get i :=
    fun i h => Block.get_write_of_notMem _ h
  refine ⟨(base.set 113 hi).set 114 lo, ?_, ?_, ?_, ?_⟩
  · intro i hlt
    rw [EthBuffer.get_set _ (by decide), EthBuffer.get_set _ (by decide)]
    split
    next h => rw [h, hlo (h ▸ hlt)]
    next h =>
      split
      next h' => rw [h', hhi (h' ▸ hlt)]
      next h' =>
        by_cases hmem : 4 ≤ i ∧ i < 14
        · -- the datagram carries this byte of the identifier, and carries it right
          obtain ⟨j, rfl⟩ := Nat.exists_eq_add_of_le hmem.1
          rw [IdentifierRefuted] at hid
          push Not at hid
          rw [hwritten j (by omega), hid j (by omega) hlt]
        · exact hget i (by omega)
  · rw [identifierMatches_iff]
    intro j hj
    rw [EthBuffer.get_set_of_ne _ (by omega), EthBuffer.get_set_of_ne _ (by omega),
      hwritten j hj]
  · rw [getUniverse, EthBuffer.get_set_of_ne _ (by decide), EthBuffer.get_set _ (by decide),
      EthBuffer.get_set_self _ (by decide), if_pos rfl]
    exact hrange
  · intro i h
    rw [EthBuffer.get_set_of_ne _ (by omega), EthBuffer.get_set_of_ne _ (by omega),
      hget i (by omega)]

/-- A byte behind the universe does not decide whether a packet is accepted. -/
theorem accepted_set (eth : EthBuffer) {i : ℕ} (h : 115 ≤ i) (b : Byte) :
    (IdentifierMatches (eth.set i b) ↔ IdentifierMatches eth) ∧
      getUniverse (eth.set i b) = getUniverse eth := by
  constructor
  · exact identifierMatches_congr fun j hj => EthBuffer.get_set_of_ne _ (by omega) _
  · rw [getUniverse, getUniverse, EthBuffer.get_set_of_ne _ (by omega),
      EthBuffer.get_set_of_ne _ (by omega)]

/-- Without both property count bytes the count read as zero-extended is below 2. -/
theorem length_of_two_le (h : 2 ≤ propertyCount d.eth) : 124 ≤ d.bytes.length := by
  by_contra hlt
  rw [propertyCount, Datagram.eth_get_of_le (i := 123) (by omega),
    Datagram.eth_get_of_le (i := 124) (by omega)] at h
  exact absurd h (by decide)

/-- When the last slot is residue, so is a byte of the pixel buffer afterwards. -/
theorem not_decides_of_slots {t : EthBuffer} (ht : d.CarriedBy t)
    (hid : IdentifierMatches t) (hrange : InUniverseRange params (getUniverse t))
    (hcount : 2 ≤ propertyCount t) (hoff : 0 ≤ (bufferOffset params (getUniverse t)).toInt)
    (hfit : (bufferOffset params (getUniverse t)).toInt + propertyCount t ≤ 24577)
    (hsrc : propertyCount t ≤ 1375)
    (hlast : d.bytes.length ≤ 124 + (propertyCount t).toNat)
    (hzero : t.get (124 + (propertyCount t).toNat) = 0) :
    ¬d.Decides fun eth => effect params eth buffer := by
  set last := 124 + (propertyCount t).toNat with hlastdef
  intro hdecides
  have heq := hdecides.eq (ht.set hlast 1) ht
  obtain ⟨hid', huniv'⟩ := accepted_set t (show 115 ≤ last by omega) 1
  have hcount' : getPropertyCount (t.set last 1) = getPropertyCount t := by
    rw [getPropertyCount, getPropertyCount, propertyCount, propertyCount,
      EthBuffer.get_set_of_ne _ (by omega), EthBuffer.get_set_of_ne _ (by omega)]
  have hcopy : Block.CopyFits 24576 1500 (bufferOffset params (getUniverse t)).toInt 126
      (propertyCount t - 1).toNat := by
    rw [Block.CopyFits]
    omega
  simp only [effect_of_accepted (hid'.mpr hid) (by rwa [huniv']), effect_of_accepted hid hrange,
    huniv', hcount', sizeT_getPropertyCount (show 1 ≤ propertyCount t by omega),
    Block.memcpy_of_fits hcopy] at heq
  -- the last slot lands on the last byte of the destination range
  have hbyte := congrArg
    (Block.get · ((bufferOffset params (getUniverse t)).toInt.toNat +
      ((propertyCount t - 1).toNat - 1))) (Outcome.ok.inj heq)
  rw [Block.get_copy _ _ _ _ _ (by omega), if_pos (by omega),
    Block.get_copy _ _ _ _ _ (by omega), if_pos (by omega),
    show (126 : ℤ).toNat + ((bufferOffset params (getUniverse t)).toInt.toNat +
      ((propertyCount t - 1).toNat - 1) -
        (bufferOffset params (getUniverse t)).toInt.toNat) = last by omega,
    EthBuffer.get_set_self _ (by omega), hzero] at hbyte
  exact absurd hbyte (by decide)

/-- A datagram that decides what happens is determined. -/
theorem determined_of_decides (h : d.Decides fun eth => effect params eth buffer) :
    Determined params d := by
  rw [Determined, or_iff_not_imp_left, or_iff_not_imp_left]
  intro hid huniv
  obtain ⟨t, ht, hmatch, hrange, hbehind⟩ := exists_accepted hid huniv
  have hinside := effect_ne_undefined_iff.mp (h.ne_undefined ht) hmatch hrange
  have hcount : propertyCount t = propertyCount d.eth := by
    rw [propertyCount, propertyCount, hbehind 123 (by decide), hbehind 124 (by decide)]
  have hstale : ∀ i, 115 ≤ i → d.bytes.length ≤ i → t.get i = 0 := by
    intro i hi hle
    rw [hbehind i hi, Datagram.eth_get_of_le hle]
  rw [SlotsCarried, ← hcount]
  rcases hinside with hone | ⟨htwo, hsrc, hoffset, hfit⟩
  · -- the low byte of the count is not residue
    refine ⟨?_, Or.inl hone⟩
    by_contra hlt
    rw [propertyCount, hstale 124 (by decide) (by omega)] at hone
    have hzero : (0 : Byte).toNat = 0 := rfl
    omega
  · have hlen : 124 ≤ d.bytes.length := length_of_two_le (hcount ▸ htwo)
    have hsame : getUniverse t = getUniverse d.eth := (accepted_congr (by omega) ht).2
    -- the copy is defined, so its last slot is carried
    have hcarried : 125 + propertyCount t ≤ d.bytes.length := by
      by_contra hlt
      exact not_decides_of_slots ht hmatch hrange htwo hoffset hfit hsrc (by omega)
        (hstale _ (by omega) (by omega)) h
    rw [← hsame]
    omega

/-- On a given pixel buffer already, a datagram decides what happens exactly when it is
determined. -/
theorem decides_iff (buffer : PixelBuffer) :
    (d.Decides fun eth => effect params eth buffer) ↔ Determined params d :=
  ⟨determined_of_decides, fun h => decides_of_determined h buffer⟩

end

end Acn

/-- The effect of a datagram on the ACN side is defined and independent of the residue exactly when
the datagram determines it. -/
theorem acnIndependent_iff {params : AcnParam} {d : Datagram} :
    AcnIndependent params d ↔ Acn.Determined params d := by
  simp only [Acn.acnIndependent_iff_decides, Acn.decides_iff, forall_const]

end PiPixelController
