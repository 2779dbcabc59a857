import PiPixelController.Acn.Encode
import PiPixelController.Residue.Acn

/-!
# Universes

The listener places universe `u` at `(u - universeStart) * 512` and copies as many bytes as the
property count says, which is a 16-bit number of the packet that nothing compares with 512.

* `forall_isolated_iff` — an accepted packet stays within its universe, whatever the pixel buffer
  holds, exactly when its property count is between 1 and 513;
* `acnCommute_iff` — such packets of two universes commute exactly when neither declares a slot
  that it does not carry and the other reaches;
* `universe_isolation_iff` — both, and that a packet outside the range changes nothing.
-/

namespace PiPixelController

open CSemantics

/-- The addresses of the slots of a universe. -/
def InUniverse (params : AcnParam) (univ : ℤ) (i : ℕ) : Prop :=
  (univ - params.universeStart.toInt) * 512 ≤ i ∧ i < (univ - params.universeStart.toInt + 1) * 512

/-- The iteration completes, changes no byte outside the universe of the packet and at most as
many bytes as it has slots, none if the property count is 0; nothing else the threads share
changes. -/
def Isolated (params : AcnParam) (recv : Option Datagram) (c : Controller) : Prop :=
  let eth := EthBuffer.recvfrom c.acnEthBuffer recv
  ∃ buffer : PixelBuffer,
    acnListen params recv c = .ok { c with acnEthBuffer := eth, pixelBuffer := buffer } ∧
    (∀ i : Fin 24576, buffer i ≠ c.pixelBuffer i → InUniverse params (Acn.getUniverse eth) i) ∧
    (Finset.univ.filter fun i => buffer i ≠ c.pixelBuffer i).card ≤
      (Acn.propertyCount eth - 1).toNat ∧
    (Acn.propertyCount eth = 0 → buffer = c.pixelBuffer)

namespace Acn

/-- A datagram that carries the identifier, a universe in the range and a property count. -/
structure Accepted (params : AcnParam) (d : Datagram) : Prop where
  header : 125 ≤ d.bytes.length
  identifier : IdentifierMatches d.eth
  inRange : InUniverseRange params (getUniverse d.eth)

/-- The first datagram carries those of the slots it declares that the second reaches. -/
def CarriesSlotsOf (d d' : Datagram) : Prop :=
  ∀ j < (propertyCount d.eth - 1).toNat, 126 + j < d'.bytes.length → 126 + j < d.bytes.length

end Acn

/-- Handling two datagrams has the same effect in both orders. -/
def AcnCommute (params : AcnParam) (d d' : Datagram) : Prop :=
  ∀ c : Controller,
    Controller.observed <$> (acnListen params (some d) c >>= acnListen params (some d')) =
      Controller.observed <$> (acnListen params (some d') c >>= acnListen params (some d))

section

variable {universeStart universeCount : BitVec 32}

/-- The range has at most as many universes as are configured. -/
theorem listenParam_range (hone : 1 ≤ universeCount.toInt) :
    (listenParam universeStart universeCount).universeEnd.toInt -
      (listenParam universeStart universeCount).universeStart.toInt < universeCount.toInt := by
  have hstart : -2 ^ 31 ≤ universeStart.toInt := BitVec.le_toInt _
  have hstart' : universeStart.toInt < 2 ^ 31 := BitVec.toInt_lt
  have hcount : universeCount.toInt < 2 ^ 31 := BitVec.toInt_lt
  -- the sum of start and count wraps at most once
  change (universeStart + universeCount - 1#32).toInt - universeStart.toInt < _
  rw [BitVec.toInt_sub, BitVec.toInt_add, show (1#32).toInt = 1 from rfl, Int.bmod_def,
    Int.bmod_def]
  omega

variable {params : AcnParam} {recv : Option Datagram} {c : Controller} {eth : EthBuffer}

/-- An iteration on a packet that is not accepted only receives. -/
theorem acnListen_of_not_accepted (heth : EthBuffer.recvfrom c.acnEthBuffer recv = eth)
    (h : ¬Acn.IdentifierMatches eth ∨ ¬Acn.InUniverseRange params (Acn.getUniverse eth)) :
    acnListen params recv c = .ok { c with acnEthBuffer := eth } := by
  rw [Acn.acnListen_eq_effect, heth, Acn.effect_of_not_accepted h]
  rfl

/-- An iteration on an accepted packet copies its slots. -/
theorem acnListen_of_accepted (heth : EthBuffer.recvfrom c.acnEthBuffer recv = eth)
    (hid : Acn.IdentifierMatches eth)
    (huniv : Acn.InUniverseRange params (Acn.getUniverse eth)) :
    acnListen params recv c =
      (fun buffer => { c with acnEthBuffer := eth, pixelBuffer := buffer }) <$>
        c.pixelBuffer.memcpy (Acn.bufferOffset params (Acn.getUniverse eth)).toInt eth 126
          (sizeT (Acn.getPropertyCount eth)) := by
  rw [Acn.acnListen_eq_effect, heth, Acn.effect_of_accepted hid huniv]

/-! ### Isolation -/

/-- Where the slots of an accepted packet go, in a range of at most 48 universes. -/
theorem inRange_bounds {univ : ℤ} (h : Acn.InUniverseRange params univ)
    (hrange : params.universeEnd.toInt - params.universeStart.toInt < 48) :
    0 ≤ (univ - params.universeStart.toInt) * 512 ∧
      (univ - params.universeStart.toInt) * 512 + 512 ≤ 24576 := by
  obtain ⟨hlo, hhi⟩ := h
  omega

/-- An iteration on a packet with a property count of 1 to 513. -/
theorem acnListen_of_count_le (heth : EthBuffer.recvfrom c.acnEthBuffer recv = eth)
    (hid : Acn.IdentifierMatches eth)
    (huniv : Acn.InUniverseRange params (Acn.getUniverse eth))
    (hrange : params.universeEnd.toInt - params.universeStart.toInt < 48)
    (hone : 1 ≤ Acn.propertyCount eth) (hle : Acn.propertyCount eth ≤ 513) :
    acnListen params recv c = .ok { c with
      acnEthBuffer := eth
      pixelBuffer := c.pixelBuffer.copy
        ((Acn.getUniverse eth - params.universeStart.toInt) * 512).toNat eth 126
        (Acn.propertyCount eth - 1).toNat } := by
  obtain ⟨hlo, hhi⟩ := inRange_bounds huniv hrange
  have hfit : Block.CopyFits 24576 1500 ((Acn.getUniverse eth - params.universeStart.toInt) * 512)
      126 (Acn.propertyCount eth - 1).toNat := by
    rw [Block.CopyFits]
    omega
  rw [acnListen_of_accepted heth hid huniv, Acn.toInt_bufferOffset huniv hrange,
    Acn.sizeT_getPropertyCount hone, Block.memcpy_of_fits hfit]
  rfl

/-- A copy of at most 512 bytes stays within the universe. -/
theorem isolated_of_count_le (heth : EthBuffer.recvfrom c.acnEthBuffer recv = eth)
    (hid : Acn.IdentifierMatches eth)
    (huniv : Acn.InUniverseRange params (Acn.getUniverse eth))
    (hrange : params.universeEnd.toInt - params.universeStart.toInt < 48)
    (hone : 1 ≤ Acn.propertyCount eth) (hle : Acn.propertyCount eth ≤ 513) :
    Isolated params recv c := by
  obtain ⟨hlo, hhi⟩ := inRange_bounds huniv hrange
  rw [Isolated, heth]
  refine ⟨_, acnListen_of_count_le heth hid huniv hrange hone hle, ?_, ?_, ?_⟩
  · intro i hi
    by_contra hout
    rw [InUniverse] at hout
    exact hi (if_neg (by omega))
  · exact Block.card_changed_copy_le _ _ _ _ _
  · intro hzero
    rw [hzero] at hone
    omega

/-- Without a property count the copy is of 2^64 - 1 bytes. -/
theorem not_isolated_of_count_eq_zero (heth : EthBuffer.recvfrom c.acnEthBuffer recv = eth)
    (hid : Acn.IdentifierMatches eth)
    (huniv : Acn.InUniverseRange params (Acn.getUniverse eth))
    (hzero : Acn.propertyCount eth = 0) : ¬Isolated params recv c := by
  rintro ⟨buffer, hrun, -⟩
  rw [acnListen_of_accepted heth hid huniv, Acn.getPropertyCount, hzero,
    Block.memcpy_of_not_fits] at hrun
  · cases hrun
  · have hbig := le_sizeT_of_neg (show (0 : ℤ) - 1 < 0 by decide) (by decide)
    rw [Block.CopyFits]
    omega

/-- With a property count above 513 the copy leaves the pixel buffer or reaches the next
universe, where it changes a byte that differs from the first slot too many. -/
theorem not_isolated_of_lt_count (heth : EthBuffer.recvfrom c.acnEthBuffer recv = eth)
    (hid : Acn.IdentifierMatches eth)
    (huniv : Acn.InUniverseRange params (Acn.getUniverse eth))
    (hrange : params.universeEnd.toInt - params.universeStart.toInt < 48)
    (hlt : 513 < Acn.propertyCount eth) (hbuffer : ∀ i, c.pixelBuffer i ≠ eth.get 638) :
    ¬Isolated params recv c := by
  obtain ⟨hlo, hhi⟩ := inRange_bounds huniv hrange
  rw [Isolated, heth]
  rintro ⟨buffer, hrun, hin, -⟩
  rw [acnListen_of_accepted heth hid huniv, Outcome.map_eq_ok_iff] at hrun
  obtain ⟨buffer', hcopy, heq⟩ := hrun
  obtain rfl : buffer' = buffer := congrArg Controller.pixelBuffer heq
  rw [Acn.toInt_bufferOffset huniv hrange, Acn.sizeT_getPropertyCount (by omega),
    Block.memcpy_eq_ok_iff, Block.CopyFits] at hcopy
  obtain ⟨hfit, rfl⟩ := hcopy
  set first := (Acn.getUniverse eth - params.universeStart.toInt) * 512 with hfirst
  have hnext : first.toNat + 512 < 24576 := by omega
  have hbyte : InUniverse params (Acn.getUniverse eth) (first.toNat + 512) := by
    apply hin ⟨first.toNat + 512, hnext⟩
    simp only [Block.copy]
    rw [if_pos (by omega), Nat.add_sub_cancel_left]
    exact (hbuffer _).symm
  rw [InUniverse] at hbyte
  omega

/-- An accepted packet stays within its universe, whatever the pixel buffer holds, exactly when
its property count is between 1 and 513. -/
theorem forall_isolated_iff (heth : EthBuffer.recvfrom c.acnEthBuffer recv = eth)
    (hid : Acn.IdentifierMatches eth)
    (huniv : Acn.InUniverseRange params (Acn.getUniverse eth))
    (hrange : params.universeEnd.toInt - params.universeStart.toInt < 48) :
    (∀ buffer, Isolated params recv { c with pixelBuffer := buffer }) ↔
      1 ≤ Acn.propertyCount eth ∧ Acn.propertyCount eth ≤ 513 := by
  have hself : ∀ buffer : PixelBuffer, EthBuffer.recvfrom
      { c with pixelBuffer := buffer }.acnEthBuffer recv = eth := fun _ => heth
  constructor
  · intro h
    have hnonneg : 0 ≤ Acn.propertyCount eth := by
      rw [Acn.propertyCount]
      omega
    constructor
    · by_contra hzero
      exact not_isolated_of_count_eq_zero (hself c.pixelBuffer) hid huniv (by omega) (h _)
    · by_contra hlt
      have hne : ∀ b : Byte, b + 1 ≠ b := by decide
      exact not_isolated_of_lt_count (hself fun _ => eth.get 638 + 1) hid huniv hrange
        (by omega) (fun _ => hne _) (h _)
  · rintro ⟨hone, hle⟩ buffer
    exact isolated_of_count_le (hself buffer) hid huniv hrange hone hle

/-! ### Packets of two universes -/

variable {d d' : Datagram}

/-- The slots of a datagram are the same whether or not another one was received before exactly
when it carries those of them that the other reaches. -/
theorem forall_get_recvfrom_eq_iff :
    (∀ e : EthBuffer, ∀ j < (Acn.propertyCount d.eth - 1).toNat, 126 + j < 1500 →
      (EthBuffer.recvfrom e (some d)).get (126 + j) =
        (EthBuffer.recvfrom (EthBuffer.recvfrom e (some d')) (some d)).get (126 + j)) ↔
      Acn.CarriesSlotsOf d d' := by
  constructor
  · intro h j hj hlt
    by_contra hle
    have hsize : 126 + j < 1500 := by
      have := d'.length_le
      omega
    -- a residue that differs from the byte of the other datagram
    have hget := h (fun _ => d'.eth.get (126 + j) + 1) j hj hsize
    rw [EthBuffer.get_recvfrom_of_le (not_lt.mp hle), EthBuffer.get_recvfrom_of_le (not_lt.mp hle),
      d'.get_recvfrom _ hlt, Block.get_of_lt _ hsize] at hget
    have hne : ∀ b : Byte, b + 1 ≠ b := by decide
    exact hne _ hget
  · intro h e j hj _
    by_cases hlt : 126 + j < d.bytes.length
    · exact EthBuffer.get_recvfrom_congr _ _ hlt
    · have hlt' : ¬126 + j < d'.bytes.length := fun hlt' => hlt (h j hj hlt')
      rw [EthBuffer.get_recvfrom_of_le (not_lt.mp hlt),
        EthBuffer.get_recvfrom_of_le (not_lt.mp hlt), EthBuffer.get_recvfrom_of_le (not_lt.mp hlt')]

theorem AcnPacket.accepted (P : AcnPacket params) : Acn.Accepted params P.datagram where
  header := by
    have hone := P.one_le
    have hcomplete := P.complete
    omega
  identifier := P.identifier
  inRange := P.inRange

theorem Acn.accepted_encodeDatagram {univ count : BitVec 16} {slots : List Byte}
    {h : slots.length ≤ 1374} (hrange : Acn.InUniverseRange params univ.toNat) :
    Acn.Accepted params (Acn.encodeDatagram univ count slots h) where
  header := by
    rw [Acn.length_encodeDatagram]
    omega
  identifier := Acn.identifierMatches_encodeDatagram
  inRange := by rwa [Acn.getUniverse_encodeDatagram]

/-- Whatever the receive buffer held, it shows the header of a datagram that carries it. -/
theorem Acn.Accepted.recvfrom (h : Acn.Accepted params d) (e : EthBuffer) :
    Acn.IdentifierMatches (EthBuffer.recvfrom e (some d)) ∧
      Acn.getUniverse (EthBuffer.recvfrom e (some d)) = Acn.getUniverse d.eth ∧
      Acn.propertyCount (EthBuffer.recvfrom e (some d)) = Acn.propertyCount d.eth := by
  have hheader := h.header
  have hcarried := d.carriedBy_recvfrom e
  obtain ⟨hid, huniv⟩ := Acn.accepted_congr (by omega) hcarried
  refine ⟨hid.mpr h.identifier, huniv, ?_⟩
  rw [Acn.propertyCount, Acn.propertyCount, hcarried 123 (by omega), hcarried 124 (by omega)]

/-- An iteration on a datagram that is accepted. -/
theorem Acn.Accepted.acnListen_eq (h : Acn.Accepted params d) (c : Controller) :
    acnListen params (some d) c =
      (fun buffer => { c with
        acnEthBuffer := EthBuffer.recvfrom c.acnEthBuffer (some d)
        pixelBuffer := buffer }) <$>
        c.pixelBuffer.memcpy (Acn.bufferOffset params (Acn.getUniverse d.eth)).toInt
          (EthBuffer.recvfrom c.acnEthBuffer (some d)) 126
          (sizeT (Acn.getPropertyCount d.eth)) := by
  obtain ⟨hid, huniv, hcount⟩ := h.recvfrom c.acnEthBuffer
  rw [acnListen_of_accepted rfl hid (by rw [huniv]; exact h.inRange), huniv,
    Acn.getPropertyCount, hcount, ← Acn.getPropertyCount]

/-- An iteration on a datagram with a property count of 1 to 513. -/
theorem acnListen_some (h : Acn.Accepted params d)
    (hrange : params.universeEnd.toInt - params.universeStart.toInt < 48)
    (hone : 1 ≤ Acn.propertyCount d.eth) (hle : Acn.propertyCount d.eth ≤ 513) (c : Controller) :
    acnListen params (some d) c = .ok { c with
      acnEthBuffer := EthBuffer.recvfrom c.acnEthBuffer (some d)
      pixelBuffer := c.pixelBuffer.copy
        ((Acn.getUniverse d.eth - params.universeStart.toInt) * 512).toNat
        (EthBuffer.recvfrom c.acnEthBuffer (some d)) 126 (Acn.propertyCount d.eth - 1).toNat } := by
  obtain ⟨hid, huniv, hcount⟩ := h.recvfrom c.acnEthBuffer
  rw [acnListen_of_count_le rfl hid (by rw [huniv]; exact h.inRange) hrange (by rwa [hcount])
    (by rwa [hcount]), huniv, hcount]

/-- A datagram stays within its universe in every state exactly when its property count is
between 1 and 513. -/
theorem isolated_some_iff (h : Acn.Accepted params d)
    (hrange : params.universeEnd.toInt - params.universeStart.toInt < 48) :
    (∀ c, Isolated params (some d) c) ↔
      1 ≤ Acn.propertyCount d.eth ∧ Acn.propertyCount d.eth ≤ 513 := by
  constructor
  · intro hall
    have hzero : EthBuffer.recvfrom
        { (default : Controller) with acnEthBuffer := fun _ => 0 }.acnEthBuffer (some d) = d.eth :=
      rfl
    exact (forall_isolated_iff hzero h.identifier h.inRange hrange).mp fun _ => hall _
  · rintro ⟨hone, hle⟩ c
    obtain ⟨hid, huniv, hcount⟩ := h.recvfrom c.acnEthBuffer
    exact isolated_of_count_le rfl hid (by rw [huniv]; exact h.inRange) hrange (by rwa [hcount])
      (by rwa [hcount])

/-- Packets of two universes commute exactly when neither declares a slot that it does not carry
and the other reaches. -/
theorem acnCommute_iff (h : Acn.Accepted params d) (h' : Acn.Accepted params d')
    (hrange : params.universeEnd.toInt - params.universeStart.toInt < 48)
    (hne : Acn.getUniverse d.eth ≠ Acn.getUniverse d'.eth)
    (hone : 1 ≤ Acn.propertyCount d.eth) (hle : Acn.propertyCount d.eth ≤ 513)
    (hone' : 1 ≤ Acn.propertyCount d'.eth) (hle' : Acn.propertyCount d'.eth ≤ 513) :
    AcnCommute params d d' ↔ Acn.CarriesSlotsOf d d' ∧ Acn.CarriesSlotsOf d' d := by
  obtain ⟨hlo, hhi⟩ := inRange_bounds h.inRange hrange
  obtain ⟨hlo', hhi'⟩ := inRange_bounds h'.inRange hrange
  rw [← forall_get_recvfrom_eq_iff, ← @forall_get_recvfrom_eq_iff d' d, AcnCommute]
  -- the two universes are disjoint, so only the sources of the copies are left to compare
  have hstep : ∀ c : Controller,
      (Controller.observed <$> (acnListen params (some d) c >>= acnListen params (some d')) =
        Controller.observed <$> (acnListen params (some d') c >>= acnListen params (some d)) ↔
      (∀ j < (Acn.propertyCount d.eth - 1).toNat,
        (EthBuffer.recvfrom c.acnEthBuffer (some d)).get (126 + j) =
          (EthBuffer.recvfrom (EthBuffer.recvfrom c.acnEthBuffer (some d')) (some d)).get
            (126 + j)) ∧
      ∀ j < (Acn.propertyCount d'.eth - 1).toNat,
        (EthBuffer.recvfrom (EthBuffer.recvfrom c.acnEthBuffer (some d)) (some d')).get (126 + j) =
          (EthBuffer.recvfrom c.acnEthBuffer (some d')).get (126 + j)) := by
    intro c
    rw [acnListen_some h hrange hone hle, acnListen_some h' hrange hone' hle', Outcome.ok_bind,
      Outcome.ok_bind, acnListen_some h hrange hone hle, acnListen_some h' hrange hone' hle',
      Outcome.map_ok, Outcome.map_ok, Outcome.ok.injEq, Controller.observed, Controller.observed,
      Prod.mk.injEq, and_iff_left rfl]
    exact Block.copy_copy_eq_iff _ (by omega) (by omega) (by omega)
  simp only [hstep]
  constructor
  · intro hcomm
    refine ⟨fun e j hj _ => ?_, fun e j hj _ => ?_⟩
    · exact (hcomm { (default : Controller) with acnEthBuffer := e }).1 j hj
    · exact ((hcomm { (default : Controller) with acnEthBuffer := e }).2 j hj).symm
  · rintro ⟨hslots, hslots'⟩ c
    refine ⟨fun j hj => hslots _ j hj (by omega), fun j hj => (hslots' _ j hj (by omega)).symm⟩

/-- For every configuration of 1 to 48 universes: an accepted packet stays within its universe,
whatever the pixel buffer holds, exactly when its property count is between 1 and 513; two packets
of different universes stay within them and commute exactly when, besides, neither declares a slot
that it does not carry and the other reaches; a packet of a universe outside the range changes
nothing but the receive buffer. -/
theorem universe_isolation_iff (hone : 1 ≤ universeCount.toInt)
    (hle : universeCount.toInt ≤ 48) :
    (∀ (recv : Option Datagram) (c : Controller) (eth : EthBuffer),
      EthBuffer.recvfrom c.acnEthBuffer recv = eth → Acn.IdentifierMatches eth →
        Acn.InUniverseRange (listenParam universeStart universeCount) (Acn.getUniverse eth) →
        ((∀ buffer, Isolated (listenParam universeStart universeCount) recv
            { c with pixelBuffer := buffer }) ↔
          1 ≤ Acn.propertyCount eth ∧ Acn.propertyCount eth ≤ 513)) ∧
    (∀ d d' : Datagram, Acn.Accepted (listenParam universeStart universeCount) d →
      Acn.Accepted (listenParam universeStart universeCount) d' →
      Acn.getUniverse d.eth ≠ Acn.getUniverse d'.eth →
        ((∀ c, Isolated (listenParam universeStart universeCount) (some d) c) ∧
            (∀ c, Isolated (listenParam universeStart universeCount) (some d') c) ∧
            AcnCommute (listenParam universeStart universeCount) d d' ↔
          (1 ≤ Acn.propertyCount d.eth ∧ Acn.propertyCount d.eth ≤ 513) ∧
            (1 ≤ Acn.propertyCount d'.eth ∧ Acn.propertyCount d'.eth ≤ 513) ∧
            Acn.CarriesSlotsOf d d' ∧ Acn.CarriesSlotsOf d' d)) ∧
    ∀ (recv : Option Datagram) (c : Controller) (eth : EthBuffer),
      EthBuffer.recvfrom c.acnEthBuffer recv = eth → Acn.IdentifierMatches eth →
        ¬Acn.InUniverseRange (listenParam universeStart universeCount) (Acn.getUniverse eth) →
          acnListen (listenParam universeStart universeCount) recv c =
            .ok { c with acnEthBuffer := eth } := by
  have hrange : (listenParam universeStart universeCount).universeEnd.toInt -
      (listenParam universeStart universeCount).universeStart.toInt < 48 :=
    lt_of_lt_of_le (listenParam_range hone) hle
  refine ⟨?_, ?_, ?_⟩
  · intro recv c eth heth hid huniv
    exact forall_isolated_iff heth hid huniv hrange
  · intro d d' h h' hne
    rw [isolated_some_iff h hrange, isolated_some_iff h' hrange]
    -- the property counts decide whether the packets are isolated, the rest whether they commute
    refine and_congr_right fun hcount => and_congr_right fun hcount' => ?_
    exact acnCommute_iff h h' hrange hne hcount.1 hcount.2 hcount'.1 hcount'.2
  · intro recv c eth heth _ hout
    exact acnListen_of_not_accepted heth (Or.inr hout)

end

/-- Universes 200 to 247, the default range. -/
theorem inUniverseRange_default {univ : ℤ} (hlo : 200 ≤ univ) (hhi : univ ≤ 247) :
    Acn.InUniverseRange (listenParam 200 48) univ := by
  rw [Acn.InUniverseRange, show (listenParam 200 48).universeStart.toInt = 200 from rfl,
    show (listenParam 200 48).universeEnd.toInt = 247 from rfl]
  exact ⟨hlo, hhi⟩

/-- `universe_isolation_iff` for the default range and packets of one and two slots for its first
two universes. -/
theorem universe_isolation_sample :
    AcnCommute (listenParam 200 48) (Acn.encodeDatagram 200 2 [1] (by decide))
      (Acn.encodeDatagram 201 3 [2, 3] (by decide)) := by
  have hfirst : Acn.Accepted (listenParam 200 48) (Acn.encodeDatagram 200 2 [1] (by decide)) :=
    Acn.accepted_encodeDatagram (inUniverseRange_default (by decide) (by decide))
  have hsecond : Acn.Accepted (listenParam 200 48) (Acn.encodeDatagram 201 3 [2, 3] (by decide)) :=
    Acn.accepted_encodeDatagram (inUniverseRange_default (by decide) (by decide))
  have hpair := (@universe_isolation_iff 200 48 (by decide) (by decide)).2.1 _ _ hfirst hsecond
  refine ((hpair ?_).mpr ⟨?_, ?_, ?_, ?_⟩).2.2
  · rw [Acn.getUniverse_encodeDatagram, Acn.getUniverse_encodeDatagram]
    decide
  · rw [Acn.propertyCount_encodeDatagram]
    decide
  · rw [Acn.propertyCount_encodeDatagram]
    decide
  · intro j hj _
    rw [Acn.propertyCount_encodeDatagram] at hj
    change j < 1 at hj
    rw [Acn.length_encodeDatagram, List.length_singleton]
    omega
  · intro j hj _
    rw [Acn.propertyCount_encodeDatagram] at hj
    change j < 2 at hj
    rw [Acn.length_encodeDatagram, List.length_cons, List.length_singleton]
    omega

/-- An accepted packet with a property count of 0 asks for a copy of 2^64 - 1 bytes. -/
theorem not_universe_isolation_sample :
    ¬∀ d : Datagram, Acn.Accepted (listenParam 200 48) d →
      ∀ c, Isolated (listenParam 200 48) (some d) c := by
  intro hall
  have haccepted : Acn.Accepted (listenParam 200 48) (Acn.encodeDatagram 200 0 [] (by decide)) :=
    Acn.accepted_encodeDatagram (inUniverseRange_default (by decide) (by decide))
  obtain ⟨hid, huniv, hcount⟩ := haccepted.recvfrom (default : Controller).acnEthBuffer
  rw [Acn.propertyCount_encodeDatagram] at hcount
  exact not_isolated_of_count_eq_zero rfl hid (by rw [huniv]; exact haccepted.inRange) hcount
    (hall _ haccepted default)

end PiPixelController
