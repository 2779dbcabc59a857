import PiPixelController.Controller.Defs

/-!
# The residue of the receive buffer

`recvfrom` overwrites only the first bytes of a receive buffer, so what a listener works on is
the datagram followed by the residue of earlier ones. The buffers a datagram can end up in are
exactly those that carry it (`Datagram.CarriedBy`); a datagram decides what happens when all of
them give one defined outcome (`Datagram.Decides`).
-/

namespace PiPixelController

open CSemantics

/-- The buffer starts with the bytes of the datagram; everything after them is residue. -/
def Datagram.CarriedBy (d : Datagram) (eth : EthBuffer) : Prop :=
  ∀ i < d.bytes.length, eth.get i = d.eth.get i

/-- The buffer with one byte replaced. -/
def EthBuffer.set (eth : EthBuffer) (i : ℕ) (b : Byte) : EthBuffer := Block.write eth i [b]

section

variable {d : Datagram} {eth : EthBuffer}

theorem EthBuffer.get_set (eth : EthBuffer) {i : ℕ} (hi : i < 1500) (b : Byte) (j : ℕ) :
    (eth.set i b).get j = if j = i then b else eth.get j := by
  split
  next h =>
    subst h
    rw [EthBuffer.set, Block.get_write_of_mem eth hi (le_refl j) (by simp)]
    simp
  next h =>
    rw [EthBuffer.set, Block.get_write_of_notMem]
    rw [List.length_singleton]
    omega

theorem EthBuffer.get_set_of_ne (eth : EthBuffer) {i j : ℕ} (h : j ≠ i) (b : Byte) :
    (eth.set i b).get j = eth.get j := by
  rw [EthBuffer.set, Block.get_write_of_notMem]
  rw [List.length_singleton]
  omega

theorem EthBuffer.get_set_self (eth : EthBuffer) {i : ℕ} (hi : i < 1500) (b : Byte) :
    (eth.set i b).get i = b := by
  rw [EthBuffer.get_set eth hi, if_pos rfl]

theorem Datagram.carriedBy_eth (d : Datagram) : d.CarriedBy d.eth := fun _ _ => rfl

theorem Datagram.carriedBy_recvfrom (d : Datagram) (eth : EthBuffer) :
    d.CarriedBy (EthBuffer.recvfrom eth (some d)) :=
  fun _ hi => d.get_recvfrom eth hi

/-- Receiving a datagram into a buffer that carries it changes nothing. -/
theorem Datagram.CarriedBy.recvfrom_eq (h : d.CarriedBy eth) :
    EthBuffer.recvfrom eth (some d) = eth := by
  apply Block.ext_get
  intro i _
  by_cases hi : i < d.bytes.length
  · rw [d.get_recvfrom eth hi, h i hi]
  · exact EthBuffer.get_recvfrom_of_le (not_lt.mp hi)

/-- Behind the datagram the residue is arbitrary. -/
theorem Datagram.CarriedBy.set (h : d.CarriedBy eth) {i : ℕ} (hi : d.bytes.length ≤ i)
    (b : Byte) : d.CarriedBy (eth.set i b) := by
  intro j hj
  rw [EthBuffer.get_set_of_ne eth (by omega), h j hj]

/-- Behind the datagram `Datagram.eth` holds zeros. -/
theorem Datagram.eth_get_of_le {i : ℕ} (h : d.bytes.length ≤ i) : d.eth.get i = 0 := by
  rw [Datagram.eth_get, List.getD_eq_getElem?_getD, List.getElem?_eq_none h, Option.getD_none]

end

/-- All buffers that carry the datagram give one outcome, and its behaviour is defined. -/
def Datagram.Decides (d : Datagram) {α : Type} (effect : EthBuffer → Outcome α) : Prop :=
  ∃ r, r ≠ .undefined ∧ ∀ eth, d.CarriedBy eth → effect eth = r

namespace Datagram.Decides

variable {α : Type} {d : Datagram} {effect : EthBuffer → Outcome α} {eth eth' : EthBuffer}

theorem eq (h : d.Decides effect) (heth : d.CarriedBy eth) (heth' : d.CarriedBy eth') :
    effect eth = effect eth' := by
  obtain ⟨r, -, hr⟩ := h
  rw [hr eth heth, hr eth' heth']

theorem ne_undefined (h : d.Decides effect) (heth : d.CarriedBy eth) :
    effect eth ≠ .undefined := by
  obtain ⟨r, hne, hr⟩ := h
  rwa [hr eth heth]

/-- It is enough to compare with a residue of zeros. -/
theorem of_eth (hne : effect d.eth ≠ .undefined)
    (h : ∀ eth, d.CarriedBy eth → effect eth = effect d.eth) : d.Decides effect :=
  ⟨effect d.eth, hne, h⟩

/-- Every two contents of the receive buffer before `recvfrom` give one defined outcome exactly
when the datagram decides. -/
theorem forall_recvfrom_iff :
    (∀ eth eth', effect (EthBuffer.recvfrom eth (some d)) =
        effect (EthBuffer.recvfrom eth' (some d)) ∧
      effect (EthBuffer.recvfrom eth (some d)) ≠ .undefined) ↔ d.Decides effect := by
  constructor
  · intro h
    have hself := d.carriedBy_eth.recvfrom_eq
    refine of_eth (hself ▸ (h d.eth d.eth).2) fun eth heth => ?_
    have heq := (h eth d.eth).1
    rwa [heth.recvfrom_eq, hself] at heq
  · intro h eth eth'
    exact ⟨h.eq (d.carriedBy_recvfrom eth) (d.carriedBy_recvfrom eth'),
      h.ne_undefined (d.carriedBy_recvfrom eth)⟩

/-- Only the buffers that carry the datagram count. -/
theorem congr {effect' : EthBuffer → Outcome α}
    (h : ∀ eth, d.CarriedBy eth → effect eth = effect' eth) :
    d.Decides effect ↔ d.Decides effect' :=
  exists_congr fun _ => and_congr_right fun _ => forall₂_congr fun eth heth => by rw [h eth heth]

/-- What does not look at the buffer is decided when it is defined. -/
theorem const_iff {r : Outcome α} : (d.Decides fun _ => r) ↔ r ≠ .undefined :=
  ⟨fun h => h.ne_undefined d.carriedBy_eth, fun h => ⟨r, h, fun _ _ => rfl⟩⟩

/-- What is read off a decided outcome is decided. -/
theorem map {β : Type} (h : d.Decides effect) (f : α → β) : d.Decides fun eth => f <$> effect eth :=
  .of_eth (fun hundef => h.ne_undefined d.carriedBy_eth (Outcome.map_eq_undefined_iff.mp hundef))
    fun _ heth => congrArg (f <$> ·) (h.eq heth d.carriedBy_eth)

/-- An injective function of the outcome does not change what decides it. -/
theorem map_iff {β : Type} {f : α → β} (hf : f.Injective) :
    (d.Decides fun eth => f <$> effect eth) ↔ d.Decides effect := by
  refine ⟨fun h => of_eth (fun hundef => ?_) fun eth heth => ?_, fun h => h.map f⟩
  · exact h.ne_undefined d.carriedBy_eth (Outcome.map_eq_undefined_iff.mpr hundef)
  · exact (Outcome.map_inj hf).mp (h.eq heth d.carriedBy_eth)

end Datagram.Decides

/-- What an observer sees of the state: the pixel buffer, the mapping and the sequence number of
the last configuration. -/
def Controller.observed (c : Controller) : PixelBuffer × Mapping × BitVec 32 :=
  (c.pixelBuffer, c.workers.mapping, c.lastConfigSequence)

end PiPixelController
