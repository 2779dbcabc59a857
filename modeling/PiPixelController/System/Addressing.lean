import PiPixelController.Acn.Universes
import PiPixelController.Startup.Mapping
import PiPixelController.System.Defs

/-!
# Addressing of the slots

`universe_size` is read from the configuration file and used nowhere: the listener places
universes 512 bytes apart. A slot is at the address the layout gives it when its universe is the
first one, or when the layout has universes of 512 slots too.

* `patch_eq_slotPatch` — such a packet writes each of its slots to the address of the layout;
* `placed_of_probe` — a packet for another universe misses the address of its first slot;
* `get_of_run_residuePackets` — a slot that is declared and not carried is stored from what was
  received before;
* `channel_addressing_iff` — the buffer follows the layout after every sequence of packets for
  given universes that carry their slots exactly when these universes are where the listener
  places them.
-/

namespace PiPixelController

open CSemantics WriteLog

/-- `universe_size`, `UNIVERSE_SIZE` by default. -/
def ConfigFile.universeSizeSetting (file : ConfigFile) : BitVec 32 := file.universeSize.getD 512

namespace Acn

/-- The slots that a datagram both declares and carries, by universe and channel. -/
def slotPatch (d : Datagram) : Patch (ℤ × ℕ) Byte :=
  fun slot =>
    if slot.1 = getUniverse d.eth then
      ((d.bytes.drop 126).take (getPropertyCount d.eth).toNat)[slot.2 - 1]?
    else none

/-- The datagrams as the ACN listener receives them. -/
def actions (ds : List Datagram) : List Action := ds.map fun d => .acn (some d)

/-- The universe of a packet is a 16-bit number. -/
theorem exists_getUniverse_eq (eth : EthBuffer) :
    ∃ univ : BitVec 16, getUniverse eth = univ.toNat := by
  refine ⟨word16 (eth.get 113) (eth.get 114), ?_⟩
  rw [toNat_word16, getUniverse]
  push_cast
  rfl

end Acn

/-- The pixel buffer holds at the address of each slot of the layout what the datagrams last gave
to it, and zero if none carried it. -/
def FollowsLayout (params : AcnParam) (size : ℤ) (ds : List Datagram) (buffer : PixelBuffer) :
    Prop :=
  ∀ (univ : ℤ) (channel : ℕ), Acn.InUniverseRange params univ → 1 ≤ channel → channel ≤ size →
    ∀ i : Fin 24576, i = (univ - params.universeStart.toInt) * size + (channel - 1) →
      buffer i = (latest (ds.map Acn.slotPatch) (univ, channel)).getD 0

/-- The universe is where the listener places it: it is the first one, or universes have 512 slots
and it is one of the 48 the pixel buffer has room for. -/
def PlacedByLayout (params : AcnParam) (size univ : ℤ) : Prop :=
  univ = params.universeStart.toInt ∨ (size = 512 ∧ univ - params.universeStart.toInt < 48)

section

variable {params : Params} {size : ℤ} {c : Controller}

/-- A packet has at most as many slots as the layout gives a universe. -/
theorem AcnPacket.length_slots_le {P : AcnPacket params.acn}
    (hlen : Acn.propertyCount P.datagram.eth ≤ size + 1) : (P.slots.length : ℤ) ≤ size := by
  have hone := P.one_le
  rw [P.length_slots]
  omega

/-- A packet carries the slots it declares. -/
theorem AcnPacket.slotPatch_apply (P : AcnPacket params.acn) (slot : ℤ × ℕ) :
    Acn.slotPatch P.datagram slot =
      if slot.1 = Acn.getUniverse P.datagram.eth then P.slots[slot.2 - 1]? else none := by
  have hone := P.one_le
  have hcomplete := P.complete
  have hslots :
      (P.datagram.bytes.drop 126).take (Acn.getPropertyCount P.datagram.eth).toNat = P.slots := by
    apply List.ext_getElem
    · rw [List.length_take, List.length_drop, P.length_slots, Acn.getPropertyCount]
      omega
    · intro j hj hj'
      rw [P.length_slots] at hj'
      rw [List.getElem_take, List.getElem_drop, ← List.getD_eq_getElem _ 0 (by omega),
        ← Datagram.eth_get]
      simp only [AcnPacket.slots, Block.getElem_slice]
  rw [Acn.slotPatch, hslots]

/-- The listener places a universe as the layout does. -/
theorem AcnPacket.address_eq {P : AcnPacket params.acn} {k n : ℕ}
    (hplaced : PlacedByLayout params.acn n (Acn.getUniverse P.datagram.eth))
    (hk : Acn.getUniverse P.datagram.eth - params.acn.universeStart.toInt = k) :
    P.address = k * n := by
  rw [AcnPacket.address, hk]
  rcases hplaced with hfirst | ⟨hfull, -⟩
  · obtain rfl : k = 0 := by omega
    rw [Nat.zero_mul]
    rfl
  · obtain rfl : n = 512 := by omega
    omega

/-- Such a packet writes each of its slots to the address of the layout, and nothing else. -/
theorem patch_eq_slotPatch {P : AcnPacket params.acn} {univ : ℤ} {channel i : ℕ}
    (hplaced : PlacedByLayout params.acn size (Acn.getUniverse P.datagram.eth))
    (hlen : Acn.propertyCount P.datagram.eth ≤ size + 1)
    (huniv : params.acn.universeStart.toInt ≤ univ) (hone : 1 ≤ channel) (hle : channel ≤ size)
    (hi : i = (univ - params.acn.universeStart.toInt) * size + (channel - 1)) :
    P.patch i = Acn.slotPatch P.datagram (univ, channel) := by
  have hslots := P.length_slots_le hlen
  obtain ⟨n, rfl⟩ := Int.eq_ofNat_of_zero_le (show 0 ≤ size by omega)
  obtain ⟨k, hk⟩ := Int.eq_ofNat_of_zero_le (sub_nonneg.mpr P.inRange.1)
  obtain ⟨m, hm⟩ := Int.eq_ofNat_of_zero_le (sub_nonneg.mpr huniv)
  have haddress := P.address_eq hplaced hk
  obtain rfl : i = m * n + (channel - 1) := by
    rw [hm, ← Nat.cast_mul] at hi
    omega
  rw [AcnPacket.patch, rangePatch, P.slotPatch_apply, haddress]
  -- the universe of the packet is the one looked at, one before it or one behind it
  rcases lt_trichotomy k m with hlt | rfl | hlt
  · have hnext : (k + 1) * n ≤ m * n := Nat.mul_le_mul_right n hlt
    rw [Nat.succ_mul] at hnext
    rw [if_pos (by omega), if_neg (by simp only; omega), List.getElem?_eq_none (by omega)]
  · rw [if_pos (by omega), if_pos (by simp only; omega), Nat.add_sub_cancel_left]
  · have hnext : (m + 1) * n ≤ k * n := Nat.mul_le_mul_right n hlt
    rw [Nat.succ_mul] at hnext
    rw [if_neg (by omega), if_neg (by simp only; omega)]

/-- A run over packets that are where the layout places them applies their patches. -/
theorem run_actions {Ps : List (AcnPacket params.acn)}
    (hplaced : ∀ P ∈ Ps,
      Acn.getUniverse P.datagram.eth - params.acn.universeStart.toInt < 48) :
    ∃ c', c.run params (Acn.actions (Ps.map AcnPacket.datagram)) = .ok c' ∧
      c'.pixelBuffer.get = replay (Ps.map AcnPacket.patch) c.pixelBuffer.get := by
  induction Ps generalizing c with
  | nil => exact ⟨c, rfl, rfl⟩
  | cons P Ps ih =>
      obtain ⟨buffer, hstep, hbuffer⟩ := P.acnListen_eq_of_lt (hplaced P List.mem_cons_self) c
      obtain ⟨c', hrun, hc'⟩ := @ih { c with
          acnEthBuffer := EthBuffer.recvfrom c.acnEthBuffer (some P.datagram)
          pixelBuffer := buffer } fun Q hQ => hplaced Q (List.mem_cons_of_mem P hQ)
      refine ⟨c', ?_, ?_⟩
      · rw [Controller.run, List.map_cons, Acn.actions, List.map_cons, List.foldlM_cons,
          Controller.step, hstep, Outcome.ok_bind]
        exact hrun
      · rw [hc', hbuffer]
        rfl

/-- Packets that are where the layout places them keep the buffer to the layout. -/
theorem exists_followsLayout {Ps : List (AcnPacket params.acn)}
    (hplaced : ∀ P ∈ Ps, PlacedByLayout params.acn size (Acn.getUniverse P.datagram.eth))
    (hlen : ∀ P ∈ Ps, Acn.propertyCount P.datagram.eth ≤ size + 1)
    (hzero : c.pixelBuffer = fun _ => 0) :
    ∃ c', c.run params (Acn.actions (Ps.map AcnPacket.datagram)) = .ok c' ∧
      FollowsLayout params.acn size (Ps.map AcnPacket.datagram) c'.pixelBuffer := by
  have hfirst : ∀ P ∈ Ps,
      Acn.getUniverse P.datagram.eth - params.acn.universeStart.toInt < 48 := by
    intro P hP
    rcases hplaced P hP with h | ⟨-, h⟩ <;> omega
  obtain ⟨c', hrun, hbuffer⟩ := @run_actions params c Ps hfirst
  refine ⟨c', hrun, fun univ channel huniv hone hle i hi => ?_⟩
  have hpatches : latest (Ps.map AcnPacket.patch) i =
      latest ((Ps.map AcnPacket.datagram).map Acn.slotPatch) (univ, channel) := by
    rw [List.map_map]
    exact latest_map_congr fun P hP =>
      patch_eq_slotPatch (hplaced P hP) (hlen P hP) huniv.1 hone hle hi
  rw [← Block.get_of_lt c'.pixelBuffer i.isLt, hbuffer, replay_apply, hpatches, hzero]
  simp [Block.get]

/-! ### Universes that are misplaced -/

variable {c' : Controller}

/-- A packet for whatever universe places its slots at the offset the listener computes. -/
theorem AcnPacket.exists_offset {P : AcnPacket params.acn} (hslots : P.slots ≠ [])
    (hrun : acnListen params.acn (some P.datagram) c = .ok c') :
    ∃ o : ℕ, (o : ℤ) =
        (Acn.bufferOffset params.acn (Acn.getUniverse P.datagram.eth)).toInt ∧
      o + P.slots.length ≤ 24576 ∧
      c'.pixelBuffer.get = (rangePatch o P.slots).apply c.pixelBuffer.get := by
  rw [acnListen_eq_memcpy, Outcome.map_eq_ok_iff] at hrun
  obtain ⟨buffer, hcopy, rfl⟩ := hrun
  rw [Block.memcpy_eq_ok_iff, Block.CopyFits] at hcopy
  obtain ⟨hfit, rfl⟩ := hcopy
  have hpos : 0 < P.slots.length := List.length_pos_iff.mpr hslots
  refine ⟨(Acn.bufferOffset params.acn (Acn.getUniverse P.datagram.eth)).toInt.toNat, by omega,
    by omega, ?_⟩
  have hpatch := get_copy_eq_apply c.pixelBuffer
    (Acn.bufferOffset params.acn (Acn.getUniverse P.datagram.eth)).toInt.toNat
    (EthBuffer.recvfrom c.acnEthBuffer (some P.datagram)) 126 P.slots.length (by omega)
  rwa [slice_recvfrom] at hpatch

/-- The packet that sets the first slot of a universe to 1. -/
def AcnPacket.probe (univ : BitVec 16) (hrange : Acn.InUniverseRange params.acn univ.toNat) :
    AcnPacket params.acn :=
  AcnPacket.encode univ hrange [1] (by decide)

variable {univ : BitVec 16} {hrange : Acn.InUniverseRange params.acn univ.toNat}

theorem AcnPacket.slots_probe : (AcnPacket.probe univ hrange).slots = [1] :=
  AcnPacket.slots_encode

theorem AcnPacket.getUniverse_probe :
    Acn.getUniverse (AcnPacket.probe univ hrange).datagram.eth = univ.toNat :=
  AcnPacket.getUniverse_encode

theorem AcnPacket.propertyCount_probe :
    Acn.propertyCount (AcnPacket.probe univ hrange).datagram.eth = 2 :=
  AcnPacket.propertyCount_encode

/-- In a cleared buffer the byte a probe sets is the only one. -/
theorem exists_probed (hzero : c.pixelBuffer = fun _ => 0)
    (hrun : c.run params (Acn.actions [(AcnPacket.probe univ hrange).datagram]) = .ok c') :
    ∃ o : Fin 24576, (o : ℤ) = (Acn.bufferOffset params.acn univ.toNat).toInt ∧
      ∀ i, c'.pixelBuffer i = if i = o then 1 else 0 := by
  rw [Acn.actions, List.map_singleton, Controller.run, List.foldlM_cons,
    Outcome.bind_eq_ok_iff] at hrun
  obtain ⟨c'', hstep, hrest⟩ := hrun
  obtain rfl : c'' = c' := Outcome.ok.inj hrest
  obtain ⟨o, ho, hle, hbuffer⟩ := AcnPacket.exists_offset (by
    rw [AcnPacket.slots_probe]
    exact List.cons_ne_nil _ _) hstep
  rw [AcnPacket.slots_probe] at hle hbuffer
  rw [AcnPacket.getUniverse_probe] at ho
  rw [List.length_singleton] at hle
  refine ⟨⟨o, hle⟩, ho, fun i => ?_⟩
  have hi := congrFun hbuffer i
  rw [Block.get_of_lt _ i.isLt, hzero, Patch.apply, rangePatch] at hi
  rw [hi]
  -- the range written is the single byte at `o`
  rcases lt_trichotomy i.val o with hlt | heq | hlt
  · rw [if_neg (by omega), if_neg (by rw [Fin.ext_iff]; simp only; omega)]
    simp [Block.get]
  · rw [if_pos (by omega), if_pos (Fin.ext heq), heq, Nat.sub_self]
    rfl
  · rw [if_pos (by omega), if_neg (by rw [Fin.ext_iff]; simp only; omega),
      List.getElem?_eq_none (by rw [List.length_singleton]; omega)]
    simp [Block.get]

/-- If the buffer follows the layout after a probe, the universe is where the listener places
it. -/
theorem placed_of_probe (hone : 1 ≤ size) (hzero : c.pixelBuffer = fun _ => 0)
    (hrun : c.run params (Acn.actions [(AcnPacket.probe univ hrange).datagram]) = .ok c')
    (hfollows :
      FollowsLayout params.acn size [(AcnPacket.probe univ hrange).datagram] c'.pixelBuffer) :
    PlacedByLayout params.acn size univ.toNat := by
  obtain ⟨o, ho, hbytes⟩ := exists_probed hzero hrun
  have hslot : ∀ slot, latest ([(AcnPacket.probe univ hrange).datagram].map Acn.slotPatch) slot =
      if slot.1 = univ.toNat then [1][slot.2 - 1]? else none := by
    intro slot
    rw [List.map_singleton, latest_singleton, AcnPacket.slotPatch_apply,
      AcnPacket.getUniverse_probe, AcnPacket.slots_probe]
  obtain ⟨n, rfl⟩ := Int.eq_ofNat_of_zero_le (show 0 ≤ size by omega)
  obtain ⟨k, hk⟩ := Int.eq_ofNat_of_zero_le (sub_nonneg.mpr hrange.1)
  have hn : 0 < n := by omega
  by_cases hlt : k * n < 24576
  · -- the layout has a byte for the slot, which must be the one that was set
    have hset := hfollows univ.toNat 1 hrange (le_refl 1) (by omega) ⟨k * n, hlt⟩ (by
      rw [hk]
      push_cast
      omega)
    rw [hslot, if_pos rfl, hbytes] at hset
    have heq : (⟨k * n, hlt⟩ : Fin 24576) = o := by
      by_contra hne
      rw [if_neg hne] at hset
      have hbad : (0 : Byte) = 1 := hset
      exact absurd hbad (by decide)
    have hkn : k ≤ k * n := Nat.le_mul_of_pos_right k hn
    rw [Acn.toInt_bufferOffset_of_lt hrange (by omega), hk, ← heq] at ho
    have hmul : k * n = k * 512 := by
      simp only at ho
      omega
    rcases Nat.eq_zero_or_pos k with hzero | hpos
    · exact Or.inl (by omega)
    · have hfull : n = 512 := Nat.eq_of_mul_eq_mul_left hpos hmul
      exact Or.inr ⟨by rw [hfull]; rfl, by omega⟩
  · -- the byte that was set belongs to a universe no packet was received for
    exfalso
    have hdiv : o.val / n < k := (Nat.div_lt_iff_lt_mul hn).mpr (by omega)
    have hmod : o.val % n < n := Nat.mod_lt _ hn
    have hsplit := Nat.div_add_mod' o.val n
    generalize o.val / n = q at hdiv hsplit
    generalize o.val % n = r at hmod hsplit
    have hunset := hfollows (params.acn.universeStart.toInt + q) (r + 1)
      ⟨by omega, by have := hrange.2; omega⟩ (by omega) (by omega) o (by
        rw [add_sub_cancel_left, Nat.cast_succ, add_sub_cancel_right, ← hsplit]
        push_cast
        rfl)
    rw [hslot, if_neg (by simp only; omega), hbytes, if_pos rfl] at hunset
    exact absurd hunset (by decide)

/-- The buffer follows the layout after every sequence of packets for the given universes exactly
when each of these in the range is where the listener places it. -/
theorem forall_followsLayout_iff (universes : Set ℤ) (hone : 1 ≤ size)
    (hzero : c.pixelBuffer = fun _ => 0) :
    (∀ Ps : List (AcnPacket params.acn),
      (∀ P ∈ Ps, Acn.getUniverse P.datagram.eth ∈ universes ∧
        Acn.propertyCount P.datagram.eth ≤ size + 1) →
        ∃ c', c.run params (Acn.actions (Ps.map AcnPacket.datagram)) = .ok c' ∧
          FollowsLayout params.acn size (Ps.map AcnPacket.datagram) c'.pixelBuffer) ↔
      ∀ univ : BitVec 16, (univ.toNat : ℤ) ∈ universes →
        Acn.InUniverseRange params.acn univ.toNat →
          PlacedByLayout params.acn size univ.toNat := by
  constructor
  · intro h univ hmem hrange
    -- a packet with the first slot of the universe shows where the listener places it
    obtain ⟨c', hrun, hfollows⟩ := h [AcnPacket.probe univ hrange] (by
      intro P hP
      obtain rfl := List.mem_singleton.mp hP
      rw [AcnPacket.getUniverse_probe, AcnPacket.propertyCount_probe]
      exact ⟨hmem, by omega⟩)
    exact placed_of_probe hone hzero hrun hfollows
  · intro h Ps hPs
    refine exists_followsLayout (fun P hP => ?_) (fun P hP => (hPs P hP).2) hzero
    obtain ⟨univ, huniv⟩ := Acn.exists_getUniverse_eq P.datagram.eth
    have hmem := (hPs P hP).1
    have hrange := P.inRange
    rw [huniv] at hmem hrange ⊢
    exact h univ hmem hrange

/-! ### Slots that are not carried -/

/-- A packet for the universe that declares no slot and has a byte where the first one would be,
and one that declares a slot and ends where it would begin. -/
def Acn.residuePackets (univ : BitVec 16) : List Datagram :=
  [Acn.encodeDatagram univ 1 [1] (by decide), Acn.encodeDatagram univ 2 [] (by decide)]

/-- None of them carries a slot. -/
theorem Acn.latest_residuePackets (slot : ℤ × ℕ) :
    latest ((Acn.residuePackets univ).map Acn.slotPatch) slot = none := by
  have hfirst : (Acn.getPropertyCount
      (Acn.encodeDatagram univ 1 [1] (by decide)).eth).toNat = 0 := by
    rw [Acn.getPropertyCount, Acn.propertyCount_encodeDatagram]
    rfl
  have hsecond : (Acn.encodeDatagram univ 2 [] (by decide)).bytes.drop 126 = [] := by
    rw [List.drop_eq_nil_iff, Acn.length_encodeDatagram]
    rfl
  rw [latest_eq_none_iff]
  intro f hf
  simp only [Acn.residuePackets, List.map_cons, List.map_nil, List.mem_cons, List.not_mem_nil,
    or_false] at hf
  obtain rfl | rfl := hf
  · rw [Acn.slotPatch, hfirst, List.take_zero, List.getElem?_nil, ite_self]
  · rw [Acn.slotPatch, hsecond, List.take_nil, List.getElem?_nil, ite_self]

/-- The second one stores the byte of the first. -/
theorem get_of_run_residuePackets
    (hrun : c.run params (Acn.actions (Acn.residuePackets univ)) = .ok c')
    (hrange : Acn.InUniverseRange params.acn univ.toNat) :
    c'.pixelBuffer.get (Acn.bufferOffset params.acn univ.toNat).toInt.toNat = 1 := by
  rw [Acn.actions, Acn.residuePackets, List.map_cons, List.map_singleton, Controller.run,
    List.foldlM_cons, Outcome.bind_eq_ok_iff] at hrun
  obtain ⟨c₁, hfirst, hrun⟩ := hrun
  rw [List.foldlM_cons, Outcome.bind_eq_ok_iff] at hrun
  obtain ⟨c₂, hsecond, hrest⟩ := hrun
  obtain rfl : c₂ = c' := Outcome.ok.inj hrest
  rw [Controller.step, Acn.acnListen_eq_effect, Outcome.map_eq_ok_iff] at hfirst
  obtain ⟨buffer, -, rfl⟩ := hfirst
  have haccepted : Acn.Accepted params.acn (Acn.encodeDatagram univ 2 [] (by decide)) :=
    Acn.accepted_encodeDatagram hrange
  have hcount :
      sizeT (Acn.getPropertyCount (Acn.encodeDatagram univ 2 [] (by decide)).eth) = 1 := by
    rw [Acn.getPropertyCount, Acn.propertyCount_encodeDatagram]
    rfl
  rw [Controller.step, haccepted.acnListen_eq, Acn.getUniverse_encodeDatagram, hcount,
    Outcome.map_eq_ok_iff] at hsecond
  obtain ⟨buffer', hcopy, rfl⟩ := hsecond
  obtain ⟨hfit, rfl⟩ := Block.memcpy_eq_ok_iff.mp hcopy
  rw [Block.CopyFits] at hfit
  simp only
  rw [Block.get_copy _ _ _ _ _ (by omega), if_pos (by omega), Nat.sub_self,
    EthBuffer.get_recvfrom_of_le (by rw [Acn.length_encodeDatagram]; rfl),
    Datagram.get_recvfrom _ (by rw [Acn.length_encodeDatagram]; decide)]
  exact Acn.eth_get_slot 0

/-- The buffer follows the layout after every sequence of packets for the given universes, whether
or not they carry the slots they declare, only where none of these packets can be accepted. -/
theorem forall_accepted_followsLayout_iff (universes : Set ℤ) (hone : 1 ≤ size)
    (hzero : c.pixelBuffer = fun _ => 0) :
    (∀ ds : List Datagram,
      (∀ d ∈ ds, Acn.Accepted params.acn d ∧ Acn.getUniverse d.eth ∈ universes ∧
        1 ≤ Acn.propertyCount d.eth ∧ Acn.propertyCount d.eth ≤ size + 1) →
        ∃ c', c.run params (Acn.actions ds) = .ok c' ∧
          FollowsLayout params.acn size ds c'.pixelBuffer) ↔
      ∀ univ : BitVec 16, (univ.toNat : ℤ) ∈ universes →
        ¬Acn.InUniverseRange params.acn univ.toNat := by
  constructor
  · intro h univ hmem hrange
    have hplaced : PlacedByLayout params.acn size univ.toNat := by
      refine (forall_followsLayout_iff universes hone hzero).mp
        (fun Ps hPs => h _ fun d hd => ?_) univ hmem hrange
      obtain ⟨P, hP, rfl⟩ := List.mem_map.mp hd
      exact ⟨P.accepted, (hPs P hP).1, P.one_le, (hPs P hP).2⟩
    obtain ⟨c', hrun, hfollows⟩ := h (Acn.residuePackets univ) (by
      intro d hd
      simp only [Acn.residuePackets, List.mem_cons, List.not_mem_nil, or_false] at hd
      obtain rfl | rfl := hd
      · rw [Acn.getUniverse_encodeDatagram, Acn.propertyCount_encodeDatagram]
        exact ⟨Acn.accepted_encodeDatagram hrange, hmem, by decide,
          by change (1 : ℤ) ≤ _; omega⟩
      · rw [Acn.getUniverse_encodeDatagram, Acn.propertyCount_encodeDatagram]
        exact ⟨Acn.accepted_encodeDatagram hrange, hmem, by decide,
          by change (2 : ℤ) ≤ _; omega⟩)
    have hbyte := get_of_run_residuePackets hrun hrange
    have hlo := hrange.1
    -- the listener and the layout agree on where the first slot of the universe is
    have hlt : (univ.toNat : ℤ) - params.acn.universeStart.toInt < 48 := by
      rcases hplaced with hfirst | ⟨-, hlt⟩ <;> omega
    have haddress : ((univ.toNat : ℤ) - params.acn.universeStart.toInt) * 512 =
        (univ.toNat - params.acn.universeStart.toInt) * size := by
      rcases hplaced with hfirst | ⟨rfl, -⟩
      · rw [hfirst, sub_self, zero_mul, zero_mul]
      · rfl
    rw [Acn.toInt_bufferOffset_of_lt hrange (by omega), Block.get_of_lt _ (by omega),
      hfollows univ.toNat 1 hrange (le_refl 1) (by omega) _ (by
        rw [← haddress]
        simp only
        omega), Acn.latest_residuePackets] at hbyte
    exact absurd hbyte (by decide)
  · intro h ds hds
    cases ds with
    | nil => exact @exists_followsLayout params size c [] (by simp) (by simp) hzero
    | cons d ds =>
        obtain ⟨univ, huniv⟩ := Acn.exists_getUniverse_eq d.eth
        obtain ⟨haccepted, hmem, -⟩ := hds d List.mem_cons_self
        have hrange := haccepted.inRange
        rw [huniv] at hmem hrange
        exact absurd hrange (h univ hmem)

end

/-- For every configuration file with a positive `universe_size` and whatever universes the packets
name: after every sequence of accepted packets for these universes with no more slots than that,
all of which they carry, the buffer holds at the address of each slot the value of the last packet
that carried it, and zero if there was none, exactly when each of these universes that is in the
range is where the listener places it: it is `universe_start`, or `universe_size` is 512. With
packets that do not carry all their slots that is so only where none of them can be accepted. -/
theorem channel_addressing_iff {file : ConfigFile} {c : Controller} (hstart : c.StartsFrom file)
    (controllerName : Block 48) (hone : 1 ≤ file.universeSizeSetting.toInt)
    (universes : Set ℤ) :
    ((∀ Ps : List (AcnPacket file.acnParam),
      (∀ P ∈ Ps, Acn.getUniverse P.datagram.eth ∈ universes ∧
        Acn.propertyCount P.datagram.eth ≤ file.universeSizeSetting.toInt + 1) →
        ∃ c', c.run ⟨file.acnParam, controllerName⟩
            (Acn.actions (Ps.map AcnPacket.datagram)) = .ok c' ∧
          FollowsLayout file.acnParam file.universeSizeSetting.toInt (Ps.map AcnPacket.datagram)
            c'.pixelBuffer) ↔
      ∀ univ : BitVec 16, (univ.toNat : ℤ) ∈ universes →
        Acn.InUniverseRange file.acnParam univ.toNat →
          PlacedByLayout file.acnParam file.universeSizeSetting.toInt univ.toNat) ∧
    ((∀ ds : List Datagram,
      (∀ d ∈ ds, Acn.Accepted file.acnParam d ∧ Acn.getUniverse d.eth ∈ universes ∧
        1 ≤ Acn.propertyCount d.eth ∧
        Acn.propertyCount d.eth ≤ file.universeSizeSetting.toInt + 1) →
        ∃ c', c.run ⟨file.acnParam, controllerName⟩ (Acn.actions ds) = .ok c' ∧
          FollowsLayout file.acnParam file.universeSizeSetting.toInt ds c'.pixelBuffer) ↔
      ∀ univ : BitVec 16, (univ.toNat : ℤ) ∈ universes →
        ¬Acn.InUniverseRange file.acnParam univ.toNat) :=
  ⟨@forall_followsLayout_iff ⟨file.acnParam, controllerName⟩ _ c universes hone
      hstart.pixelBuffer,
    @forall_accepted_followsLayout_iff ⟨file.acnParam, controllerName⟩ _ c universes hone
      hstart.pixelBuffer⟩

/-- A file whose only setting is `universe_size`. -/
def ConfigFile.ofUniverseSize (size : BitVec 32) : ConfigFile :=
  { (default : ConfigFile) with universeSize := some size }

theorem exists_startsFrom_ofUniverseSize (size : BitVec 32) :
    ∃ c : Controller, c.StartsFrom (ConfigFile.ofUniverseSize size) := by
  have hload : loadChannels (ConfigFile.ofUniverseSize size) = .ok Workers.zero := rfl
  obtain ⟨c, hstart, -⟩ := exists_startsFrom hload
  exact ⟨c, hstart⟩

/-- `channel_addressing_iff` for a file with universes of 512 slots and packets for any universe,
and for one with universes of 170 slots and packets for the first one, 200. -/
theorem channel_addressing_sample :
    (∃ c : Controller, c.StartsFrom (ConfigFile.ofUniverseSize 512) ∧
      ∀ Ps : List (AcnPacket (ConfigFile.ofUniverseSize 512).acnParam),
        (∀ P ∈ Ps, Acn.propertyCount P.datagram.eth ≤ 512 + 1) →
          ∃ c', c.run ⟨(ConfigFile.ofUniverseSize 512).acnParam, default⟩
              (Acn.actions (Ps.map AcnPacket.datagram)) = .ok c' ∧
            FollowsLayout (ConfigFile.ofUniverseSize 512).acnParam 512
              (Ps.map AcnPacket.datagram) c'.pixelBuffer) ∧
    ∃ c : Controller, c.StartsFrom (ConfigFile.ofUniverseSize 170) ∧
      ∀ Ps : List (AcnPacket (ConfigFile.ofUniverseSize 170).acnParam),
        (∀ P ∈ Ps, Acn.getUniverse P.datagram.eth = 200 ∧
          Acn.propertyCount P.datagram.eth ≤ 170 + 1) →
          ∃ c', c.run ⟨(ConfigFile.ofUniverseSize 170).acnParam, default⟩
              (Acn.actions (Ps.map AcnPacket.datagram)) = .ok c' ∧
            FollowsLayout (ConfigFile.ofUniverseSize 170).acnParam 170
              (Ps.map AcnPacket.datagram) c'.pixelBuffer := by
  constructor
  · obtain ⟨c, hstart⟩ := exists_startsFrom_ofUniverseSize 512
    have hfollows := (channel_addressing_iff hstart default (by decide) Set.univ).1.mpr (by
      intro univ _ hrange
      -- 48 universes from 200 on
      have hend : (univ.toNat : ℤ) ≤ 247 := hrange.2
      refine Or.inr ⟨rfl, ?_⟩
      change (univ.toNat : ℤ) - 200 < 48
      omega)
    exact ⟨c, hstart, fun Ps hlen => hfollows Ps fun P hP => ⟨Set.mem_univ _, hlen P hP⟩⟩
  · obtain ⟨c, hstart⟩ := exists_startsFrom_ofUniverseSize 170
    have hfollows := (channel_addressing_iff hstart default (by decide) {200}).1.mpr
      fun univ huniv _ => Or.inl huniv
    exact ⟨c, hstart, hfollows⟩

/-- With universes of 170 slots, the shipped start and count, the first slot of universe 201 goes
to the address of slot 3 of universe 203. -/
theorem not_channel_addressing_sample :
    ¬∀ c : Controller, c.StartsFrom (ConfigFile.ofUniverseSize 170) →
      ∀ Ps : List (AcnPacket (ConfigFile.ofUniverseSize 170).acnParam),
        (∀ P ∈ Ps, Acn.propertyCount P.datagram.eth ≤ 170 + 1) →
          ∃ c', c.run ⟨(ConfigFile.ofUniverseSize 170).acnParam, default⟩
              (Acn.actions (Ps.map AcnPacket.datagram)) = .ok c' ∧
            FollowsLayout (ConfigFile.ofUniverseSize 170).acnParam 170
              (Ps.map AcnPacket.datagram) c'.pixelBuffer := by
  intro hall
  obtain ⟨c, hstart⟩ := exists_startsFrom_ofUniverseSize 170
  have hplaced := (@forall_followsLayout_iff
    ⟨(ConfigFile.ofUniverseSize 170).acnParam, default⟩ 170 c Set.univ (by decide)
    hstart.pixelBuffer).mp (fun Ps hPs => hall c hstart Ps fun P hP => (hPs P hP).2) 201
    (Set.mem_univ _) (by decide)
  rw [PlacedByLayout] at hplaced
  exact absurd hplaced (by decide)

end PiPixelController
