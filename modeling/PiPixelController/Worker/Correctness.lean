import Mathlib.Algebra.Order.BigOperators.Group.List
import PiPixelController.CSemantics.Framing
import PiPixelController.Worker.Defs

/-!
# What a refresh transmits

A mapping is *packable* for a port when no count is negative, every non-empty slice lies inside
the pixel buffer, and the eight counts sum to at most `MAX_CHANNELS_PER_DEVICE`.

Main results:

* `packStrings_eq_ok_iff` — the string loop of a port completes exactly when the mapping is
  packable for it, and what it leaves in the payload buffer;
* `workerRefresh_of_packable` — a refresh then sends to each port the length-prefixed frame of
  the port's eight slices of the pixel buffer;
* `packable_of_workerRefresh`, `workerRefresh_ne_undefined_iff` — a refresh that completes, or is
  defined, had a packable mapping.
-/

namespace PiPixelController

open CSemantics

namespace Cell

/-- The count is not negative, and the slice, if it has any bytes, is inside the pixel
buffer. -/
def InBuffer (cell : Cell) : Prop :=
  0 ≤ cell.channelCount.toInt ∧
    (cell.channelCount ≠ 0 → 0 ≤ cell.startChannel.toInt ∧
      cell.startChannel.toInt + cell.channelCount.toInt ≤ 24576)

instance (cell : Cell) : Decidable cell.InBuffer := by
  unfold InBuffer
  infer_instance

/-- The slice of the pixel buffer a cell selects. -/
def bytes (cell : Cell) (buffer : PixelBuffer) : List Byte :=
  buffer.slice cell.startChannel.toInt.toNat cell.channelCount.toInt.toNat

/-- The copy of a non-empty string after `b` packed bytes is inside both buffers exactly when
its slice is inside the pixel buffer and there is room for it in the payload. -/
theorem copyFits_iff {cell : Cell} (hne : cell.channelCount ≠ 0) {b : ℤ} (hb : 0 ≤ b) :
    Block.CopyFits 19200 24576 b cell.startChannel.toInt (sizeT cell.channelCount.toInt) ↔
      cell.InBuffer ∧ b + cell.channelCount.toInt ≤ 19200 := by
  have hne' : cell.channelCount.toInt ≠ 0 := fun h => hne (BitVec.eq_of_toInt_eq h)
  have hge : -2 ^ 31 ≤ cell.channelCount.toInt := BitVec.le_toInt _
  have hlt : cell.channelCount.toInt < 2 ^ 31 := BitVec.toInt_lt
  by_cases h : 0 ≤ cell.channelCount.toInt
  · rw [Block.CopyFits, sizeT_of_nonneg h (by omega), InBuffer]
    simp only [hne, ne_eq, not_false_eq_true, forall_const]
    omega
  · -- a negative count becomes a length no buffer has
    have hbig := le_sizeT_of_neg (not_le.mp h) (by omega)
    rw [Block.CopyFits, InBuffer]
    omega

end Cell

/-- The sum of the eight counts of a port. -/
def portCount (m : Mapping) (p : Fin 4) : ℤ :=
  ((List.finRange 8).map fun s => (m (p, s)).channelCount.toInt).sum

/-- The strings of a port can be packed into its payload buffer. -/
structure PortPackable (m : Mapping) (p : Fin 4) : Prop where
  inBuffer : ∀ s, (m (p, s)).InBuffer
  portCount_le : portCount m p ≤ 19200

instance (m : Mapping) (p : Fin 4) : Decidable (PortPackable m p) :=
  decidable_of_iff ((∀ s, (m (p, s)).InBuffer) ∧ portCount m p ≤ 19200)
    ⟨fun h => ⟨h.1, h.2⟩, fun h => ⟨h.1, h.2⟩⟩

/-- Every port a refresh processes can be packed. -/
def Packable (pixelPorts : BitVec 32) (m : Mapping) : Prop :=
  ∀ p : Fin 4, (p : ℤ) < pixelPorts.toInt → PortPackable m p

instance (pixelPorts : BitVec 32) (m : Mapping) : Decidable (Packable pixelPorts m) := by
  unfold Packable
  infer_instance

/-- The eight slices of a port. -/
def portStrings (m : Mapping) (buffer : PixelBuffer) (p : Fin 4) : List (List Byte) :=
  (List.finRange 8).map fun s => (m (p, s)).bytes buffer

/-! ### The string loop -/

/-- The payload buffer and `b` after the cell has been packed as string `a`. -/
def packed (payload : ControlBuffer) (b : ℤ) (a : Fin 8) (cell : Cell) (buffer : PixelBuffer) :
    ControlBuffer × ℤ :=
  ({ channelCount := Function.update payload.channelCount a (cell.channelCount.setWidth 16)
     channelData := payload.channelData.copy b.toNat buffer cell.startChannel.toInt.toNat
       cell.channelCount.toInt.toNat },
    b + cell.channelCount.toInt)

/-- One round of the loop completes exactly when the string is in the buffer and fits. -/
theorem packString_eq_ok_iff {w : Workers} {buffer : PixelBuffer} {p : Fin 4}
    {payload : ControlBuffer} {b : ℤ} {a : Fin 8} {st : ControlBuffer × ℤ} (hb : 0 ≤ b)
    (hb' : b ≤ 19200) :
    packString w buffer p (payload, b) a = .ok st ↔
      ((w.mapping (p, a)).InBuffer ∧ b + (w.mapping (p, a)).channelCount.toInt ≤ 19200) ∧
        st = packed payload b a (w.mapping (p, a)) buffer := by
  rw [packString]
  generalize w.mapping (p, a) = cell
  by_cases hne : cell.channelCount = 0
  · -- an empty string only stores its header count
    have hzero : cell.channelCount.toInt = 0 := by rw [hne]; rfl
    have hin : cell.InBuffer := ⟨hzero.ge, fun h => absurd hne h⟩
    have hpacked : packed payload b a cell buffer =
        ({ payload with
            channelCount :=
              Function.update payload.channelCount a (cell.channelCount.setWidth 16) }, b) := by
      rw [packed, hzero, Int.toNat_zero, Block.copy_zero, add_zero]
    simp only [hne, ne_eq, not_true_eq_false, if_false, Outcome.pure_eq_ok, Outcome.ok.injEq]
    rw [hpacked, ← hne, hzero, add_zero]
    exact ⟨fun h => ⟨⟨hin, hb'⟩, h.symm⟩, fun h => h.2.symm⟩
  · -- the copy is defined exactly when the string is in the buffer and fits
    have hlen : cell.InBuffer → sizeT cell.channelCount.toInt = cell.channelCount.toInt.toNat :=
      fun h => sizeT_of_nonneg h.1 (lt_trans BitVec.toInt_lt (by decide))
    simp only [ne_eq, hne, not_false_eq_true, if_true, Outcome.pure_eq_ok,
      Outcome.bind_eq_ok_iff, Block.memcpy_eq_ok_iff, Outcome.ok.injEq,
      Cell.copyFits_iff hne hb]
    constructor
    · rintro ⟨data, ⟨hfit, rfl⟩, rfl⟩
      exact ⟨hfit, by rw [hlen hfit.1, packed]⟩
    · rintro ⟨hfit, rfl⟩
      exact ⟨_, ⟨hfit, rfl⟩, by rw [hlen hfit.1, packed]⟩

/-- The invariant of the string loop after the strings `pre`: they were all in the buffer, `b`
is the sum of their counts, their slices lie one after the other in the payload, and their
header counts are set. -/
structure Packed (m : Mapping) (buffer : PixelBuffer) (p : Fin 4) (pre : List (Fin 8))
    (st : ControlBuffer × ℤ) : Prop where
  inBuffer : ∀ s ∈ pre, (m (p, s)).InBuffer
  offset : st.2 = (pre.map fun s => (m (p, s)).channelCount.toInt).sum
  nonneg : 0 ≤ st.2
  le : st.2 ≤ 19200
  data : st.1.channelData.slice 0 st.2.toNat = pre.flatMap fun s => (m (p, s)).bytes buffer
  counts : ∀ s ∈ pre, st.1.channelCount s = (m (p, s)).channelCount.setWidth 16

theorem Packed.nil (m : Mapping) (buffer : PixelBuffer) (p : Fin 4) (payload : ControlBuffer) :
    Packed m buffer p [] (payload, 0) where
  inBuffer := by simp
  offset := rfl
  nonneg := le_refl 0
  le := by norm_num
  data := rfl
  counts := by simp

/-- Packing one more string keeps the invariant. -/
theorem Packed.concat {m : Mapping} {buffer : PixelBuffer} {p : Fin 4} {pre : List (Fin 8)}
    {payload : ControlBuffer} {b : ℤ} (h : Packed m buffer p pre (payload, b)) {a : Fin 8}
    (hin : (m (p, a)).InBuffer) (hle : b + (m (p, a)).channelCount.toInt ≤ 19200) :
    Packed m buffer p (pre ++ [a]) (packed payload b a (m (p, a)) buffer) := by
  have hcount := hin.1
  have hb : 0 ≤ b := h.nonneg
  have hsum : (b + (m (p, a)).channelCount.toInt).toNat =
      b.toNat + (m (p, a)).channelCount.toInt.toNat := Int.toNat_add hb hcount
  refine ⟨?_, ?_, ?_, hle, ?_, ?_⟩
  · intro s hs
    rcases List.mem_append.mp hs with hs | hs
    · exact h.inBuffer s hs
    · rwa [List.mem_singleton.mp hs]
  · have hoff : b = (pre.map fun s => (m (p, s)).channelCount.toInt).sum := h.offset
    simp [packed, ← hoff]
  · change 0 ≤ b + (m (p, a)).channelCount.toInt
    omega
  · -- the new slice goes right behind the ones already there
    show (payload.channelData.copy b.toNat buffer (m (p, a)).startChannel.toInt.toNat
      (m (p, a)).channelCount.toInt.toNat).slice 0 (b + (m (p, a)).channelCount.toInt).toNat = _
    have hdata : payload.channelData.slice 0 b.toNat =
        pre.flatMap fun s => (m (p, s)).bytes buffer := h.data
    rw [hsum, Block.slice_copy_append _ _ _ _ _ (by omega), hdata, List.flatMap_append,
      List.flatMap_singleton]
    rfl
  · -- a header count is stored once, the others stay
    intro s hs
    by_cases hsa : s = a
    · subst hsa
      exact Function.update_self ..
    · have hs : s ∈ pre := by
        rcases List.mem_append.mp hs with hs | hs
        · exact hs
        · exact absurd (List.mem_singleton.mp hs) hsa
      exact (Function.update_of_ne hsa ..).trans (h.counts s hs)

section

variable {w : Workers} {buffer : PixelBuffer} {p : Fin 4} {payload : ControlBuffer}

/-- A packable port is packed to the end. -/
theorem packStrings_of_packable (buffer : PixelBuffer) (payload : ControlBuffer)
    (h : PortPackable w.mapping p) :
    ∃ st, packStrings w buffer p payload = .ok st ∧
      Packed w.mapping buffer p (List.finRange 8) st := by
  refine Outcome.foldlM_total (Packed w.mapping buffer p) (Packed.nil ..) ?_
  rintro pre a post hsplit ⟨payload, b⟩ hpre
  -- the counts after `a` are not negative, so the sum up to `a` is at most the whole sum
  have hsum : portCount w.mapping p = (pre.map fun s => (w.mapping (p, s)).channelCount.toInt).sum
      + (w.mapping (p, a)).channelCount.toInt
      + (post.map fun s => (w.mapping (p, s)).channelCount.toInt).sum := by
    rw [portCount, hsplit, List.map_append, List.sum_append, List.map_cons, List.sum_cons,
      add_assoc]
  have hpost : 0 ≤ (post.map fun s => (w.mapping (p, s)).channelCount.toInt).sum := by
    apply List.sum_nonneg
    intro c hc
    obtain ⟨s, -, rfl⟩ := List.mem_map.mp hc
    exact (h.inBuffer s).1
  have hoff : b = (pre.map fun s => (w.mapping (p, s)).channelCount.toInt).sum := hpre.offset
  have hle : b + (w.mapping (p, a)).channelCount.toInt ≤ 19200 := by
    have := h.portCount_le
    omega
  exact ⟨_, (packString_eq_ok_iff hpre.nonneg hpre.le).mpr ⟨⟨h.inBuffer a, hle⟩, rfl⟩,
    hpre.concat (h.inBuffer a) hle⟩

/-- Packing that completes establishes the invariant for all eight strings. -/
theorem packed_of_packStrings {st : ControlBuffer × ℤ}
    (h : packStrings w buffer p payload = .ok st) :
    Packed w.mapping buffer p (List.finRange 8) st := by
  refine Outcome.foldlM_partial (Packed w.mapping buffer p) (Packed.nil ..) ?_ h
  rintro pre a post - ⟨payload, b⟩ st' hpre hst'
  obtain ⟨⟨hin, hle⟩, rfl⟩ := (packString_eq_ok_iff hpre.nonneg hpre.le).mp hst'
  exact hpre.concat hin hle

theorem Packed.packable {st : ControlBuffer × ℤ}
    (h : Packed w.mapping buffer p (List.finRange 8) st) : PortPackable w.mapping p where
  inBuffer := fun s => h.inBuffer s (List.mem_finRange s)
  portCount_le := h.offset.ge.trans h.le

/-- The string loop of a port completes exactly when the mapping is packable for it. -/
theorem packStrings_eq_ok_iff :
    (∃ st, packStrings w buffer p payload = .ok st) ↔ PortPackable w.mapping p := by
  constructor
  · rintro ⟨st, hst⟩
    exact (packed_of_packStrings hst).packable
  · intro h
    obtain ⟨st, hst, -⟩ := packStrings_of_packable buffer payload h
    exact ⟨st, hst⟩

end

/-! ### The transmitted bytes -/

/-- The first `16 + n` bytes of a payload buffer: the eight counts and `n` data bytes. -/
theorem ControlBuffer.bytes_eq (payload : ControlBuffer) (n : ℕ) :
    payload.bytes (16 + n) =
      Framing.header (List.ofFn payload.channelCount) ++ payload.channelData.slice 0 n := by
  rw [ControlBuffer.bytes, List.range_add, List.map_append, List.map_map]
  -- the first 16 bytes are the header by evaluation
  congr 1
  apply List.map_congr_left
  intro i _
  have hi : ¬16 + i < 16 := by omega
  simp [ControlBuffer.get, hi]

section

variable {m : Mapping} {buffer : PixelBuffer} {p : Fin 4} {st : ControlBuffer × ℤ}

theorem Cell.length_bytes (cell : Cell) :
    (cell.bytes buffer).length = cell.channelCount.toInt.toNat :=
  Block.length_slice ..

/-- Every slice of a packable port fits in its 16-bit header count. -/
theorem Packed.channelCount_lt (h : Packed m buffer p (List.finRange 8) st) (s : Fin 8) :
    (m (p, s)).channelCount.toInt.toNat ≤ 19200 := by
  have hmem : (m (p, s)).channelCount.toInt ∈
      (List.finRange 8).map fun s => (m (p, s)).channelCount.toInt :=
    List.mem_map_of_mem (List.mem_finRange s)
  have hle := List.single_le_sum (l := (List.finRange 8).map fun s =>
    (m (p, s)).channelCount.toInt) (by
      intro c hc
      obtain ⟨s', -, rfl⟩ := List.mem_map.mp hc
      exact (h.inBuffer s' (List.mem_finRange s')).1) _ hmem
  have hb := h.le
  rw [h.offset] at hb
  omega

theorem toNat_toInt_of_nonneg {v : BitVec 32} (h : 0 ≤ v.toInt) : v.toInt.toNat = v.toNat := by
  rw [BitVec.toInt_eq_toNat_cond] at h ⊢
  split at h <;> split <;> omega

/-- The bytes transmitted for a packed port are the frame of its slices. -/
theorem Packed.bytes_eq (h : Packed m buffer p (List.finRange 8) st) :
    st.1.bytes (16 + st.2.toNat) = Framing.encode (portStrings m buffer p) := by
  rw [ControlBuffer.bytes_eq, h.data, Framing.encode, portStrings, List.map_map,
    List.flatMap_def]
  -- the data agree; each header count is the length of its slice
  congr 2
  rw [List.ofFn_eq_map]
  apply List.map_congr_left
  intro s hs
  rw [h.counts s hs, Function.comp_apply, Cell.length_bytes,
    toNat_toInt_of_nonneg (h.inBuffer s hs).1]
  exact BitVec.ofNat_toNat 16 (m (p, s)).channelCount |>.symm

/-- A receiver reads the slices of the port back. -/
theorem Packed.decode (h : Packed m buffer p (List.finRange 8) st) :
    Framing.decode 8 (Framing.encode (portStrings m buffer p)) =
      some (portStrings m buffer p) := by
  have hlen : (portStrings m buffer p).length = 8 := rfl
  rw [← hlen]
  apply Framing.decode_encode
  intro block hblock
  obtain ⟨s, -, rfl⟩ := List.mem_map.mp hblock
  rw [Cell.length_bytes]
  exact lt_of_le_of_lt (h.channelCount_lt s) (by decide)

end

/-! ### A refresh -/

/-- The parts of the controller a refresh never touches. -/
structure SameExceptOutput (c c' : Controller) : Prop where
  pixelBuffer : c'.pixelBuffer = c.pixelBuffer
  workers : c'.workers = c.workers
  lastConfigSequence : c'.lastConfigSequence = c.lastConfigSequence

theorem SameExceptOutput.refl (c : Controller) : SameExceptOutput c c := ⟨rfl, rfl, rfl⟩

theorem SameExceptOutput.trans {c₁ c₂ c₃ : Controller} (h : SameExceptOutput c₁ c₂)
    (h' : SameExceptOutput c₂ c₃) : SameExceptOutput c₁ c₃ :=
  ⟨h'.pixelBuffer.trans h.pixelBuffer, h'.workers.trans h.workers,
    h'.lastConfigSequence.trans h.lastConfigSequence⟩

/-- The frame the worker sends to port `p`. -/
def portFrame (c : Controller) (p : Fin 4) : List Byte :=
  Framing.encode (portStrings c.workers.mapping c.pixelBuffer p)

/-- What the block of the worker for port `p` achieves: one frame, with header counts and a
16-bit device count that are the true numbers. -/
structure PortSent (p : Fin 4) (c c' : Controller) (events : List SpiEvent) : Prop where
  same : SameExceptOutput c c'
  frames_eq : frames (events.map (Prod.mk p)) = [(p, portFrame c p)]
  channelCount : ∀ s, (((c'.payload p).channelCount s).toNat : ℤ) =
    (c.workers.mapping (p, s)).channelCount.toInt
  count : ((c'.spiDev (c.workers.spiDev p)).count.toNat : ℤ) =
    16 + portCount c.workers.mapping p

/-- A transfer with at most 19200 data bytes sends the header and these bytes of the payload
buffer, under a device count that is their true number. -/
theorem transferPort_eq {p : Fin 4} {b : ℤ} (hb : 0 ≤ b) (hb' : b ≤ 19200) (ret : ℤ)
    (c : Controller) :
    ∃ c' events, transferPort p ret b c = .ok (c', events) ∧ SameExceptOutput c c' ∧
      c'.payload = c.payload ∧
      (c'.spiDev (c.workers.spiDev p)).count.toNat = 16 + b.toNat ∧
      frames (events.map (Prod.mk p)) = [(p, (c.payload p).bytes (16 + b.toNat))] := by
  -- the 16-bit count field holds `16 + b`
  have hcount : (BitVec.ofInt 16 (16 + b)).toNat = 16 + b.toNat := by
    rw [BitVec.toNat_ofInt]
    omega
  simp only [transferPort, spiTransfer, hcount, if_pos (show 16 + b.toNat ≤ 19216 by omega),
    Outcome.ok_bind, Outcome.pure_eq_ok]
  refine ⟨_, _, rfl, ⟨rfl, rfl, rfl⟩, rfl, ?_, rfl⟩
  simp only [Function.update_self, hcount]

/-- The block of a packable port sends the frame of its slices. -/
theorem workerPort_of_packable {c : Controller} {p : Fin 4}
    (h : PortPackable c.workers.mapping p) (ret : ℤ) :
    ∃ c' events, workerPort p ret c = .ok (c', events) ∧ PortSent p c c' events := by
  obtain ⟨⟨payload, b⟩, hpack, hpacked⟩ :=
    packStrings_of_packable c.pixelBuffer (c.payload p) h
  have hb : 0 ≤ b := hpacked.nonneg
  have hb' : b ≤ 19200 := hpacked.le
  let c₁ : Controller := { c with payload := Function.update c.payload p payload }
  obtain ⟨c', events, htransfer, hsame, hpayload, hcount, hframes⟩ :=
    @transferPort_eq p b hb hb' ret c₁
  have hpayload₁ : c₁.payload p = payload := Function.update_self ..
  have hrun : workerPort p ret c = .ok (c', events) := by
    rw [workerPort, hpack, Outcome.ok_bind]
    exact htransfer
  refine ⟨c', events, hrun, ⟨hsame.1, hsame.2, hsame.3⟩, ?_, fun s => ?_, ?_⟩
  · rw [hframes, hpayload₁, portFrame, ← hpacked.bytes_eq]
  · -- the count is at most 19200, so 16 bits hold it
    have hs := hpacked.channelCount_lt s
    have hnonneg := (hpacked.inBuffer s (List.mem_finRange s)).1
    have hheader : payload.channelCount s =
        (c.workers.mapping (p, s)).channelCount.setWidth 16 :=
      hpacked.counts s (List.mem_finRange s)
    rw [hpayload, hpayload₁, hheader, BitVec.toNat_setWidth,
      ← toNat_toInt_of_nonneg hnonneg, Nat.mod_eq_of_lt (by omega)]
    omega
  · have hoff : b = portCount c.workers.mapping p := hpacked.offset
    rw [← hoff, hcount]
    omega

/-- A block that completes had a packable mapping. -/
theorem packable_of_workerPort {c : Controller} {p : Fin 4} {ret : ℤ}
    {r : Controller × List SpiEvent} (h : workerPort p ret c = .ok r) :
    PortPackable c.workers.mapping p := by
  rw [workerPort, Outcome.bind_eq_ok_iff] at h
  obtain ⟨st, hst, -⟩ := h
  exact (packed_of_packStrings hst).packable

/-- The frames of a refresh: one for each port below `pixel_ports`. -/
def refreshFrames (c : Controller) : List (Fin 4 × List Byte) :=
  ((List.finRange 4).filter fun p : Fin 4 => (p : ℤ) < c.workers.pixelPorts.toInt).map
    fun p => (p, portFrame c p)

/-- A refresh with a packable mapping sends to each port below `pixel_ports` the frame of its
slices, in the order of the ports, and changes nothing but its own buffers. -/
theorem workerRefresh_of_packable {c : Controller}
    (h : Packable c.workers.pixelPorts c.workers.mapping) (rets : Fin 4 → ℤ) :
    ∃ c' events, workerRefresh rets c = .ok (c', events) ∧ SameExceptOutput c c' ∧
      frames events = refreshFrames c := by
  suffices hrun : ∃ st, workerRefresh rets c = .ok st ∧ SameExceptOutput c st.1 ∧
      frames st.2 = refreshFrames c by
    obtain ⟨⟨c', events⟩, hrun⟩ := hrun
    exact ⟨c', events, hrun⟩
  -- after the ports `pre`, the frames sent are theirs
  refine Outcome.foldlM_total (fun pre (st : Controller × List (Fin 4 × SpiEvent)) =>
    SameExceptOutput c st.1 ∧ frames st.2 =
      (pre.filter fun p : Fin 4 => (p : ℤ) < c.workers.pixelPorts.toInt).map
        fun p => (p, portFrame c p)) ⟨SameExceptOutput.refl c, rfl⟩ ?_
  rintro pre p post - ⟨s, events⟩ ⟨hsame, hframes⟩
  replace hsame : SameExceptOutput c s := hsame
  rw [refreshPort]
  simp only [hsame.workers]
  by_cases hp : (p : ℤ) < c.workers.pixelPorts.toInt
  · have hs : PortPackable s.workers.mapping p := hsame.workers ▸ h p hp
    obtain ⟨s', events', hport, hsent⟩ := workerPort_of_packable hs (rets p)
    have hportFrame : portFrame s p = portFrame c p := by
      rw [portFrame, portFrame, hsame.workers, hsame.pixelBuffer]
    refine ⟨(s', events ++ events'.map (Prod.mk p)), ?_, hsame.trans hsent.same, ?_⟩
    · rw [if_pos hp, hport, Outcome.ok_bind, Outcome.pure_eq_ok]
    · have happend : frames (events ++ events'.map (Prod.mk p)) =
          frames events ++ frames (events'.map (Prod.mk p)) := List.filterMap_append
      rw [happend, hframes, hsent.frames_eq, hportFrame]
      simp [hp]
  · refine ⟨(s, events), by rw [if_neg hp]; rfl, hsame, ?_⟩
    simp [hframes, hp]

/-- A refresh that completes had a packable mapping. -/
theorem packable_of_workerRefresh {c : Controller} {rets : Fin 4 → ℤ}
    {r : Controller × List (Fin 4 × SpiEvent)} (h : workerRefresh rets c = .ok r) :
    Packable c.workers.pixelPorts c.workers.mapping := by
  -- after the ports `pre`, those of them that were processed were packable
  have hinv : r.1.workers = c.workers ∧ ∀ p ∈ List.finRange 4,
      (p : ℤ) < c.workers.pixelPorts.toInt → PortPackable c.workers.mapping p := by
    refine Outcome.foldlM_partial
      (fun (pre : List (Fin 4)) (st : Controller × List (Fin 4 × SpiEvent)) =>
        st.1.workers = c.workers ∧ ∀ p ∈ pre, (p : ℤ) < c.workers.pixelPorts.toInt →
          PortPackable c.workers.mapping p) ⟨rfl, by simp⟩ ?_ h
    rintro pre p post - ⟨s, events⟩ st' ⟨hs, hpre⟩ hst'
    simp only at hs
    rw [refreshPort] at hst'
    simp only [hs] at hst'
    by_cases hp : (p : ℤ) < c.workers.pixelPorts.toInt
    · rw [if_pos hp, Outcome.bind_eq_ok_iff] at hst'
      obtain ⟨⟨s', events'⟩, hport, hst'⟩ := hst'
      rw [Outcome.pure_eq_ok, Outcome.ok.injEq] at hst'
      subst hst'
      have hpack := packable_of_workerPort hport
      -- the block does not change `workers` for the ports after it
      obtain ⟨s'', events'', hport', hsent⟩ := workerPort_of_packable hpack (rets p)
      obtain ⟨rfl, -⟩ := Prod.mk.inj (Outcome.ok.inj (hport.symm.trans hport'))
      refine ⟨hsent.same.workers.trans hs, fun q hq hlt => ?_⟩
      rcases List.mem_append.mp hq with hq | hq
      · exact hpre q hq hlt
      · rw [List.mem_singleton.mp hq, ← hs]
        exact hpack
    · rw [if_neg hp, Outcome.pure_eq_ok, Outcome.ok.injEq] at hst'
      subst hst'
      refine ⟨hs, fun q hq hlt => ?_⟩
      rcases List.mem_append.mp hq with hq | hq
      · exact hpre q hq hlt
      · exact absurd (List.mem_singleton.mp hq ▸ hlt) hp
  exact fun p hp => hinv.2 p (List.mem_finRange p) hp

/-- Packing and transferring do not end the process, whatever the mapping. -/
theorem workerPort_ne_exit (p : Fin 4) (ret : ℤ) (c : Controller) :
    workerPort p ret c ≠ .exit := by
  have hpack : packStrings c.workers c.pixelBuffer p (c.payload p) ≠ .exit := by
    refine Outcome.foldlM_ne_exit (fun st a _ => ?_) _
    simp only [packString]
    split
    · rw [Ne, Outcome.bind_eq_exit_iff]
      simp [Block.memcpy_ne_exit]
    · simp
  have htransfer : ∀ b c, transferPort p ret b c ≠ .exit := by
    intro b c
    simp only [transferPort, spiTransfer, Ne, Outcome.bind_eq_exit_iff]
    split <;> simp
  rw [workerPort, Ne, Outcome.bind_eq_exit_iff]
  simp [hpack, htransfer]

theorem workerRefresh_ne_exit (rets : Fin 4 → ℤ) (c : Controller) :
    workerRefresh rets c ≠ .exit := by
  refine Outcome.foldlM_ne_exit (fun st p _ => ?_) _
  rw [refreshPort]
  split
  · rw [Ne, Outcome.bind_eq_exit_iff]
    simp [workerPort_ne_exit]
  · simp

/-- A refresh is defined exactly when its mapping is packable. -/
theorem workerRefresh_ne_undefined_iff {c : Controller} {rets : Fin 4 → ℤ} :
    workerRefresh rets c ≠ .undefined ↔ Packable c.workers.pixelPorts c.workers.mapping := by
  rw [Outcome.ne_undefined_iff (workerRefresh_ne_exit rets c)]
  constructor
  · rintro ⟨r, hr⟩
    exact packable_of_workerRefresh hr
  · intro h
    obtain ⟨c', events, hrun, -⟩ := workerRefresh_of_packable h rets
    exact ⟨_, hrun⟩

/-- A receiver of a frame of a packable port reads the port's slices. -/
theorem decode_portFrame {c : Controller} {p : Fin 4} (h : PortPackable c.workers.mapping p) :
    Framing.decode 8 (portFrame c p) =
      some (portStrings c.workers.mapping c.pixelBuffer p) := by
  obtain ⟨st, -, hpacked⟩ :=
    packStrings_of_packable c.pixelBuffer (c.payload p) h
  exact hpacked.decode

end PiPixelController
