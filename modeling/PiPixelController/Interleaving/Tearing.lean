import PiPixelController.Interleaving.Bytes
import PiPixelController.Interleaving.Consistency

/-!
# Frames of runs byte by byte

A refresh can fall into the middle of a listener's `memcpy`, so a frame may mix bytes of two
packets. What holds in every run is that no single byte is made up.

* `ByteThreads.step_regular` — a step keeps the invariant `ByteThreads.Regular`;
* `pixelFrames_regular` — in every run, a receiver of a frame reads strings of the configured
  lengths, and each of their bytes is one that its address held while the block of the port ran.
-/

namespace PiPixelController

open CSemantics

/-- The bytes of a string, each of them from one of the pixel buffers `past`. -/
structure Cell.ReadFrom (cell : Cell) (past : List PixelBuffer) (bytes : List Byte) : Prop where
  length : bytes.length = cell.channelCount.toInt.toNat
  bytes : ReadDuring past cell.startChannel.toInt.toNat bytes

/-- Every byte of the buffer is there from the start, or a packet asked to store it. -/
def Accounted (c₀ : Controller) (carried : List (ℕ × Byte)) (buffer : PixelBuffer) : Prop :=
  ∀ i < 24576, buffer.get i = c₀.pixelBuffer.get i ∨ (i, buffer.get i) ∈ carried

/-- What a frame is in a run from `c₀` in which the packets asked for the stores `carried`. -/
structure PixelFrame.Regular (c₀ : Controller) (carried : List (ℕ × Byte)) (f : PixelFrame) :
    Prop where
  /-- A receiver reads the strings that were copied. -/
  decode : Framing.decode 8 f.bytes = some f.copied
  /-- They have the configured lengths, and every byte was at its address at some time in the
  block of the port. -/
  strings : List.Forall₂ (fun a bytes => (c₀.workers.mapping (f.port, a)).ReadFrom f.past bytes)
    (List.finRange 8) f.copied
  past : ∀ buffer ∈ f.past, Accounted c₀ carried buffer

/-- The strings `pre` are packed, and `copied` are their bytes. -/
structure PackedFrom (m : Mapping) (p : Fin 4) (past : List PixelBuffer) (payload : ControlBuffer)
    (b : ℤ) (copied : List (List Byte)) (pre : List (Fin 8)) : Prop where
  packed : PackedStrings payload b copied pre
  read : List.Forall₂ (fun a bytes => (m (p, a)).ReadFrom past bytes) pre copied

/-- The strings `pre` are packed, and the `memcpy` of string `a` has copied all bytes but
`todo`. -/
structure InCopy (m : Mapping) (p : Fin 4) (past : List PixelBuffer) (payload : ControlBuffer)
    (b : ℤ) (copied : List (List Byte)) (pre : List (Fin 8)) (a : Fin 8) (todo : List ℕ) :
    Prop where
  packed : PackedFrom m p past payload b copied pre
  header : payload.channelCount a = (m (p, a)).channelCount.setWidth 16
  nonempty : (m (p, a)).channelCount ≠ 0
  fits : Block.CopyFits 19200 24576 b (m (p, a)).startChannel.toInt
    (sizeT (m (p, a)).channelCount.toInt)
  progress : CopyProgress payload.channelData b.toNat past (m (p, a)).startChannel.toInt.toNat
    (sizeT (m (p, a)).channelCount.toInt) todo

namespace ByteThreads

/-- The invariant of the worker in the block of a port. -/
def PcRegular (s : ByteThreads) : Prop :=
  match s.pc with
  | .gate => True
  | .strings rest => ∃ pre, List.finRange 8 = pre ++ rest ∧
      PackedFrom s.controller.workers.mapping s.port s.past s.payload s.b s.copied pre
  | .copy a rest todo => ∃ pre, List.finRange 8 = pre ++ a :: rest ∧
      InCopy s.controller.workers.mapping s.port s.past s.payload s.b s.copied pre a todo

/-- The invariant of a run from `c₀`. -/
structure Regular (c₀ : Controller) (s : ByteThreads) : Prop where
  workers : s.controller.workers = c₀.workers
  acnStores : s.acnStores ⊆ s.carried
  zcppStores : s.zcppStores ⊆ s.carried
  pixelBuffer : Accounted c₀ s.carried s.controller.pixelBuffer
  past : ∀ buffer ∈ s.past, Accounted c₀ s.carried buffer
  current : s.pc ≠ .gate → s.controller.pixelBuffer ∈ s.past
  pc : s.PcRegular
  sent : ∀ f ∈ s.sent, f.Regular c₀ s.carried

end ByteThreads

/-! ### Packing byte by byte -/

section

variable {m : Mapping} {p : Fin 4} {past past' : List PixelBuffer} {payload : ControlBuffer} {b : ℤ}
  {copied : List (List Byte)} {pre : List (Fin 8)} {a : Fin 8}

theorem Cell.ReadFrom.mono {cell : Cell} {bytes : List Byte} (h : cell.ReadFrom past bytes)
    (hsub : past ⊆ past') : cell.ReadFrom past' bytes :=
  ⟨h.length, h.bytes.mono hsub⟩

/-- An empty string has no bytes. -/
theorem Cell.readFrom_nil {cell : Cell} (h : cell.channelCount = 0) : cell.ReadFrom past [] :=
  ⟨by rw [h]; rfl, fun _ hj => absurd hj (Nat.not_lt_zero _)⟩

/-- A copy that fits has a length that is not negative. -/
theorem nonneg_of_copyFits {count : BitVec 32} {start : ℤ}
    (h : Block.CopyFits 19200 24576 b start (sizeT count.toInt)) :
    0 ≤ count.toInt ∧ sizeT count.toInt = count.toInt.toNat := by
  have hge : -2 ^ 31 ≤ count.toInt := BitVec.le_toInt _
  have hlt : count.toInt < 2 ^ 31 := BitVec.toInt_lt
  have hnonneg : 0 ≤ count.toInt := by
    by_contra hneg
    -- as a `size_t` the length exceeds every buffer
    have hbig := le_sizeT_of_neg (not_le.mp hneg) (by omega)
    rw [Block.CopyFits] at h
    omega
  exact ⟨hnonneg, sizeT_of_nonneg hnonneg (by omega)⟩

namespace PackedFrom

theorem nil (payload : ControlBuffer) : PackedFrom m p past payload 0 [] [] :=
  ⟨PackedStrings.nil payload, .nil⟩

theorem mono (h : PackedFrom m p past payload b copied pre) (hsub : past ⊆ past') :
    PackedFrom m p past' payload b copied pre :=
  ⟨h.packed, h.read.imp fun _ _ hread => hread.mono hsub⟩

/-- Storing the header count of a string that is not yet packed. -/
theorem updateCount (h : PackedFrom m p past payload b copied pre) (ha : a ∉ pre)
    (v : BitVec 16) :
    PackedFrom m p past
      { payload with channelCount := Function.update payload.channelCount a v } b copied pre :=
  ⟨h.packed.updateCount ha v, h.read⟩

/-- Storing a byte behind the packed strings. -/
theorem set (h : PackedFrom m p past payload b copied pre) (j : ℕ) (v : Byte) :
    PackedFrom m p past
      { payload with channelData := payload.channelData.set (b.toNat + j) v } b copied pre where
  packed :=
    { h.packed with
      data := by rw [Block.slice_set_of_le _ (by omega), h.packed.data] }
  read := h.read

theorem concat_nil (h : PackedFrom m p past payload b copied pre)
    (hheader : payload.channelCount a = 0) (hzero : (m (p, a)).channelCount = 0) :
    PackedFrom m p past payload b (copied ++ [[]]) (pre ++ [a]) :=
  ⟨h.packed.concat_nil hheader, List.rel_append h.read (.cons (Cell.readFrom_nil hzero) .nil)⟩

end PackedFrom

namespace InCopy

variable {todo : List ℕ}

theorem mono (h : InCopy m p past payload b copied pre a todo) (hsub : past ⊆ past') :
    InCopy m p past' payload b copied pre a todo :=
  ⟨h.packed.mono hsub, h.header, h.nonempty, h.fits, h.progress.mono hsub⟩

/-- The copied bytes lie inside the payload. -/
theorem le (h : InCopy m p past payload b copied pre a todo) :
    b.toNat + sizeT (m (p, a)).channelCount.toInt ≤ 19200 := by
  have hb := h.packed.packed.nonneg
  have hb' := h.packed.packed.le
  have hfits := h.fits
  rw [Block.CopyFits] at hfits
  omega

/-- The worker copies one byte of the current pixel buffer. -/
theorem store (h : InCopy m p past payload b copied pre a todo) {buffer : PixelBuffer}
    (hbuffer : buffer ∈ past) (j : ℕ) :
    InCopy m p past
      { payload with
        channelData := payload.channelData.set (b.toNat + j)
          (buffer.get ((m (p, a)).startChannel.toInt.toNat + j)) }
      b copied pre a (todo.erase j) where
  packed := h.packed.set j _
  header := h.header
  nonempty := h.nonempty
  fits := h.fits
  progress := h.progress.store h.le hbuffer j

/-- A finished copy goes right behind the strings already there. -/
theorem done (h : InCopy m p past payload b copied pre a []) :
    PackedFrom m p past payload (b + (m (p, a)).channelCount.toInt)
      (copied ++
        [payload.channelData.slice b.toNat (sizeT (m (p, a)).channelCount.toInt)])
      (pre ++ [a]) := by
  have hb := h.packed.packed.nonneg
  have hle := h.le
  obtain ⟨hnonneg, hsize⟩ := nonneg_of_copyFits h.fits
  have hsum : (b + (m (p, a)).channelCount.toInt).toNat =
      b.toNat + (m (p, a)).channelCount.toInt.toNat := Int.toNat_add hb hnonneg
  have hread := h.progress.done
  -- the `size_t` in the lengths is the count itself
  rw [hsize] at hle hread ⊢
  refine ⟨⟨by omega, by omega, ?_, ?_⟩, List.rel_append h.packed.read (.cons ⟨?_, hread⟩ .nil)⟩
  · rw [hsum, Block.slice_add, h.packed.packed.data, List.flatten_append, List.flatten_singleton,
      Nat.zero_add]
  · -- the payload has 19200 bytes, so the header's 16 bits hold the count
    have hheader : (payload.channelCount a).toNat = (m (p, a)).channelCount.toInt.toNat := by
      rw [h.header, BitVec.toNat_setWidth, toNat_toInt_of_nonneg hnonneg,
        Nat.mod_eq_of_lt (by rw [← toNat_toInt_of_nonneg hnonneg]; omega)]
    rw [List.map_append, List.map_append, h.packed.packed.lengths, List.map_singleton,
      List.map_singleton, Block.length_slice, hheader]
  · rw [Block.length_slice]

end InCopy

end

theorem Accounted.mono {c₀ : Controller} {carried carried' : List (ℕ × Byte)}
    {buffer : PixelBuffer} (h : Accounted c₀ carried buffer) (hsub : carried ⊆ carried') :
    Accounted c₀ carried' buffer :=
  fun i hi => (h i hi).imp id fun hmem => hsub hmem

theorem Accounted.set {c₀ : Controller} {carried : List (ℕ × Byte)} {buffer : PixelBuffer}
    (h : Accounted c₀ carried buffer) {st : ℕ × Byte} (hst : st ∈ carried) :
    Accounted c₀ carried (buffer.set st.1 st.2) := by
  intro i hi
  rw [Block.get_set _ _ _ hi]
  by_cases heq : i = st.1
  · rw [if_pos heq, heq]
    exact .inr hst
  · rw [if_neg heq]
    exact h i hi

theorem PixelFrame.Regular.mono {c₀ : Controller} {carried carried' : List (ℕ × Byte)}
    {f : PixelFrame} (h : f.Regular c₀ carried) (hsub : carried ⊆ carried') :
    f.Regular c₀ carried' :=
  ⟨h.decode, h.strings, fun buffer hbuffer => (h.past buffer hbuffer).mono hsub⟩

/-- Without a store between the start of the block and the transfer the frame is the frame of the
pixel buffer. -/
theorem PixelFrame.Regular.eq_portFrame {c₀ : Controller} {carried : List (ℕ × Byte)}
    {f : PixelFrame} (h : f.Regular c₀ carried) {buffer : PixelBuffer} (hpast : f.past = [buffer]) :
    f.bytes = portFrame { c₀ with pixelBuffer := buffer } f.port := by
  have hcopied : f.copied = portStrings c₀.workers.mapping buffer f.port := by
    rw [portStrings, ← List.forall₂_eq_eq_eq, List.forall₂_map_right_iff]
    refine h.strings.flip.imp fun bytes a hread => ?_
    have hslice := (hpast ▸ hread.bytes).eq_slice
    rwa [hread.length] at hslice
  rw [portFrame, ← hcopied]
  exact (Framing.encode_of_decode h.decode).1.symm

/-! ### Steps -/

namespace ByteThreads

variable {c₀ : Controller} {params : Params} {s s' : ByteThreads}

@[simp]
theorem payload_setPayload (s : ByteThreads) (payload : ControlBuffer) :
    (s.setPayload payload).payload = payload :=
  Function.update_self ..

/-- What the worker has done does not depend on the receive buffers and the pending stores. -/
theorem PcRegular.congr (h : s.PcRegular) (hpc : s'.pc = s.pc) (hport : s'.port = s.port)
    (hb : s'.b = s.b) (hcopied : s'.copied = s.copied)
    (hworkers : s'.controller.workers = s.controller.workers)
    (hpayload : s'.controller.payload = s.controller.payload) (hpast : s.past ⊆ s'.past) :
    s'.PcRegular := by
  have hpay : s'.payload = s.payload := by rw [payload, payload, hpayload, hport]
  rw [PcRegular] at h ⊢
  rw [hpc]
  cases hs : s.pc with
  | gate => trivial
  | strings rest =>
      simp only [hs] at h ⊢
      obtain ⟨pre, hsplit, hpacked⟩ := h
      rw [hworkers, hport, hb, hcopied, hpay]
      exact ⟨pre, hsplit, hpacked.mono hpast⟩
  | copy a rest todo =>
      simp only [hs] at h ⊢
      obtain ⟨pre, hsplit, hcopy⟩ := h
      rw [hworkers, hport, hb, hcopied, hpay]
      exact ⟨pre, hsplit, hcopy.mono hpast⟩

/-- A store a packet has asked for. -/
theorem Regular.setPixel (h : s.Regular c₀) {st : ℕ × Byte} (hst : st ∈ s.carried) :
    (s.setPixel st).Regular c₀ where
  workers := h.workers
  acnStores := h.acnStores
  zcppStores := h.zcppStores
  pixelBuffer := h.pixelBuffer.set hst
  past := by
    intro buffer hbuffer
    rcases List.mem_append.mp hbuffer with hbuffer | hbuffer
    · exact h.past buffer hbuffer
    · rw [List.mem_singleton.mp hbuffer]
      exact h.pixelBuffer.set hst
  current := fun _ => List.mem_append_right _ (List.mem_singleton_self _)
  pc := h.pc.congr rfl rfl rfl rfl rfl rfl (List.subset_append_left ..)
  sent := h.sent

/-- A packet asks for the stores `sts`. -/
theorem Regular.carry (h : s.Regular c₀) (sts : List (ℕ × Byte)) :
    Regular c₀ { s with carried := s.carried ++ sts } :=
  have hsub : s.carried ⊆ s.carried ++ sts := List.subset_append_left ..
  { workers := h.workers
    acnStores := List.subset_append_of_subset_left _ h.acnStores
    zcppStores := List.subset_append_of_subset_left _ h.zcppStores
    pixelBuffer := h.pixelBuffer.mono hsub
    past := fun buffer hbuffer => (h.past buffer hbuffer).mono hsub
    current := h.current
    pc := h.pc
    sent := fun f hf => (h.sent f hf).mono hsub }

/-- A listener receives: it leaves the pixel buffer, the mapping and the worker alone. -/
theorem Regular.accept (h : s.Regular c₀) {c : Controller} {acnStores zcppStores}
    (hworkers : c.workers = s.controller.workers)
    (hpixels : c.pixelBuffer = s.controller.pixelBuffer)
    (hpayload : c.payload = s.controller.payload) (hacn : acnStores ⊆ s.carried)
    (hzcpp : zcppStores ⊆ s.carried) :
    Regular c₀
      { s with controller := c, acnStores := acnStores, zcppStores := zcppStores } where
  workers := hworkers.trans h.workers
  acnStores := hacn
  zcppStores := hzcpp
  pixelBuffer := hpixels ▸ h.pixelBuffer
  past := h.past
  current := fun hpc => by
    change c.pixelBuffer ∈ s.past
    exact hpixels ▸ h.current hpc
  pc := h.pc.congr rfl rfl rfl rfl hworkers hpayload (List.Subset.refl _)
  sent := h.sent

theorem Regular.receiveAcn (h : s.Regular c₀) {recv : Option Datagram}
    (hstep : s.receiveAcn params recv = .ok s') : s'.Regular c₀ := by
  rw [ByteThreads.receiveAcn] at hstep
  cases hpending : s.acnStores with
  | nil =>
      simp only [hpending] at hstep
      cases hargs : Acn.memcpyArgs params.acn
        (EthBuffer.recvfrom s.controller.acnEthBuffer recv) with
      | none =>
          simp only [hargs, Outcome.pure_eq_ok, Outcome.ok.injEq] at hstep
          obtain rfl := hstep
          exact h.accept rfl rfl rfl (List.nil_subset _) h.zcppStores
      | some args =>
          -- the packet asks for its stores before the first of them is made
          simp only [hargs, Outcome.bind_eq_ok_iff, Outcome.pure_eq_ok, Outcome.ok.injEq] at hstep
          obtain ⟨sts, -, rfl⟩ := hstep
          exact (h.carry sts).accept rfl rfl rfl (List.subset_append_right ..)
            (List.subset_append_of_subset_left _ h.zcppStores)
  | cons st sts =>
      simp only [hpending, Outcome.ok.injEq] at hstep
      exact hstep ▸ h

/-- A packet that is neither a configuration nor data leaves its bytes in the receive buffer and
nothing else. -/
theorem eq_of_zcppMulticastListen_other {controllerName : Block 48} {net : Network}
    {recv : Option Datagram} {c : Controller} {r : Controller × Option (Block 88)}
    (hconfig : Zcpp.received (EthBuffer.recvfrom c.zcppEthBuffer recv) ≠ some .config)
    (hdata : Zcpp.received (EthBuffer.recvfrom c.zcppEthBuffer recv) ≠ some .data)
    (hr : zcppMulticastListen controllerName net recv c = .ok r) :
    r.1 = { c with zcppEthBuffer := EthBuffer.recvfrom c.zcppEthBuffer recv } := by
  rcases zcppMulticastListen_cases hr with
    ⟨-, D, -, rfl⟩ | ⟨hkind, -⟩ | ⟨hkind, -⟩ | rfl
  · rfl
  · exact absurd hkind hconfig
  · exact absurd hkind hdata
  · rfl

theorem Regular.receiveZcpp (h : s.Regular c₀) {net : Network} {recv : Option Datagram}
    (hconfig : s.Unconfigured (.zcpp net recv))
    (hstep : s.receiveZcpp params net recv = .ok s') : s'.Regular c₀ := by
  rw [ByteThreads.receiveZcpp] at hstep
  cases hpending : s.zcppStores with
  | nil =>
      simp only [hpending] at hstep
      split at hstep
      next hdata =>
        simp only [Outcome.bind_eq_ok_iff, Outcome.pure_eq_ok, Outcome.ok.injEq] at hstep
        obtain ⟨sts, -, rfl⟩ := hstep
        exact (h.carry sts).accept rfl rfl rfl
          (List.subset_append_of_subset_left _ h.acnStores) (List.subset_append_right ..)
      next hdata =>
        simp only [Outcome.bind_eq_ok_iff, Outcome.pure_eq_ok, Outcome.ok.injEq] at hstep
        obtain ⟨⟨c, response⟩, hlisten, rfl⟩ := hstep
        obtain rfl := eq_of_zcppMulticastListen_other hconfig hdata hlisten
        exact h.accept rfl rfl rfl h.acnStores (List.nil_subset _)
  | cons st sts =>
      simp only [hpending, Outcome.ok.injEq] at hstep
      exact hstep ▸ h

/-- A step of the worker that leaves everything but its own variables alone. -/
theorem Regular.work (h : s.Regular c₀) {c : Controller} {port pc b copied past sent}
    (hworkers : c.workers = s.controller.workers)
    (hpixels : c.pixelBuffer = s.controller.pixelBuffer)
    (hpast : ∀ buffer ∈ past, buffer ∈ s.past ∨ buffer = s.controller.pixelBuffer)
    (hcurrent : pc ≠ .gate → s.controller.pixelBuffer ∈ past)
    (hpc : PcRegular { s with
      controller := c, port := port, pc := pc, b := b, copied := copied, past := past
      sent := sent })
    (hsent : ∀ f ∈ sent, f.Regular c₀ s.carried) :
    Regular c₀ { s with
      controller := c, port := port, pc := pc, b := b, copied := copied, past := past
      sent := sent } where
  workers := hworkers.trans h.workers
  acnStores := h.acnStores
  zcppStores := h.zcppStores
  pixelBuffer := hpixels ▸ h.pixelBuffer
  past := fun buffer hbuffer => (hpast buffer hbuffer).elim (h.past buffer) fun heq =>
    heq ▸ h.pixelBuffer
  current := fun hgate => by
    change c.pixelBuffer ∈ past
    exact hpixels ▸ hcurrent hgate
  pc := hpc
  sent := hsent

/-- The block of a port ends with a regular frame. -/
theorem Regular.transfer (h : s.Regular c₀) {copied past}
    (hpacked : PackedFrom s.controller.workers.mapping s.port past s.payload s.b copied
      (List.finRange 8)) (hpast : ∀ buffer ∈ past, Accounted c₀ s.carried buffer) :
    PixelFrame.Regular c₀ s.carried
      ⟨⟨s.port, s.payload.bytes (16 + s.b.toNat), copied⟩, past⟩ where
  decode := by
    obtain ⟨counts, body, -, -, -, hdecode⟩ := hpacked.packed.selfConsistent s.port
    exact hdecode
  strings := h.workers ▸ hpacked.read
  past := hpast

/-- A step of the worker keeps the invariant. -/
theorem Regular.load (h : s.Regular c₀) {j : ℕ} {ret : ℤ} (hload : s.load j ret = .ok s') :
    s'.Regular c₀ := by
  have hpc := h.pc
  have hpast : ∀ buffer ∈ s.past, buffer ∈ s.past ∨ buffer = s.controller.pixelBuffer :=
    fun _ => .inl
  rw [PcRegular] at hpc
  rw [ByteThreads.load] at hload
  cases hs : s.pc with
  | gate =>
      simp only [hs] at hload
      split at hload
      · -- the buffers of the block are counted from here on
        obtain rfl := Outcome.ok.inj hload
        exact h.work rfl rfl (fun _ => fun hmem => .inr (List.mem_singleton.mp hmem))
          (fun _ => List.mem_singleton_self _) ⟨[], rfl, PackedFrom.nil _⟩ h.sent
      · obtain rfl := Outcome.ok.inj hload
        exact h.work rfl rfl hpast (fun hgate => absurd rfl hgate) trivial h.sent
  | strings rest =>
      have hcurrent := h.current (by rw [hs]; exact BytePc.noConfusion)
      simp only [hs] at hload hpc
      obtain ⟨pre, hsplit, hpacked⟩ := hpc
      cases rest with
      | nil =>
          -- all strings are packed, and the frame is sent
          rw [List.append_nil] at hsplit
          simp only [Outcome.bind_eq_ok_iff, Outcome.pure_eq_ok, Outcome.ok.injEq] at hload
          obtain ⟨⟨c, events⟩, htransfer, rfl⟩ := hload
          obtain ⟨c', events', htransfer', hsame, -, -, hframes⟩ :=
            transferPort_eq hpacked.packed.nonneg hpacked.packed.le ret s.controller
          obtain ⟨rfl, rfl⟩ := Prod.mk.inj (Outcome.ok.inj (htransfer.symm.trans htransfer'))
          refine h.work hsame.workers hsame.pixelBuffer hpast (fun hgate => absurd rfl hgate)
            trivial fun f hf => ?_
          rw [hframes, List.map_singleton, List.mem_append, List.mem_singleton] at hf
          rcases hf with hf | rfl
          · exact h.sent f hf
          · exact h.transfer (hsplit ▸ hpacked) h.past
      | cons a rest =>
          -- a string is packed once, so no header count of a packed one is overwritten
          have hpacked' := hpacked.updateCount (notMem_of_finRange_eq hsplit)
            ((s.cell a).channelCount.setWidth 16)
          have hheader : Function.update s.payload.channelCount a
              ((s.cell a).channelCount.setWidth 16) a = (s.cell a).channelCount.setWidth 16 :=
            Function.update_self ..
          simp only at hload
          split at hload
          next hne =>
            split at hload
            next hfits =>
              obtain rfl := Outcome.ok.inj hload
              refine h.work rfl rfl hpast (fun _ => hcurrent) ⟨pre, hsplit, ?_⟩ h.sent
              exact (payload_setPayload s _).symm ▸
                ⟨hpacked', hheader, hne, hfits, CopyProgress.start _ _ _ _ _⟩
            next => cases hload
          next hzero =>
            -- an empty string is packed by its header count alone
            rw [not_not] at hzero
            obtain rfl := Outcome.ok.inj hload
            refine h.work rfl rfl hpast (fun _ => hcurrent)
              ⟨pre ++ [a], by rw [hsplit, List.append_assoc, List.singleton_append], ?_⟩ h.sent
            exact (payload_setPayload s _).symm ▸
              hpacked'.concat_nil (hheader.trans (by rw [hzero]; rfl)) hzero
  | copy a rest todo =>
      have hcurrent := h.current (by rw [hs]; exact BytePc.noConfusion)
      simp only [hs] at hload hpc
      obtain ⟨pre, hsplit, hcopy⟩ := hpc
      cases todo with
      | nil =>
          obtain rfl := Outcome.ok.inj hload
          exact h.work rfl rfl hpast (fun _ => hcurrent)
            ⟨pre ++ [a], by rw [hsplit, List.append_assoc, List.singleton_append], hcopy.done⟩
            h.sent
      | cons k ks =>
          simp only at hload
          split at hload
          next hmem =>
            -- the byte comes from the buffer as it is now
            obtain rfl := Outcome.ok.inj hload
            refine h.work rfl rfl hpast (fun _ => hcurrent) ⟨pre, hsplit, ?_⟩ h.sent
            exact (payload_setPayload s _).symm ▸ hcopy.store hcurrent j
          next =>
            -- byte `j` is not one that is left to copy
            obtain rfl := Outcome.ok.inj hload
            exact h

/-- A step that does not handle a configuration keeps the invariant. -/
theorem step_regular (h : s.Regular c₀) {a : ByteAct} (ha : s.Unconfigured a)
    (hstep : s.step params a = .ok s') : s'.Regular c₀ := by
  cases a with
  | acn recv => exact h.receiveAcn hstep
  | zcpp net recv => exact h.receiveZcpp ha hstep
  | acnStore st =>
      rw [step] at hstep
      split at hstep
      next hmem =>
        obtain rfl := Outcome.ok.inj hstep
        exact (h.setPixel (h.acnStores hmem)).accept rfl rfl rfl
          (List.Subset.trans List.erase_subset h.acnStores) h.zcppStores
      next => exact Outcome.ok.inj hstep ▸ h
  | zcppStore st =>
      rw [step] at hstep
      split at hstep
      next hmem =>
        obtain rfl := Outcome.ok.inj hstep
        exact (h.setPixel (h.zcppStores hmem)).accept rfl rfl rfl h.acnStores
          (List.Subset.trans List.erase_subset h.zcppStores)
      next => exact Outcome.ok.inj hstep ▸ h
  | load j ret => exact h.load hstep

theorem regular_init (c : Controller) : (init c).Regular c where
  workers := rfl
  acnStores := List.nil_subset _
  zcppStores := List.nil_subset _
  pixelBuffer := fun _ _ => .inl rfl
  past := List.forall_mem_nil _
  current := fun h => absurd rfl h
  pc := trivial
  sent := List.forall_mem_nil _

theorem regular_of_reaches {c : Controller} (h : Reaches params (init c) s) : s.Regular c := by
  induction h with
  | refl => exact regular_init c
  | tail _ hstep ih =>
      obtain ⟨a, ha, hstep⟩ := hstep
      exact step_regular ih ha hstep

end ByteThreads

/-- For every initial state, every sequence of datagrams without a configuration and every order
of the single byte accesses of the three threads: a receiver of a frame reads eight strings of the
configured lengths; every byte of them was at its address at some time between the start of the
block of the port and the transfer; every byte that ever was in the pixel buffer was there
initially or is one that a packet asked to store at that address; and if nothing was stored
while the block of the port ran, the frame is the one of the pixel buffer. -/
theorem pixelFrames_regular (params : Params) (c : Controller) {s : ByteThreads}
    (h : ByteThreads.Reaches params (ByteThreads.init c) s) :
    ∀ f ∈ s.sent, f.Regular c s.carried ∧
      ∀ buffer, f.past = [buffer] →
        f.bytes = portFrame { c with pixelBuffer := buffer } f.port := by
  intro f hf
  have hregular := (ByteThreads.regular_of_reaches h).sent f hf
  exact ⟨hregular, fun buffer hpast => hregular.eq_portFrame hpast⟩

/-! ### A torn frame -/

instance (s : ByteThreads) (a : ByteAct) : Decidable (s.Unconfigured a) :=
  match a with
  | .zcpp _ recv => inferInstanceAs (Decidable
      (Zcpp.received (EthBuffer.recvfrom s.controller.zcppEthBuffer recv) ≠ some .config))
  | .acn _ | .acnStore _ | .zcppStore _ | .load _ _ => instDecidableTrue

/-- Execute steps as long as they are defined and handle no configuration. -/
def ByteThreads.exec (params : Params) : List ByteAct → ByteThreads → Option ByteThreads
  | [], s => some s
  | a :: as, s =>
      if s.Unconfigured a then
        match s.step params a with
        | .ok s' => exec params as s'
        | .exit | .undefined => none
      else none

theorem ByteThreads.reaches_of_exec {params : Params} {as : List ByteAct} {s s' : ByteThreads}
    (h : s.exec params as = some s') : Reaches params s s' := by
  induction as generalizing s with
  | nil =>
      obtain rfl := Option.some.inj h
      exact Relation.ReflTransGen.refl
  | cons a as ih =>
      rw [exec] at h
      split at h
      next ha =>
        cases hstep : s.step params a with
        | ok t =>
            rw [hstep] at h
            exact Relation.ReflTransGen.head ⟨a, ha, hstep⟩ (ih h)
        | exit | undefined =>
            rw [hstep] at h
            cases h
      next => cases h

/-- A data packet with the bytes 7 and 9 for the addresses 0 and 1. -/
def tornData : Datagram :=
  ⟨[0x5A, 0x43, 0x50, 0x50, 0x14, 0, 0, 0, 0, 0, 0, 0, 0, 2, 0, 7, 9], by decide⟩

/-- A controller with one port and one string, of two channels. -/
def tornController (k : Fin 4 × Fin 8) : Controller :=
  { (default : Controller) with
    workers := (Workers.zero.setCell k ⟨2, 0⟩).setFields default 1
    pixelBuffer := fun _ => 0 }

/-- `pixelFrames_regular` on a run in which the worker copies the first byte of a string before the
ZCPP listener stores it, and the second byte after: the frame has the bytes 0 and 9. -/
theorem pixelFrames_regular_torn :
    ∃ s, ByteThreads.Reaches default (ByteThreads.init (tornController (0, 0))) s ∧
      s.sent.map (fun f => f.bytes.drop 16) = [[0, 9]] ∧
      ∀ f ∈ s.sent, f.Regular (tornController (0, 0)) s.carried := by
  let acts : List ByteAct :=
    [.load 0 0, .load 0 0, .load 0 0, .zcpp default (some tornData), .zcppStore (1, 9),
      .zcppStore (0, 7), .load 1 0] ++ List.replicate 9 (.load 0 0)
  have hrun : ((ByteThreads.init (tornController (0, 0))).exec default acts).map
      (fun s => s.sent.map (fun f => f.bytes.drop 16)) = some [[0, 9]] := by
    decide +kernel
  obtain ⟨s, hexec, hbytes⟩ := Option.map_eq_some_iff.mp hrun
  have hreaches := ByteThreads.reaches_of_exec hexec
  exact ⟨s, hreaches, hbytes,
    fun f hf => (pixelFrames_regular default (tornController (0, 0)) hreaches f hf).1⟩

end PiPixelController
