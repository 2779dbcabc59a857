import PiPixelController.Interleaving.Defs
import PiPixelController.Startup.Mapping
import PiPixelController.Zcpp.Encode
import PiPixelController.Worker.Correctness

/-!
# Frames of interleaved runs

The worker holds a count from the load for the header to the last load of the same cell. A step
is *undisturbed* when it is not a store of another value to the count that is held.

* `step_consistent` — an undisturbed step keeps the invariant `Threads.Consistent`;
* `frames_selfConsistent` — in every run of undisturbed steps every frame is self-consistent;
* `not_frames_selfConsistent_sample` — a run in which one store of the clearing loop falls between
  the first and the second load of a count.
-/

namespace PiPixelController

open CSemantics

namespace Threads

/-- The cell whose count the worker has loaded for the header and will load again. -/
def held (s : Threads) : Option (Fin 4 × Fin 8) :=
  match s.pc with
  | .test a _ | .start a _ | .copy a _ _ | .advance a _ => some (s.port, a)
  | .gate | .strings _ => none

/-- The step is not a store of another value to the count the worker holds. -/
def Undisturbed (s : Threads) : Act → Prop
  | .store => ∀ st ∈ s.pending.head?, ∀ k ∈ s.held, st.addr = channelCountAddr k.1 k.2 →
      st.value = (s.controller.workers.mapping k).channelCount
  | .receive _ | .load _ => True

instance (s : Threads) (a : Act) : Decidable (s.Undisturbed a) :=
  match a with
  | .store => inferInstanceAs (Decidable (∀ st ∈ s.pending.head?, ∀ k ∈ s.held,
      st.addr = channelCountAddr k.1 k.2 →
        st.value = (s.controller.workers.mapping k).channelCount))
  | .receive _ | .load _ => instDecidableTrue

end Threads

/-- What the string loop has done for the strings `pre`: the bytes copied for them lie one after
the other in the first `b` data bytes, and the header counts are their numbers. -/
structure PackedStrings (payload : ControlBuffer) (b : ℤ) (copied : List (List Byte))
    (pre : List (Fin 8)) : Prop where
  nonneg : 0 ≤ b
  le : b ≤ 19200
  data : payload.channelData.slice 0 b.toNat = copied.flatten
  lengths : copied.map List.length = pre.map fun s => (payload.channelCount s).toNat

namespace Threads

/-- The strings `pre` are packed, `a` is the next one, and its header count is the count in
memory. -/
structure AtString (s : Threads) (a : Fin 8) (rest : List (Fin 8)) (pre : List (Fin 8)) :
    Prop where
  split : List.finRange 8 = pre ++ a :: rest
  packed : PackedStrings s.payload s.b s.copied pre
  header : s.payload.channelCount a = (s.cell a).channelCount.setWidth 16

/-- The invariant of the worker in the block of a port. -/
def PcConsistent (s : Threads) : Prop :=
  match s.pc with
  | .gate => True
  | .strings rest =>
      ∃ pre, List.finRange 8 = pre ++ rest ∧ PackedStrings s.payload s.b s.copied pre
  | .test a rest | .start a rest | .copy a rest _ => ∃ pre, s.AtString a rest pre
  | .advance a rest => ∃ pre, List.finRange 8 = pre ++ a :: rest ∧
      PackedStrings s.payload (s.b + (s.cell a).channelCount.toInt) s.copied (pre ++ [a])

/-- The invariant of a run. -/
structure Consistent (s : Threads) : Prop where
  pc : s.PcConsistent
  sent : ∀ f ∈ s.sent, f.SelfConsistent

end Threads

/-! ### Packing one string -/

namespace PackedStrings

variable {payload : ControlBuffer} {b : ℤ} {copied : List (List Byte)} {pre : List (Fin 8)}

theorem nil (payload : ControlBuffer) : PackedStrings payload 0 [] [] where
  nonneg := le_refl 0
  le := by norm_num
  data := rfl
  lengths := rfl

/-- Storing the header count of a string that is not yet packed. -/
theorem updateCount (h : PackedStrings payload b copied pre) {a : Fin 8} (ha : a ∉ pre)
    (v : BitVec 16) :
    PackedStrings { payload with channelCount := Function.update payload.channelCount a v } b
      copied pre where
  nonneg := h.nonneg
  le := h.le
  data := h.data
  lengths := by
    rw [h.lengths]
    apply List.map_congr_left
    intro s hs
    have hne : s ≠ a := fun heq => ha (heq ▸ hs)
    simp only [Function.update_of_ne hne]

/-- An empty string has no bytes. -/
theorem concat_nil (h : PackedStrings payload b copied pre) {a : Fin 8}
    (ha : payload.channelCount a = 0) :
    PackedStrings payload b (copied ++ [[]]) (pre ++ [a]) where
  nonneg := h.nonneg
  le := h.le
  data := by rw [h.data, List.flatten_append, List.flatten_singleton, List.append_nil]
  lengths := by
    rw [List.map_append, List.map_append, h.lengths, List.map_singleton, List.map_singleton, ha]
    rfl

/-- The copy of a string goes right behind the strings already there. -/
theorem concat_copy (h : PackedStrings payload b copied pre) {a : Fin 8} {count : BitVec 32}
    (ha : payload.channelCount a = count.setWidth 16) {buffer : PixelBuffer} {start : ℤ}
    {data : Block 19200}
    (hcopy : payload.channelData.memcpy b buffer start (sizeT count.toInt) = .ok data) :
    PackedStrings { payload with channelData := data } (b + count.toInt)
      (copied ++ [buffer.slice start.toNat (sizeT count.toInt)]) (pre ++ [a]) := by
  have hb := h.nonneg
  have hb' := h.le
  obtain ⟨hfit, rfl⟩ := Block.memcpy_eq_ok_iff.mp hcopy
  have hge : -2 ^ 31 ≤ count.toInt := BitVec.le_toInt _
  have hlt : count.toInt < 2 ^ 31 := BitVec.toInt_lt
  -- a negative count becomes a length no buffer has
  have hnonneg : 0 ≤ count.toInt := by
    by_contra hneg
    have hbig := le_sizeT_of_neg (not_le.mp hneg) (by omega)
    rw [Block.CopyFits] at hfit
    omega
  rw [sizeT_of_nonneg hnonneg (by omega)] at hfit ⊢
  have hle : b.toNat + count.toInt.toNat ≤ 19200 := by
    rw [Block.CopyFits] at hfit
    omega
  have hsum : (b + count.toInt).toNat = b.toNat + count.toInt.toNat := Int.toNat_add hb hnonneg
  refine ⟨by omega, by omega, ?_, ?_⟩
  · rw [hsum, Block.slice_copy_append _ _ _ _ _ hle, h.data, List.flatten_append,
      List.flatten_singleton]
  · have hheader : (payload.channelCount a).toNat = count.toInt.toNat := by
      rw [ha, BitVec.toNat_setWidth, toNat_toInt_of_nonneg hnonneg,
        Nat.mod_eq_of_lt (by rw [← toNat_toInt_of_nonneg hnonneg]; omega)]
    simp only [List.map_append, List.map_singleton, Block.length_slice, h.lengths, hheader]

/-- The message with all eight strings packed is a self-consistent frame. -/
theorem selfConsistent (h : PackedStrings payload b copied (List.finRange 8)) (p : Fin 4) :
    Frame.SelfConsistent ⟨p, payload.bytes (16 + b.toNat), copied⟩ := by
  have hlengths : (List.ofFn payload.channelCount).map BitVec.toNat = copied.map List.length := by
    rw [h.lengths, List.ofFn_eq_map, List.map_map]
    rfl
  have hsum : ((List.ofFn payload.channelCount).map BitVec.toNat).sum = b.toNat := by
    rw [hlengths, ← List.length_flatten, ← h.data, Block.length_slice]
  have hread := Framing.readHeader_header_append (List.ofFn payload.channelCount)
    (payload.channelData.slice 0 b.toNat)
  have hdecode := Framing.decode_header_append (List.ofFn payload.channelCount)
    (payload.channelData.slice 0 b.toNat)
  rw [List.length_ofFn, ← ControlBuffer.bytes_eq] at hread hdecode
  refine ⟨_, _, hread, ?_, hlengths.symm, ?_⟩
  · rw [hsum, ControlBuffer.bytes, List.length_map, List.length_range]
    omega
  · rw [hdecode, hsum, Block.length_slice, if_pos rfl, hlengths, h.data,
      Framing.splitLengths_flatten]

end PackedStrings

/-! ### Steps of the worker -/

namespace Threads

variable {s s' : Threads} {ret : ℤ}

@[simp]
theorem payload_setPayload (s : Threads) (payload : ControlBuffer) :
    (s.setPayload payload).payload = payload :=
  Function.update_self ..

/-- A step of the worker keeps the invariant. -/
theorem Consistent.load (h : s.Consistent) (hload : s.load ret = .ok s') : s'.Consistent := by
  have hpc := h.pc
  rw [PcConsistent] at hpc
  rw [Threads.load] at hload
  cases hs : s.pc with
  | gate =>
      simp only [hs] at hload
      split at hload
      · obtain rfl := Outcome.ok.inj hload
        exact ⟨⟨[], rfl, PackedStrings.nil _⟩, h.sent⟩
      · obtain rfl := Outcome.ok.inj hload
        refine ⟨?_, h.sent⟩
        simp only [PcConsistent]
  | strings rest =>
      simp only [hs] at hload hpc
      obtain ⟨pre, hsplit, hpacked⟩ := hpc
      cases rest with
      | nil =>
          simp only [Outcome.bind_eq_ok_iff, Outcome.pure_eq_ok, Outcome.ok.injEq] at hload
          obtain ⟨⟨c, events⟩, htransfer, rfl⟩ := hload
          obtain ⟨c', events', htransfer', -, -, -, hframes⟩ :=
            transferPort_eq hpacked.nonneg hpacked.le ret s.controller
          obtain ⟨rfl, rfl⟩ := Prod.mk.inj (Outcome.ok.inj (htransfer.symm.trans htransfer'))
          -- all strings are packed, so the new frame is self-consistent
          refine ⟨trivial, fun f hf => ?_⟩
          simp only [hframes, List.map_singleton, List.mem_append, List.mem_singleton] at hf
          rcases hf with hf | rfl
          · exact h.sent f hf
          · rw [List.append_nil] at hsplit
            exact (hsplit ▸ hpacked).selfConsistent s.port
      | cons a rest =>
          obtain rfl := Outcome.ok.inj hload
          -- a string is packed once
          have ha : a ∉ pre := by
            have hnodup := List.nodup_finRange 8
            rw [hsplit, List.nodup_append] at hnodup
            exact fun hmem => hnodup.2.2 a hmem a List.mem_cons_self rfl
          refine ⟨⟨pre, hsplit, ?_, ?_⟩, h.sent⟩
          · exact (payload_setPayload s _).symm ▸ hpacked.updateCount ha _
          · change ((s.setPayload _).payload).channelCount a = _
            rw [payload_setPayload]
            exact Function.update_self ..
  | test a rest =>
      simp only [hs] at hload hpc
      obtain ⟨pre, hat⟩ := hpc
      split at hload
      next hne =>
        obtain rfl := Outcome.ok.inj hload
        exact ⟨⟨pre, hat.split, hat.packed, hat.header⟩, h.sent⟩
      next hzero =>
        obtain rfl := Outcome.ok.inj hload
        have hheader : s.payload.channelCount a = 0 := by
          rw [hat.header, not_not.mp hzero]
          rfl
        exact ⟨⟨pre ++ [a], by rw [hat.split, List.append_assoc, List.singleton_append],
          hat.packed.concat_nil hheader⟩, h.sent⟩
  | start a rest =>
      simp only [hs] at hload hpc
      obtain ⟨pre, hat⟩ := hpc
      obtain rfl := Outcome.ok.inj hload
      exact ⟨⟨pre, hat.split, hat.packed, hat.header⟩, h.sent⟩
  | copy a rest startChannel =>
      -- the length loaded here is the count in the header, by the invariant
      simp only [hs] at hload hpc
      obtain ⟨pre, hat⟩ := hpc
      simp only [Outcome.bind_eq_ok_iff, Outcome.pure_eq_ok, Outcome.ok.injEq] at hload
      obtain ⟨data, hcopy, rfl⟩ := hload
      refine ⟨⟨pre, hat.split, ?_⟩, h.sent⟩
      exact (payload_setPayload s _).symm ▸ hat.packed.concat_copy hat.header hcopy
  | advance a rest =>
      simp only [hs] at hload hpc
      obtain ⟨pre, hsplit, hpacked⟩ := hpc
      obtain rfl := Outcome.ok.inj hload
      refine ⟨⟨pre ++ [a], by rw [hsplit, List.append_assoc, List.singleton_append], ?_⟩, h.sent⟩
      -- what has been copied fits in the payload, so the sum is an `int`
      have hsum := BitVec.toInt_ofInt_eq_self (show 0 < 32 by decide)
        (le_trans (by norm_num) hpacked.nonneg) (lt_of_le_of_lt hpacked.le (by norm_num))
      exact hsum.symm ▸ hpacked

/-! ### Steps of the handler -/

/-- A store that does not change the count of a cell. -/
theorem channelCount_store {w w' : Workers} {st : WordStore} (h : w.store st = .ok w')
    {k : Fin 4 × Fin 8}
    (hk : st.addr = channelCountAddr k.1 k.2 → st.value = (w.mapping k).channelCount) :
    (w'.mapping k).channelCount = (w.mapping k).channelCount := by
  obtain ⟨i, hi, rfl⟩ := Workers.store_eq_ok h
  change Function.update w i st.value (Workers.channelCountIdx k) = _
  by_cases hik : Workers.channelCountIdx k = i
  · rw [hik, Function.update_self]
    exact hk (by rw [← hi, ← hik, Workers.channelCountIdx_eq])
  · exact Function.update_of_ne hik _ _

/-- The invariant of the worker is about the count it holds only. -/
theorem PcConsistent.congr (h : s.PcConsistent) (hpc : s'.pc = s.pc) (hport : s'.port = s.port)
    (hb : s'.b = s.b) (hcopied : s'.copied = s.copied)
    (hpayload : s'.controller.payload = s.controller.payload)
    (hheld : ∀ k ∈ s.held, (s'.controller.workers.mapping k).channelCount =
      (s.controller.workers.mapping k).channelCount) : s'.PcConsistent := by
  have hpay : s'.payload = s.payload := by rw [payload, payload, hpayload, hport]
  have hcount : ∀ a, s.held = some (s.port, a) →
      (s'.cell a).channelCount = (s.cell a).channelCount := by
    intro a ha
    rw [cell, cell, hport]
    exact hheld _ ha
  have hat : ∀ {a rest pre}, s.held = some (s.port, a) → s.AtString a rest pre →
      s'.AtString a rest pre := by
    intro a rest pre ha hat
    refine ⟨hat.split, ?_, ?_⟩
    · rw [hpay, hb, hcopied]
      exact hat.packed
    · rw [hpay, hcount a ha]
      exact hat.header
  rw [PcConsistent] at h ⊢
  rw [hpc]
  -- only between the header load and the advance a count is held
  cases hs : s.pc with
  | gate => trivial
  | strings rest =>
      simp only [hs, hpay, hb, hcopied] at h ⊢
      exact h
  | test a rest | start a rest | copy a rest startChannel =>
      simp only [hs] at h ⊢
      obtain ⟨pre, hpre⟩ := h
      exact ⟨pre, hat (by rw [held, hs]) hpre⟩
  | advance a rest =>
      simp only [hs, hpay, hb, hcopied] at h ⊢
      rw [hcount a (by rw [held, hs])]
      exact h

theorem Consistent.store (h : s.Consistent) (hstore : s.store = .ok s')
    (hundisturbed : s.Undisturbed .store) : s'.Consistent := by
  rw [Threads.store] at hstore
  cases hpending : s.pending with
  | nil =>
      simp only [hpending] at hstore
      obtain rfl := Outcome.ok.inj hstore
      exact h
  | cons st pending =>
      simp only [hpending, Outcome.bind_eq_ok_iff, Outcome.pure_eq_ok, Outcome.ok.injEq] at hstore
      obtain ⟨w, hw, rfl⟩ := hstore
      refine ⟨h.pc.congr rfl rfl rfl rfl rfl fun k hk => ?_, h.sent⟩
      apply channelCount_store hw
      exact hundisturbed st (by rw [hpending]; rfl) k hk

theorem Consistent.receive (h : s.Consistent) (P : ConfigPacket) :
    (s.receive P).Consistent := by
  rw [Threads.receive]
  cases s.pending with
  | nil => exact ⟨h.pc.congr rfl rfl rfl rfl rfl fun _ _ => rfl, h.sent⟩
  | cons st pending => exact h

/-- An undisturbed step keeps the invariant. -/
theorem step_consistent {a : Act} (h : s.Consistent) (ha : s.Undisturbed a)
    (hstep : s.step a = .ok s') : s'.Consistent := by
  cases a with
  | receive P =>
      obtain rfl := Outcome.ok.inj hstep
      exact h.receive P
  | store => exact h.store hstep ha
  | load ret => exact h.load hstep

end Threads

/-- For every initial state, every sequence of configurations and every order of the stores of the
handler and the loads of the worker in which no store changes a count the worker holds: every
transmitted frame is self-consistent. -/
theorem frames_selfConsistent (c : Controller) {s : Threads}
    (h : Reaches Threads.Undisturbed (Threads.init c) s) : ∀ f ∈ s.sent, f.SelfConsistent := by
  suffices hinv : s.Consistent from hinv.sent
  -- along the run, step by step
  induction h with
  | refl => exact ⟨trivial, List.forall_mem_nil _⟩
  | tail _ hstep ih =>
      obtain ⟨a, ha, hstep⟩ := hstep
      exact Threads.step_consistent ih ha hstep

/-! ### Two runs -/

/-- Execute steps as long as they are allowed and defined. -/
def exec (allow : Threads → Act → Prop) [∀ s a, Decidable (allow s a)] :
    List Act → Threads → Option Threads
  | [], s => some s
  | a :: as, s =>
      if allow s a then
        match s.step a with
        | .ok s' => exec allow as s'
        | .exit | .undefined => none
      else none

theorem reaches_of_exec {allow : Threads → Act → Prop} [∀ s a, Decidable (allow s a)]
    {as : List Act} {s s' : Threads} (h : exec allow as s = some s') : Reaches allow s s' := by
  induction as generalizing s with
  | nil =>
      obtain rfl := Option.some.inj h
      exact Relation.ReflTransGen.refl
  | cons a as ih =>
      rw [exec] at h
      split at h
      next hallow =>
        cases hstep : s.step a with
        | ok t =>
            rw [hstep] at h
            exact Relation.ReflTransGen.head ⟨a, hallow, hstep⟩ (ih h)
        | exit | undefined =>
            rw [hstep] at h
            cases h
      next => cases h

/-- A file with one string of one channel. -/
def sampleFile : ConfigFile := ConfigFile.ofRecord ⟨0, by decide⟩ ⟨some 0, some 0, some 1⟩

/-- A controller started with it. -/
def sampleController : Controller :=
  { (default : Controller) with
    workers := (Workers.zero.setCell (⟨0, by decide⟩, ⟨0, by decide⟩) ⟨1, 0⟩).setFields default 4 }

theorem startsFrom_sampleController : sampleController.StartsFrom sampleFile where
  workers := ⟨default, rfl⟩
  lastConfigSequence := rfl
  pixelBuffer := rfl
  payload := rfl

/-- `frames_selfConsistent` on a run in which an entry for another string of the port is stored
while the worker holds the count of string 0. -/
theorem frames_selfConsistent_sample :
    ∃ s, Reaches Threads.Undisturbed (Threads.init sampleController) s ∧
      s.sent.map Frame.bytes = [[1, 0, 0, 0, 0, 0, 0, 0, 0, 0, 0, 0, 0, 0, 0, 0, 0]] ∧
      ∀ f ∈ s.sent, f.SelfConsistent := by
  let receive : Act := .receive (ConfigPacket.encode 0 [⟨0, 3, 7, 0⟩] (by decide))
  let acts : List Act :=
    [.load 0, .load 0, receive, .store, .store] ++ List.replicate 19 (.load 0)
  have hrun : (exec Threads.Undisturbed acts (Threads.init sampleController)).map
      (fun s => s.sent.map Frame.bytes) =
      some [[1, 0, 0, 0, 0, 0, 0, 0, 0, 0, 0, 0, 0, 0, 0, 0, 0]] := by
    decide +kernel
  obtain ⟨s, hexec, hbytes⟩ := Option.map_eq_some_iff.mp hrun
  have hreaches := reaches_of_exec hexec
  exact ⟨s, hreaches, hbytes, frames_selfConsistent sampleController hreaches⟩

/-- Between the load of the count for the header and the load for the `if`, the handler makes the
first store of the clearing loop: the header says 1, and nothing is sent for string 0. -/
theorem not_frames_selfConsistent_sample :
    ¬∀ (file : ConfigFile) (c : Controller), c.StartsFrom file → ∀ s,
      Reaches (fun t _ => Packable t.controller.workers.pixelPorts t.controller.workers.mapping)
        (Threads.init c) s → ∀ f ∈ s.sent, f.SelfConsistent := by
  intro h
  let receive : Act := .receive (ConfigPacket.encode 1 [] (by decide))
  let acts : List Act := [.load 0, .load 0, receive, .store] ++ List.replicate 16 (.load 0)
  have hrun : (exec
      (fun t _ => Packable t.controller.workers.pixelPorts t.controller.workers.mapping) acts
      (Threads.init sampleController)).map (fun s => s.sent.map Frame.bytes) =
      some [[1, 0, 0, 0, 0, 0, 0, 0, 0, 0, 0, 0, 0, 0, 0, 0]] := by
    decide +kernel
  obtain ⟨s, hexec, hbytes⟩ := Option.map_eq_some_iff.mp hrun
  obtain ⟨f, hf, hfbytes⟩ := List.exists_of_mem_map
    (show [1, 0, 0, 0, 0, 0, 0, 0, 0, 0, 0, 0, 0, 0, 0, 0] ∈ s.sent.map Frame.bytes by
      rw [hbytes]; exact List.mem_singleton_self _)
  obtain ⟨counts, body, hread, hsum, -, -⟩ :=
    h sampleFile sampleController startsFrom_sampleController s (reaches_of_exec hexec) f hf
  rw [hfbytes] at hread hsum
  obtain rfl : counts = [1, 0, 0, 0, 0, 0, 0, 0] := (congrArg Prod.fst (Option.some.inj hread)).symm
  exact absurd hsum (by decide)

end PiPixelController
