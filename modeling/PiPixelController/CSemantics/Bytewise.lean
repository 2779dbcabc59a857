import PiPixelController.CSemantics.Framing

/-!
# Copies byte by byte

Another thread can run between any two bytes of a `memcpy`, and nothing says in which order the
bytes are copied. `copyStores` are the single stores of a copy; `CopyProgress` is a copy whose
source changes while it is made.

* `foldl_set_copyStores` — the stores of a copy, made in any order, are the copy;
* `CopyProgress.done` — a finished copy has read each byte from one of the states the source went
  through.
-/

namespace CSemantics

namespace Block

variable {n m : ℕ}

/-- Store one byte. -/
def set (b : Block n) (i : ℕ) (v : Byte) : Block n := b.write i [v]

theorem get_set (b : Block n) (i : ℕ) (v : Byte) {j : ℕ} (hj : j < n) :
    (b.set i v).get j = if j = i then v else b.get j := by
  by_cases h : j = i
  · subst h
    rw [if_pos rfl, set, get_write_of_mem b hj le_rfl (by simp)]
    simp
  · rw [if_neg h, set]
    apply get_write_of_notMem
    rw [List.length_singleton]
    omega

/-- A store behind a slice leaves it alone. -/
theorem slice_set_of_le (b : Block n) {off len i : ℕ} (h : off + len ≤ i) (v : Byte) :
    (b.set i v).slice off len = b.slice off len := by
  apply slice_congr
  intro j hj
  apply get_write_of_notMem
  omega

/-- The single stores of a copy. -/
def copyStores (src : Block m) (dstOff srcOff len : ℕ) : List (ℕ × Byte) :=
  (List.range len).map fun j => (dstOff + j, src.get (srcOff + j))

theorem mem_copyStores {src : Block m} {dstOff srcOff len : ℕ} {st : ℕ × Byte} :
    st ∈ src.copyStores dstOff srcOff len ↔
      ∃ j < len, st = (dstOff + j, src.get (srcOff + j)) := by
  simp only [copyStores, List.mem_map, List.mem_range, eq_comm]

/-- Stores that agree with `f` leave its values where they are made. -/
theorem get_foldl_set {sts : List (ℕ × Byte)} {f : ℕ → Byte} (h : ∀ st ∈ sts, st.2 = f st.1)
    (b : Block n) {j : ℕ} (hj : j < n) :
    (sts.foldl (fun b st => b.set st.1 st.2) b).get j =
      if j ∈ sts.map Prod.fst then f j else b.get j := by
  induction sts generalizing b with
  | nil => simp
  | cons st sts ih =>
      rw [List.foldl_cons, ih (fun st' hst' => h st' (List.mem_cons_of_mem st hst')),
        get_set b _ _ hj, List.map_cons]
      by_cases hmem : j ∈ sts.map Prod.fst
      · rw [if_pos hmem, if_pos (List.mem_cons_of_mem _ hmem)]
      · rw [if_neg hmem]
        by_cases heq : j = st.1
        · rw [if_pos heq, if_pos (heq ▸ List.mem_cons_self), heq, h st List.mem_cons_self]
        · rw [if_neg heq, if_neg (by simp [heq, hmem])]

/-- The stores of a copy, made in any order, are the copy. -/
theorem foldl_set_copyStores {src : Block m} {dstOff srcOff len : ℕ} {sts : List (ℕ × Byte)}
    (h : sts.Perm (src.copyStores dstOff srcOff len)) (dst : Block n) :
    sts.foldl (fun b st => b.set st.1 st.2) dst = dst.copy dstOff src srcOff len := by
  have hvalues : ∀ st ∈ sts, st.2 = src.get (srcOff + (st.1 - dstOff)) := by
    intro st hst
    obtain ⟨j, -, rfl⟩ := mem_copyStores.mp (h.mem_iff.mp hst)
    rw [Nat.add_sub_cancel_left]
  have hkeys : ∀ i, i ∈ sts.map Prod.fst ↔ dstOff ≤ i ∧ i < dstOff + len := by
    intro i
    rw [(h.map Prod.fst).mem_iff, copyStores, List.map_map]
    simp only [List.mem_map, List.mem_range, Function.comp_apply]
    exact ⟨by rintro ⟨j, hj, rfl⟩; omega, fun hi => ⟨i - dstOff, by omega, by omega⟩⟩
  apply ext_get
  intro i hi
  rw [get_foldl_set (f := fun i => src.get (srcOff + (i - dstOff))) hvalues dst hi,
    get_copy _ _ _ _ _ hi]
  simp only [hkeys]

end Block

/-! ### A source that changes during the copy -/

section

variable {n m : ℕ}

/-- The bytes are those at `off` on, each of them in one of the states `past`. -/
def ReadDuring (past : List (Block m)) (off : ℕ) (bytes : List Byte) : Prop :=
  ∀ j < bytes.length, ∃ src ∈ past, bytes.getD j 0 = src.get (off + j)

theorem ReadDuring.mono {past past' : List (Block m)} {off : ℕ} {bytes : List Byte}
    (h : ReadDuring past off bytes) (hsub : past ⊆ past') : ReadDuring past' off bytes := by
  intro j hj
  obtain ⟨src, hsrc, hget⟩ := h j hj
  exact ⟨src, hsub hsrc, hget⟩

/-- From a source that did not change the bytes read are a slice of it. -/
theorem ReadDuring.eq_slice {src : Block m} {off : ℕ} {bytes : List Byte}
    (h : ReadDuring [src] off bytes) : bytes = src.slice off bytes.length := by
  symm
  rw [Block.slice_eq_iff rfl]
  intro j hj
  obtain ⟨src', hsrc', hget⟩ := h j hj
  rw [hget, List.mem_singleton.mp hsrc']

/-- A copy of `len` bytes in progress, while the source goes through the states `past`: the bytes
that are not in `todo` have been copied, each from one of these states. -/
def CopyProgress (dst : Block n) (dstOff : ℕ) (past : List (Block m)) (srcOff len : ℕ)
    (todo : List ℕ) : Prop :=
  ∀ j < len, j ∉ todo → ∃ src ∈ past, dst.get (dstOff + j) = src.get (srcOff + j)

namespace CopyProgress

variable {dst : Block n} {dstOff : ℕ} {past : List (Block m)} {srcOff len : ℕ} {todo : List ℕ}

theorem start (dst : Block n) (dstOff : ℕ) (past : List (Block m)) (srcOff len : ℕ) :
    CopyProgress dst dstOff past srcOff len (List.range len) :=
  fun _ hj htodo => absurd (List.mem_range.mpr hj) htodo

/-- The source changes. -/
theorem mono {past' : List (Block m)} (h : CopyProgress dst dstOff past srcOff len todo)
    (hsub : past ⊆ past') : CopyProgress dst dstOff past' srcOff len todo := by
  intro j hj htodo
  obtain ⟨src, hsrc, hget⟩ := h j hj htodo
  exact ⟨src, hsub hsrc, hget⟩

/-- One more byte is copied. -/
theorem store (h : CopyProgress dst dstOff past srcOff len todo) (hfit : dstOff + len ≤ n)
    {src : Block m} (hsrc : src ∈ past) (k : ℕ) :
    CopyProgress (dst.set (dstOff + k) (src.get (srcOff + k))) dstOff past srcOff len
      (todo.erase k) := by
  intro j hj htodo
  rw [Block.get_set _ _ _ (by omega)]
  by_cases hjk : j = k
  · subst hjk
    exact ⟨src, hsrc, if_pos rfl⟩
  · rw [if_neg (by omega)]
    exact h j hj fun hmem => htodo ((List.mem_erase_of_ne hjk).mpr hmem)

theorem done (h : CopyProgress dst dstOff past srcOff len []) :
    ReadDuring past srcOff (dst.slice dstOff len) := by
  intro j hj
  rw [Block.length_slice] at hj
  rw [← (Block.slice_eq_iff (Block.length_slice ..)).mp rfl j hj]
  exact h j hj List.not_mem_nil

end CopyProgress

end

end CSemantics
