import PiPixelController.CSemantics.Memory

/-!
# NUL-terminated strings

A C string is the list of its bytes before the terminating NUL, none of them NUL. `strncmp` and
`strncpy` are the library functions on such strings.

Main results:

* `strncmp_eq_zero_iff` — comparing with a whole string of that length is a test for a prefix;
* `get_strncpy`, `strlen_eq_some_iff` — the bytes a bounded copy leaves, and where a reader of
  them finds the terminating NUL.
-/

namespace CSemantics

/-- Whether `strncmp` of two strings returns 0: their first `n` bytes are the same, up to a
common end. -/
def StrncmpEq (a b : List Byte) (n : ℕ) : Prop := a.take n = b.take n

instance (a b : List Byte) (n : ℕ) : Decidable (StrncmpEq a b n) := by
  unfold StrncmpEq
  infer_instance

/-- The first `a.length` bytes agree with `a` exactly when `a` is a prefix. -/
theorem strncmp_eq_zero_iff {a b : List Byte} {n : ℕ} (h : a.length = n) :
    StrncmpEq a b n ↔ a <+: b := by
  subst h
  rw [StrncmpEq, List.take_length, List.prefix_iff_eq_take]

namespace Block

variable {n : ℕ}

/-- `strncpy` of `s` to `off`: the first `len` bytes of the string, padded with NULs. -/
def strncpy (b : Block n) (off : ℕ) (s : List Byte) (len : ℕ) : Block n :=
  b.write off ((List.range len).map fun i => s.getD i 0)

theorem get_strncpy (b : Block n) {off len : ℕ} (s : List Byte) (hlen : off + len ≤ n) {i : ℕ}
    (hi : i < len) : (b.strncpy off s len).get (off + i) = s.getD i 0 := by
  rw [strncpy, get_write_of_mem _ (by omega) (by omega) (by simpa using hi)]
  simp

/-- The first NUL of a block. -/
theorem strlen_eq_some_iff {b : Block n} {k : ℕ} :
    b.strlen = some k ↔ k < n ∧ b.get k = 0 ∧ ∀ i < k, b.get i ≠ 0 := by
  rw [strlen, List.find?_range_eq_some]
  simp only [decide_eq_true_eq, decide_eq_false_iff_not, Bool.not_eq_true', List.mem_range]
  tauto

end Block

end CSemantics
