import Mathlib.Data.List.Basic
import Mathlib.Logic.Basic

/-!
# Outcomes of C statements

A C statement run on a state ends in one of three ways: it completes with a value, it ends
the process, or its behaviour is undefined (an access outside the object it is made to).
`Outcome` is the monad of these three results. A loop over a list is `List.foldlM`.

The module provides:

* `bind_eq_ok_iff` — inversion of a completed sequence of statements;
* `foldlM_total`, `foldlM_partial` — the two rules of a loop, with an invariant indexed by
  the elements already processed;
* `foldlM_eq_iff` — where a loop that does not complete ends;
* `foldlM_invariant` — what every iteration keeps, a completed loop keeps;
* `foldlM_simulates` — a loop whose iterations complete and follow a pure step completes and
  follows the pure fold.
-/

namespace CSemantics

universe u v w

/-- The result of a C statement: completed with a value, process ended, or undefined. -/
inductive Outcome (α : Type u) where
  /-- The statement completed with the value `a`. -/
  | ok (a : α)
  /-- The statement ended the process. -/
  | exit
  /-- The behaviour is undefined. -/
  | undefined
deriving DecidableEq

namespace Outcome

variable {α : Type u} {β : Type u} {σ : Type u} {τ : Type v} {ℓ : Type w}

instance : Monad Outcome where
  pure := ok
  bind x f := match x with
    | ok a => f a
    | exit => exit
    | undefined => undefined

@[simp]
theorem pure_eq_ok (a : α) : (pure a : Outcome α) = ok a := rfl

@[simp]
theorem ok_bind (a : α) (f : α → Outcome β) : ok a >>= f = f a := rfl

@[simp]
theorem exit_bind (f : α → Outcome β) : (exit : Outcome α) >>= f = exit := rfl

@[simp]
theorem undefined_bind (f : α → Outcome β) : (undefined : Outcome α) >>= f = undefined := rfl

instance : LawfulMonad Outcome :=
  LawfulMonad.mk' Outcome (by rintro α (_ | _ | _) <;> rfl) (fun _ _ => rfl)
    (by rintro α β γ (_ | _ | _) f g <;> rfl)

/-- A sequence of two statements completes exactly when both complete. -/
theorem bind_eq_ok_iff {x : Outcome α} {f : α → Outcome β} {b : β} :
    x >>= f = ok b ↔ ∃ a, x = ok a ∧ f a = ok b := by
  cases x <;> simp

/-- A sequence is undefined when its first statement is, or when the second is after the
first completed. -/
theorem bind_eq_undefined_iff {x : Outcome α} {f : α → Outcome β} :
    x >>= f = undefined ↔ x = undefined ∨ ∃ a, x = ok a ∧ f a = undefined := by
  cases x <;> simp

/-- A claim about the result of a statement that completes. -/
theorem exists_ok_iff {x : Outcome α} {a : α} (h : x = ok a) {p : α → Prop} :
    (∃ a', x = ok a' ∧ p a') ↔ p a := by
  constructor
  · rintro ⟨a', hx, hp⟩
    obtain rfl : a = a' := ok.inj (h.symm.trans hx)
    exact hp
  · exact fun hp => ⟨a, h, hp⟩

@[simp]
theorem map_ok (f : α → β) (a : α) : f <$> ok a = ok (f a) := rfl

theorem map_eq_ok_iff {f : α → β} {x : Outcome α} {b : β} :
    f <$> x = ok b ↔ ∃ a, x = ok a ∧ f a = b := by
  rw [map_eq_pure_bind, bind_eq_ok_iff]
  simp only [pure_eq_ok, ok.injEq]

/-- A pure function of a result does not decide whether there is one. -/
theorem exists_map_eq_ok_iff {f : α → β} {x : Outcome α} :
    (∃ b, f <$> x = ok b) ↔ ∃ a, x = ok a := by
  simp only [map_eq_ok_iff]
  exact ⟨fun ⟨_, a, h, _⟩ => ⟨a, h⟩, fun ⟨a, h⟩ => ⟨f a, a, h, rfl⟩⟩

theorem map_inj {f : α → β} (hf : f.Injective) {x y : Outcome α} :
    f <$> x = f <$> y ↔ x = y := by
  refine ⟨fun h => ?_, fun h => h ▸ rfl⟩
  -- two outcomes of different kinds stay different under `f`
  cases x <;> cases y
  case ok.ok a a' => exact congrArg ok (hf (ok.inj h))
  all_goals first | rfl | cases h

/-- Loops whose iterations agree on the elements of the list agree. -/
theorem foldlM_congr {f g : σ → ℓ → Outcome σ} {ls : List ℓ}
    (h : ∀ s, ∀ l ∈ ls, f s l = g s l) (s : σ) : ls.foldlM f s = ls.foldlM g s := by
  induction ls generalizing s with
  | nil => rfl
  | cons l ls ih =>
      rw [List.foldlM_cons, List.foldlM_cons, h s l List.mem_cons_self]
      have hls : ∀ s, ∀ l' ∈ ls, f s l' = g s l' :=
        fun s l' hl' => h s l' (List.mem_cons_of_mem l hl')
      simp only [ih hls]

/-- A loop with an undefined iteration that is never left early is undefined. -/
theorem foldlM_eq_undefined {step : σ → ℓ → Outcome σ} {ls : List ℓ}
    (hexit : ∀ s, ∀ l ∈ ls, step s l ≠ exit) {l : ℓ} (hl : l ∈ ls)
    (hundef : ∀ s, step s l = undefined) (s : σ) : ls.foldlM step s = undefined := by
  induction ls generalizing s with
  | nil => cases hl
  | cons x xs ih =>
      rw [List.foldlM_cons]
      rcases List.mem_cons.mp hl with rfl | hl
      · rw [hundef, undefined_bind]
      · -- the loop gets to `l`, or is undefined before
        cases hx : step s x with
        | ok s' =>
            rw [ok_bind]
            exact ih (fun s l hl => hexit s l (List.mem_cons_of_mem x hl)) hl s'
        | exit => exact absurd hx (hexit s x List.mem_cons_self)
        | undefined => rfl

/-- A loop does not complete exactly when it gets to an iteration that does not, and ends as that
one does. -/
theorem foldlM_eq_iff {r : Outcome σ} (hr : ∀ s, r ≠ ok s) {step : σ → ℓ → Outcome σ} {ls : List ℓ}
    {s : σ} :
    ls.foldlM step s = r ↔ ∃ pre l post s', ls = pre ++ l :: post ∧
      pre.foldlM step s = ok s' ∧ step s' l = r := by
  induction ls generalizing s with
  | nil => simpa using (hr s).symm
  | cons l ls ih =>
      rw [List.foldlM_cons]
      constructor
      · intro h
        cases hl : step s l with
        | ok s₁ =>
            rw [hl, ok_bind, ih] at h
            obtain ⟨pre, l', post, s', rfl, hpre, hl'⟩ := h
            exact ⟨l :: pre, l', post, s', rfl, by rw [List.foldlM_cons, hl, ok_bind, hpre], hl'⟩
        | exit =>
            rw [hl, exit_bind] at h
            exact ⟨[], l, ls, s, rfl, rfl, hl.trans h⟩
        | undefined =>
            rw [hl, undefined_bind] at h
            exact ⟨[], l, ls, s, rfl, rfl, hl.trans h⟩
      · rintro ⟨pre, l', post, s', heq, hpre, hl'⟩
        cases pre with
        | nil =>
            obtain ⟨rfl, rfl⟩ := List.cons.inj heq
            rw [List.foldlM_nil, pure_eq_ok, ok.injEq] at hpre
            rw [hpre, hl']
            cases r with
            | ok s => exact absurd rfl (hr s)
            | exit => rfl
            | undefined => rfl
        | cons x pre =>
            obtain ⟨rfl, rfl⟩ := List.cons.inj heq
            rw [List.foldlM_cons, bind_eq_ok_iff] at hpre
            obtain ⟨s₁, hl, hpre⟩ := hpre
            rw [hl, ok_bind, ih]
            exact ⟨pre, l', post, s', rfl, hpre, hl'⟩

/-- A loop ends the process exactly when it gets to an iteration that does. -/
theorem foldlM_eq_exit_iff {step : σ → ℓ → Outcome σ} {ls : List ℓ} {s : σ} :
    ls.foldlM step s = exit ↔ ∃ pre l post s', ls = pre ++ l :: post ∧
      pre.foldlM step s = ok s' ∧ step s' l = exit :=
  foldlM_eq_iff (by simp)

/-- A loop is undefined exactly when it gets to an iteration that is. -/
theorem foldlM_eq_undefined_iff {step : σ → ℓ → Outcome σ} {ls : List ℓ} {s : σ} :
    ls.foldlM step s = undefined ↔ ∃ pre l post s', ls = pre ++ l :: post ∧
      pre.foldlM step s = ok s' ∧ step s' l = undefined :=
  foldlM_eq_iff (by simp)

/-- A loop without an iteration that ends the process does not end it. -/
theorem foldlM_ne_exit {step : σ → ℓ → Outcome σ} {ls : List ℓ}
    (h : ∀ s, ∀ l ∈ ls, step s l ≠ exit) (s : σ) : ls.foldlM step s ≠ exit := by
  intro hexit
  obtain ⟨pre, l, post, s', rfl, -, hl⟩ := foldlM_eq_exit_iff.mp hexit
  exact h s' l (by simp) hl

/-- A sequence of statements ends the process when its first one does, or when the second does
after the first completed. -/
theorem bind_eq_exit_iff {x : Outcome α} {f : α → Outcome β} :
    x >>= f = exit ↔ x = exit ∨ ∃ a, x = ok a ∧ f a = exit := by
  cases x <;> simp

theorem map_eq_exit_iff {f : α → β} {x : Outcome α} : f <$> x = exit ↔ x = exit := by
  rw [map_eq_pure_bind, bind_eq_exit_iff]
  simp

theorem map_eq_undefined_iff {f : α → β} {x : Outcome α} :
    f <$> x = undefined ↔ x = undefined := by
  rw [map_eq_pure_bind, bind_eq_undefined_iff]
  simp

/-- A statement that does not end the process is defined exactly when it completes. -/
theorem ne_undefined_iff {x : Outcome α} (h : x ≠ exit) : x ≠ undefined ↔ ∃ a, x = ok a := by
  cases x with
  | ok a => simp
  | exit => exact absurd rfl h
  | undefined => simp

/-- The total rule of a loop: with an invariant indexed by the elements already processed that
every iteration establishes for one element more, the loop completes with the invariant. -/
theorem foldlM_total {step : σ → ℓ → Outcome σ} {ls : List ℓ} (I : List ℓ → σ → Prop) {s : σ}
    (h0 : I [] s)
    (hstep : ∀ pre l post, ls = pre ++ l :: post → ∀ s, I pre s →
      ∃ s', step s l = ok s' ∧ I (pre ++ [l]) s') :
    ∃ s', ls.foldlM step s = ok s' ∧ I ls s' := by
  -- generalise to a loop that has processed `pre` and still has `rest` before it
  suffices h : ∀ rest pre s, pre ++ rest = ls → I pre s →
      ∃ s', rest.foldlM step s = ok s' ∧ I ls s' from h ls [] s rfl h0
  intro rest
  induction rest with
  | nil =>
      intro pre s hls hs
      rw [List.append_nil] at hls
      exact ⟨s, rfl, hls ▸ hs⟩
  | cons l rest ih =>
      intro pre s hls hs
      obtain ⟨mid, hmid, hI⟩ := hstep pre l rest hls.symm s hs
      obtain ⟨s', hs', hI'⟩ := ih (pre ++ [l]) mid (by simpa using hls) hI
      exact ⟨s', by rw [List.foldlM_cons, hmid, ok_bind, hs'], hI'⟩

/-- The partial rule of a loop: what every completed iteration establishes for one element
more holds after a completed loop. -/
theorem foldlM_partial {step : σ → ℓ → Outcome σ} {ls : List ℓ} (I : List ℓ → σ → Prop)
    {s s' : σ} (h0 : I [] s)
    (hstep : ∀ pre l post, ls = pre ++ l :: post → ∀ s s', I pre s → step s l = ok s' →
      I (pre ++ [l]) s')
    (hrun : ls.foldlM step s = ok s') : I ls s' := by
  -- the same generalisation as for `foldlM_total`
  suffices h : ∀ rest pre s, pre ++ rest = ls → I pre s → rest.foldlM step s = ok s' → I ls s'
    from h ls [] s rfl h0 hrun
  intro rest
  induction rest with
  | nil =>
      intro pre s hls hs hrest
      rw [List.foldlM_nil, pure_eq_ok, ok.injEq] at hrest
      rw [List.append_nil] at hls
      exact hls ▸ hrest ▸ hs
  | cons l rest ih =>
      intro pre s hls hs hrest
      rw [List.foldlM_cons, bind_eq_ok_iff] at hrest
      obtain ⟨mid, hmid, hrest⟩ := hrest
      exact ih (pre ++ [l]) mid (by simpa using hls) (hstep pre l rest hls.symm s mid hs hmid)
        hrest

/-- A property kept by every completed iteration is kept by a completed loop. -/
theorem foldlM_invariant {I : σ → Prop} {step : σ → ℓ → Outcome σ} {ls : List ℓ}
    (hstep : ∀ s l s', l ∈ ls → I s → step s l = ok s' → I s') {s s' : σ}
    (hs : I s) (hrun : ls.foldlM step s = ok s') : I s' := by
  refine foldlM_partial (fun _ => I) hs ?_ hrun
  intro pre l post hls s s' hs hmid
  exact hstep s l s' (by simp [hls]) hs hmid

/-- If every iteration completes and follows the pure step `g` along `R`, the loop completes
and follows the pure fold of `g` along `R`. -/
theorem foldlM_simulates {R : σ → τ → Prop} {step : σ → ℓ → Outcome σ} {g : τ → ℓ → τ}
    {ls : List ℓ}
    (hstep : ∀ s t l, l ∈ ls → R s t → ∃ s', step s l = ok s' ∧ R s' (g t l))
    {s : σ} {t : τ} (hst : R s t) :
    ∃ s', ls.foldlM step s = ok s' ∧ R s' (ls.foldl g t) := by
  -- after the elements `pre` the pure step has been folded over `pre`
  refine foldlM_total (fun pre s => R s (pre.foldl g t)) hst ?_
  intro pre l post hls s hs
  obtain ⟨s', hs', hR⟩ := hstep s _ l (by simp [hls]) hs
  exact ⟨s', hs', by rwa [List.foldl_append, List.foldl_cons, List.foldl_nil]⟩

end Outcome

end CSemantics
