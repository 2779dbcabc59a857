import Mathlib.Logic.Relation
import PiPixelController.CSemantics.Outcome

/-!
# Schedules

The steps of several threads, executed one at a time in some order. Two steps that can be
exchanged next to each other in every state can be exchanged anywhere in a schedule, so a
schedule is determined, up to such exchanges, by what each thread does.

* `Reordering.foldlM_eq_ok_iff` — a reordered schedule completes in the same states;
* `Reordering.of_filter_eq` — two schedules in which every two dependent threads take the same
  steps in the same order are reorderings of each other if steps of independent threads can be
  exchanged;
* `exists_station` — a thread that runs alone, without a choice, passes every station of its route.
-/

namespace CSemantics

universe u v w

variable {σ : Type u} {α : Type v} {ι : Type w}

/-- From every state the two steps complete in one order exactly when they complete in the
other, and with the same result. -/
def Exchange (step : σ → α → Outcome σ) (a b : α) : Prop :=
  ∀ s s', [a, b].foldlM step s = .ok s' ↔ [b, a].foldlM step s = .ok s'

theorem Exchange.symm {step : σ → α → Outcome σ} {a b : α} (h : Exchange step a b) :
    Exchange step b a :=
  fun s s' => (h s s').symm

/-- Schedules that differ by exchanges of neighbouring steps related by `I`. -/
inductive Reordering (I : α → α → Prop) : List α → List α → Prop where
  | nil : Reordering I [] []
  | cons (a : α) {l l' : List α} (h : Reordering I l l') : Reordering I (a :: l) (a :: l')
  | swap {a b : α} (h : I a b) (l : List α) : Reordering I (a :: b :: l) (b :: a :: l)
  | trans {l l' l'' : List α} (h : Reordering I l l') (h' : Reordering I l' l'') :
      Reordering I l l''

namespace Reordering

variable {I : α → α → Prop} {l l' : List α}

theorem refl (l : List α) : Reordering I l l := by
  induction l with
  | nil => exact .nil
  | cons a l ih => exact .cons a ih

/-- A step moves to the front of a schedule past the steps it can be exchanged with. -/
theorem append_cons {a : α} {pre : List α} (h : ∀ b ∈ pre, I a b) (post : List α) :
    Reordering I (a :: (pre ++ post)) (pre ++ a :: post) := by
  induction pre with
  | nil => exact refl _
  | cons b pre ih =>
      have hpre : ∀ b ∈ pre, I a b := fun c hc => h c (List.mem_cons_of_mem b hc)
      exact .trans (.swap (h b List.mem_cons_self) _) (.cons b (ih hpre))

/-- A reordering of the steps of one schedule completes in the same states. -/
theorem foldlM_eq_ok_iff {step : σ → α → Outcome σ} (h : Reordering (Exchange step) l l')
    {s s' : σ} : l.foldlM step s = .ok s' ↔ l'.foldlM step s = .ok s' := by
  induction h generalizing s s' with
  | nil => rfl
  | cons a h ih =>
      rw [List.foldlM_cons, List.foldlM_cons, Outcome.bind_eq_ok_iff, Outcome.bind_eq_ok_iff]
      simp only [ih]
  | @swap a b hab l =>
      have hsplit : ∀ x y : α, (x :: y :: l).foldlM step s =
          [x, y].foldlM step s >>= fun t => l.foldlM step t := by
        intro x y
        rw [← List.foldlM_append]
        rfl
      rw [hsplit, hsplit, Outcome.bind_eq_ok_iff, Outcome.bind_eq_ok_iff]
      simp only [hab s]
  | trans h h' ih ih' => exact ih.trans ih'

/-- If any two threads that depend on each other take the same steps in the same order in both
schedules, and steps of independent threads are related, then one schedule is a reordering of the
other. Every thread depends on itself. -/
theorem of_filter_eq [DecidableEq ι] (thread : α → ι) {D : ι → ι → Prop} (hrefl : ∀ i, D i i)
    (hthreads : ∀ i j, D i j → l.filter (fun a => thread a = i ∨ thread a = j) =
      l'.filter fun a => thread a = i ∨ thread a = j)
    (hind : ∀ a ∈ l', ∀ b ∈ l', ¬D (thread a) (thread b) → I a b) : Reordering I l l' := by
  induction l generalizing l' with
  | nil =>
      -- no thread takes a step in `l'` either
      cases l' with
      | nil => exact .nil
      | cons a l' =>
          have ha := hthreads _ _ (hrefl (thread a))
          rw [List.filter_nil, List.filter_cons_of_pos (by simp)] at ha
          cases ha
  | cons a l ih =>
      -- the first step of the thread of `a` in `l'` is `a`
      have ha := (hthreads _ _ (hrefl (thread a))).symm
      rw [List.filter_cons_of_pos (by simp), List.filter_eq_cons_iff] at ha
      obtain ⟨pre, post, rfl, hpre, -, -⟩ := ha
      have hne : ∀ b ∈ pre, thread b ≠ thread a := fun b hb heq => hpre b hb (by simp [heq])
      -- so no step before it is of a thread that depends on the one of `a`
      have hpast : ∀ b ∈ pre, I a b := by
        intro b hb
        refine hind a (by simp) b (by simp [hb]) fun hD => ?_
        have hb' := (hthreads _ _ hD).symm
        rw [List.filter_cons_of_pos (by simp), List.filter_append] at hb'
        cases hfilter : pre.filter fun c => thread c = thread a ∨ thread c = thread b with
        | nil =>
            rw [List.filter_eq_nil_iff] at hfilter
            exact hfilter b hb (by simp)
        | cons c cs =>
            rw [hfilter, List.cons_append] at hb'
            have hc : c ∈ pre := (List.mem_filter.mp (hfilter ▸ List.mem_cons_self)).1
            exact hne c hc (by rw [(List.cons.inj hb').1])
      refine .trans (.cons a (ih ?_ ?_)) (append_cons hpast post)
      · intro i j hD
        have hij := hthreads i j hD
        rw [List.filter_append, List.filter_cons, List.filter_cons] at hij
        rw [List.filter_append]
        split at hij
        next h =>
          -- when `a` is in the projection, nothing before it is
          cases hfilter : pre.filter fun c => thread c = i ∨ thread c = j with
          | nil =>
              rw [hfilter, List.nil_append] at hij
              exact (List.cons.inj hij).2
          | cons c cs =>
              rw [hfilter, List.cons_append] at hij
              have hc : c ∈ pre := (List.mem_filter.mp (hfilter ▸ List.mem_cons_self)).1
              exact absurd (congrArg thread (List.cons.inj hij).1).symm (hne c hc)
        next => exact hij
      · intro b hb c hc
        refine hind b ?_ c ?_ <;>
        · simp only [List.mem_append, List.mem_cons] at *
          tauto

end Reordering

/-! ### A thread that runs alone -/

/-- If a deterministic thread gets from every station to the next one, then wherever it is, a
station is ahead of it. -/
theorem exists_station {r : σ → σ → Prop} (hr : Relator.RightUnique r) {station : ℕ → σ → Prop}
    (hnext : ∀ n y, station n y → ∃ y', Relation.TransGen r y y' ∧ station (n + 1) y')
    {x₀ x y₀ : σ} (hfirst : Relation.ReflTransGen r x₀ y₀) (hstation : station 0 y₀)
    (h : Relation.ReflTransGen r x₀ x) : ∃ n y, station n y ∧ Relation.ReflTransGen r x y := by
  induction h with
  | refl => exact ⟨0, y₀, hstation, hfirst⟩
  | @tail x x' _ hstep ih =>
      obtain ⟨n, y, hy, hahead⟩ := ih
      rcases Relation.ReflTransGen.cases_head hahead with rfl | ⟨z, hz, hahead⟩
      · -- at a station the thread sets out for the next one
        obtain ⟨y', hreach, hy'⟩ := hnext n x hy
        obtain ⟨z, hz, hahead⟩ := Relation.TransGen.head'_iff.mp hreach
        obtain rfl := hr hstep hz
        exact ⟨n + 1, y', hy', hahead⟩
      · obtain rfl := hr hstep hz
        exact ⟨n, y, hy, hahead⟩

end CSemantics
