import Mathlib.Data.List.Basic
import Mathlib.Logic.Function.Basic

/-!
# Write logs

A store `K → V` is changed by a log of *patches*, each a partial map `K → Option V` that
overwrites the keys on which it is defined. `replay` applies a log from left to right,
`latest` is the value the log last gave to a key.

Main results:

* `replay_apply` — after a replay every key holds the latest value written to it, or its
  initial value when the log never wrote it;
* `latest_eq_some_iff` — the latest value of a key is that of the last patch defined on it;
* `latest_append`, `latest_map_latest` — logs compose, and a group of patches is one patch;
* `latest_eq_of_forall_mem_iff` — for a log whose patches never disagree, neither the order
  nor the multiplicity of the patches matters.
-/

namespace WriteLog

universe u v

variable {K : Type u} {V : Type v}

/-- A partial map that overwrites the keys on which it is defined. -/
abbrev Patch (K : Type u) (V : Type v) := K → Option V

/-- Overwrite `m` where `f` is defined. -/
def Patch.apply (f : Patch K V) (m : K → V) : K → V := fun k => (f k).getD (m k)

/-- The patch that writes `v` to the single key `k`. -/
def Patch.single [DecidableEq K] (k : K) (v : V) : Patch K V :=
  fun k' => if k' = k then some v else none

/-- Applying a single write is a function update. -/
theorem Patch.apply_single [DecidableEq K] (k : K) (v : V) (m : K → V) :
    (Patch.single k v).apply m = Function.update m k v := by
  funext k'
  by_cases h : k' = k
  · subst h
    simp [Patch.apply, Patch.single]
  · simp [Patch.apply, Patch.single, h]

/-- Apply the patches of a log from left to right. -/
def replay (fs : List (Patch K V)) (m : K → V) : K → V :=
  fs.foldl (fun m f => f.apply m) m

/-- The value the log last wrote to each key. -/
def latest (fs : List (Patch K V)) : Patch K V :=
  fun k => fs.reverse.findSome? fun f => f k

@[simp]
theorem latest_nil (k : K) : latest ([] : List (Patch K V)) k = none := rfl

/-- A later log overrides an earlier one. -/
theorem latest_append (fs gs : List (Patch K V)) (k : K) :
    latest (fs ++ gs) k = (latest gs k).or (latest fs k) := by
  rw [latest, List.reverse_append, List.findSome?_append]
  rfl

@[simp]
theorem latest_singleton (f : Patch K V) : latest [f] = f := by
  funext k
  simp [latest]

/-- Prepending a patch matters only for keys the rest of the log does not write. -/
theorem latest_cons (f : Patch K V) (fs : List (Patch K V)) (k : K) :
    latest (f :: fs) k = (latest fs k).or (f k) := by
  have h := latest_append [f] fs k
  rwa [latest_singleton] at h

/-- Replaying two logs one after the other is replaying their concatenation. -/
theorem replay_append (fs gs : List (Patch K V)) (m : K → V) :
    replay (fs ++ gs) m = replay gs (replay fs m) := by
  simp [replay]

/-- After a replay every key holds the latest value written to it, or its initial value. -/
theorem replay_eq_apply_latest (fs : List (Patch K V)) (m : K → V) :
    replay fs m = (latest fs).apply m := by
  induction fs generalizing m with
  | nil => rfl
  | cons f fs ih =>
      change replay fs (f.apply m) = _
      rw [ih]
      -- key by key: `fs` decides, then `f`, then `m`
      funext k
      simp only [Patch.apply, latest_cons]
      cases latest fs k <;> rfl

/-- Pointwise form of `replay_eq_apply_latest`. -/
theorem replay_apply (fs : List (Patch K V)) (m : K → V) (k : K) :
    replay fs m k = (latest fs k).getD (m k) :=
  congrFun (replay_eq_apply_latest fs m) k

/-- The latest value of a key is the value of the last patch defined on it. -/
theorem latest_eq_some_iff (fs : List (Patch K V)) (k : K) (v : V) :
    latest fs k = some v ↔
      ∃ before f after, fs = before ++ f :: after ∧ f k = some v ∧ ∀ g ∈ after, g k = none := by
  induction fs with
  | nil => simp
  | cons f fs ih =>
      rw [latest_cons]
      constructor
      · intro h
        -- the last patch defined on `k` is in `fs`, or it is `f`
        cases hfs : latest fs k with
        | some w =>
            rw [hfs, Option.some_or] at h
            obtain ⟨before, g, after, rfl, hg, hafter⟩ := ih.mp (hfs.trans h)
            exact ⟨f :: before, g, after, rfl, hg, hafter⟩
        | none =>
            rw [hfs, Option.none_or] at h
            refine ⟨[], f, fs, rfl, h, fun g hg => ?_⟩
            rw [latest, List.findSome?_eq_none_iff] at hfs
            exact hfs g (List.mem_reverse.mpr hg)
      · rintro ⟨before, g, after, heq, hg, hafter⟩
        -- the patch is `f` itself when nothing comes before it
        cases before with
        | nil =>
            obtain ⟨rfl, rfl⟩ := List.cons.inj heq
            have hnone : latest fs k = none := by
              rw [latest, List.findSome?_eq_none_iff]
              exact fun g' hg' => hafter g' (List.mem_reverse.mp hg')
            rw [hnone, Option.none_or, hg]
        | cons f' before =>
            obtain ⟨rfl, rfl⟩ := List.cons.inj heq
            rw [ih.mpr ⟨before, g, after, rfl, hg, hafter⟩, Option.some_or]

/-- A key has no latest value exactly when no patch writes it. -/
theorem latest_eq_none_iff (fs : List (Patch K V)) (k : K) :
    latest fs k = none ↔ ∀ f ∈ fs, f k = none := by
  rw [latest, List.findSome?_eq_none_iff]
  simp only [List.mem_reverse]

/-- Some patch of the log writes a key that has a latest value, and writes that value. -/
theorem exists_mem_of_latest_eq_some {fs : List (Patch K V)} {k : K} {v : V}
    (h : latest fs k = some v) : ∃ f ∈ fs, f k = some v := by
  obtain ⟨before, f, after, rfl, hf, -⟩ := (latest_eq_some_iff fs k v).mp h
  exact ⟨f, by simp, hf⟩

/-- Two logs that write the same to a key of each have the same latest value there. -/
theorem latest_map_congr {ι : Type*} {K' : Type*} {f : ι → Patch K V} {g : ι → Patch K' V}
    {is : List ι} {k : K} {k' : K'} (h : ∀ i ∈ is, f i k = g i k') :
    latest (is.map f) k = latest (is.map g) k' := by
  induction is with
  | nil => rfl
  | cons i is ih =>
      rw [List.map_cons, List.map_cons, latest_cons, latest_cons, h i List.mem_cons_self,
        ih fun j hj => h j (List.mem_cons_of_mem i hj)]

/-- Groups of patches may be merged into one patch each. -/
theorem latest_map_latest {ι : Type*} (group : ι → List (Patch K V)) (is : List ι) (k : K) :
    latest (is.map fun i => latest (group i)) k = latest (is.flatMap group) k := by
  induction is with
  | nil => rfl
  | cons i is ih =>
      rw [List.map_cons, latest_cons, List.flatMap_cons, latest_append, ih]

/-! ### Logs without disagreement -/

/-- No two patches of the log write different values to one key. -/
def Consistent (fs : List (Patch K V)) : Prop :=
  ∀ f ∈ fs, ∀ g ∈ fs, ∀ k v w, f k = some v → g k = some w → v = w

/-- In a consistent log every write is the latest one. -/
theorem Consistent.latest_eq_some_iff {fs : List (Patch K V)} (h : Consistent fs) (k : K)
    (v : V) : latest fs k = some v ↔ ∃ f ∈ fs, f k = some v := by
  constructor
  · exact exists_mem_of_latest_eq_some
  · rintro ⟨f, hf, hfk⟩
    cases hl : latest fs k with
    | none =>
        rw [(latest_eq_none_iff fs k).mp hl f hf] at hfk
        cases hfk
    | some w =>
        obtain ⟨g, hg, hgk⟩ := exists_mem_of_latest_eq_some hl
        rw [h f hf g hg k v w hfk hgk]

/-- Neither the order nor the multiplicity of the patches of a consistent log matters. -/
theorem latest_eq_of_forall_mem_iff {fs gs : List (Patch K V)} (h : Consistent fs)
    (hmem : ∀ f, f ∈ fs ↔ f ∈ gs) : latest fs = latest gs := by
  have hgs : Consistent gs := fun f hf g hg =>
    h f ((hmem f).mpr hf) g ((hmem g).mpr hg)
  funext k
  apply Option.ext
  intro v
  rw [h.latest_eq_some_iff, hgs.latest_eq_some_iff]
  simp only [hmem]

end WriteLog
