import Retouch.Proofs.Capturing
import Mathlib.Order.Bounds.Defs

/-!
# The search for a free name

The name of a new type parameter is looked for among `T`, `T1`, `T2`, …, without an end in sight.

- `Search`: a run of the search, with the candidates that it tries.
- `Search.of_taken`, `Search.unique`: a run passes over what is taken, and there is only one.
- `search_ends_at_least`: the search ends, soon, at the least free name.
-/

namespace Retouch.GenericType

/-- A run of the search from a candidate on: the candidates that it tries and the name that it ends
with. A candidate that is taken is passed over. -/
inductive Search (taken : List String) : Nat → List String → String → Prop where
  | stop {n : Nat} (h : candidate n ∉ taken) : Search taken n [candidate n] (candidate n)
  | pass {n : Nat} {tried : List String} {name : String} (h : candidate n ∈ taken)
      (hrest : Search taken (n + 1) tried name) : Search taken n (candidate n :: tried) name

namespace Search

variable {taken tried : List String} {name : String} {n : Nat}

/-- The search passes over all candidates that are taken. -/
theorem of_taken {k : Nat} (hfree : candidate (n + k) ∉ taken)
    (htaken : ∀ m, n ≤ m → m < n + k → candidate m ∈ taken) :
    Search taken n ((List.range' n (k + 1)).map candidate) (candidate (n + k)) := by
  induction k generalizing n with
  | zero => exact .stop hfree
  | succ k ih =>
    have hnext : n + (k + 1) = n + 1 + k := by omega
    rw [hnext] at hfree htaken ⊢
    refine .pass (htaken n (Nat.le_refl n) (by omega)) (ih hfree fun m hm hm' => ?_)
    exact htaken m (Nat.le_of_succ_le hm) hm'

/-- Two runs from one candidate on are the same. -/
theorem unique {tried' : List String} {name' : String} (h : Search taken n tried name)
    (h' : Search taken n tried' name') : tried' = tried ∧ name' = name := by
  induction h generalizing tried' name' with
  | stop hfree =>
    cases h' with
    | stop => exact ⟨rfl, rfl⟩
    | pass htaken => exact absurd htaken hfree
  | pass htaken _ ih =>
    cases h' with
    | stop hfree => exact absurd htaken hfree
    | pass _ hrest =>
      obtain ⟨rfl, rfl⟩ := ih hrest
      exact ⟨rfl, rfl⟩

end Search

/-- The first candidate that is free comes before the taken names run out. -/
theorem exists_first_free (taken : List String) :
    ∃ n ≤ taken.length, candidate n ∉ taken ∧ ∀ m < n, candidate m ∈ taken := by
  have h : ∃ n, candidate n ∉ taken := by
    obtain ⟨n, -, hfree⟩ := exists_free taken
    exact ⟨n, hfree⟩
  obtain ⟨n, hn, hfree⟩ := exists_free taken
  refine ⟨Nat.find h, (Nat.find_min' h hfree).trans hn, Nat.find_spec h, fun m hm => ?_⟩
  exact not_not.mp (Nat.find_min h hm)

/-- A bounded search that reaches the first free candidate finds it. -/
theorem find?_candidate {taken : List String} {n bound : Nat} (hfree : candidate n ∉ taken)
    (htaken : ∀ m < n, candidate m ∈ taken) (hn : n < bound) :
    (((List.range bound).map candidate).find? fun name => !taken.contains name) =
      some (candidate n) := by
  rw [List.find?_map, Option.map_eq_some_iff]
  refine ⟨n, List.find?_range_eq_some.mpr ⟨by simpa using hfree, List.mem_range.mpr hn, ?_⟩, rfl⟩
  intro m hm
  simpa using htaken m hm

/-- **The search ends at the least free name.** There is exactly one run, it tries at most one
candidate more than there are names, and it ends with a name that is not among them: `T`, or `T` with
the least number that makes a free name. A search that is bounded further on finds the same name, so
it never falls back on its default. -/
theorem search_ends_at_least (taken : List String) :
    (∃ tried, Search taken 0 tried (freshName taken) ∧ tried.length ≤ taken.length + 1 ∧
      ∀ tried' name, Search taken 0 tried' name → tried' = tried ∧ name = freshName taken) ∧
    freshName taken ∉ taken ∧
    ("T" ∉ taken → freshName taken = "T") ∧
    ("T" ∈ taken → ∃ n, IsLeast {n | 1 ≤ n ∧ "T" ++ toString n ∉ taken} n ∧
      freshName taken = "T" ++ toString n) ∧
    ∀ bound, taken.length < bound →
      (((List.range bound).map candidate).find? fun name => !taken.contains name) =
        some (freshName taken) := by
  obtain ⟨n, hn, hfree, htaken⟩ := exists_first_free taken
  have hname : freshName taken = candidate n := by
    rw [freshName, find?_candidate hfree htaken (Nat.lt_succ_of_le hn)]
    rfl
  have hrun : Search taken 0 ((List.range' 0 (n + 1)).map candidate) (candidate n) := by
    have h := @Search.of_taken taken 0 n
    rw [Nat.zero_add] at h
    exact h hfree fun m _ hm => htaken m hm
  rw [hname]
  refine ⟨⟨_, hrun, ?_, fun _ _ => hrun.unique⟩, hfree, fun h => ?_, fun h => ?_,
    fun bound hbound => find?_candidate hfree htaken (Nat.lt_of_le_of_lt hn hbound)⟩
  · rw [List.length_map, List.length_range']
    exact Nat.succ_le_succ hn
  · -- no candidate comes before the first one
    rcases Nat.eq_zero_or_pos n with rfl | hpos
    · rfl
    · exact absurd (htaken 0 hpos) h
  · obtain ⟨m, rfl⟩ : ∃ m, n = m + 1 := by
      refine Nat.exists_eq_succ_of_ne_zero ?_
      rintro rfl
      exact hfree h
    refine ⟨m + 1, ⟨⟨Nat.succ_pos m, hfree⟩, ?_⟩, rfl⟩
    rintro (_ | k) ⟨hk, hkfree⟩
    · omega
    · by_contra! hlt
      exact hkfree (htaken (k + 1) hlt)

/-- A taken name that is listed twice, and out of order, is passed over like the others. -/
theorem search_ends_at_least_repeated :
    "T" ∈ ["T2", "T", "T1", "T", "X"] ∧ freshName ["T2", "T", "T1", "T", "X"] = "T3" ∧
      ∃ n, IsLeast {n | 1 ≤ n ∧ "T" ++ toString n ∉ ["T2", "T", "T1", "T", "X"]} n ∧
        "T3" = "T" ++ toString n := by
  obtain ⟨-, -, -, hleast, -⟩ := search_ends_at_least ["T2", "T", "T1", "T", "X"]
  have hname : freshName ["T2", "T", "T1", "T", "X"] = "T3" := by decide +kernel
  rw [hname] at hleast
  exact ⟨by simp, hname, hleast (by simp)⟩

end Retouch.GenericType
