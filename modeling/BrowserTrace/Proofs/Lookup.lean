import Mathlib.Data.List.Nodup

/-!
# Looking up keys in lists

Files, entries and their contents are found by their names in lists of pairs, where the first pair
with a key counts.  These are the facts about such a list that is filtered by its keys, put in
another order, or changed in one place, and about one whose keys are distinct.
-/

namespace BrowserTrace.Lookup

variable {κ α : Type} [BEq κ] [LawfulBEq κ] {xs ys : List (κ × α)} {key k : κ} {a : α}

/-- Pairs with keys that are out of the question can be left out. -/
theorem lookup_filter {p : κ → Bool} (hkey : p key) (xs : List (κ × α)) :
    (xs.filter fun x ↦ p x.1).lookup key = xs.lookup key := by
  induction xs with
  | nil => rfl
  | cons x xs ih =>
    by_cases hx : p x.1 = true
    · rw [List.filter_cons, if_pos hx, List.lookup_cons, List.lookup_cons, ih]
    · have hne : key ≠ x.1 := by
        rintro rfl
        exact hx hkey
      rw [List.filter_cons, if_neg hx, ih, List.lookup_cons, beq_eq_false_iff_ne.mpr hne]

/-- What is done to every pair is done to the one that is found. -/
theorem lookup_map {β : Type} (f : κ → α → β) (xs : List (κ × α)) (key : κ) :
    (xs.map fun x ↦ (x.1, f x.1 x.2)).lookup key = (xs.lookup key).map (f key) := by
  induction xs with
  | nil => rfl
  | cons x xs ih =>
    rw [List.map_cons, List.lookup_cons, List.lookup_cons, ih]
    by_cases hx : key = x.1
    · rw [hx, beq_self_eq_true]
      rfl
    · rw [beq_eq_false_iff_ne.mpr hx]

theorem lookup_map_snd {β : Type} (f : α → β) (xs : List (κ × α)) (key : κ) :
    (xs.map fun x ↦ (x.1, f x.2)).lookup key = (xs.lookup key).map f :=
  lookup_map (fun _ ↦ f) xs key

/-- The order of pairs with distinct keys does not matter. -/
theorem lookup_eq_of_perm (h : xs.Perm ys) (hnodup : (xs.map Prod.fst).Nodup) (key : κ) :
    xs.lookup key = ys.lookup key := by
  induction h with
  | nil => rfl
  | cons x _ ih =>
    rw [List.map_cons, List.nodup_cons] at hnodup
    rw [List.lookup_cons, List.lookup_cons, ih hnodup.2]
  | swap x y xs =>
    simp only [List.map_cons, List.nodup_cons, List.mem_cons, not_or] at hnodup
    by_cases hx : key = x.1
    · have hy : key ≠ y.1 := fun hy ↦ hnodup.1.1 (hy.symm.trans hx)
      rw [List.lookup_cons, List.lookup_cons, List.lookup_cons, List.lookup_cons,
        beq_eq_false_iff_ne.mpr hy]
    · rw [List.lookup_cons, List.lookup_cons, List.lookup_cons, List.lookup_cons,
        beq_eq_false_iff_ne.mpr hx]
  | trans h _ ih ih' =>
    rw [ih hnodup, ih' ((h.map Prod.fst).nodup_iff.mp hnodup)]

theorem lookup_append_cons_of_ne (h : key ≠ k) :
    (xs ++ (k, a) :: ys).lookup key = (xs ++ ys).lookup key := by
  have hne : (key == k) = false := beq_eq_false_iff_ne.mpr h
  rw [List.lookup_append, List.lookup_append, List.lookup_cons, hne]

theorem lookup_append_cons_self (h : ∀ x ∈ xs, x.1 ≠ key) :
    (xs ++ (key, a) :: ys).lookup key = some a := by
  have hnone : xs.lookup key = none := by
    rw [List.lookup_eq_none_iff]
    intro x hx
    exact bne_iff_ne.mpr (h x hx).symm
  rw [List.lookup_append, hnone, List.lookup_cons_self, Option.none_or]

theorem lookup_eq_none_iff_notMem : xs.lookup key = none ↔ key ∉ xs.map Prod.fst := by
  rw [List.lookup_eq_none_iff, List.mem_map, not_exists]
  constructor
  · rintro h x ⟨hx, rfl⟩
    exact bne_iff_ne.mp (h x hx) rfl
  · intro h x hx
    rw [bne_iff_ne]
    rintro rfl
    exact h x ⟨hx, rfl⟩

omit [BEq κ] [LawfulBEq κ] in
/-- A new key at the end keeps the keys distinct. -/
theorem nodup_keys_concat (hnodup : (xs.map Prod.fst).Nodup) (hnew : key ∉ xs.map Prod.fst) (a : α) :
    ((xs ++ [(key, a)]).map Prod.fst).Nodup := by
  rw [List.map_append, List.map_singleton, ← List.concat_eq_append]
  exact hnodup.concat hnew

end BrowserTrace.Lookup
