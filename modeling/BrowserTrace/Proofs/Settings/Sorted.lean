import BrowserTrace.Settings.Load

/-!
# Keys in order

Unknown keys are reported in alphabetical order, each of them once: their paths are sorted, and what
stands next to its like is left out.  Nothing is lost by this (`mem_sortedKeys_iff`), and since equal
paths stand next to each other when they are sorted, none is left twice (`sortedKeys_sorted`).
-/

namespace BrowserTrace.Settings

/-! ## Sorting without repetitions -/

section Sorting

variable {α : Type} [BEq α] [LawfulBEq α] {a b x : α} {xs : List α}

omit [LawfulBEq α] in
theorem eraseReps_cons (a : α) (xs : List α) :
    (a :: xs).eraseReps = List.eraseRepsBy.loop (· == ·) a xs [] := rfl

omit [LawfulBEq α] in
/-- The accumulator of the loop comes in front. -/
theorem eraseRepsBy_loop_eq (a : α) (xs acc : List α) :
    List.eraseRepsBy.loop (· == ·) a xs acc = acc.reverse ++ (a :: xs).eraseReps := by
  induction xs generalizing a acc with
  | nil => exact List.reverse_cons
  | cons b xs ih =>
    rw [eraseReps_cons a (b :: xs), List.eraseRepsBy.loop, List.eraseRepsBy.loop]
    cases a == b with
    | true => exact (ih a acc).trans (congrArg (acc.reverse ++ ·) (ih a []).symm)
    | false =>
      dsimp only
      rw [ih, ih, List.reverse_cons, List.append_assoc]
      rfl

theorem eraseReps_cons_self (a : α) (xs : List α) :
    (a :: a :: xs).eraseReps = (a :: xs).eraseReps := by
  rw [eraseReps_cons a (a :: xs), List.eraseRepsBy.loop, beq_self_eq_true]
  exact eraseRepsBy_loop_eq a xs []

theorem eraseReps_cons_of_ne (h : a ≠ b) (xs : List α) :
    (a :: b :: xs).eraseReps = a :: (b :: xs).eraseReps := by
  rw [eraseReps_cons a (b :: xs), List.eraseRepsBy.loop, beq_eq_false_iff_ne.mpr h]
  exact eraseRepsBy_loop_eq b xs [a]

theorem mem_eraseReps_iff : x ∈ xs.eraseReps ↔ x ∈ xs := by
  induction xs with
  | nil => rfl
  | cons a xs ih =>
    cases xs with
    | nil => rfl
    | cons b xs =>
      by_cases hab : a = b
      · subst hab
        rw [eraseReps_cons_self, ih, List.mem_cons (l := a :: xs)]
        exact (or_iff_right_of_imp fun hx ↦ hx ▸ List.mem_cons_self).symm
      · rw [eraseReps_cons_of_ne hab, List.mem_cons, ih, List.mem_cons (b := a)]

/-- What is in order is in strict order without its repetitions. -/
theorem eraseReps_sorted {keys : List String} (h : keys.Pairwise (· ≤ ·)) :
    keys.eraseReps.Pairwise (· < ·) := by
  induction keys with
  | nil => exact .nil
  | cons a keys ih =>
    rw [List.pairwise_cons] at h
    cases keys with
    | nil => exact List.pairwise_singleton _ a
    | cons b keys =>
      by_cases hab : a = b
      · subst hab
        rw [eraseReps_cons_self]
        exact ih h.2
      · rw [eraseReps_cons_of_ne hab, List.pairwise_cons]
        refine ⟨?_, ih h.2⟩
        -- Everything behind `b` is at least `b`, and `b` is more than `a`.
        intro x hx
        have hbx : b ≤ x := by
          rcases List.mem_cons.mp (mem_eraseReps_iff.mp hx) with rfl | hx
          · exact String.le_refl x
          · exact (List.pairwise_cons.mp h.2).1 x hx
        have habx : a ≤ b := h.1 b List.mem_cons_self
        refine String.not_le.mp fun hxa ↦ hab ?_
        exact String.le_antisymm habx (String.le_trans hbx hxa)

end Sorting

variable {paths : List Path}

theorem mem_sortedKeys_iff {key : String} :
    key ∈ sortedKeys paths ↔ ∃ path ∈ paths, path.render = key := by
  rw [sortedKeys, mem_eraseReps_iff, List.mem_mergeSort, List.mem_map]

theorem sortedKeys_sorted (paths : List Path) : (sortedKeys paths).Pairwise (· < ·) := by
  have htrans : ∀ a b c : String, decide (a ≤ b) = true → decide (b ≤ c) = true →
      decide (a ≤ c) = true := fun a b c hab hbc ↦
    decide_eq_true (String.le_trans (of_decide_eq_true hab) (of_decide_eq_true hbc))
  have htotal : ∀ a b : String, (decide (a ≤ b) || decide (b ≤ a)) = true := by
    intro a b
    rw [Bool.or_eq_true, decide_eq_true_eq, decide_eq_true_eq]
    exact String.le_total a b
  have hle := List.pairwise_mergeSort htrans htotal (paths.map Path.render)
  exact eraseReps_sorted (hle.imp of_decide_eq_true)

theorem sortedKeys_eq_nil_iff : sortedKeys paths = [] ↔ paths = [] := by
  rw [List.eq_nil_iff_forall_not_mem, List.eq_nil_iff_forall_not_mem]
  constructor
  · intro h path hpath
    exact h _ (mem_sortedKeys_iff.mpr ⟨path, hpath, rfl⟩)
  · intro h key hkey
    obtain ⟨path, hpath, -⟩ := mem_sortedKeys_iff.mp hkey
    exact h path hpath

end BrowserTrace.Settings
