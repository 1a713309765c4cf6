import BrowserTrace.Text.Blank
import Mathlib.Data.List.TakeWhile

/-!
# Taking texts apart

A text that has a character is what stands before the first one, the character, and what stands
behind it, and there is only one way to take it apart like that (`append_cons_inj_of_notMem`).

In the same way a text is blanks, then what trimming leaves of it, then blanks again, where what is
left neither begins nor ends with a blank (`isCore_trim`, `IsCore.trim_eq`).
-/

namespace BrowserTrace.Text

/-! ## Splitting at the first of a character -/

section Splitting

variable {front front' rest rest' cs : List Char} {c d : Char}

theorem notMem_takeWhile (c : Char) (cs : List Char) : c ∉ cs.takeWhile (· ≠ c) := by
  intro h
  have hne := List.mem_takeWhile_imp h
  exact of_decide_eq_true hne rfl

theorem forall_ne_of_notMem (h : c ∉ front) : ∀ d ∈ front, decide (d ≠ c) = true :=
  fun _ hd ↦ decide_eq_true fun heq ↦ h (heq ▸ hd)

theorem takeWhile_append_cons (h : c ∉ front) (rest : List Char) :
    (front ++ c :: rest).takeWhile (· ≠ c) = front := by
  rw [List.takeWhile_append_of_pos (forall_ne_of_notMem h), List.takeWhile_cons_of_neg (by simp),
    List.append_nil]

theorem dropWhile_append_cons (h : c ∉ front) (rest : List Char) :
    (front ++ c :: rest).dropWhile (· ≠ c) = c :: rest := by
  rw [List.dropWhile_append_of_pos (forall_ne_of_notMem h), List.dropWhile_cons_of_neg (by simp)]

/-- What is left behind the front begins with the character that ended it. -/
theorem eq_append_of_dropWhile (h : cs.dropWhile (· ≠ c) = d :: rest) :
    cs = cs.takeWhile (· ≠ c) ++ c :: rest := by
  have hd := List.head?_dropWhile_not (· ≠ c) cs
  rw [h] at hd
  obtain rfl : d = c := Decidable.not_not.mp (of_decide_eq_false hd)
  rw [← h, List.takeWhile_append_dropWhile]

/-- There is one way to split a text at the first of a character. -/
theorem append_cons_inj_of_notMem (h : c ∉ front) (h' : c ∉ front') :
    front ++ c :: rest = front' ++ c :: rest' ↔ front = front' ∧ rest = rest' := by
  constructor
  · intro heq
    have hfront := congrArg (List.takeWhile (· ≠ c)) heq
    have hrest := congrArg (List.dropWhile (· ≠ c)) heq
    rw [takeWhile_append_cons h, takeWhile_append_cons h'] at hfront
    rw [dropWhile_append_cons h, dropWhile_append_cons h'] at hrest
    exact ⟨hfront, List.tail_eq_of_cons_eq hrest⟩
  · rintro ⟨rfl, rfl⟩
    rfl

end Splitting

/-! ## Trimming -/

/-- `core` stands between blanks in `cs`, and neither begins nor ends with one. -/
structure IsCore (core cs : List Char) : Prop where
  first : ∀ c ∈ core.head?, isBlank c = false
  last : ∀ c ∈ core.getLast?, isBlank c = false
  around : ∃ before after, (∀ c ∈ before, isBlank c = true) ∧ (∀ c ∈ after, isBlank c = true) ∧
    cs = before ++ (core ++ after)

variable {core cs : List Char}

theorem dropWhile_isBlank_of_head? (h : ∀ c ∈ cs.head?, isBlank c = false) :
    cs.dropWhile isBlank = cs := by
  cases cs with
  | nil => rfl
  | cons c rest => exact List.dropWhile_cons_of_neg (Bool.not_eq_true _ ▸ h c rfl)

theorem not_isBlank_head?_dropWhile (cs : List Char) :
    ∀ c ∈ (cs.dropWhile isBlank).head?, isBlank c = false := by
  intro c hc
  have h := List.head?_dropWhile_not isBlank cs
  rwa [Option.mem_def.mp hc] at h

/-- Only one text stands between the blanks. -/
theorem IsCore.trim_eq (h : IsCore core cs) : trim cs = core := by
  obtain ⟨before, after, hbefore, hafter, rfl⟩ := h.around
  have hback : ∀ c ∈ after.reverse, isBlank c = true := by
    intro c hc
    exact hafter c (List.mem_reverse.mp hc)
  rw [trim, List.dropWhile_append_of_pos hbefore]
  cases hcore : core with
  | nil =>
    rw [List.nil_append, List.dropWhile_eq_nil_iff.mpr hafter]
    rfl
  | cons c rest =>
    have hc : ¬ isBlank c = true := Bool.not_eq_true _ ▸ h.first c (hcore ▸ rfl)
    have hfront : (c :: rest ++ after).dropWhile isBlank = c :: rest ++ after :=
      List.dropWhile_cons_of_neg hc
    have hlast : (c :: rest).reverse.dropWhile isBlank = (c :: rest).reverse :=
      dropWhile_isBlank_of_head? (by
        rw [List.head?_reverse]
        exact hcore ▸ h.last)
    rw [hfront, List.reverse_append, List.dropWhile_append_of_pos hback, hlast, List.reverse_reverse]

/-- What trimming leaves stands between blanks. -/
theorem isCore_trim (cs : List Char) : IsCore (trim cs) cs := by
  have hsplit : cs.dropWhile isBlank =
      trim cs ++ ((cs.dropWhile isBlank).reverse.takeWhile isBlank).reverse := by
    rw [trim, ← List.reverse_append, List.takeWhile_append_dropWhile, List.reverse_reverse]
  constructor
  · -- What is left begins what stands behind the blanks in front.
    intro c hc
    refine not_isBlank_head?_dropWhile cs c ?_
    rw [hsplit, List.head?_append, Option.mem_def.mp hc]
    rfl
  · intro c hc
    rw [trim, List.getLast?_reverse] at hc
    exact not_isBlank_head?_dropWhile _ c hc
  · refine ⟨cs.takeWhile isBlank, ((cs.dropWhile isBlank).reverse.takeWhile isBlank).reverse, ?_, ?_,
      ?_⟩
    · intro c hc
      exact List.mem_takeWhile_imp hc
    · intro c hc
      exact List.mem_takeWhile_imp (List.mem_reverse.mp hc)
    · rw [← hsplit, List.takeWhile_append_dropWhile]

/-- Blanks around a text do not change what trimming leaves. -/
theorem IsCore.surround (h : IsCore core cs) {before after : List Char}
    (hbefore : ∀ c ∈ before, isBlank c = true) (hafter : ∀ c ∈ after, isBlank c = true) :
    IsCore core (before ++ (cs ++ after)) := by
  obtain ⟨before', after', hbefore', hafter', rfl⟩ := h.around
  refine ⟨h.first, h.last, before ++ before', after' ++ after, ?_, ?_, ?_⟩
  · exact List.forall_mem_append.mpr ⟨hbefore, hbefore'⟩
  · exact List.forall_mem_append.mpr ⟨hafter', hafter⟩
  · simp only [List.append_assoc]

end BrowserTrace.Text
