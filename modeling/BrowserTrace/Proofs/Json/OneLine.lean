import BrowserTrace.Proofs.Json.RoundTrip
import BrowserTrace.Proofs.Text.Lines

/-!
# A written value is one line

What `compact` writes has no line feed in it, since strings have theirs escaped, and neither begins
nor ends with a blank.  So values that are written on a line each are cut apart exactly between
them, and trimming a line leaves the value on it as it is.
-/

namespace BrowserTrace.Json

/-! ## No line feed -/

theorem newline_notMem_escape (c : Char) : '\n' ∉ escape c := by
  unfold escape
  split
  · decide
  split
  · decide
  split
  · decide
  split
  · decide
  split
  · decide
  split
  · decide
  split
  · decide
  split
  · simp [hexDigit]
  · next hne _ _ _ => simpa using Ne.symm hne

theorem newline_notMem_quoted (s : String) : '\n' ∉ quoted s := by
  rw [quoted, List.mem_cons, List.mem_append, List.mem_flatMap]
  rintro (h | ⟨c, -, h⟩ | h)
  · contradiction
  · exact newline_notMem_escape c h
  · contradiction

theorem newline_notMem_integerText (i : Int) : '\n' ∉ integerText i := by
  have hdigits : '\n' ∉ Nat.toDigits 10 i.natAbs := fun h ↦
    absurd (isDigit_of_mem_toDigits h) (by decide)
  unfold integerText
  split
  · exact List.not_mem_cons_of_ne_of_not_mem (by decide) hdigits
  · exact hdigits

theorem newline_notMem_compactItems {items : List Json} (h : ∀ item ∈ items, '\n' ∉ item.compact) :
    '\n' ∉ compactItems items := by
  induction items with
  | nil => decide
  | cons item items ih =>
    rw [compactItems, List.mem_cons, List.mem_append]
    rintro (hc | hitem | hitems)
    · contradiction
    · exact h item List.mem_cons_self hitem
    · exact ih (fun w hw ↦ h w (List.mem_cons_of_mem item hw)) hitems

theorem newline_notMem_compactMembers {members : List (String × Json)}
    (h : ∀ m ∈ members, '\n' ∉ m.2.compact) : '\n' ∉ compactMembers members := by
  induction members with
  | nil => decide
  | cons m members ih =>
    rw [compactMembers, List.mem_cons, List.mem_append, List.mem_cons, List.mem_append]
    rintro (hc | hkey | hc | hvalue | hmembers)
    · contradiction
    · exact newline_notMem_quoted m.1 hkey
    · contradiction
    · exact h m List.mem_cons_self hvalue
    · exact ih (fun n hn ↦ h n (List.mem_cons_of_mem m hn)) hmembers

variable {depth : Nat} {v : Json}

theorem Fits.newline_notMem_compact (hv : Fits depth v) : '\n' ∉ v.compact := by
  induction hv with
  | null => decide
  | bool _ b => cases b <;> decide
  | string _ s => exact newline_notMem_quoted s
  | integer => exact newline_notMem_integerText _
  | @array _ items _ ih =>
    cases items with
    | nil => decide
    | cons item items =>
      -- The first item stands behind a bracket instead of a comma.
      have hitems := newline_notMem_compactItems ih
      rw [compactItems, List.mem_cons, not_or] at hitems
      exact List.not_mem_cons_of_ne_of_not_mem (by decide) hitems.2
  | @object _ members _ _ ih =>
    cases members with
    | nil => decide
    | cons m members =>
      have hmembers := newline_notMem_compactMembers ih
      rw [compactMembers, List.mem_cons, not_or] at hmembers
      exact List.not_mem_cons_of_ne_of_not_mem (by decide) hmembers.2

/-! ## No blank at either end -/

theorem compactItems_eq_concat (items : List Json) : ∃ cs, compactItems items = cs ++ [']'] := by
  induction items with
  | nil => exact ⟨[], rfl⟩
  | cons item items ih =>
    obtain ⟨cs, hcs⟩ := ih
    exact ⟨',' :: (item.compact ++ cs), by rw [compactItems, hcs, List.cons_append,
      List.append_assoc]⟩

theorem compactMembers_eq_concat (members : List (String × Json)) :
    ∃ cs, compactMembers members = cs ++ ['}'] := by
  induction members with
  | nil => exact ⟨[], rfl⟩
  | cons m members ih =>
    obtain ⟨cs, hcs⟩ := ih
    exact ⟨',' :: (quoted m.1 ++ ':' :: (m.2.compact ++ cs)), by
      simp only [compactMembers, hcs, List.cons_append, List.append_assoc]⟩

theorem integerText_eq_concat (i : Int) :
    ∃ cs c, integerText i = cs ++ [c] ∧ Text.isBlank c = false := by
  obtain ⟨ds, d, hds⟩ : ∃ ds d, Nat.toDigits 10 i.natAbs = ds ++ [d] :=
    ⟨_, _, (List.dropLast_concat_getLast Nat.toDigits_ne_nil).symm⟩
  have hd : Text.isBlank d = false := isBlank_of_isDigit (isDigit_of_mem_toDigits
    (hds ▸ List.mem_append_right ds List.mem_cons_self))
  unfold integerText
  split
  · exact ⟨'-' :: ds, d, by rw [hds, List.cons_append], hd⟩
  · exact ⟨ds, d, hds, hd⟩

theorem Fits.compact_eq_concat (hv : Fits depth v) :
    ∃ cs c, v.compact = cs ++ [c] ∧ Text.isBlank c = false := by
  cases hv with
  | null => exact ⟨['n', 'u', 'l'], 'l', rfl, by decide⟩
  | bool _ b =>
    cases b with
    | true => exact ⟨['t', 'r', 'u'], 'e', rfl, by decide⟩
    | false => exact ⟨['f', 'a', 'l', 's'], 'e', rfl, by decide⟩
  | string _ s => exact ⟨'"' :: s.toList.flatMap escape, '"', rfl, by decide⟩
  | integer => exact integerText_eq_concat _
  | @array _ items _ =>
    cases items with
    | nil => exact ⟨['['], ']', rfl, by decide⟩
    | cons item items =>
      obtain ⟨cs, hcs⟩ := compactItems_eq_concat items
      exact ⟨'[' :: (item.compact ++ cs), ']', by
        rw [compact, hcs, List.cons_append, List.append_assoc], by decide⟩
  | @object _ members _ _ =>
    cases members with
    | nil => exact ⟨['{'], '}', rfl, by decide⟩
    | cons m members =>
      obtain ⟨cs, hcs⟩ := compactMembers_eq_concat members
      exact ⟨'{' :: (quoted m.1 ++ ':' :: (m.2.compact ++ cs)), '}', by
        simp only [compact, hcs, List.cons_append, List.append_assoc], by decide⟩

/-- Trimming takes nothing off a value. -/
theorem Fits.trim_compact (hv : Fits depth v) : Text.trim v.compact = v.compact := by
  obtain ⟨c, cs, hhead, hc⟩ := (laidOut_compact v).eq_cons
  obtain ⟨ds, d, hlast, hd⟩ := hv.compact_eq_concat
  refine Text.trim_of_ends (c := c) (d := d) ?_ ?_ hc.not_blank hd
  · rw [hhead, List.head?_cons]
  · rw [hlast, List.getLast?_concat]

/-! ## Lines of values -/

/-- Values on a line each are cut apart between them, with nothing behind the last one. -/
theorem lines_linesOf {values : List Json} (h : ∀ v ∈ values, Fits depth v) :
    Text.lines (linesOf values).toList = values.map compact ++ [[]] := by
  rw [linesOf, String.toList_ofList]
  induction values with
  | nil => rfl
  | cons v values ih =>
    rw [List.flatMap_cons, List.append_assoc, List.singleton_append, Text.lines_append_newline,
      Text.lines_of_notMem (h v List.mem_cons_self).newline_notMem_compact,
      ih fun w hw ↦ h w (List.mem_cons_of_mem v hw)]
    rfl

end BrowserTrace.Json
