import BrowserTrace.Proofs.Text.Utf8
import BrowserTrace.Text.Blank

/-!
# Lines

A line feed cuts a text in two whose lines are the lines of both halves (`lines_append_newline`).
The same holds a level below: a byte under 128 closes whatever sequence came before it, so the
decoder's state never crosses such a byte (`Utf8.chars_append_ascii`), and the lines of decoded
bytes are the decoded lines of bytes.  What stands at the ends of a line counts only as far as
`trim` leaves it there.
-/

namespace BrowserTrace.Text

/-! ## Lines of bytes -/

/-- Decoding starts afresh behind a byte under 128, whatever stood before it. -/
theorem Utf8.chars_append_ascii {b : UInt8} (h : b < 0x80) (state : State) (xs ys : List UInt8) :
    chars state (xs ++ b :: ys) = chars state xs ++ Char.ofNat b.toNat :: chars .start ys := by
  induction xs generalizing state with
  | nil =>
    rw [List.nil_append, chars_cons, step_ascii state b h, chars_nil, List.append_assoc]
    rfl
  | cons x xs ih => rw [List.cons_append, chars_cons, chars_cons, ih, List.append_assoc]

/-! ## Lines of a text -/

theorem lines_append_newline (cs ds : List Char) :
    lines (cs ++ '\n' :: ds) = lines cs ++ lines ds := by
  induction cs with
  | nil => exact lines_newline_cons ds
  | cons c cs ih =>
    rw [List.cons_append]
    by_cases hc : c = '\n'
    · rw [hc, lines_newline_cons, lines_newline_cons, ih]
      rfl
    · obtain ⟨l, ls, hl, hcons⟩ := lines_cons c cs hc
      obtain ⟨l', ls', hl', hcons'⟩ := lines_cons c (cs ++ '\n' :: ds) hc
      rw [ih, hl, List.cons_append, List.cons.injEq] at hl'
      rw [hcons, hcons', ← hl'.1, ← hl'.2]
      rfl

/-- A text without a line feed is a single line. -/
theorem lines_of_notMem {cs : List Char} (h : '\n' ∉ cs) : lines cs = [cs] := by
  induction cs with
  | nil => rfl
  | cons c cs ih =>
    obtain ⟨hc, hcs⟩ := List.ne_and_not_mem_of_not_mem_cons h
    obtain ⟨l, ls, hl, hcons⟩ := lines_cons c cs (Ne.symm hc)
    rw [ih hcs, List.cons.injEq] at hl
    rw [hcons, ← hl.1, ← hl.2]

/-- A character that ends no line goes to the end of the last line. -/
theorem lines_concat {c : Char} (hc : c ≠ '\n') (cs : List Char) :
    ∃ ls l, lines cs = ls ++ [l] ∧ lines (cs ++ [c]) = ls ++ [l ++ [c]] := by
  induction cs with
  | nil => exact ⟨[], [], rfl, lines_of_notMem (by simpa using hc.symm)⟩
  | cons d cs ih =>
    obtain ⟨ls, l, hl, hlc⟩ := ih
    by_cases hd : d = '\n'
    · refine ⟨[] :: ls, l, ?_, ?_⟩
      · rw [hd, lines_newline_cons, hl, List.cons_append]
      · rw [hd, List.cons_append, lines_newline_cons, hlc, List.cons_append]
    · obtain ⟨m, ms, hm, hcons⟩ := lines_cons d cs hd
      obtain ⟨m', ms', hm', hcons'⟩ := lines_cons d (cs ++ [c]) hd
      rw [hl] at hm
      rw [hlc] at hm'
      rw [List.cons_append, hcons, hcons']
      cases ls with
      | nil =>
        rw [List.nil_append, List.cons.injEq] at hm hm'
        exact ⟨[], d :: l, by rw [← hm.1, ← hm.2]; rfl, by rw [← hm'.1, ← hm'.2]; rfl⟩
      | cons k ls =>
        rw [List.cons_append, List.cons.injEq] at hm hm'
        exact ⟨(d :: k) :: ls, l, by rw [← hm.1, ← hm.2]; rfl, by rw [← hm'.1, ← hm'.2]; rfl⟩

/-! ## Trimming -/

/-- A blank at the end does not count. -/
theorem trim_concat_blank {c : Char} (hc : isBlank c) (cs : List Char) :
    trim (cs ++ [c]) = trim cs := by
  unfold trim
  rw [List.dropWhile_append]
  split
  · next hempty =>
    rw [List.isEmpty_iff.mp hempty, List.dropWhile_cons_of_pos hc]
    rfl
  · rw [List.reverse_append, List.reverse_singleton, List.singleton_append,
      List.dropWhile_cons_of_pos hc]

/-- A text that begins and ends with a character that is not blank stays as it is. -/
theorem trim_of_ends {c d : Char} {cs : List Char} (hhead : cs.head? = some c)
    (hlast : cs.getLast? = some d) (hc : isBlank c = false) (hd : isBlank d = false) :
    trim cs = cs := by
  have hfront : cs.dropWhile isBlank = cs := by
    rw [List.head?_eq_some_iff] at hhead
    obtain ⟨rest, rfl⟩ := hhead
    exact List.dropWhile_cons_of_neg (Bool.not_eq_true _ ▸ hc)
  have hback : cs.reverse.dropWhile isBlank = cs.reverse := by
    rw [← List.head?_reverse, List.head?_eq_some_iff] at hlast
    obtain ⟨rest, hrest⟩ := hlast
    rw [hrest]
    exact List.dropWhile_cons_of_neg (Bool.not_eq_true _ ▸ hd)
  rw [trim, hfront, hback, List.reverse_reverse]

end BrowserTrace.Text
