/-! # White space and lines

Blank characters are those with Unicode's `White_Space` property. Trimming takes them off both
ends of a text and nothing from its inside. Lines are what stands between line feeds: a text
without one is a single line, and a line feed at the end leaves an empty line after it.
-/

namespace BrowserTrace.Text

/-- The characters with Unicode's `White_Space` property. -/
def isBlank (c : Char) : Bool :=
  let n := c.toNat
  (0x09 ≤ n && n ≤ 0x0D) || n == 0x20 || n == 0x85 || n == 0xA0 || n == 0x1680 ||
    (0x2000 ≤ n && n ≤ 0x200A) || n == 0x2028 || n == 0x2029 || n == 0x202F || n == 0x205F ||
    n == 0x3000

/-- The text without the blanks at its start and end. -/
def trim (cs : List Char) : List Char :=
  ((cs.dropWhile isBlank).reverse.dropWhile isBlank).reverse

/-- The pieces of a text between line feeds, in order. -/
def lines (cs : List Char) : List (List Char) :=
  cs.foldr (fun c ls =>
    if c = '\n' then [] :: ls
    else match ls with
      | [] => [[c]]
      | l :: ls => (c :: l) :: ls) [[]]

@[simp] theorem lines_nil : lines [] = [[]] := rfl

@[simp] theorem lines_newline_cons (cs : List Char) : lines ('\n' :: cs) = [] :: lines cs := by
  simp [lines]

theorem lines_ne_nil (cs : List Char) : lines cs ≠ [] := by
  cases cs with
  | nil => simp
  | cons c cs =>
    simp only [lines, List.foldr_cons]
    split
    · simp
    · split <;> simp

/-- A character that ends no line joins the first line of what follows. -/
theorem lines_cons (c : Char) (cs : List Char) (h : c ≠ '\n') :
    ∃ l ls, lines cs = l :: ls ∧ lines (c :: cs) = (c :: l) :: ls := by
  obtain ⟨l, ls, hl⟩ := List.exists_cons_of_ne_nil (lines_ne_nil cs)
  refine ⟨l, ls, hl, ?_⟩
  have : lines (c :: cs) = match lines cs with
      | [] => [[c]]
      | l :: ls => (c :: l) :: ls := by
    simp [lines, h]
  rw [this, hl]

end BrowserTrace.Text
