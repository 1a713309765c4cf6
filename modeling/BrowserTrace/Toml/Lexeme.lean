import BrowserTrace.Json.Lexeme

/-! # The pieces of TOML text

Blanks, line ends, comments, keys and strings are read from the front of a list of characters, and
what is left is returned. Text that is not TOML is read as nothing; why it is not is not told.
-/

namespace BrowserTrace.Toml

/-! ## Blanks and lines -/

/-- Whether a character is a blank inside a line. -/
def isBlank (c : Char) : Bool := c == ' ' || c == '\t'

/-- Skips blanks inside a line. -/
def skipBlanks (s : List Char) : List Char := s.dropWhile isBlank

/-- Whether a character may stand in a comment or a string: a tab, or anything but a control
character. -/
def isPlain (c : Char) : Bool := c == '\t' || (0x20 ≤ c.toNat && c.toNat ≠ 0x7F)

/-- Skips a comment, if one begins here. -/
def skipComment (s : List Char) : List Char :=
  match s with
  | '#' :: rest => rest.dropWhile isPlain
  | s => s

/-- Reads the end of a line. -/
def readNewline : List Char → Option (List Char)
  | '\n' :: rest => some rest
  | '\r' :: '\n' :: rest => some rest
  | _ => none

/-- Reads what may follow a statement: blanks, a comment, and the end of the line or of the text. -/
def readLineEnd (s : List Char) : Option (List Char) :=
  match skipComment (skipBlanks s) with
  | [] => some []
  | s => readNewline s

theorem skipBlanks_length_le (s : List Char) : (skipBlanks s).length ≤ s.length :=
  (List.dropWhile_sublist isBlank).length_le

theorem skipComment_length_le (s : List Char) : (skipComment s).length ≤ s.length := by
  unfold skipComment
  split
  · exact Nat.le_succ_of_le (List.dropWhile_sublist isPlain).length_le
  · exact Nat.le_refl _

theorem readNewline_length_lt {s r : List Char} (h : readNewline s = some r) :
    r.length < s.length := by
  unfold readNewline at h
  split at h <;> grind

/-- Skips blanks, comments and line ends. -/
def skipLines (s : List Char) : List Char :=
  match _line : readNewline (skipComment (skipBlanks s)) with
  | some rest => skipLines rest
  | none => skipComment (skipBlanks s)
termination_by s.length
decreasing_by
  have h₁ := readNewline_length_lt _line
  have h₂ := skipComment_length_le (skipBlanks s)
  have h₃ := skipBlanks_length_le s
  omega

theorem skipLines_length_le (s : List Char) : (skipLines s).length ≤ s.length := by
  fun_induction skipLines s with
  | case1 s rest hn ih =>
    have h₁ := readNewline_length_lt hn
    have h₂ := skipComment_length_le (skipBlanks s)
    have h₃ := skipBlanks_length_le s
    omega
  | case2 s =>
    have h₂ := skipComment_length_le (skipBlanks s)
    have h₃ := skipBlanks_length_le s
    omega

/-- What follows a statement ends the text, or takes a line end away. -/
theorem readLineEnd_length_lt {s r : List Char} (h : readLineEnd s = some r) (hr : r ≠ []) :
    r.length < s.length := by
  have h₂ := skipComment_length_le (skipBlanks s)
  have h₃ := skipBlanks_length_le s
  unfold readLineEnd at h
  split at h
  · simp_all
  · have h₁ := readNewline_length_lt h
    omega

/-! ## Escapes -/

/-- The character with a number that is written in hexadecimal digits. -/
def charOfHex? (digits : List Char) : Option Char := do
  let values ← digits.mapM Json.hexValue?
  let n := values.foldl (fun n v => 16 * n + v) 0
  if n.isValidChar then some (Char.ofNat n) else none

/-- Reads an escape of so many hexadecimal digits. -/
def readHexEscape (count : Nat) (s : List Char) : Option (Char × List Char) :=
  if (s.take count).length = count then
    (charOfHex? (s.take count)).map (·, s.drop count)
  else
    none

theorem readHexEscape_length_le {count : Nat} {s r : List Char} {c : Char}
    (h : readHexEscape count s = some (c, r)) : r.length ≤ s.length := by
  unfold readHexEscape at h
  split at h
  · obtain ⟨c', _, hc⟩ := Option.map_eq_some_iff.mp h
    rw [← (Prod.mk.inj hc).2, List.length_drop]
    exact Nat.sub_le _ _
  · simp at h

/-- Reads an escape after its backslash. -/
def readEscape : List Char → Option (Char × List Char)
  | 'b' :: rest => some ('\x08', rest)
  | 't' :: rest => some ('\t', rest)
  | 'n' :: rest => some ('\n', rest)
  | 'f' :: rest => some ('\x0c', rest)
  | 'r' :: rest => some ('\r', rest)
  | 'e' :: rest => some ('\x1b', rest)
  | '"' :: rest => some ('"', rest)
  | '\\' :: rest => some ('\\', rest)
  | 'x' :: rest => readHexEscape 2 rest
  | 'u' :: rest => readHexEscape 4 rest
  | 'U' :: rest => readHexEscape 8 rest
  | _ => none

theorem readEscape_length_lt {s r : List Char} {c : Char} (h : readEscape s = some (c, r)) :
    r.length < s.length := by
  unfold readEscape at h
  split at h <;> grind [→ readHexEscape_length_le]

/-! ## Strings -/

/-- Reads the rest of a string in double quotes, behind the characters in `acc`, of which the newest
is first. -/
def readBasic (s : List Char) (acc : List Char) : Option (String × List Char) :=
  match s with
  | '"' :: rest => some (String.ofList acc.reverse, rest)
  | '\\' :: rest =>
    match _escape : readEscape rest with
    | some (c, rest) => readBasic rest (c :: acc)
    | none => none
  | c :: rest => if isPlain c then readBasic rest (c :: acc) else none
  | [] => none
termination_by s.length
decreasing_by
  · have := readEscape_length_lt _escape
    simp only [List.length_cons]
    omega
  · simp

theorem readBasic_length_lt {s acc r : List Char} {t : String}
    (h : readBasic s acc = some (t, r)) : r.length < s.length := by
  fun_induction readBasic s acc <;> grind [→ readEscape_length_lt]

/-- Whether a character may stand in a string in single quotes. -/
def isLiteralChar (c : Char) : Bool := isPlain c && c != '\''

/-- Reads the rest of a string in single quotes, which has no escapes. -/
def readLiteral (s : List Char) : Option (String × List Char) :=
  match s.dropWhile isLiteralChar with
  | '\'' :: rest => some (String.ofList (s.takeWhile isLiteralChar), rest)
  | _ => none

theorem readLiteral_length_lt {s r : List Char} {t : String}
    (h : readLiteral s = some (t, r)) : r.length < s.length := by
  have hd := (List.dropWhile_sublist (l := s) isLiteralChar).length_le
  unfold readLiteral at h
  split at h
  · next heq =>
    simp only [Option.some.injEq, Prod.mk.injEq] at h
    simp only [heq, List.length_cons, h.2] at hd
    omega
  · simp at h

/-- Takes off the line end that may follow the opening quotes of a text over several lines. -/
def dropNewline (s : List Char) : List Char := (readNewline s).getD s

/-- Reads the closing quotes of a text over several lines, and up to two more that belong to the
text. -/
def readClosing (quote : Char) (s : List Char) : Option (List Char × List Char) :=
  let count := (s.takeWhile (· == quote)).length
  if count < 3 then none
  else some (List.replicate (min (count - 3) 2) quote, s.drop (min count 5))

theorem dropNewline_length_le (s : List Char) : (dropNewline s).length ≤ s.length := by
  unfold dropNewline
  cases h : readNewline s with
  | none => simp
  | some r => exact Nat.le_of_lt (readNewline_length_lt h)

theorem readClosing_length_lt {quote : Char} {s cs r : List Char}
    (h : readClosing quote s = some (cs, r)) : r.length < s.length := by
  have ht := (List.takeWhile_sublist (l := s) (· == quote)).length_le
  unfold readClosing at h
  simp only at h
  split at h
  · simp at h
  · simp only [Option.some.injEq, Prod.mk.injEq] at h
    rw [← h.2, List.length_drop]
    omega

/-- Reads a character of a text over several lines that stands for itself. -/
def readLong : List Char → Option (List Char × List Char)
  | '\r' :: '\n' :: rest => some (['\n', '\r'], rest)
  | c :: rest => if c = '\n' ∨ isPlain c then some ([c], rest) else none
  | [] => none

theorem readLong_length_lt {s cs r : List Char} (h : readLong s = some (cs, r)) :
    r.length < s.length := by
  unfold readLong at h
  split at h
  · simp only [Option.some.injEq, Prod.mk.injEq] at h
    simp only [← h.2, List.length_cons]
    omega
  · split at h
    · simp only [Option.some.injEq, Prod.mk.injEq] at h
      simp [← h.2]
    · simp at h
  · simp at h

/-- Skips blanks and line ends. -/
def skipBlankLines (s : List Char) : List Char :=
  match _line : readNewline (skipBlanks s) with
  | some rest => skipBlankLines rest
  | none => skipBlanks s
termination_by s.length
decreasing_by
  have h₁ := readNewline_length_lt _line
  have h₂ := skipBlanks_length_le s
  omega

theorem skipBlankLines_length_le (s : List Char) : (skipBlankLines s).length ≤ s.length := by
  fun_induction skipBlankLines s with
  | case1 s rest hn ih =>
    have h₁ := readNewline_length_lt hn
    have h₂ := skipBlanks_length_le s
    omega
  | case2 s => exact skipBlanks_length_le s

/-- Skips blanks and line ends after a backslash at the end of a line. -/
def skipFold (s : List Char) : Option (List Char) :=
  (readNewline (skipBlanks s)).map skipBlankLines

theorem skipFold_length_lt {s r : List Char} (h : skipFold s = some r) : r.length < s.length := by
  obtain ⟨rest, hn, hr⟩ := Option.map_eq_some_iff.mp h
  have h₁ := readNewline_length_lt hn
  have h₂ := skipBlanks_length_le s
  have h₃ := skipBlankLines_length_le rest
  rw [hr] at h₃
  omega

/-- Reads the rest of a text over several lines in double quotes. A backslash at the end of a line
takes the line end and the blanks and line ends after it away. -/
def readLongBasic (s : List Char) (acc : List Char) : Option (String × List Char) :=
  match readClosing '"' s with
  | some (quotes, rest) => some (String.ofList (acc.reverse ++ quotes), rest)
  | none =>
    match s with
    | '\\' :: rest =>
      match _fold : skipFold rest with
      | some rest => readLongBasic rest acc
      | none =>
        match _escape : readEscape rest with
        | some (c, rest) => readLongBasic rest (c :: acc)
        | none => none
    | s =>
      match _char : readLong s with
      | some (cs, rest) => readLongBasic rest (cs ++ acc)
      | none => none
termination_by s.length
decreasing_by
  · have := skipFold_length_lt _fold
    simp only [List.length_cons]
    omega
  · have := readEscape_length_lt _escape
    simp only [List.length_cons]
    omega
  · exact readLong_length_lt _char

theorem readLongBasic_length_lt {s acc r : List Char} {t : String}
    (h : readLongBasic s acc = some (t, r)) : r.length < s.length := by
  fun_induction readLongBasic s acc <;>
    grind [→ readClosing_length_lt, → skipFold_length_lt, → readEscape_length_lt,
      → readLong_length_lt]

/-- Reads the rest of a text over several lines in single quotes. -/
def readLongLiteral (s : List Char) (acc : List Char) : Option (String × List Char) :=
  match readClosing '\'' s with
  | some (quotes, rest) => some (String.ofList (acc.reverse ++ quotes), rest)
  | none =>
    match _char : readLong s with
    | some (cs, rest) => readLongLiteral rest (cs ++ acc)
    | none => none
termination_by s.length
decreasing_by exact readLong_length_lt _char

theorem readLongLiteral_length_lt {s acc r : List Char} {t : String}
    (h : readLongLiteral s acc = some (t, r)) : r.length < s.length := by
  fun_induction readLongLiteral s acc <;>
    grind [→ readClosing_length_lt, → readLong_length_lt]

/-- Reads a string of any kind. -/
def readString : List Char → Option (String × List Char)
  | '"' :: '"' :: '"' :: rest => readLongBasic (dropNewline rest) []
  | '\'' :: '\'' :: '\'' :: rest => readLongLiteral (dropNewline rest) []
  | '"' :: rest => readBasic rest []
  | '\'' :: rest => readLiteral rest
  | _ => none

theorem readString_length_lt {s r : List Char} {t : String} (h : readString s = some (t, r)) :
    r.length < s.length := by
  unfold readString at h
  split at h
  · next rest =>
    have h₁ := readLongBasic_length_lt h
    have h₂ := dropNewline_length_le rest
    simp only [List.length_cons]
    omega
  · next rest =>
    have h₁ := readLongLiteral_length_lt h
    have h₂ := dropNewline_length_le rest
    simp only [List.length_cons]
    omega
  · exact Nat.lt_succ_of_lt (readBasic_length_lt h)
  · exact Nat.lt_succ_of_lt (readLiteral_length_lt h)
  · simp at h

/-! ## Keys -/

/-- Whether a character may stand in a key without quotes. -/
def isKeyChar (c : Char) : Bool := c.isAlphanum || c == '_' || c == '-'

/-- Reads one key. -/
def readSimpleKey (s : List Char) : Option (String × List Char) :=
  match s with
  | '"' :: rest => readBasic rest []
  | '\'' :: rest => readLiteral rest
  | s =>
    match s.takeWhile isKeyChar with
    | [] => none
    | key => some (String.ofList key, s.dropWhile isKeyChar)

theorem readSimpleKey_length_le {s r : List Char} {key : String}
    (h : readSimpleKey s = some (key, r)) : r.length ≤ s.length := by
  unfold readSimpleKey at h
  split at h
  · exact Nat.le_succ_of_le (Nat.le_of_lt (readBasic_length_lt h))
  · exact Nat.le_succ_of_le (Nat.le_of_lt (readLiteral_length_lt h))
  · split at h
    · simp at h
    · simp only [Option.some.injEq, Prod.mk.injEq] at h
      rw [← h.2]
      exact (List.dropWhile_sublist isKeyChar).length_le

/-- Reads keys with points between them, behind those in `acc`, of which the newest is first. -/
def readKeysFrom (s : List Char) (acc : List String) : Option (List String × List Char) :=
  match _key : readSimpleKey (skipBlanks s) with
  | none => none
  | some (key, rest) =>
    match _point : skipBlanks rest with
    | '.' :: more => readKeysFrom more (key :: acc)
    | rest => some ((key :: acc).reverse, rest)
termination_by s.length
decreasing_by
  have h₁ := skipBlanks_length_le s
  have h₂ := readSimpleKey_length_le _key
  have h₃ := skipBlanks_length_le rest
  simp only [_point, List.length_cons] at h₃
  omega

/-- How deeply keys, and arrays and tables in braces, may be nested. -/
def maxDepth : Nat := 80

/-- Reads keys with points between them, and the blanks around them. -/
def readKeys (s : List Char) : Option (List String × List Char) :=
  (readKeysFrom s []).filter fun (keys, _) => keys.length ≤ maxDepth

theorem readKeysFrom_length_le {s r : List Char} {acc keys : List String}
    (h : readKeysFrom s acc = some (keys, r)) : r.length ≤ s.length := by
  fun_induction readKeysFrom s acc with
  | case1 => simp at h
  | case2 s acc key rest hk rest' hp ih =>
    have h₁ := skipBlanks_length_le s
    have h₂ := readSimpleKey_length_le hk
    have h₃ := skipBlanks_length_le rest
    have := ih h
    simp only [hp, List.length_cons] at h₃
    omega
  | case3 s acc key rest hk =>
    have h₁ := skipBlanks_length_le s
    have h₂ := readSimpleKey_length_le hk
    have h₃ := skipBlanks_length_le rest
    simp only [Option.some.injEq, Prod.mk.injEq] at h
    rw [← h.2]
    omega

theorem readKeys_length_le {s r : List Char} {keys : List String}
    (h : readKeys s = some (keys, r)) : r.length ≤ s.length :=
  readKeysFrom_length_le (Option.eq_some_of_filter_eq_some h)

end BrowserTrace.Toml
