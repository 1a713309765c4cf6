import BrowserTrace.Json.Basic

/-! # Writing JSON

A value is written on one line without spaces (`compact`), or over several lines with two spaces of
indentation a level (`pretty`). Both write members in the order in which they stand. In strings only
the quote, the backslash and the control characters below 32 are escaped, so a written value has no
line feed but those that `pretty` puts between its parts.
-/

namespace BrowserTrace.Json

/-! ## Scalars -/

/-- Numbers in the layout of JSON text: whole numbers keep `.0`, and the exponent form is for
leading digits below `10 ^ -5` or from `10 ^ 16` on. -/
def floatLayout : Number.Layout :=
  { positionalFrom := some (-5), positionalBelow := some 16, keepsPoint := true }

/-- The text of an integer. -/
def integerText (i : Int) : List Char :=
  if i < 0 then '-' :: Nat.toDigits 10 i.natAbs else Nat.toDigits 10 i.natAbs

/-- The text of a number. -/
def Numeral.text : Numeral → List Char
  | integer i => integerText i
  | float x => floatLayout.render x

/-- A hexadecimal digit in lower case. -/
def hexDigit (n : Nat) : Char := Nat.digitChar n

/-- How a character is written inside a string. -/
def escape (c : Char) : List Char :=
  if c = '"' then ['\\', '"']
  else if c = '\\' then ['\\', '\\']
  else if c = '\x08' then ['\\', 'b']
  else if c = '\x0c' then ['\\', 'f']
  else if c = '\n' then ['\\', 'n']
  else if c = '\r' then ['\\', 'r']
  else if c = '\t' then ['\\', 't']
  else if c.toNat < 32 then ['\\', 'u', '0', '0', hexDigit (c.toNat / 16), hexDigit (c.toNat % 16)]
  else [c]

/-- A string in quotes. -/
def quoted (s : String) : List Char :=
  '"' :: (s.toList.flatMap escape ++ ['"'])

/-! ## Values -/

mutual

/-- A value on one line. -/
def compact : Json → List Char
  | null => ['n', 'u', 'l', 'l']
  | bool true => ['t', 'r', 'u', 'e']
  | bool false => ['f', 'a', 'l', 's', 'e']
  | number n => n.text
  | string s => quoted s
  | array [] => ['[', ']']
  | array (item :: items) => '[' :: (compact item ++ compactItems items)
  | object [] => ['{', '}']
  | object ((key, value) :: members) =>
    '{' :: (quoted key ++ ':' :: (compact value ++ compactMembers members))

/-- The rest of an array after an item. -/
def compactItems : List Json → List Char
  | [] => [']']
  | item :: items => ',' :: (compact item ++ compactItems items)

/-- The rest of an object after a member. -/
def compactMembers : List (String × Json) → List Char
  | [] => ['}']
  | (key, value) :: members =>
    ',' :: (quoted key ++ ':' :: (compact value ++ compactMembers members))

end

/-- A new line at a level of indentation. -/
def newline (level : Nat) : List Char :=
  '\n' :: List.replicate (2 * level) ' '

mutual

/-- A value over several lines, which begins at a level of indentation. -/
def prettyAt (level : Nat) : Json → List Char
  | null => ['n', 'u', 'l', 'l']
  | bool true => ['t', 'r', 'u', 'e']
  | bool false => ['f', 'a', 'l', 's', 'e']
  | number n => n.text
  | string s => quoted s
  | array [] => ['[', ']']
  | array (item :: items) =>
    '[' :: (newline (level + 1) ++ prettyAt (level + 1) item ++ prettyItems level items)
  | object [] => ['{', '}']
  | object ((key, value) :: members) =>
    '{' :: (newline (level + 1) ++ quoted key ++ ':' :: ' ' ::
      (prettyAt (level + 1) value ++ prettyMembers level members))

/-- The rest of an array after an item. -/
def prettyItems (level : Nat) : List Json → List Char
  | [] => newline level ++ [']']
  | item :: items =>
    ',' :: (newline (level + 1) ++ prettyAt (level + 1) item ++ prettyItems level items)

/-- The rest of an object after a member. -/
def prettyMembers (level : Nat) : List (String × Json) → List Char
  | [] => newline level ++ ['}']
  | (key, value) :: members =>
    ',' :: (newline (level + 1) ++ quoted key ++ ':' :: ' ' ::
      (prettyAt (level + 1) value ++ prettyMembers level members))

end

/-- A value over several lines. -/
def pretty (v : Json) : String := String.ofList (prettyAt 0 v)

/-- Values on a line each, every line ended. -/
def linesOf (values : List Json) : String :=
  String.ofList (values.flatMap fun v => compact v ++ ['\n'])

end BrowserTrace.Json
