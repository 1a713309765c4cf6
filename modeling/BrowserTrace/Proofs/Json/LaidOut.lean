import BrowserTrace.Proofs.Json.Lexeme
import BrowserTrace.Text.Blank

/-!
# Values laid out with blanks

The same value can be written on one line or over several.  `LaidOut v cs` says that the text `cs`
is the value `v` with any blanks between its parts, and both printers lay a value out
(`laidOut_compact`, `laidOut_prettyAt`), so what is proved of a reader for every layout holds for
either of them.

The rest of an array after its bracket is `ItemsLaidOut first`, where `first` says that no item
stands before it, as in the loop that reads it; the rest of an object is `MembersLaidOut first`.
-/

namespace BrowserTrace.Json

/-- There are only blanks. -/
def Blank (s : List Char) : Prop := ∀ c ∈ s, isSpace c

/-- The comma before an item or a member, unless it is the first one. -/
def comma (first : Bool) : List Char := if first then [] else [',']

mutual

/-- A text is a value, with blanks between its parts. -/
inductive LaidOut : Json → List Char → Prop
  | null : LaidOut .null ['n', 'u', 'l', 'l']
  | bool (b : Bool) : LaidOut (.bool b) (compact (.bool b))
  | number (n : Numeral) : LaidOut (.number n) n.text
  | string (s : String) : LaidOut (.string s) (quoted s)
  | array {items : List Json} {cs : List Char} (h : ItemsLaidOut true items cs) :
    LaidOut (.array items) ('[' :: cs)
  | object {members : List (String × Json)} {cs : List Char} (h : MembersLaidOut true members cs) :
    LaidOut (.object members) ('{' :: cs)

/-- A text is the rest of an array. -/
inductive ItemsLaidOut : Bool → List Json → List Char → Prop
  | nil {first : Bool} {b : List Char} (hb : Blank b) : ItemsLaidOut first [] (b ++ [']'])
  | cons {first : Bool} {v : Json} {items : List Json} {b₁ b₂ cs ds : List Char}
    (hb₁ : Blank b₁) (hb₂ : Blank b₂) (hv : LaidOut v cs) (hitems : ItemsLaidOut false items ds) :
    ItemsLaidOut first (v :: items) (b₁ ++ (comma first ++ (b₂ ++ (cs ++ ds))))

/-- A text is the rest of an object. -/
inductive MembersLaidOut : Bool → List (String × Json) → List Char → Prop
  | nil {first : Bool} {b : List Char} (hb : Blank b) : MembersLaidOut first [] (b ++ ['}'])
  | cons {first : Bool} {key : String} {v : Json} {members : List (String × Json)}
    {b₁ b₂ b₃ b₄ cs ds : List Char} (hb₁ : Blank b₁) (hb₂ : Blank b₂) (hb₃ : Blank b₃)
    (hb₄ : Blank b₄) (hv : LaidOut v cs) (hmembers : MembersLaidOut false members ds) :
    MembersLaidOut first ((key, v) :: members)
      (b₁ ++ (comma first ++ (b₂ ++ (quoted key ++ (b₃ ++ ':' :: (b₄ ++ (cs ++ ds)))))))

end

/-! ## Blanks -/

theorem blank_nil : Blank [] := nofun

theorem blank_space : Blank [' '] := by
  rintro c hc
  rw [List.mem_singleton.mp hc]
  rfl

theorem blank_newline (level : Nat) : Blank (newline level) := by
  rintro c (_ | ⟨_, hc⟩)
  · rfl
  · rw [List.eq_of_mem_replicate hc]
    rfl

theorem skipSpace_cons {c : Char} (h : isSpace c = false) (s : List Char) :
    skipSpace (c :: s) = c :: s :=
  List.dropWhile_cons_of_neg (Bool.eq_false_iff.mp h)

theorem skipSpace_append {b : List Char} (hb : Blank b) (s : List Char) :
    skipSpace (b ++ s) = skipSpace s :=
  List.dropWhile_append_of_pos hb

theorem Blank.endsNumber {b s : List Char} (hb : Blank b) (hs : EndsNumber s) :
    EndsNumber (b ++ s) := by
  cases b with
  | nil => exact hs
  | cons c b =>
    rintro d ⟨⟩
    have hspace := hb c List.mem_cons_self
    simp only [isSpace, Bool.or_eq_true, beq_iff_eq] at hspace
    rcases hspace with ((rfl | rfl) | rfl) | rfl <;> decide

/-! ## Both printers lay a value out -/

mutual

theorem laidOut_compact : (v : Json) → LaidOut v v.compact
  | .null => .null
  | .bool b => .bool b
  | .number n => .number n
  | .string s => .string s
  | .array [] => .array (.nil blank_nil)
  | .array (v :: items) =>
    .array (.cons blank_nil blank_nil (laidOut_compact v) (itemsLaidOut_compactItems items))
  | .object [] => .object (.nil blank_nil)
  | .object ((_, v) :: members) =>
    .object (.cons blank_nil blank_nil blank_nil blank_nil (laidOut_compact v)
      (membersLaidOut_compactMembers members))

theorem itemsLaidOut_compactItems : (items : List Json) →
    ItemsLaidOut false items (compactItems items)
  | [] => .nil blank_nil
  | v :: items =>
    .cons blank_nil blank_nil (laidOut_compact v) (itemsLaidOut_compactItems items)

theorem membersLaidOut_compactMembers : (members : List (String × Json)) →
    MembersLaidOut false members (compactMembers members)
  | [] => .nil blank_nil
  | (_, v) :: members =>
    .cons blank_nil blank_nil blank_nil blank_nil (laidOut_compact v)
      (membersLaidOut_compactMembers members)

end

mutual

theorem laidOut_prettyAt (level : Nat) : (v : Json) → LaidOut v (prettyAt level v)
  | .null => .null
  | .bool true => .bool true
  | .bool false => .bool false
  | .number n => .number n
  | .string s => .string s
  | .array [] => .array (.nil blank_nil)
  | .array (v :: items) => by
    rw [prettyAt, List.append_assoc]
    exact .array (.cons blank_nil (blank_newline _) (laidOut_prettyAt (level + 1) v)
      (itemsLaidOut_prettyItems level items))
  | .object [] => .object (.nil blank_nil)
  | .object ((_, v) :: members) => by
    rw [prettyAt, List.append_assoc]
    exact .object (.cons blank_nil (blank_newline _) blank_nil blank_space
      (laidOut_prettyAt (level + 1) v) (membersLaidOut_prettyMembers level members))

theorem itemsLaidOut_prettyItems (level : Nat) : (items : List Json) →
    ItemsLaidOut false items (prettyItems level items)
  | [] => .nil (blank_newline level)
  | v :: items => by
    rw [prettyItems, List.append_assoc]
    exact .cons blank_nil (blank_newline _) (laidOut_prettyAt (level + 1) v)
      (itemsLaidOut_prettyItems level items)

theorem membersLaidOut_prettyMembers (level : Nat) : (members : List (String × Json)) →
    MembersLaidOut false members (prettyMembers level members)
  | [] => .nil (blank_newline level)
  | (_, v) :: members => by
    rw [prettyMembers, List.append_assoc]
    exact .cons blank_nil (blank_newline _) blank_nil blank_space
      (laidOut_prettyAt (level + 1) v) (membersLaidOut_prettyMembers level members)

end

/-! ## How a value begins -/

/-- A character with which the text of a value can begin. -/
structure BeginsValue (c : Char) : Prop where
  not_blank : Text.isBlank c = false
  ne_close : c ≠ ']'

theorem BeginsValue.not_space {c : Char} (hc : BeginsValue c) : isSpace c = false := by
  rw [← Bool.not_eq_true]
  intro hspace
  simp only [isSpace, Bool.or_eq_true, beq_iff_eq] at hspace
  have hblank := hc.not_blank
  rcases hspace with ((rfl | rfl) | rfl) | rfl <;> contradiction

/-- A character with which a number begins. -/
def BeginsNumber (c : Char) : Prop := c = '-' ∨ c.isDigit

instance (c : Char) : Decidable (BeginsNumber c) := inferInstanceAs (Decidable (_ ∨ _))

theorem BeginsNumber.ne {c d : Char} (hc : BeginsNumber c) (hd : ¬ BeginsNumber d) : c ≠ d :=
  fun h ↦ hd (h ▸ hc)

theorem isBlank_of_isDigit {c : Char} (hc : c.isDigit) : Text.isBlank c = false := by
  have hrange : 48 ≤ c.toNat ∧ c.toNat ≤ 57 := by
    simpa [Char.isDigit, UInt32.le_iff_toNat_le] using hc
  simp only [Text.isBlank, Bool.or_eq_false_iff, Bool.and_eq_false_iff, decide_eq_false_iff_not,
    beq_eq_false_iff_ne]
  omega

theorem BeginsNumber.beginsValue {c : Char} (hc : BeginsNumber c) : BeginsValue c := by
  refine ⟨?_, hc.ne (by decide)⟩
  rcases hc with rfl | hc
  · decide
  · exact isBlank_of_isDigit hc

/-- A choice by the first character of a scalar takes the case of a number where one begins. -/
theorem BeginsNumber.choice_eq {γ : Type} {c : Char} (hc : BeginsNumber c) (s : List Char)
    (empty : γ) (onNull onTrue onFalse onText : List Char → γ) (onNumber : Char → List Char → γ) :
    (match c :: s with
    | [] => empty
    | 'n' :: rest => onNull rest
    | 't' :: rest => onTrue rest
    | 'f' :: rest => onFalse rest
    | '"' :: rest => onText rest
    | c :: rest => onNumber c rest) = onNumber c s := by
  split
  · next heq => nomatch heq
  · next heq => exact absurd (List.cons.inj heq).1 (hc.ne (by decide))
  · next heq => exact absurd (List.cons.inj heq).1 (hc.ne (by decide))
  · next heq => exact absurd (List.cons.inj heq).1 (hc.ne (by decide))
  · next heq => exact absurd (List.cons.inj heq).1 (hc.ne (by decide))
  · next heq =>
    obtain ⟨rfl, rfl⟩ := List.cons.inj heq
    rfl

theorem integerText_eq_cons (i : Int) : ∃ c cs, integerText i = c :: cs ∧ BeginsNumber c := by
  unfold integerText
  split
  · exact ⟨'-', _, rfl, .inl rfl⟩
  · obtain ⟨d, ds, hds⟩ := List.exists_cons_of_ne_nil
      (Nat.toDigits_ne_nil (b := 10) (n := i.natAbs))
    exact ⟨d, ds, hds, .inr (isDigit_of_mem_toDigits (hds ▸ List.mem_cons_self))⟩

/-- A text that begins like a number. -/
def StartsNumber (s : List Char) : Prop := ∃ c ∈ s.head?, BeginsNumber c

theorem StartsNumber.append {s : List Char} (h : StartsNumber s) (t : List Char) :
    StartsNumber (s ++ t) := by
  obtain ⟨c, hc, hbegins⟩ := h
  exact ⟨c, by rw [List.head?_append, hc]; rfl, hbegins⟩

theorem startsNumber_point {digits : List Char} (h : StartsNumber digits) (whole : Int)
    (keepsPoint : Bool) : StartsNumber (Number.Layout.point digits whole keepsPoint) := by
  unfold Number.Layout.point
  dsimp only
  split
  · exact ⟨'0', rfl, by decide⟩
  split
  · exact (h.append _).append _
  · next hwhole _ =>
    have htake : StartsNumber (digits.take whole.toNat) := by
      obtain ⟨c, hc, hbegins⟩ := h
      exact ⟨c, by rwa [List.head?_take, if_neg (by omega)], hbegins⟩
    exact htake.append _

/-- The text of a floating-point number begins like a number, however its digits are laid out. -/
theorem startsNumber_render (style : Number.Layout) (x : Number.Binary64) :
    StartsNumber (style.render x) := by
  have hdigits : StartsNumber (Nat.toDigits 10 x.shortest.coefficient) := by
    obtain ⟨d, ds, hds⟩ := List.exists_cons_of_ne_nil
      (Nat.toDigits_ne_nil (b := 10) (n := x.shortest.coefficient))
    exact ⟨d, by rw [hds]; rfl, .inr (isDigit_of_mem_toDigits (hds ▸ List.mem_cons_self))⟩
  have hminus : StartsNumber ['-'] := ⟨'-', rfl, .inl rfl⟩
  unfold Number.Layout.render
  dsimp only
  cases x.negative with
  | true =>
    rw [if_pos rfl]
    split
    · exact hminus.append _
    · exact ((hminus.append _).append _).append _
  | false =>
    rw [if_neg Bool.false_ne_true]
    split
    · exact startsNumber_point hdigits _ _
    · rw [List.nil_append]
      split
      · exact (hdigits.append _).append _
      · exact ((startsNumber_point hdigits _ _).append _).append _

theorem startsNumber_text : (n : Numeral) → StartsNumber n.text
  | .integer i => by
    obtain ⟨c, cs, hcs, hc⟩ := integerText_eq_cons i
    exact ⟨c, by rw [Numeral.text, hcs]; rfl, hc⟩
  | .float x => startsNumber_render floatLayout x

variable {v : Json} {cs : List Char}

theorem LaidOut.eq_cons (h : LaidOut v cs) : ∃ c ds, cs = c :: ds ∧ BeginsValue c := by
  cases h with
  | null => exact ⟨'n', _, rfl, by decide, by decide⟩
  | bool b =>
    cases b with
    | true => exact ⟨'t', _, rfl, by decide, by decide⟩
    | false => exact ⟨'f', _, rfl, by decide, by decide⟩
  | number n =>
    obtain ⟨c, hc, hbegins⟩ := startsNumber_text n
    exact ⟨c, _, List.eq_cons_of_mem_head? hc, hbegins.beginsValue⟩
  | string => exact ⟨'"', _, rfl, by decide, by decide⟩
  | array => exact ⟨'[', _, rfl, by decide, by decide⟩
  | object => exact ⟨'{', _, rfl, by decide, by decide⟩

/-- No value but `null` begins with its letter. -/
theorem LaidOut.head?_ne (h : LaidOut v cs) (hv : v ≠ .null) : cs.head? ≠ some 'n' := by
  cases h with
  | null => contradiction
  | bool b => cases b <;> decide
  | number n =>
    obtain ⟨c, hc, hbegins⟩ := startsNumber_text n
    rw [hc, ne_eq, Option.some.injEq]
    exact hbegins.ne (by decide)
  | string => simp [quoted]
  | array => simp
  | object => simp

/-! ## What follows a value -/

theorem ItemsLaidOut.endsNumber {items : List Json} (h : ItemsLaidOut false items cs)
    (rest : List Char) : EndsNumber (cs ++ rest) := by
  cases h with
  | nil hb =>
    rw [List.append_assoc]
    exact hb.endsNumber (by rintro c ⟨⟩; decide)
  | cons hb =>
    rw [List.append_assoc]
    exact hb.endsNumber (by rintro c ⟨⟩; decide)

theorem MembersLaidOut.endsNumber {members : List (String × Json)}
    (h : MembersLaidOut false members cs) (rest : List Char) : EndsNumber (cs ++ rest) := by
  cases h with
  | nil hb =>
    rw [List.append_assoc]
    exact hb.endsNumber (by rintro c ⟨⟩; decide)
  | cons hb =>
    rw [List.append_assoc]
    exact hb.endsNumber (by rintro c ⟨⟩; decide)

end BrowserTrace.Json
