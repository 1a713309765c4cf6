import BrowserTrace.Json.NumberText
import BrowserTrace.Json.Printer
import Mathlib.Data.List.Basic

/-!
# Written strings and integers are read back

What the printer writes for a string or an integer is read back by the reader of its kind, with
whatever follows left over.  Strings go character by character: `readString_escape` says that one
written character, escaped or not, is read as that character.  Integers need to know that what
follows does not go on with the number (`EndsNumber`).
-/

namespace BrowserTrace.Json

/-! ## Strings -/

theorem hexValue?_hexDigit : ∀ n < 16, hexValue? (hexDigit n) = some n := by decide

/-- A code unit below 32, written with four digits. -/
theorem readUnicode_control {n : Nat} (h : n < 32) (rest : List Char) :
    readUnicode ('0' :: '0' :: hexDigit (n / 16) :: hexDigit (n % 16) :: rest) =
      .ok (Char.ofNat n, rest) := by
  have hzero : hexValue? '0' = some 0 := by decide
  have hhex : readHex ('0' :: '0' :: hexDigit (n / 16) :: hexDigit (n % 16) :: rest) =
      .ok (n, rest) := by
    have hvalue : ((0 * 16 + 0) * 16 + n / 16) * 16 + n % 16 = n := by omega
    simp only [readHex, hzero, hexValue?_hexDigit (n / 16) (by omega),
      hexValue?_hexDigit (n % 16) (by omega), hvalue]
  have hlow : isLowHalf n = false := by
    simp only [isLowHalf, Bool.and_eq_false_iff, decide_eq_false_iff_not]
    omega
  have hhigh : isHighHalf n = false := by
    simp only [isHighHalf, Bool.and_eq_false_iff, decide_eq_false_iff_not]
    omega
  simp [readUnicode, hhex, hlow, hhigh]

theorem readString_quote (rest acc : List Char) :
    readString ('"' :: rest) acc = .ok (String.ofList acc.reverse, rest) := by
  rw [readString, if_pos rfl]

theorem readString_backslash {s rest : List Char} {c : Char} (h : readEscape s = .ok (c, rest))
    (acc : List Char) : readString ('\\' :: s) acc = readString rest (c :: acc) := by
  rw [readString, if_neg (by decide), if_pos rfl]
  split
  · next he =>
    rw [h] at he
    contradiction
  · next he =>
    rw [h] at he
    obtain ⟨rfl, rfl⟩ := Prod.mk.inj (Except.ok.inj he)
    rfl

theorem readString_plain {c : Char} (hquote : c ≠ '"') (hbackslash : c ≠ '\\')
    (hcontrol : ¬ c.toNat < 32) (s acc : List Char) :
    readString (c :: s) acc = readString s (c :: acc) := by
  rw [readString, if_neg hquote, if_neg hbackslash, if_neg hcontrol]

/-- One written character is read as that character. -/
theorem readString_escape (c : Char) (s acc : List Char) :
    readString (escape c ++ s) acc = readString s (c :: acc) := by
  unfold escape
  split
  · next h => exact readString_backslash (by rw [h]; rfl) acc
  split
  · next h => exact readString_backslash (by rw [h]; rfl) acc
  split
  · next h => exact readString_backslash (by rw [h]; rfl) acc
  split
  · next h => exact readString_backslash (by rw [h]; rfl) acc
  split
  · next h => exact readString_backslash (by rw [h]; rfl) acc
  split
  · next h => exact readString_backslash (by rw [h]; rfl) acc
  split
  · next h => exact readString_backslash (by rw [h]; rfl) acc
  split
  · next h =>
    have hread := readUnicode_control h s
    rw [Char.ofNat_toNat] at hread
    exact readString_backslash (s := 'u' :: _) hread acc
  · next hquote hbackslash _ _ _ _ _ hcontrol =>
    exact readString_plain hquote hbackslash hcontrol s acc

/-- A written string is read back, behind its opening quote. -/
theorem readString_flatMap_escape (cs rest acc : List Char) :
    readString (cs.flatMap escape ++ '"' :: rest) acc =
      .ok (String.ofList (acc.reverse ++ cs), rest) := by
  induction cs generalizing acc with
  | nil => rw [List.flatMap_nil, List.nil_append, readString_quote, List.append_nil]
  | cons c cs ih =>
    rw [List.flatMap_cons, List.append_assoc, readString_escape, ih, List.reverse_cons,
      List.append_assoc]
    rfl

theorem readString_toList (s : String) (rest : List Char) :
    readString (s.toList.flatMap escape ++ '"' :: rest) [] = .ok (s, rest) := by
  rw [readString_flatMap_escape, List.reverse_nil, List.nil_append, String.ofList_toList]

/-! ## Integers -/

/-- What follows does not go on with a number: it begins with no digit, point or mark of an
exponent. -/
def EndsNumber (rest : List Char) : Prop :=
  ∀ c ∈ rest.head?, c.isDigit = false ∧ c ≠ '.' ∧ c ≠ 'e' ∧ c ≠ 'E'

theorem endsNumber_nil : EndsNumber [] := nofun

/-- What follows does not go on with digits. -/
def EndsDigits (rest : List Char) : Prop := ∀ c ∈ rest.head?, c.isDigit = false

theorem EndsNumber.endsDigits {rest : List Char} (h : EndsNumber rest) : EndsDigits rest :=
  fun c hc ↦ (h c hc).1

theorem isDigit_of_mem_toDigits {n : Nat} {c : Char} (h : c ∈ Nat.toDigits 10 n) : c.isDigit :=
  Nat.isDigit_of_mem_toDigits (by decide) (by decide) h

theorem digitsValue_toDigits (n : Nat) : Number.digitsValue (Nat.toDigits 10 n) = n :=
  Nat.ofDigitChars_ten_toDigits

/-- No digits begin with zero but those of zero itself. -/
theorem head?_toDigits_ne_zero {n : Nat} (h : n ≠ 0) : (Nat.toDigits 10 n).head? ≠ some '0' := by
  induction n using Nat.strongRecOn with
  | ind n ih =>
    rw [Nat.toDigits_eq_if (by decide)]
    split
    · next hlt =>
      intro hzero
      exact h (Nat.digitChar_eq_zero.mp (Option.some.inj hzero))
    · next hge =>
      rw [List.head?_append_of_ne_nil _ Nat.toDigits_ne_nil]
      exact ih (n / 10) (by omega) (by omega)

variable {rest : List Char}

/-- Digits are read as far as they go. -/
theorem readDigits_append {ds : List Char} (hne : ds ≠ []) (hall : ∀ c ∈ ds, c.isDigit)
    (h : EndsDigits rest) : readDigits (ds ++ rest) = .ok (ds, rest) := by
  have hstop : rest.takeWhile Char.isDigit = [] ∧ rest.dropWhile Char.isDigit = rest := by
    cases rest with
    | nil => exact ⟨rfl, rfl⟩
    | cons c rest =>
      have hc : ¬ c.isDigit = true := Bool.eq_false_iff.mp (h c rfl)
      exact ⟨List.takeWhile_cons_of_neg hc, List.dropWhile_cons_of_neg hc⟩
  have hrun : readDigits (ds ++ rest) =
      .ok ((ds ++ rest).takeWhile Char.isDigit, (ds ++ rest).dropWhile Char.isDigit) := by
    obtain ⟨d, ds, rfl⟩ := List.exists_cons_of_ne_nil hne
    exact if_pos (hall d List.mem_cons_self)
  rw [hrun, List.takeWhile_append_of_pos hall, List.dropWhile_append_of_pos hall, hstop.1, hstop.2,
    List.append_nil]

theorem readDigits_toDigits (h : EndsDigits rest) (n : Nat) :
    readDigits (Nat.toDigits 10 n ++ rest) = .ok (Nat.toDigits 10 n, rest) :=
  readDigits_append Nat.toDigits_ne_nil (fun _ hc ↦ isDigit_of_mem_toDigits hc) h

theorem readWhole_toDigits (h : EndsDigits rest) (n : Nat) :
    readWhole (Nat.toDigits 10 n ++ rest) = .ok (Nat.toDigits 10 n, rest) := by
  have hhead :
      ((Nat.toDigits 10 n).head? = some '0' && (Nat.toDigits 10 n).length ≠ 1) = false := by
    by_cases hn : n = 0
    · rw [hn]
      rfl
    · rw [decide_eq_false (head?_toDigits_ne_zero hn)]
      rfl
  simp only [readWhole, readDigits_toDigits h, hhead]
  rfl

theorem readFraction_eq_nil (h : EndsNumber rest) : readFraction rest = .ok ([], rest) := by
  unfold readFraction
  split
  · next rest => exact absurd rfl (h '.' rfl).2.1
  · rfl

theorem readExponent_eq_none (h : EndsNumber rest) :
    readExponent rest = .ok (none, rest) := by
  cases rest with
  | nil => rfl
  | cons c rest =>
    obtain ⟨-, -, hlower, hupper⟩ := h c rfl
    exact if_neg fun hmark ↦ hmark.elim hlower hupper

/-- The parts of a natural number, after its sign. -/
theorem splitNumber_toDigits (h : EndsNumber rest) (negative : Bool) (n : Nat) :
    splitNumber negative (Nat.toDigits 10 n ++ rest) =
      .ok (⟨negative, Nat.toDigits 10 n, [], 0, true⟩, rest) := by
  simp only [splitNumber, readWhole_toDigits h.endsDigits, readFraction_eq_nil h,
    readExponent_eq_none h]
  rfl

theorem readNumber_minus {s : List Char} {t : NumberText} {n : Numeral}
    (hs : splitNumber true s = .ok (t, rest)) (ht : t.value = .ok n) :
    readNumber ('-' :: s) = .ok (n, rest) := by
  simp only [readNumber, hs, ht]

theorem readNumber_of_ne_minus {c : Char} {s : List Char} {t : NumberText} {n : Numeral}
    (hc : c ≠ '-') (hs : splitNumber false (c :: s) = .ok (t, rest)) (ht : t.value = .ok n) :
    readNumber (c :: s) = .ok (n, rest) := by
  unfold readNumber
  split
  · next heq => exact absurd (List.cons.inj heq).1 hc
  · simp only [hs, ht]

/-- A written integer of at most 64 bits is read back. -/
theorem readNumber_integerText (h : EndsNumber rest) {i : Int} (hmin : minInt64 ≤ i)
    (hmax : i ≤ (Number.maxWord : Int)) :
    readNumber (integerText i ++ rest) = .ok (.integer i, rest) := by
  unfold integerText
  split
  · next hneg =>
    have hbound : i.natAbs ≠ 0 ∧ i.natAbs ≤ 0x8000000000000000 := by
      simp only [minInt64] at hmin
      omega
    have hint : NumberText.integer? ⟨true, Nat.toDigits 10 i.natAbs, [], 0, true⟩ = some i := by
      simp only [NumberText.integer?, digitsValue_toDigits]
      rw [if_neg (by decide), if_neg (by decide), if_pos hbound]
      congr 1
      omega
    rw [List.cons_append]
    exact readNumber_minus (splitNumber_toDigits h true i.natAbs) (by rw [NumberText.value, hint])
  · next hpos =>
    obtain ⟨d, ds, hds⟩ :=
      List.exists_cons_of_ne_nil (Nat.toDigits_ne_nil (b := 10) (n := i.natAbs))
    have hd : d ≠ '-' := by
      rintro rfl
      exact absurd (isDigit_of_mem_toDigits (hds ▸ List.mem_cons_self)) (by decide)
    have hint : NumberText.integer? ⟨false, Nat.toDigits 10 i.natAbs, [], 0, true⟩ = some i := by
      simp only [NumberText.integer?, digitsValue_toDigits]
      rw [if_neg (by decide), if_pos (by decide), if_pos (by omega)]
      congr 1
      omega
    have hsplit := splitNumber_toDigits h false i.natAbs
    rw [hds, List.cons_append] at hsplit ⊢
    exact readNumber_of_ne_minus hd hsplit (by rw [← hds, NumberText.value, hint])

end BrowserTrace.Json
