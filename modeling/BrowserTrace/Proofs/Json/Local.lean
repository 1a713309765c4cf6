import BrowserTrace.Proofs.Json.LaidOut
import BrowserTrace.Json.Skip

/-!
# Pieces depend on their own text only

Whatever reads or skips a piece of JSON text takes a front off the text, and does the same with any
other text that has this front, as long as what follows starts alike (`SameStart`): a number ends
where its digits end, and a reader may look for the first character behind some blanks, but none
looks further.  Strings and words, which end with a character of their own, do not even depend on
that.
-/

namespace BrowserTrace.Json

/-! ## What a piece may see of the text behind it -/

/-- Two texts have the same first character, and the same one behind the blanks at their front. -/
structure SameStart (r r' : List Char) : Prop where
  head : r'.head? = r.head?
  head_skipSpace : (skipSpace r').head? = (skipSpace r).head?

theorem head?_append_congr {r r' : List Char} (h : r'.head? = r.head?) (front : List Char) :
    (front ++ r').head? = (front ++ r).head? := by
  rw [List.head?_append, List.head?_append, h]

theorem SameStart.append {r r' : List Char} (h : SameStart r r') (front : List Char) :
    SameStart (front ++ r) (front ++ r') := by
  refine ⟨head?_append_congr h.head front, ?_⟩
  simp only [skipSpace, List.dropWhile_append]
  split
  · exact h.head_skipSpace
  · exact head?_append_congr h.head _

/-- Texts with the same front do not differ where it has ended, if it ends with no blank. -/
theorem sameStart_of_close {c : Char} (hc : isSpace c = false) (front r r' : List Char) :
    SameStart (front ++ c :: r) (front ++ c :: r') := by
  have hclose : SameStart (c :: r) (c :: r') :=
    ⟨rfl, by rw [skipSpace_cons hc, skipSpace_cons hc, List.head?_cons, List.head?_cons]⟩
  exact hclose.append front

/-- Blanks are taken off the front. -/
theorem exists_blank (s : List Char) : ∃ b, Blank b ∧ s = b ++ skipSpace s :=
  ⟨s.takeWhile isSpace, fun _ hc ↦ (List.all_eq_true.mp List.all_takeWhile) _ hc,
    List.takeWhile_append_dropWhile.symm⟩

theorem not_space_of_skipSpace {c : Char} {s r : List Char} (h : skipSpace s = c :: r) :
    isSpace c = false := by
  have hhead := List.head?_dropWhile_not isSpace s
  rw [show s.dropWhile isSpace = c :: r from h] at hhead
  simpa using hhead

/-! ## Words and strings -/

theorem readLetters_eq_ok {letters s r : List Char} :
    readLetters letters s = .ok r ↔ s = letters ++ r := by
  induction letters generalizing s with
  | nil => simp [readLetters]
  | cons l letters ih =>
    cases s with
    | nil => simp [readLetters]
    | cons c s =>
      rw [readLetters]
      split
      · next hc => rw [ih, hc, List.cons_append, List.cons.injEq, eq_self, true_and]
      · next hc => simp [hc]

theorem readHex_front {s r : List Char} {n : Nat} (h : readHex s = .ok (n, r)) :
    ∃ front, s = front ++ r ∧ ∀ r', readHex (front ++ r') = .ok (n, r') := by
  unfold readHex at h
  split at h
  · next a b c d rest =>
    split at h
    · next ha hb hc hd =>
      obtain ⟨rfl, rfl⟩ := Prod.mk.inj (Except.ok.inj h)
      exact ⟨[a, b, c, d], rfl, fun r' ↦ by simp only [List.cons_append, readHex, ha, hb, hc, hd]; rfl⟩
    · contradiction
  · split at h <;> contradiction

theorem readUnicode_front {s r : List Char} {c : Char} (h : readUnicode s = .ok (c, r)) :
    ∃ front, s = front ++ r ∧ ∀ r', readUnicode (front ++ r') = .ok (c, r') := by
  unfold readUnicode at h
  split at h
  · contradiction
  · next n rest hn =>
    obtain ⟨front, rfl, hfront⟩ := readHex_front hn
    split at h
    · contradiction
    next hlow =>
    split at h
    · next hhigh =>
      obtain ⟨rfl, rfl⟩ := Prod.mk.inj (Except.ok.inj h)
      exact ⟨front, rfl, fun r' ↦ by
        simp only [readUnicode, hfront, if_neg hlow, if_pos hhigh]⟩
    next hhigh =>
    split at h
    · contradiction
    · contradiction
    · next rest _ =>
      split at h
      · contradiction
      · next m rest' hm =>
        obtain ⟨second, rfl, hsecond⟩ := readHex_front hm
        split at h
        · next hpair =>
          obtain ⟨rfl, rfl⟩ := Prod.mk.inj (Except.ok.inj h)
          refine ⟨front ++ '\\' :: 'u' :: second, by simp, fun r' ↦ ?_⟩
          simp only [readUnicode, List.append_assoc, List.cons_append, hfront, if_neg hlow,
            if_neg hhigh, hsecond, if_pos hpair]
        · contradiction
    · contradiction

theorem readEscape_front {s r : List Char} {c : Char} (h : readEscape s = .ok (c, r)) :
    ∃ front, s = front ++ r ∧ ∀ r', readEscape (front ++ r') = .ok (c, r') := by
  unfold readEscape at h
  split at h
  case h_10 rest =>
    obtain ⟨front, rfl, hfront⟩ := readUnicode_front h
    exact ⟨'u' :: front, rfl, hfront⟩
  all_goals first
    | contradiction
    | (obtain ⟨rfl, rfl⟩ := Prod.mk.inj (Except.ok.inj h)
       exact ⟨[_], rfl, fun r' ↦ rfl⟩)

theorem readString_front {s acc r : List Char} {t : String} (h : readString s acc = .ok (t, r)) :
    ∃ front, s = front ++ '"' :: r ∧ ∀ r', readString (front ++ '"' :: r') acc = .ok (t, r') := by
  fun_induction readString s acc with
  | case1 => contradiction
  | case2 acc rest =>
    obtain ⟨rfl, rfl⟩ := Prod.mk.inj (Except.ok.inj h)
    exact ⟨[], rfl, fun r' ↦ readString_quote r' acc⟩
  | case3 => contradiction
  | case4 acc rest c rest' hescape _ ih =>
    obtain ⟨front, rfl, hfront⟩ := ih h
    obtain ⟨escape, rfl, hread⟩ := readEscape_front hescape
    refine ⟨'\\' :: (escape ++ front), by simp, fun r' ↦ ?_⟩
    rw [List.cons_append, List.append_assoc, readString_backslash (hread _), hfront]
  | case5 => contradiction
  | case6 acc c rest hquote hbackslash hcontrol ih =>
    obtain ⟨front, rfl, hfront⟩ := ih h
    refine ⟨c :: front, rfl, fun r' ↦ ?_⟩
    rw [List.cons_append, readString_plain hquote hbackslash hcontrol, hfront]

theorem skipString_quote (s : List Char) : skipString ('"' :: s) = .ok s := by
  rw [skipString.eq_def]
  exact if_pos rfl

theorem skipString_unicode {s r : List Char} {n : Nat} (h : readHex s = .ok (n, r)) :
    skipString ('\\' :: 'u' :: s) = skipString r := by
  rw [skipString.eq_def]
  dsimp only
  rw [if_neg (by decide), if_pos rfl]
  split
  · contradiction
  · next heq =>
    obtain ⟨-, rfl⟩ := List.cons.inj heq
    split
    · next he =>
      rw [h] at he
      contradiction
    · next he =>
      rw [h] at he
      obtain ⟨-, rfl⟩ := Prod.mk.inj (Except.ok.inj he)
      rfl
  · next hu heq => exact absurd (List.cons.inj heq).1.symm hu

theorem skipString_escape {e : Char} (hu : e ≠ 'u')
    (he : ['"', '\\', '/', 'b', 'f', 'n', 'r', 't'].contains e) (s : List Char) :
    skipString ('\\' :: e :: s) = skipString s := by
  rw [skipString.eq_def]
  dsimp only
  rw [if_neg (by decide), if_pos rfl]
  split
  · contradiction
  · next heq => exact absurd (List.cons.inj heq).1 hu
  · next heq =>
    obtain ⟨rfl, rfl⟩ := List.cons.inj heq
    rw [if_pos he]

theorem skipString_plain {c : Char} (hquote : c ≠ '"') (hbackslash : c ≠ '\\')
    (hcontrol : ¬ c.toNat < 32) (s : List Char) : skipString (c :: s) = skipString s := by
  rw [skipString.eq_def]
  dsimp only
  rw [if_neg hquote, if_neg hbackslash, if_neg hcontrol]

theorem skipString_front {s r : List Char} (h : skipString s = .ok r) :
    ∃ front, s = front ++ '"' :: r ∧ ∀ r', skipString (front ++ '"' :: r') = .ok r' := by
  fun_induction skipString s with
  | case1 => contradiction
  | case2 rest =>
    obtain rfl := Except.ok.inj h
    exact ⟨[], rfl, skipString_quote⟩
  | case3 => contradiction
  | case4 => contradiction
  | case5 rest n rest' hhex _ ih =>
    obtain ⟨front, rfl, hfront⟩ := ih h
    obtain ⟨digits, rfl, hread⟩ := readHex_front hhex
    refine ⟨'\\' :: 'u' :: (digits ++ front), by simp, fun r' ↦ ?_⟩
    rw [List.cons_append, List.cons_append, List.append_assoc, skipString_unicode (hread _), hfront]
  | case6 e rest hu he _ ih =>
    obtain ⟨front, rfl, hfront⟩ := ih h
    refine ⟨'\\' :: e :: front, rfl, fun r' ↦ ?_⟩
    rw [List.cons_append, List.cons_append, skipString_escape hu he, hfront]
  | case7 => contradiction
  | case8 => contradiction
  | case9 c rest hquote hbackslash hcontrol ih =>
    obtain ⟨front, rfl, hfront⟩ := ih h
    refine ⟨c :: front, rfl, fun r' ↦ ?_⟩
    rw [List.cons_append, skipString_plain hquote hbackslash hcontrol, hfront]

/-! ## Numbers -/

theorem endsDigits_dropWhile (s : List Char) : EndsDigits (s.dropWhile Char.isDigit) := by
  intro c hc
  have hhead := List.head?_dropWhile_not Char.isDigit s
  rw [hc] at hhead
  exact hhead

theorem EndsDigits.congr {r r' : List Char} (h : EndsDigits r) (hhead : r'.head? = r.head?) :
    EndsDigits r' := by
  intro c hc
  exact h c (hhead ▸ hc)

/-- Digits, and no more of them behind. -/
theorem readDigits_front {s ds r : List Char} (h : readDigits s = .ok (ds, r)) :
    s = ds ++ r ∧ ∀ r', SameStart r r' → readDigits (ds ++ r') = .ok (ds, r') := by
  unfold readDigits at h
  split at h
  · contradiction
  · next c cs =>
    split at h
    · next hc =>
      obtain ⟨rfl, rfl⟩ := Prod.mk.inj (Except.ok.inj h)
      refine ⟨List.takeWhile_append_dropWhile.symm, fun r' hstart ↦ ?_⟩
      refine readDigits_append ?_ (fun d hd ↦ List.all_eq_true.mp List.all_takeWhile d hd)
        ((endsDigits_dropWhile _).congr hstart.head)
      rw [List.takeWhile_cons_of_pos hc]
      exact List.cons_ne_nil _ _
    · contradiction

theorem readWhole_front {s ds r : List Char} (h : readWhole s = .ok (ds, r)) :
    s = ds ++ r ∧ ∀ r', SameStart r r' → readWhole (ds ++ r') = .ok (ds, r') := by
  unfold readWhole at h
  split at h
  · contradiction
  · next hdigits =>
    split at h
    · contradiction
    · next hzero =>
      obtain ⟨rfl, rfl⟩ := Prod.mk.inj (Except.ok.inj h)
      obtain ⟨rfl, hread⟩ := readDigits_front hdigits
      exact ⟨rfl, fun r' hstart ↦ by simp only [readWhole, hread r' hstart, if_neg hzero]⟩

theorem readFraction_front {s ds r : List Char} (h : readFraction s = .ok (ds, r)) :
    ∃ front, s = front ++ r ∧ ∀ r', SameStart r r' → readFraction (front ++ r') = .ok (ds, r') := by
  unfold readFraction at h
  split at h
  · obtain ⟨rfl, hread⟩ := readDigits_front h
    exact ⟨'.' :: ds, rfl, hread⟩
  · next hpoint =>
    obtain ⟨rfl, rfl⟩ := Prod.mk.inj (Except.ok.inj h)
    refine ⟨[], rfl, fun r' hstart ↦ ?_⟩
    unfold readFraction
    split
    · next rest heq =>
      have hhead := hstart.head
      rw [show r' = '.' :: rest from heq] at hhead
      obtain ⟨t, ht⟩ := List.head?_eq_some_iff.mp hhead.symm
      exact absurd ht (hpoint t)
    · rfl

theorem ne_cons_of_head? {r r' : List Char} (h : r'.head? = r.head?) {c : Char}
    (hr : ∀ t, r ≠ c :: t) (t : List Char) : r' ≠ c :: t := by
  rintro rfl
  obtain ⟨t', ht'⟩ := List.head?_eq_some_iff.mp h.symm
  exact hr t' ht'

theorem readSign_front (s : List Char) :
    ∃ front, s = front ++ (readSign s).2 ∧ ∀ r', SameStart (readSign s).2 r' →
      readSign (front ++ r') = ((readSign s).1, r') := by
  unfold readSign
  split
  · exact ⟨['+'], rfl, fun _ _ ↦ rfl⟩
  · exact ⟨['-'], rfl, fun _ _ ↦ rfl⟩
  · next hplus hminus =>
    refine ⟨[], rfl, fun r' hstart ↦ ?_⟩
    rw [List.nil_append]
    split
    · next t => exact absurd rfl (ne_cons_of_head? hstart.head hplus t)
    · next t => exact absurd rfl (ne_cons_of_head? hstart.head hminus t)
    · rfl

theorem readExponent_front {s r : List Char} {e : Option Int} (h : readExponent s = .ok (e, r)) :
    ∃ front, s = front ++ r ∧ ∀ r', SameStart r r' → readExponent (front ++ r') = .ok (e, r') := by
  unfold readExponent at h
  split at h
  · obtain ⟨rfl, rfl⟩ := Prod.mk.inj (Except.ok.inj h)
    refine ⟨[], rfl, fun r' hstart ↦ ?_⟩
    rw [List.head?_eq_none_iff.mp hstart.head]
    rfl
  · next c rest =>
    split at h
    · next hmark =>
      split at h
      · contradiction
      · next ds r hdigits =>
        obtain ⟨rfl, rfl⟩ := Prod.mk.inj (Except.ok.inj h)
        obtain ⟨sign, hsign, hreadSign⟩ := readSign_front rest
        obtain ⟨hds, hread⟩ := readDigits_front hdigits
        refine ⟨c :: (sign ++ ds), ?_, fun r' hstart ↦ ?_⟩
        · rw [List.cons_append, List.append_assoc, ← hds, ← hsign]
        · have hrest := hreadSign (ds ++ r') (hds ▸ hstart.append ds)
          simp only [List.cons_append, List.append_assoc, readExponent, if_pos hmark, hrest,
            hread r' hstart]
    · next hmark =>
      obtain ⟨rfl, rfl⟩ := Prod.mk.inj (Except.ok.inj h)
      refine ⟨[], rfl, fun r' hstart ↦ ?_⟩
      obtain ⟨t, rfl⟩ := List.head?_eq_some_iff.mp hstart.head
      exact if_neg hmark

theorem splitNumber_front {negative : Bool} {s r : List Char} {t : NumberText}
    (h : splitNumber negative s = .ok (t, r)) :
    ∃ front, s = front ++ r ∧
      ∀ r', SameStart r r' → splitNumber negative (front ++ r') = .ok (t, r') := by
  unfold splitNumber at h
  split at h
  · contradiction
  next whole r₁ hwhole =>
  split at h
  · contradiction
  next fraction r₂ hfraction =>
  split at h
  · contradiction
  next exponent r₃ hexponent =>
  obtain ⟨rfl, rfl⟩ := Prod.mk.inj (Except.ok.inj h)
  obtain ⟨rfl, hwhole'⟩ := readWhole_front hwhole
  obtain ⟨front₂, rfl, hfraction'⟩ := readFraction_front hfraction
  obtain ⟨front₃, rfl, hexponent'⟩ := readExponent_front hexponent
  refine ⟨whole ++ (front₂ ++ front₃), by simp, fun r' hstart ↦ ?_⟩
  have hstart₂ := hstart.append front₃
  simp only [List.append_assoc, splitNumber, hwhole' _ (hstart₂.append front₂),
    hfraction' _ hstart₂, hexponent' _ hstart]

theorem skipNumber_front {s r : List Char} (h : skipNumber s = .ok r) :
    ∃ front, s = front ++ r ∧ ∀ r', SameStart r r' → skipNumber (front ++ r') = .ok r' := by
  unfold skipNumber at h
  dsimp only at h
  split at h
  · contradiction
  next t r hsplit =>
  obtain rfl := Except.ok.inj h
  split at hsplit
  · obtain ⟨front, rfl, hread⟩ := splitNumber_front hsplit
    exact ⟨'-' :: front, rfl, fun r' hstart ↦ by
      simp only [List.cons_append, skipNumber, hread r' hstart]⟩
  · next hminus =>
    obtain ⟨front, rfl, hread⟩ := splitNumber_front hsplit
    refine ⟨front, rfl, fun r' hstart ↦ ?_⟩
    unfold skipNumber
    split
    · next rest heq => exact absurd heq (ne_cons_of_head? (hstart.append front).head hminus rest)
    · simp only [hread r' hstart]

/-! ## Values that are skipped -/

theorem skipScalar_of_number {c : Char} (hc : BeginsNumber c) (s : List Char) :
    skipScalar (c :: s) = skipNumber (c :: s) :=
  (hc.choice_eq s _ _ _ _ _ _).trans (if_pos hc)

theorem skipScalar_front {s r : List Char} (h : skipScalar s = .ok r) :
    ∃ front, s = front ++ r ∧ ∀ r', SameStart r r' → skipScalar (front ++ r') = .ok r' := by
  unfold skipScalar at h
  split at h
  · contradiction
  · obtain rfl := readLetters_eq_ok.mp h
    exact ⟨['n', 'u', 'l', 'l'], rfl, fun _ _ ↦ rfl⟩
  · obtain rfl := readLetters_eq_ok.mp h
    exact ⟨['t', 'r', 'u', 'e'], rfl, fun _ _ ↦ rfl⟩
  · obtain rfl := readLetters_eq_ok.mp h
    exact ⟨['f', 'a', 'l', 's', 'e'], rfl, fun _ _ ↦ rfl⟩
  · obtain ⟨front, rfl, hread⟩ := skipString_front h
    exact ⟨'"' :: (front ++ ['"']), by simp, fun r' _ ↦ by
      simp only [List.cons_append, List.append_assoc, List.nil_append, skipScalar, hread]⟩
  · next c rest hn ht hf hq =>
    split at h
    · next hnumber =>
      obtain ⟨front, hfront, hread⟩ := skipNumber_front h
      refine ⟨front, hfront, fun r' hstart ↦ ?_⟩
      obtain ⟨t, ht⟩ := List.head?_eq_some_iff.mp ((hstart.append front).head.trans
        (congrArg List.head? hfront.symm))
      rw [ht, skipScalar_of_number hnumber, ← ht, hread r' hstart]
    · contradiction

theorem skipKey_front {s r : List Char} (h : skipKey s = .ok r) :
    ∃ front, s = front ++ r ∧ ∀ r', skipKey (front ++ r') = .ok r' := by
  obtain ⟨b, hb, hs⟩ := exists_blank s
  unfold skipKey at h
  split at h
  · contradiction
  · next rest hquote =>
    split at h
    · contradiction
    next rest' hstring =>
    obtain ⟨front, rfl, hread⟩ := skipString_front hstring
    obtain ⟨b', hb', hs'⟩ := exists_blank rest'
    split at h
    · contradiction
    · next r hcolon =>
      obtain rfl := Except.ok.inj h
      refine ⟨b ++ '"' :: (front ++ '"' :: (b' ++ [':'])), ?_, fun r' ↦ ?_⟩
      · rw [hs, hquote, hs', hcolon]
        simp
      · simp only [List.append_assoc, List.cons_append, List.nil_append, skipKey,
          skipSpace_append hb, skipSpace_cons (c := '"') rfl, hread, skipSpace_append hb',
          skipSpace_cons (c := ':') rfl]
    · contradiction
  · contradiction

/-! ## Steps of skipping -/

/-- A step takes a front off the text, and sees no further than the first character behind some
blanks. -/
def StepsLocally (expect : Expect) (frames : List Frame) (s : List Char) : Prop :=
  ∀ ⦃expect' frames' r⦄, skipStep expect frames s = .ok (expect', frames', r) →
    ∃ front, s = front ++ r ∧
      ∀ r', SameStart r r' → skipStep expect frames (front ++ r') = .ok (expect', frames', r')

section Steps

variable {expect : Expect} {frames : List Frame} {s : List Char} {c : Char}

theorem skipStep_append {b : List Char} (hb : Blank b) (s : List Char) :
    skipStep expect frames (b ++ s) = skipStep expect frames s := by
  simp only [skipStep, skipSpace_append hb]

/-- The blanks before a piece do not matter. -/
theorem StepsLocally.of_skipSpace (h : StepsLocally expect frames (skipSpace s)) :
    StepsLocally expect frames s := by
  intro expect' frames' r hstep
  obtain ⟨b, hb, hs⟩ := exists_blank s
  rw [hs, skipStep_append hb] at hstep
  obtain ⟨front, hfront, hread⟩ := h hstep
  refine ⟨b ++ front, by rw [hs, hfront, List.append_assoc], fun r' hstart ↦ ?_⟩
  rw [List.append_assoc, skipStep_append hb]
  exact hread r' hstart

theorem stepsLocally_array (s : List Char) : StepsLocally .value frames ('[' :: s) := by
  intro expect' frames' r hstep
  obtain ⟨b, hb, hs⟩ := exists_blank s
  simp only [skipStep, skipSpace_cons (c := '[') rfl] at hstep
  split at hstep
  · next r hclose =>
    simp only [Except.ok.injEq, Prod.mk.injEq] at hstep
    obtain ⟨rfl, rfl, rfl⟩ := hstep
    refine ⟨'[' :: (b ++ [']']), by rw [hs, hclose]; simp, fun r' _ ↦ ?_⟩
    simp only [List.append_assoc, List.cons_append, List.nil_append, skipStep,
      skipSpace_cons (c := '[') rfl, skipSpace_append hb, skipSpace_cons (c := ']') rfl]
  · next hitem =>
    simp only [Except.ok.injEq, Prod.mk.injEq] at hstep
    obtain ⟨rfl, rfl, rfl⟩ := hstep
    refine ⟨['['], rfl, fun r' hstart ↦ ?_⟩
    simp only [List.cons_append, List.nil_append, skipStep, skipSpace_cons (c := '[') rfl]
    split
    · next t heq => exact absurd heq (ne_cons_of_head? hstart.head_skipSpace hitem t)
    · rfl

theorem stepsLocally_object (s : List Char) : StepsLocally .value frames ('{' :: s) := by
  intro expect' frames' r hstep
  obtain ⟨b, hb, hs⟩ := exists_blank s
  simp only [skipStep, skipSpace_cons (c := '{') rfl] at hstep
  split at hstep
  · next r hclose =>
    simp only [Except.ok.injEq, Prod.mk.injEq] at hstep
    obtain ⟨rfl, rfl, rfl⟩ := hstep
    refine ⟨'{' :: (b ++ ['}']), by rw [hs, hclose]; simp, fun r' _ ↦ ?_⟩
    simp only [List.append_assoc, List.cons_append, List.nil_append, skipStep,
      skipSpace_cons (c := '{') rfl, skipSpace_append hb, skipSpace_cons (c := '}') rfl]
  · next hmember =>
    split at hstep
    · contradiction
    next r hkey =>
    simp only [Except.ok.injEq, Prod.mk.injEq] at hstep
    obtain ⟨rfl, rfl, rfl⟩ := hstep
    obtain ⟨front, rfl, hread⟩ := skipKey_front hkey
    refine ⟨'{' :: front, rfl, fun r' hstart ↦ ?_⟩
    simp only [List.cons_append, skipStep, skipSpace_cons (c := '{') rfl]
    split
    · next t heq =>
      exact absurd heq (ne_cons_of_head? (hstart.append front).head_skipSpace hmember t)
    · rw [hread]

theorem stepsLocally_scalar (hspace : isSpace c = false) (harray : c ≠ '[') (hobject : c ≠ '{') :
    StepsLocally .value frames (c :: s) := by
  intro expect' frames' r h
  simp only [skipStep, skipSpace_cons hspace] at h
  split at h
  · contradiction
  next r hscalar =>
  simp only [Except.ok.injEq, Prod.mk.injEq] at h
  obtain ⟨rfl, rfl, rfl⟩ := h
  obtain ⟨front, hfront, hread⟩ := skipScalar_front hscalar
  refine ⟨front, hfront, fun r' hstart ↦ ?_⟩
  obtain ⟨t, ht⟩ := List.head?_eq_some_iff.mp ((hstart.append front).head.trans
    (congrArg List.head? hfront.symm))
  have hrun := hread r' hstart
  rw [ht] at hrun ⊢
  simp only [skipStep, skipSpace_cons hspace, hrun]

theorem stepsLocally_follow (hspace : isSpace c = false) : StepsLocally .follow frames (c :: s) := by
  intro expect' frames' r h
  have hskip (t : List Char) : skipSpace (c :: t) = c :: t := skipSpace_cons hspace t
  simp only [skipStep, hskip] at h
  split at h
  · simp only [Except.ok.injEq, Prod.mk.injEq] at h
    obtain ⟨rfl, rfl, rfl⟩ := h
    exact ⟨[','], rfl, fun r' _ ↦ by simp only [List.singleton_append, skipStep, hskip]⟩
  · simp only [Except.ok.injEq, Prod.mk.injEq] at h
    obtain ⟨rfl, rfl, rfl⟩ := h
    exact ⟨[']'], rfl, fun r' _ ↦ by simp only [List.singleton_append, skipStep, hskip]⟩
  · split at h
    · contradiction
    next r hkey =>
    simp only [Except.ok.injEq, Prod.mk.injEq] at h
    obtain ⟨rfl, rfl, rfl⟩ := h
    obtain ⟨front, rfl, hread⟩ := skipKey_front hkey
    exact ⟨',' :: front, rfl, fun r' _ ↦ by simp only [List.cons_append, skipStep, hskip, hread]⟩
  · simp only [Except.ok.injEq, Prod.mk.injEq] at h
    obtain ⟨rfl, rfl, rfl⟩ := h
    exact ⟨['}'], rfl, fun r' _ ↦ by simp only [List.singleton_append, skipStep, hskip]⟩
  · contradiction

theorem stepsLocally (expect : Expect) (frames : List Frame) (s : List Char) :
    StepsLocally expect frames s := by
  refine StepsLocally.of_skipSpace ?_
  cases hs : skipSpace s with
  | nil => exact nofun
  | cons c rest =>
    have hspace := not_space_of_skipSpace hs
    cases expect with
    | follow => exact stepsLocally_follow hspace
    | value =>
      by_cases harray : c = '['
      · exact harray ▸ stepsLocally_array rest
      by_cases hobject : c = '{'
      · exact hobject ▸ stepsLocally_object rest
      exact stepsLocally_scalar hspace harray hobject

end Steps

/-- A value that is skipped is skipped the same in front of any other text that starts alike. -/
theorem skipFrom_front {expect : Expect} {frames : List Frame} {s r : List Char}
    (h : skipFrom expect frames s = .ok r) :
    ∃ front, s = front ++ r ∧
      ∀ r', SameStart r r' → skipFrom expect frames (front ++ r') = .ok r' := by
  fun_induction skipFrom expect frames s with
  | case1 expect frames s hdone =>
    obtain rfl := Except.ok.inj h
    exact ⟨[], rfl, fun r' _ ↦ by rw [List.nil_append, skipFrom, if_pos hdone]⟩
  | case2 => contradiction
  | case3 expect frames s hmore expect' frames' rest hstep ih =>
    obtain ⟨front, rfl, hread⟩ := ih h
    obtain ⟨piece, rfl, hpiece⟩ := stepsLocally _ _ _ hstep
    refine ⟨piece ++ front, by simp, fun r' hstart ↦ ?_⟩
    rw [List.append_assoc, skipFrom, if_neg hmore]
    split
    · next he =>
      rw [hpiece _ (hstart.append front)] at he
      contradiction
    · next he =>
      rw [hpiece _ (hstart.append front)] at he
      simp only [Except.ok.injEq, Prod.mk.injEq] at he
      obtain ⟨rfl, rfl, rfl⟩ := he
      exact hread r' hstart

end BrowserTrace.Json
