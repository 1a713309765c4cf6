import BrowserTrace.Text.Utf8

/-!
# Reading what is UTF-8

`Text.decodeLossy` reads any bytes.  On the bytes of a text it loses nothing: the state machine
walks through the bytes of each character and ends up between characters
(`Utf8.chars_utf8EncodeChar_append`), so the text comes back as it was (`decodeLossy_toByteArray`).
It does not come back when enough of its end is missing (`decodeLossy_extract_ne`): a cut in the
middle of a character gives a replacement, which may happen to be the character, but no other one.
-/

namespace BrowserTrace.Text

namespace Utf8

/-! ## The first byte of a character of several bytes -/

theorem begin_ofNat {n : Nat} (h : n < 256) :
    begin (UInt8.ofNat n) =
      if n < 0x80 then ([Char.ofNat n], .start)
      else if n < 0xC2 then ([replacement], .start)
      else if n < 0xE0 then ([], .inside (n - 0xC0) .one)
      else if n = 0xE0 then ([], .inside 0x0 .afterE0)
      else if n = 0xED then ([], .inside 0xD .afterED)
      else if n < 0xF0 then ([], .inside (n - 0xE0) .two)
      else if n = 0xF0 then ([], .inside 0x0 .afterF0)
      else if n < 0xF4 then ([], .inside (n - 0xF0) .three)
      else if n = 0xF4 then ([], .inside 0x4 .afterF4)
      else ([replacement], .start) := by
  have hn : (UInt8.ofNat n).toNat = n := UInt8.toNat_ofNat_of_lt' h
  simp only [begin, UInt8.lt_iff_toNat_lt, ← UInt8.toNat_inj, hn]
  rfl

/-- A character of several bytes begins with its leading bits. -/
theorem chars_begin {n : Nat} {state : State} (rest : List UInt8)
    (hb : begin (UInt8.ofNat n) = ([], state)) :
    chars .start (UInt8.ofNat n :: rest) = chars state rest := by
  rw [chars_cons, step, hb]
  rfl

/-! ## The other bytes -/

/-- A byte in the range that is owed adds its six bits. -/
theorem chars_inside {point n : Nat} (owed : Owed) (rest : List UInt8)
    (hlow : owed.low.toNat ≤ n % 64 + 0x80) (hhigh : n % 64 + 0x80 ≤ owed.high.toNat) :
    chars (.inside point owed) (UInt8.ofNat (n % 64 + 0x80) :: rest) =
      match owed.next with
      | none => Char.ofNat (point * 64 + n % 64) :: chars .start rest
      | some owed => chars (.inside (point * 64 + n % 64) owed) rest := by
  have hb : (UInt8.ofNat (n % 64 + 0x80)).toNat = n % 64 + 0x80 :=
    UInt8.toNat_ofNat_of_lt' (by simp only [UInt8.size]; omega)
  rw [chars_cons]
  simp only [step, UInt8.le_iff_toNat_le, hb, Nat.add_sub_cancel]
  rw [if_pos ⟨hlow, hhigh⟩]
  cases owed <;> rfl

/-- A byte of the whole range, of which one is owed. -/
theorem chars_one (point n : Nat) (rest : List UInt8) :
    chars (.inside point .one) (UInt8.ofNat (n % 64 + 0x80) :: rest) =
      Char.ofNat (point * 64 + n % 64) :: chars .start rest :=
  chars_inside .one rest (by simp [Owed.low]) (by simp [Owed.high]; omega)

/-- A byte of the whole range, of which two are owed. -/
theorem chars_two (point n : Nat) (rest : List UInt8) :
    chars (.inside point .two) (UInt8.ofNat (n % 64 + 0x80) :: rest) =
      chars (.inside (point * 64 + n % 64) .one) rest :=
  chars_inside .two rest (by simp [Owed.low]) (by simp [Owed.high]; omega)

/-! ## Leading bytes with the byte after them

After the least and the greatest leading byte of a length, and after the one that leads to
surrogates, the second byte has a smaller range. -/

/-- The first two bytes of a character of three. -/
theorem chars_three {n m : Nat} (rest : List UInt8) (hn : 0xE0 ≤ n ∧ n < 0xF0)
    (hleast : n = 0xE0 → 0x20 ≤ m % 64) (hsurrogate : n = 0xED → m % 64 < 0x20) :
    chars .start (UInt8.ofNat n :: UInt8.ofNat (m % 64 + 0x80) :: rest) =
      chars (.inside ((n - 0xE0) * 64 + m % 64) .one) rest := by
  have hbegin := begin_ofNat (n := n) (by omega)
  rw [if_neg (by omega), if_neg (by omega), if_neg (by omega)] at hbegin
  by_cases h₀ : n = 0xE0
  · rw [if_pos h₀] at hbegin
    rw [chars_begin _ hbegin, chars_inside .afterE0 rest, h₀]
    · rfl
    · have := hleast h₀
      simp [Owed.low]
      omega
    · simp [Owed.high]
      omega
  rw [if_neg h₀] at hbegin
  by_cases h₁ : n = 0xED
  · rw [if_pos h₁] at hbegin
    rw [chars_begin _ hbegin, chars_inside .afterED rest, h₁]
    · rfl
    · simp [Owed.low]
    · have := hsurrogate h₁
      simp [Owed.high]
      omega
  rw [if_neg h₁, if_pos (by omega)] at hbegin
  rw [chars_begin _ hbegin, chars_two]

/-- The first two bytes of a character of four. -/
theorem chars_four {n m : Nat} (rest : List UInt8) (hn : 0xF0 ≤ n ∧ n ≤ 0xF4)
    (hleast : n = 0xF0 → 0x10 ≤ m % 64) (hgreatest : n = 0xF4 → m % 64 < 0x10) :
    chars .start (UInt8.ofNat n :: UInt8.ofNat (m % 64 + 0x80) :: rest) =
      chars (.inside ((n - 0xF0) * 64 + m % 64) .two) rest := by
  have hbegin := begin_ofNat (n := n) (by omega)
  rw [if_neg (by omega), if_neg (by omega), if_neg (by omega), if_neg (by omega),
    if_neg (by omega), if_neg (by omega)] at hbegin
  by_cases h₀ : n = 0xF0
  · rw [if_pos h₀] at hbegin
    rw [chars_begin _ hbegin, chars_inside .afterF0 rest, h₀]
    · rfl
    · have := hleast h₀
      simp [Owed.low]
      omega
    · simp [Owed.high]
      omega
  rw [if_neg h₀] at hbegin
  by_cases h₁ : n < 0xF4
  · rw [if_pos h₁] at hbegin
    rw [chars_begin _ hbegin, chars_inside .three rest]
    · rfl
    · simp [Owed.low]
    · simp [Owed.high]
      omega
  have h₂ : n = 0xF4 := by omega
  rw [if_neg h₁, if_pos h₂] at hbegin
  rw [chars_begin _ hbegin, chars_inside .afterF4 rest, h₂]
  · rfl
  · simp [Owed.low]
  · have := hgreatest h₂
    simp [Owed.high]
    omega

/-! ## Whole characters -/

/-- The bytes of a character are read as that character. -/
theorem chars_utf8EncodeChar_append (c : Char) (rest : List UInt8) :
    chars .start (String.utf8EncodeChar c ++ rest) = c :: chars .start rest := by
  have hv : c.toNat < 0xD800 ∨ 0xDFFF < c.toNat ∧ c.toNat < 0x110000 := c.valid
  have hc : Char.ofNat c.toNat = c := c.ofNat_toNat
  unfold String.utf8EncodeChar
  simp only [show c.val.toNat = c.toNat from rfl]
  generalize c.toNat = v at hv hc
  split
  · next h₁ =>
    rw [List.singleton_append, chars_cons, step, begin_ofNat (by omega), if_pos (by omega), hc]
    rfl
  next h₁ =>
  split
  · next h₂ =>
    have hbegin := begin_ofNat (n := v / 64 % 32 + 0xC0) (by omega)
    rw [if_neg (by omega), if_neg (by omega), if_pos (by omega)] at hbegin
    have hpoint : (v / 64 % 32 + 0xC0 - 0xC0) * 64 + v % 64 = v := by omega
    rw [List.cons_append, chars_begin _ hbegin, List.singleton_append, chars_one, hpoint, hc]
  next h₂ =>
  split
  · next h₃ =>
    have hpoint : ((v / 4096 % 16 + 0xE0 - 0xE0) * 64 + v / 64 % 64) * 64 + v % 64 = v := by omega
    rw [List.cons_append, List.cons_append, List.singleton_append,
      chars_three _ (by omega) (by omega) (by omega), chars_one, hpoint, hc]
  · next h₃ =>
    have hpoint : (((v / 262144 % 8 + 0xF0 - 0xF0) * 64 + v / 4096 % 64) * 64 + v / 64 % 64) * 64 +
        v % 64 = v := by omega
    rw [List.cons_append, List.cons_append, List.cons_append, List.singleton_append,
      chars_four _ (by omega) (by omega) (by omega), chars_two, chars_one, hpoint, hc]

/-! ## Texts that are cut -/

/-- A byte gives at most one character more than it ends. -/
theorem length_step_le (state : State) (b : UInt8) :
    (step state b).1.length + (finish (step state b).2).length ≤ (finish state).length + 1 := by
  have hbegin : (begin b).1.length + (finish (begin b).2).length = 1 := by
    unfold begin
    repeat' split
    all_goals rfl
  cases state with
  | start => exact Nat.le_of_eq hbegin
  | inside point owed =>
    rw [step]
    split
    · split <;> exact Nat.le_succ 1
    · change (begin b).1.length + 1 + (finish (begin b).2).length ≤ 1 + 1
      omega

/-- Bytes give no more characters than there are of them, and one for what was begun before. -/
theorem length_chars_le (state : State) (bytes : List UInt8) :
    (chars state bytes).length ≤ (finish state).length + bytes.length := by
  induction bytes generalizing state with
  | nil => exact Nat.le_refl _
  | cons b rest ih =>
    have hstep := length_step_le state b
    have hrest := ih (step state b).2
    rw [chars_cons, List.length_append, List.length_cons]
    omega

theorem length_utf8EncodeChar_le (c : Char) : (String.utf8EncodeChar c).length ≤ 4 := by
  rw [String.length_utf8EncodeChar]
  exact c.utf8Size_le_four

theorem length_flatMap_utf8EncodeChar_le (cs : List Char) :
    (cs.flatMap String.utf8EncodeChar).length ≤ 4 * cs.length := by
  induction cs with
  | nil => exact Nat.le_refl 0
  | cons c cs ih =>
    have hc := length_utf8EncodeChar_le c
    rw [List.flatMap_cons, List.length_append, List.length_cons]
    omega

/-- A text that is cut by so much that some characters are lost is not made up for by the replacement
of the one that the cut goes through. -/
theorem length_chars_lt_of_append {cs : List Char} {front rest : List UInt8}
    (h : cs.flatMap String.utf8EncodeChar = front ++ rest) (hrest : 16 ≤ rest.length) :
    (chars .start front).length < cs.length := by
  induction cs generalizing front with
  | nil =>
    rw [List.flatMap_nil, List.nil_eq, List.append_eq_nil_iff] at h
    simp [h.2] at hrest
  | cons c cs ih =>
    rw [List.flatMap_cons, List.append_eq_append_iff] at h
    rcases h with ⟨front', rfl, hcs⟩ | ⟨part, hc, rfl⟩
    · rw [chars_utf8EncodeChar_append]
      exact Nat.succ_lt_succ (ih hcs)
    · have hfront : (chars .start front).length ≤ 0 + front.length := length_chars_le .start front
      have hlen := length_utf8EncodeChar_le c
      have hflat := length_flatMap_utf8EncodeChar_le cs
      rw [hc, List.length_append] at hlen
      rw [List.length_append] at hrest
      rw [List.length_cons]
      omega

end Utf8

theorem toList_data_toByteArray (s : String) :
    s.toByteArray.data.toList = s.toList.flatMap String.utf8EncodeChar := by
  rw [← String.utf8Encode_toList, List.utf8Encode, List.data_toByteArray]

/-- The bytes of a text are read as that text. -/
theorem decodeLossy_toByteArray (s : String) : decodeLossy s.toByteArray = s := by
  rw [← String.toList_inj, toList_decodeLossy, toList_data_toByteArray]
  induction s.toList with
  | nil => rfl
  | cons c cs ih => rw [List.flatMap_cons, Utf8.chars_utf8EncodeChar_append, ih]

/-- The beginning of a text's bytes, cut off well before their end, is not read as that text. -/
theorem decodeLossy_extract_ne {s : String} {k : Nat} (h : k + 16 ≤ s.toByteArray.size) :
    decodeLossy (s.toByteArray.extract 0 k) ≠ s := by
  intro heq
  have hbytes : s.toList.flatMap String.utf8EncodeChar =
      (s.toByteArray.extract 0 k).data.toList ++ s.toByteArray.data.toList.drop k := by
    rw [← toList_data_toByteArray, ByteArray.data_extract, Array.toList_extract,
      List.extract_eq_take_drop, List.drop_zero, Nat.sub_zero, List.take_append_drop]
  have hrest : 16 ≤ (s.toByteArray.data.toList.drop k).length := by
    rw [List.length_drop, Array.length_toList, ByteArray.size_data]
    omega
  have hlt := Utf8.length_chars_lt_of_append hbytes hrest
  rw [← toList_decodeLossy, heq] at hlt
  exact Nat.lt_irrefl _ hlt

/-- What is UTF-8 is decoded as it is, so one decoder serves both cases. -/
theorem ofContents_eq (x : ByteArray) : ofContents x = decodeLossy x := by
  unfold ofContents
  split
  · next text h =>
    unfold String.fromUTF8? at h
    split at h
    · next hvalid =>
      rw [← Option.some.inj h]
      exact (decodeLossy_toByteArray (String.fromUTF8 x hvalid)).symm
    · contradiction
  · rfl

end BrowserTrace.Text
