import BrowserTrace.Proofs.Deflate.Format

/-!
# Reading the tokens of a block

Each reader takes exactly those bits off the front that a rule of the format describes, and leaves
the ones behind.  Of every rule this is said twice: what the rule describes is read, whatever
follows (`IsToken.append`, `AreTokens.append`), and what is read is described by the rule
(`readToken?_eq_token_iff`, `readTokens_eq_some_iff`).
-/

namespace BrowserTrace.Deflate

/-! ## Codes -/

/-- Reading a symbol takes its word in the code with these lengths off the front. -/
structure Reads (c : Code) (lengths : List Nat) : Prop where
  read?_iff {bits rest : Bits} {s : Nat} :
    c.read? bits = some (s, rest) ↔ ∃ w, IsCodeWord lengths s w ∧ bits = w ++ rest

/-- Both codes of a block are those with these lengths. -/
structure ReadsBoth (codes : Codes) (literals distances : List Nat) : Prop where
  literals : Reads codes.literals literals
  distances : Reads codes.distances distances

theorem Reads.append {c : Code} {lengths : List Nat} (hr : Reads c lengths) {s : Nat} {w : Bits}
    (hw : IsCodeWord lengths s w) (rest : Bits) : c.read? (w ++ rest) = some (s, rest) :=
  hr.read?_iff.mpr ⟨w, hw, rfl⟩

/-! ## Numbers with extra bits -/

theorem readScaled?_eq_some_iff {table : List (Nat × Nat)} {index n : Nat} {bits rest : Bits} :
    readScaled? table index bits = some (n, rest) ↔
      ∃ w, IsScaled table index n w ∧ bits = w ++ rest := by
  simp only [readScaled?, Option.bind_eq_bind, Option.bind_eq_some_iff, Prod.exists,
    readBits?_eq_some_iff, Option.some.injEq, Prod.mk.injEq]
  constructor
  · rintro ⟨least, extra, hentry, m, mid, ⟨hm, rfl⟩, rfl, rfl⟩
    exact ⟨_, ⟨least, extra, m, hentry, hm, rfl, rfl⟩, rfl⟩
  · rintro ⟨_, ⟨least, extra, m, hentry, hm, rfl, rfl⟩, rfl⟩
    exact ⟨least, extra, hentry, m, rest, ⟨hm, rfl⟩, rfl, rfl⟩

theorem IsScaled.append {table : List (Nat × Nat)} {index n : Nat} {w : Bits}
    (hw : IsScaled table index n w) (rest : Bits) :
    readScaled? table index (w ++ rest) = some (n, rest) :=
  readScaled?_eq_some_iff.mpr ⟨w, hw, rfl⟩

/-! ## Tokens -/

section Tokens

variable {codes : Codes} {literals distances : List Nat}

theorem IsToken.append {t : Token} {w : Bits} (ht : IsToken literals distances t w)
    (hr : ReadsBoth codes literals distances) (rest : Bits) :
    readToken? codes (w ++ rest) = some (some t, rest) := by
  cases ht with
  | @literal b _ hw =>
    have hbyte : b.toNat < 256 := b.toNat_lt
    simp only [readToken?, hr.literals.append hw, if_pos hbyte, UInt8.ofNat_toNat]
  | @copy i j length distance u v x y hu hv hx hy =>
    have hbyte : ¬ 257 + i < 256 := by omega
    have hend : 257 + i ≠ 256 := by omega
    simp only [List.append_assoc, readToken?, hr.literals.append hu, if_neg hbyte, if_neg hend,
      Nat.add_sub_cancel_left, hv.append, hr.distances.append hx, hy.append, Option.bind_eq_bind,
      Option.bind_some]

/-- Reading a token takes it off the front. -/
theorem readToken?_eq_token_iff (hr : ReadsBoth codes literals distances) {t : Token}
    {bits rest : Bits} :
    readToken? codes bits = some (some t, rest) ↔
      ∃ w, IsToken literals distances t w ∧ bits = w ++ rest := by
  constructor
  · intro h
    unfold readToken? at h
    split at h
    · contradiction
    · next s mid hs =>
      obtain ⟨w, hw, rfl⟩ := hr.literals.read?_iff.mp hs
      split at h
      · next hbyte =>
        simp only [Option.some.injEq, Prod.mk.injEq] at h
        obtain ⟨rfl, rfl⟩ := h
        have hvalue : (UInt8.ofNat s).toNat = s := UInt8.toNat_ofNat_of_lt' hbyte
        exact ⟨w, .literal (by rwa [hvalue]), rfl⟩
      · split at h
        · simp at h
        · next hbyte hend =>
          simp only [Option.bind_eq_bind, Option.bind_eq_some_iff, Prod.exists] at h
          obtain ⟨length, bits₁, hl, j, bits₂, hj, distance, bits₃, hd, h⟩ := h
          simp only [Option.some.injEq, Prod.mk.injEq] at h
          obtain ⟨rfl, rfl⟩ := h
          obtain ⟨v, hv, rfl⟩ := readScaled?_eq_some_iff.mp hl
          obtain ⟨x, hx, rfl⟩ := hr.distances.read?_iff.mp hj
          obtain ⟨y, hy, rfl⟩ := readScaled?_eq_some_iff.mp hd
          have hs : 257 + (s - 257) = s := by omega
          refine ⟨_, .copy (i := s - 257) (by rwa [hs]) hv hx hy, ?_⟩
          simp only [List.append_assoc]
  · rintro ⟨w, ht, rfl⟩
    exact ht.append hr rest

theorem readToken?_end_append (hr : ReadsBoth codes literals distances) {w : Bits}
    (hw : IsCodeWord literals 256 w) (rest : Bits) :
    readToken? codes (w ++ rest) = some (none, rest) := by
  simp [readToken?, hr.literals.append hw]

/-- Reading the end of a block takes the word of its symbol off the front. -/
theorem readToken?_eq_end_iff (hr : ReadsBoth codes literals distances) {bits rest : Bits} :
    readToken? codes bits = some (none, rest) ↔
      ∃ w, IsCodeWord literals 256 w ∧ bits = w ++ rest := by
  constructor
  · intro h
    unfold readToken? at h
    split at h
    · contradiction
    · next s mid hs =>
      obtain ⟨w, hw, rfl⟩ := hr.literals.read?_iff.mp hs
      split at h
      · simp at h
      · split at h
        · next hend =>
          simp only [Option.some.injEq, Prod.mk.injEq, true_and] at h
          subst hend h
          exact ⟨w, hw, rfl⟩
        · simp [Option.bind_eq_some_iff] at h
  · rintro ⟨w, hw, rfl⟩
    exact readToken?_end_append hr hw rest

theorem readTokens_of_end {bits rest : Bits} (h : readToken? codes bits = some (none, rest))
    (acc : List Token) : readTokens codes bits acc = (acc, some rest) := by
  rw [readTokens]
  split <;> simp_all

theorem readTokens_of_token {bits rest : Bits} {t : Token}
    (h : readToken? codes bits = some (some t, rest)) (acc : List Token) :
    readTokens codes bits acc = readTokens codes rest (t :: acc) := by
  rw [readTokens]
  split <;> simp_all

theorem AreTokens.append {ts : List Token} {w : Bits} (hts : AreTokens literals distances ts w)
    (hr : ReadsBoth codes literals distances) (rest : Bits) (acc : List Token) :
    readTokens codes (w ++ rest) acc = (ts.reverse ++ acc, some rest) := by
  induction hts generalizing acc with
  | nil hw => exact readTokens_of_end (readToken?_end_append hr hw rest) acc
  | cons ht _ ih =>
    rw [List.append_assoc, readTokens_of_token (ht.append hr _), ih, List.reverse_cons,
      List.append_assoc]
    rfl

/-- Reading the tokens of a block takes them with its end off the front. -/
theorem readTokens_eq_some_iff (hr : ReadsBoth codes literals distances) {acc ts : List Token}
    {bits rest : Bits} :
    readTokens codes bits acc = (ts, some rest) ↔
      ∃ us w, AreTokens literals distances us w ∧ bits = w ++ rest ∧ ts = us.reverse ++ acc := by
  constructor
  · intro h
    fun_induction readTokens codes bits acc with
    | case1 => simp at h
    | case2 bits acc rest' hread =>
      simp only [Prod.mk.injEq, Option.some.injEq] at h
      obtain ⟨rfl, rfl⟩ := h
      obtain ⟨w, hw, rfl⟩ := (readToken?_eq_end_iff hr).mp hread
      exact ⟨[], w, .nil hw, rfl, rfl⟩
    | case3 bits acc t mid hread ih =>
      obtain ⟨us, ws, hus, rfl, rfl⟩ := ih h
      obtain ⟨w, ht, rfl⟩ := (readToken?_eq_token_iff hr).mp hread
      refine ⟨t :: us, w ++ ws, .cons ht hus, (List.append_assoc ..).symm, ?_⟩
      rw [List.reverse_cons, List.append_assoc]
      rfl
  · rintro ⟨us, w, hus, rfl, rfl⟩
    exact hus.append hr rest acc

end Tokens

end BrowserTrace.Deflate
