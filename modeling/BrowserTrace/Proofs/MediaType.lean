import BrowserTrace.MediaType
import BrowserTrace.Proofs.Text.Parts
import Mathlib.Data.List.Basic

/-!
# Which media types are JSON

The essence of a media type is told apart from the rest by how the text is put together: a front
without semicolons, the text between its blanks, and that in lower case (`IsEssence`).  An essence is
JSON when it is one of two, or when its subtype has the suffix behind something else, and there is a
type without blanks in front of the first slash (`IsJsonPair`).

What is added to a media type without changing its essence does not change the answer: parameters,
another case of letters, and blanks around it.

An essence that is JSON need not be well formed (`IsMediaType`): what stands between the slash and the
suffix may hold slashes and blanks (`isJson_malformed_iff`).
-/

namespace BrowserTrace.MediaType

open Text

variable {e front m type subtype rest : List Char}

/-! ## The essence -/

/-- `front` is what stands before the first semicolon of `m`, or all of `m`. -/
structure IsFront (front m : List Char) : Prop where
  plain : ';' ∉ front
  rest : m = front ∨ ∃ parameters, m = front ++ ';' :: parameters

/-- `e` is the essence of `m`: what stands before the first semicolon, without the blanks around it
and with its ASCII letters in lower case. -/
def IsEssence (e m : List Char) : Prop :=
  ∃ front core, IsFront front m ∧ IsCore core front ∧ e = core.map Char.toLower

theorem isFront_takeWhile (m : List Char) : IsFront (m.takeWhile (· ≠ ';')) m := by
  refine ⟨notMem_takeWhile ';' m, ?_⟩
  cases hd : m.dropWhile (· ≠ ';') with
  | nil =>
    have hsplit := List.takeWhile_append_dropWhile (p := (· ≠ ';')) (l := m)
    rw [hd, List.append_nil] at hsplit
    exact .inl hsplit.symm
  | cons c parameters => exact .inr ⟨parameters, eq_append_of_dropWhile hd⟩

theorem IsFront.takeWhile_eq (h : IsFront front m) : m.takeWhile (· ≠ ';') = front := by
  rcases h.rest with rfl | ⟨parameters, rfl⟩
  · exact List.takeWhile_eq_self_iff.mpr (forall_ne_of_notMem h.plain)
  · exact takeWhile_append_cons h.plain parameters

/-- A media type has one essence, and it is the one that is computed. -/
theorem isEssence_iff : IsEssence e m ↔ e = essence m := by
  constructor
  · rintro ⟨front, core, hfront, hcore, rfl⟩
    rw [essence, hfront.takeWhile_eq, hcore.trim_eq]
  · rintro rfl
    exact ⟨_, _, isFront_takeWhile m, isCore_trim _, rfl⟩

/-! ## What does not change the essence -/

/-- Parameters behind a media type do not count. -/
theorem IsEssence.append_parameters (h : IsEssence e m) (parameters : List Char) :
    IsEssence e (m ++ ';' :: parameters) := by
  obtain ⟨front, core, hfront, hcore, rfl⟩ := h
  refine ⟨front, core, ⟨hfront.plain, .inr ?_⟩, hcore, rfl⟩
  rcases hfront.rest with rfl | ⟨first, rfl⟩
  · exact ⟨parameters, rfl⟩
  · exact ⟨first ++ ';' :: parameters, by rw [List.append_assoc, List.cons_append]⟩

theorem notMem_of_isBlank {before : List Char} (h : ∀ c ∈ before, isBlank c = true) :
    ';' ∉ before := fun hmem ↦ absurd (h _ hmem) (by decide)

/-- Blanks around a media type do not count.  Those behind it may follow parameters. -/
theorem IsEssence.surround (h : IsEssence e m) {before after : List Char}
    (hbefore : ∀ c ∈ before, isBlank c = true) (hafter : ∀ c ∈ after, isBlank c = true) :
    IsEssence e (before ++ (m ++ after)) := by
  obtain ⟨front, core, hfront, hcore, rfl⟩ := h
  rcases hfront.rest with rfl | ⟨parameters, rfl⟩
  · refine ⟨_, core, ⟨?_, .inl rfl⟩, hcore.surround hbefore hafter, rfl⟩
    rw [List.mem_append, List.mem_append]
    rintro (hmem | hmem | hmem)
    · exact notMem_of_isBlank hbefore hmem
    · exact hfront.plain hmem
    · exact notMem_of_isBlank hafter hmem
  · refine ⟨before ++ (front ++ []), core, ⟨?_, .inr ⟨parameters ++ after, ?_⟩⟩,
      hcore.surround hbefore (List.forall_mem_nil _), rfl⟩
    · rw [List.append_nil, List.mem_append]
      rintro (hmem | hmem)
      · exact notMem_of_isBlank hbefore hmem
      · exact hfront.plain hmem
    · simp only [List.append_nil, List.append_assoc, List.cons_append]

/-- Lower case changes capital ASCII letters only, and into small ones. -/
theorem toLower_cases (c : Char) : c.toLower = c ∨
    (65 ≤ c.toNat ∧ c.toNat ≤ 90 ∧ c.toLower.toNat = c.toNat + 32) := by
  unfold Char.toLower
  split
  · next h =>
    have hlow : 65 ≤ c.toNat := h.1
    have hhigh : c.toNat ≤ 90 := h.2
    refine .inr ⟨hlow, hhigh, ?_⟩
    change (c.val + 32).toNat = c.val.toNat + 32
    rw [UInt32.toNat_add]
    change (c.toNat + 32) % 4294967296 = c.toNat + 32
    omega
  · exact .inl rfl

theorem isBlank_toLower (c : Char) : isBlank c.toLower = isBlank c := by
  rcases toLower_cases c with h | ⟨hlow, hhigh, h⟩
  · rw [h]
  · unfold isBlank
    grind

theorem toLower_eq_semicolon_iff (c : Char) : c.toLower = ';' ↔ c = ';' := by
  rcases toLower_cases c with h | ⟨hlow, hhigh, h⟩
  · rw [h]
  · have hn : (';' : Char).toNat = 59 := rfl
    rw [← Char.toNat_inj, ← Char.toNat_inj, h, hn]
    omega

theorem map_toLower_trim (cs : List Char) :
    (trim cs).map Char.toLower = trim (cs.map Char.toLower) := by
  have hblank : isBlank ∘ Char.toLower = isBlank := funext isBlank_toLower
  simp only [trim, List.dropWhile_map, ← List.map_reverse, hblank]

/-- The essence is the same in lower case, so only that counts. -/
theorem essence_eq (m : List Char) :
    essence m = trim ((m.map Char.toLower).takeWhile (· ≠ ';')) := by
  have hsemicolon : (fun c : Char ↦ decide (c ≠ ';')) ∘ Char.toLower = fun c ↦ decide (c ≠ ';') := by
    funext c
    exact decide_eq_decide.mpr (not_congr (toLower_eq_semicolon_iff c))
  rw [essence, map_toLower_trim, List.takeWhile_map, hsemicolon]

/-! ## JSON -/

/-- An essence with this type and subtype is JSON. -/
structure IsJsonPair (type subtype : List Char) : Prop where
  nonempty : type ≠ []
  plain : ∀ c ∈ type, isBlank c = false
  json : type ++ '/' :: subtype = "application/json".toList ∨
    type ++ '/' :: subtype = "text/json".toList ∨ ∃ x, x ≠ [] ∧ subtype = x ++ "+json".toList

theorem hasSuffix_iff : hasSuffix subtype = true ↔ ∃ x, x ≠ [] ∧ subtype = x ++ "+json".toList := by
  have hsuffix : suffix = "+json".toList := by decide
  rw [hasSuffix, Bool.and_eq_true, List.isSuffixOf_iff_suffix, decide_eq_true_eq, hsuffix]
  constructor
  · rintro ⟨⟨x, rfl⟩, hlength⟩
    refine ⟨x, ?_, rfl⟩
    rintro rfl
    exact absurd hlength (Nat.lt_irrefl _)
  · rintro ⟨x, hx, rfl⟩
    refine ⟨List.suffix_append _ _, ?_⟩
    rw [List.length_append]
    have := List.length_pos_of_ne_nil hx
    omega

/-- A pair in front of and behind a slash is one of the two essences exactly when its parts are. -/
theorem append_slash_eq_iff (hsubtype : '/' ∉ rest) (hfront : '/' ∉ front) :
    type ++ '/' :: subtype = front ++ '/' :: rest ↔ type = front ∧ subtype = rest := by
  rw [eq_comm, List.append_cons_inj_of_notMem hfront hsubtype]
  exact ⟨fun h ↦ ⟨h.1.symm, h.2.2.symm⟩, fun h ↦ ⟨h.1.symm, rfl, h.2.symm⟩⟩

theorem isJsonPair_iff : isJsonPair type subtype = true ↔ IsJsonPair type subtype := by
  have hplain : (!type.any isBlank) = true ↔ ∀ c ∈ type, isBlank c = false := by
    simp
  have happlication : type ++ '/' :: subtype = "application/json".toList ↔
      type = "application".toList ∧ subtype = "json".toList :=
    append_slash_eq_iff (by decide) (by decide : '/' ∉ "application".toList)
  have htext : type ++ '/' :: subtype = "text/json".toList ↔
      type = "text".toList ∧ subtype = "json".toList :=
    append_slash_eq_iff (by decide) (by decide : '/' ∉ "text".toList)
  have hjson : ((type == "application".toList || type == "text".toList) &&
      subtype == "json".toList || hasSuffix subtype) = true ↔
        type ++ '/' :: subtype = "application/json".toList ∨
          type ++ '/' :: subtype = "text/json".toList ∨
            ∃ x, x ≠ [] ∧ subtype = x ++ "+json".toList := by
    rw [happlication, htext, ← hasSuffix_iff, Bool.or_eq_true, Bool.and_eq_true, Bool.or_eq_true,
      beq_iff_eq, beq_iff_eq, beq_iff_eq, or_and_right, or_assoc]
  rw [isJsonPair, Bool.and_eq_true, Bool.and_eq_true, hplain, hjson, Bool.not_eq_true',
    List.isEmpty_eq_false_iff]
  exact ⟨fun h ↦ ⟨h.1.1, h.1.2, h.2⟩, fun h ↦ ⟨⟨h.nonempty, h.plain⟩, h.json⟩⟩

/-- An essence is JSON when it has a slash and what stands around the first one is a JSON pair. -/
theorem isJsonEssence_iff : isJsonEssence e = true ↔
    ∃ type subtype, e = type ++ '/' :: subtype ∧ '/' ∉ type ∧ IsJsonPair type subtype := by
  constructor
  · intro h
    unfold isJsonEssence at h
    split at h
    · contradiction
    · next c subtype hd =>
      exact ⟨_, subtype, eq_append_of_dropWhile hd, notMem_takeWhile '/' e, isJsonPair_iff.mp h⟩
  · rintro ⟨type, subtype, rfl, hslash, hpair⟩
    rw [isJsonEssence, dropWhile_append_cons hslash, takeWhile_append_cons hslash]
    exact isJsonPair_iff.mpr hpair

/-- **JSON media types.**  A media type has one essence, and it is JSON if and only if its essence
has a slash, the type in front of the first one is not empty and has no blanks, and either the
essence is `application/json` or `text/json` or the subtype ends in `+json` behind something else.
So parameters, the case of ASCII letters and blanks around a media type do not matter. -/
theorem isJson_follows_essence (m : String) :
    (∃! e, IsEssence e m.toList) ∧
    (isJson m = true ↔ ∃ e type subtype, IsEssence e m.toList ∧ e = type ++ '/' :: subtype ∧
      '/' ∉ type ∧ IsJsonPair type subtype) ∧
    (∀ parameters, isJson (m ++ ";" ++ parameters) = isJson m) ∧
    (∀ m' : String, m'.toList.map Char.toLower = m.toList.map Char.toLower →
      isJson m' = isJson m) ∧
    ∀ before after : String, (∀ c ∈ before.toList, isBlank c = true) →
      (∀ c ∈ after.toList, isBlank c = true) → isJson (before ++ m ++ after) = isJson m := by
  have hessence : IsEssence (essence m.toList) m.toList := isEssence_iff.mpr rfl
  -- The answer depends on the essence alone.
  have hsame (m' : String) (h : IsEssence (essence m.toList) m'.toList) : isJson m' = isJson m := by
    rw [isJson, isJson, ← isEssence_iff.mp h]
  refine ⟨⟨_, hessence, fun e he ↦ isEssence_iff.mp he⟩, ?_, ?_, ?_, ?_⟩
  · rw [isJson, isJsonEssence_iff]
    constructor
    · rintro ⟨type, subtype, he, hrest⟩
      exact ⟨_, type, subtype, hessence, he, hrest⟩
    · rintro ⟨e, type, subtype, he, hrest⟩
      exact ⟨type, subtype, isEssence_iff.mp he ▸ hrest⟩
  · intro parameters
    refine hsame _ ?_
    rw [String.toList_append, String.toList_append, List.append_assoc]
    exact hessence.append_parameters parameters.toList
  · intro m' hm'
    rw [isJson, isJson, essence_eq, essence_eq, hm']
  · intro before after hbefore hafter
    refine hsame _ ?_
    rw [String.toList_append, String.toList_append, List.append_assoc]
    exact hessence.surround hbefore hafter

/-- The hypotheses are met: a type in capitals, with blanks that are not ASCII around it. -/
theorem isJson_follows_essence_capitals :
    isJson "application/problem+json" = true ∧ isJson "Application/PROBLEM+Json" = true ∧
      isJson ("\u3000\u00a0" ++ "application/problem+json" ++ "\u2028") = true := by
  obtain ⟨-, -, -, hcase, hblanks⟩ := isJson_follows_essence "application/problem+json"
  have h : isJson "application/problem+json" = true := by decide +kernel
  have hbefore : "\u3000\u00a0".toList.all isBlank = true := by decide +kernel
  have hafter : "\u2028".toList.all isBlank = true := by decide +kernel
  refine ⟨h, ?_, ?_⟩
  · rw [hcase _ (by decide +kernel), h]
  · rw [hblanks _ _ (List.all_eq_true.mp hbefore) (List.all_eq_true.mp hafter), h]

/-! ## Well-formed media types

Blanks are looked for in the type only, and only the first slash is.  So an accepted media type may be
malformed, but in one place only: between the slash and the suffix. -/

/-- What may stand on either side of the slash: something, without slashes and blanks. -/
structure IsToken (cs : List Char) : Prop where
  nonempty : cs ≠ []
  noSlash : '/' ∉ cs
  plain : ∀ c ∈ cs, isBlank c = false

instance (cs : List Char) : Decidable (IsToken cs) :=
  decidable_of_iff (cs ≠ [] ∧ '/' ∉ cs ∧ cs.all (!isBlank ·) = true)
    ⟨fun ⟨hne, hslash, hplain⟩ ↦ ⟨hne, hslash, by simpa using hplain⟩,
      fun h ↦ ⟨h.nonempty, h.noSlash, by simpa using h.plain⟩⟩

/-- A type and a subtype around the only slash, and no blanks. -/
def IsMediaType (e : List Char) : Prop :=
  ∃ type subtype, IsToken type ∧ IsToken subtype ∧ e = type ++ '/' :: subtype

/-- Somewhere in the text is a slash or a blank. -/
def IsMixed (cs : List Char) : Prop := ∃ c ∈ cs, c = '/' ∨ isBlank c = true

theorem isToken_iff {cs : List Char} : IsToken cs ↔ cs ≠ [] ∧ ¬ IsMixed cs := by
  constructor
  · intro h
    refine ⟨h.nonempty, ?_⟩
    rintro ⟨c, hc, rfl | hblank⟩
    · exact h.noSlash hc
    · rw [h.plain c hc] at hblank
      contradiction
  · rintro ⟨hne, hmixed⟩
    refine ⟨hne, fun hslash ↦ hmixed ⟨'/', hslash, .inl rfl⟩, ?_⟩
    intro c hc
    exact Bool.eq_false_iff.mpr fun hblank ↦ hmixed ⟨c, hc, .inr hblank⟩

theorem IsMixed.ne_nil {cs : List Char} (h : IsMixed cs) : cs ≠ [] := by
  obtain ⟨c, hc, -⟩ := h
  exact List.ne_nil_of_mem hc

/-- Behind a good type, the media type is as good as its subtype. -/
theorem isMediaType_append_iff (htype : IsToken type) :
    IsMediaType (type ++ '/' :: subtype) ↔ IsToken subtype := by
  constructor
  · rintro ⟨type', subtype', htype', hsubtype, h⟩
    obtain ⟨-, rfl⟩ := (append_cons_inj_of_notMem htype.noSlash htype'.noSlash).mp h
    exact hsubtype
  · intro hsubtype
    exact ⟨type, subtype, htype, hsubtype, rfl⟩

/-- The suffix adds neither slashes nor blanks. -/
theorem isMixed_append_suffix_iff {x : List Char} :
    IsMixed (x ++ "+json".toList) ↔ IsMixed x := by
  have hsuffix : ¬ IsMixed "+json".toList := (isToken_iff.mp (by decide)).2
  constructor
  · rintro ⟨c, hc, h⟩
    rcases List.mem_append.mp hc with hx | hjson
    · exact ⟨c, hx, h⟩
    · exact absurd ⟨c, hjson, h⟩ hsuffix
  · rintro ⟨c, hc, h⟩
    exact ⟨c, List.mem_append_left _ hc, h⟩

theorem isToken_append_suffix_iff {x : List Char} (hx : x ≠ []) :
    IsToken (x ++ "+json".toList) ↔ IsToken x := by
  rw [isToken_iff, isToken_iff, isMixed_append_suffix_iff]
  exact and_congr_left fun _ ↦ iff_of_true (List.append_ne_nil_of_left_ne_nil hx _) hx

theorem isToken_application : IsToken "application".toList := by decide

theorem isToken_text : IsToken "text".toList := by decide

theorem isToken_json : IsToken "json".toList := by decide

theorem isMediaType_json : IsMediaType "application/json".toList ∧ IsMediaType "text/json".toList :=
  ⟨⟨"application".toList, "json".toList, isToken_application, isToken_json, by decide⟩,
    ⟨"text".toList, "json".toList, isToken_text, isToken_json, by decide⟩⟩

/-- An essence is JSON when its type is good and it is one of the two, or has the suffix behind
something else.  Nothing is asked of that. -/
theorem isJsonEssence_iff_isToken : isJsonEssence e = true ↔
    e = "application/json".toList ∨ e = "text/json".toList ∨
      ∃ type x, IsToken type ∧ x ≠ [] ∧ e = type ++ '/' :: (x ++ "+json".toList) := by
  rw [isJsonEssence_iff]
  constructor
  · rintro ⟨type, subtype, rfl, hslash, hpair⟩
    rcases hpair.json with h | h | ⟨x, hx, rfl⟩
    · exact .inl h
    · exact .inr (.inl h)
    · exact .inr (.inr ⟨type, x, ⟨hpair.nonempty, hslash, hpair.plain⟩, hx, rfl⟩)
  · rintro (rfl | rfl | ⟨type, x, htype, hx, rfl⟩)
    · exact ⟨"application".toList, "json".toList, by decide, isToken_application.noSlash,
        ⟨isToken_application.nonempty, isToken_application.plain, .inl rfl⟩⟩
    · exact ⟨"text".toList, "json".toList, by decide, isToken_text.noSlash,
        ⟨isToken_text.nonempty, isToken_text.plain, .inr (.inl rfl)⟩⟩
    · exact ⟨type, _, rfl, htype.noSlash, ⟨htype.nonempty, htype.plain, .inr (.inr ⟨x, hx, rfl⟩)⟩⟩

/-- **Malformed media types.**  A media type that is taken for JSON has an essence of the form
`type/subtype`, with that one slash and without blanks, unless it is a good type with `+json` behind a
text that has a slash or a blank.  All of those are taken for JSON, and of the well-formed ones
exactly the two and those with the suffix behind something else. -/
theorem isJson_malformed_iff (m : String) : ∃ e, IsEssence e m.toList ∧
    (isJson m = true ∧ ¬ IsMediaType e ↔
      ∃ type x, IsToken type ∧ IsMixed x ∧ e = type ++ '/' :: (x ++ "+json".toList)) ∧
    (isJson m = true ∧ IsMediaType e ↔
      e = "application/json".toList ∨ e = "text/json".toList ∨
        ∃ type x, IsToken type ∧ IsToken x ∧ e = type ++ '/' :: (x ++ "+json".toList)) := by
  refine ⟨essence m.toList, isEssence_iff.mpr rfl, ?_, ?_⟩
  · rw [isJson, isJsonEssence_iff_isToken]
    constructor
    · rintro ⟨h | h | ⟨type, x, htype, hx, h⟩, hmalformed⟩
      · exact absurd (h ▸ isMediaType_json.1) hmalformed
      · exact absurd (h ▸ isMediaType_json.2) hmalformed
      · refine ⟨type, x, htype, ?_, h⟩
        rw [h, isMediaType_append_iff htype, isToken_append_suffix_iff hx, isToken_iff,
          and_iff_right hx, Classical.not_not] at hmalformed
        exact hmalformed
    · rintro ⟨type, x, htype, hmixed, h⟩
      refine ⟨.inr (.inr ⟨type, x, htype, hmixed.ne_nil, h⟩), ?_⟩
      rw [h, isMediaType_append_iff htype, isToken_append_suffix_iff hmixed.ne_nil, isToken_iff]
      exact fun hx ↦ hx.2 hmixed
  · rw [isJson, isJsonEssence_iff_isToken]
    constructor
    · rintro ⟨h | h | ⟨type, x, htype, hx, h⟩, hgood⟩
      · exact .inl h
      · exact .inr (.inl h)
      · refine .inr (.inr ⟨type, x, htype, ?_, h⟩)
        rwa [h, isMediaType_append_iff htype, isToken_append_suffix_iff hx] at hgood
    · rintro (h | h | ⟨type, x, htype, hx, h⟩)
      · exact ⟨.inl h, h ▸ isMediaType_json.1⟩
      · exact ⟨.inr (.inl h), h ▸ isMediaType_json.2⟩
      · refine ⟨.inr (.inr ⟨type, x, htype, hx.nonempty, h⟩), ?_⟩
        rwa [h, isMediaType_append_iff htype, isToken_append_suffix_iff hx.nonempty]

/-- A blank and a second slash in the subtype go unnoticed. -/
theorem isJson_blank_in_subtype :
    (isJson "application/x y+json" = true ∧
      ∃ e, IsEssence e "application/x y+json".toList ∧ ¬ IsMediaType e) ∧
    isJson "text/a/b+json" = true ∧ ∃ e, IsEssence e "text/a/b+json".toList ∧ ¬ IsMediaType e := by
  refine ⟨⟨by decide +kernel, "application".toList ++ '/' :: "x y+json".toList, ?_, ?_⟩,
    by decide +kernel, "text".toList ++ '/' :: "a/b+json".toList, ?_, ?_⟩
  · exact isEssence_iff.mpr (by decide +kernel)
  · rw [isMediaType_append_iff isToken_application]
    exact fun h ↦ absurd (h.plain ' ' (by decide)) (by decide)
  · exact isEssence_iff.mpr (by decide +kernel)
  · rw [isMediaType_append_iff isToken_text]
    exact fun h ↦ h.noSlash (by decide)

end BrowserTrace.MediaType
