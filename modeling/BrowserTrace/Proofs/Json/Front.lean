import BrowserTrace.Proofs.Json.Local
import BrowserTrace.Proofs.Json.Reads

/-!
# Readers depend on the front that they read

A reader is `Local` if what it takes off a text does not depend on the text behind, as long as that
starts alike, and `Closed` if it does not depend on it at all.  Arrays and objects end with a bracket
of their own, so lists and records are closed whenever their items and fields are local
(`closed_list`, `closed_record`).

What a closed reader has read is therefore a text by itself, and it reads that text whatever is put
behind it (`Closed.run_eq_ok`).
-/

namespace BrowserTrace.Json

open BrowserTrace.Json.Parser

/-- The reader takes a front off the text, and takes it off any other text that goes on alike. -/
def Local {α : Type} (p : Parser α) : Prop :=
  ∀ ⦃s : List Char⦄ ⦃a : α⦄ ⦃r : List Char⦄, p.run s = .ok (a, r) →
    ∃ front, s = front ++ r ∧ ∀ r', SameStart r r' → p.run (front ++ r') = .ok (a, r')

/-- The reader takes a front off the text, and takes it off any other text. -/
def Closed {α : Type} (p : Parser α) : Prop :=
  ∀ ⦃s : List Char⦄ ⦃a : α⦄ ⦃r : List Char⦄, p.run s = .ok (a, r) →
    ∃ front, s = front ++ r ∧ ∀ r', p.run (front ++ r') = .ok (a, r')

section Scalars

variable {α β : Type} {p : Parser α}

theorem Closed.toLocal (h : Closed p) : Local p := fun _ _ _ hrun ↦
  let ⟨front, hs, hfront⟩ := h hrun
  ⟨front, hs, fun r' _ ↦ hfront r'⟩

/-- A closed reader accepts a text if the text begins with one that it reads to its end. -/
theorem Closed.run_eq_ok (h : Closed p) {s : List Char} {a : α} {r : List Char} :
    p.run s = .ok (a, r) ↔ ∃ front, s = front ++ r ∧ p.run front = .ok (a, []) := by
  constructor
  · intro hrun
    obtain ⟨front, hs, hfront⟩ := h hrun
    have hend := hfront []
    rw [List.append_nil] at hend
    exact ⟨front, hs, hend⟩
  · rintro ⟨front, rfl, hrun⟩
    obtain ⟨front', rfl, hfront⟩ := h hrun
    rw [List.append_nil]
    exact hfront r

theorem Local.map (h : Local p) (f : α → β) : Local (p.map f) := by
  intro s b r hrun
  simp only [Parser.map] at hrun
  split at hrun
  · next a r hp =>
    obtain ⟨rfl, rfl⟩ := Prod.mk.inj (Except.ok.inj hrun)
    obtain ⟨front, hs, hfront⟩ := h hp
    exact ⟨front, hs, fun r' hstart ↦ by simp only [Parser.map, hfront r' hstart]⟩
  · contradiction

theorem closed_text : Closed text := by
  intro s t r hrun
  obtain ⟨b, hb, hs⟩ := exists_blank s
  simp only [text] at hrun
  split at hrun
  · next rest hquote =>
    obtain ⟨front, rfl, hfront⟩ := readString_front (here_eq_ok.mp hrun)
    refine ⟨b ++ '"' :: (front ++ ['"']), by rw [hs, hquote]; simp, fun r' ↦ ?_⟩
    simp only [List.append_assoc, List.cons_append, List.nil_append, text, skipSpace_append hb,
      skipSpace_cons (c := '"') rfl, hfront, here]
  · simp [failHere] at hrun

theorem local_skip : Local skip := by
  intro s a r hrun
  simp only [skip] at hrun
  split at hrun
  · simp [failHere] at hrun
  · next r hskip =>
    obtain ⟨-, rfl⟩ := Prod.mk.inj (Except.ok.inj hrun)
    obtain ⟨front, hs, hfront⟩ := skipFrom_front hskip
    refine ⟨front, hs, fun r' hstart ↦ ?_⟩
    have hvalue : skipValue (front ++ r') = .ok r' := hfront r' hstart
    simp only [skip, hvalue]

theorem Local.option (h : Local p) : Local p.option := by
  intro s a r hrun
  obtain ⟨b, hb, hs⟩ := exists_blank s
  simp only [Parser.option] at hrun
  split at hrun
  · next rest hn =>
    cases hletters : readLetters ['u', 'l', 'l'] rest with
    | error fault => simp [hletters, here, Except.map] at hrun
    | ok r =>
      simp only [hletters, here, Except.map, Except.ok.injEq, Prod.mk.injEq] at hrun
      obtain ⟨rfl, rfl⟩ := hrun
      obtain rfl := readLetters_eq_ok.mp hletters
      refine ⟨b ++ ['n', 'u', 'l', 'l'], by rw [hs, hn]; simp, fun r' _ ↦ ?_⟩
      have hletters' : readLetters ['u', 'l', 'l'] ('u' :: 'l' :: 'l' :: r') = .ok r' := rfl
      simp only [List.append_assoc, List.cons_append, List.nil_append, Parser.option,
        skipSpace_append hb, skipSpace_cons (c := 'n') rfl, hletters', here, Except.map]
  · next hn =>
    have hshorter := (p.map some).shorter hrun
    obtain ⟨front, hfront, hread⟩ := h.map some hrun
    refine ⟨b ++ front, by rw [hs, hfront, List.append_assoc], fun r' hstart ↦ ?_⟩
    -- Something is read, so the value begins where the blanks have ended.
    cases front with
    | nil => simp [hfront] at hshorter
    | cons c front =>
      have hc : c ≠ 'n' := by
        rintro rfl
        exact hn _ hfront
      have hspace : skipSpace (c :: (front ++ r')) = c :: (front ++ r') :=
        skipSpace_cons (not_space_of_skipSpace hfront) _
      have hrun' := hread r' hstart
      simp only [List.append_assoc, List.cons_append, Parser.option, skipSpace_append hb,
        hspace] at hrun' ⊢
      split
      · next heq => exact absurd (List.cons.inj heq).1 hc
      · exact hrun'

end Scalars

/-! ## Arrays -/

section Arrays

variable {α : Type} {item : Parser α} {first : Bool} {s r : List Char}

theorem exists_blank_of_closed (h : nextElement first s = .ok (.closed r)) :
    ∃ b, Blank b ∧ s = b ++ ']' :: r := by
  obtain ⟨b, hb, hs⟩ := exists_blank s
  refine ⟨b, hb, ?_⟩
  unfold nextElement at h
  split at h
  · contradiction
  · next hclose =>
    rw [hs, hclose, Slot.closed.inj (Except.ok.inj h)]
  · split at h
    · exact nomatch Except.ok.inj h
    split at h
    · split at h
      · contradiction
      · contradiction
      · exact nomatch Except.ok.inj h
    · contradiction

theorem nextElement_front (h : nextElement first s = .ok (.next r)) :
    ∃ front, s = front ++ r ∧
      ∀ r', SameStart r r' → nextElement first (front ++ r') = .ok (.next r') := by
  obtain ⟨b, hb, hs⟩ := exists_blank s
  unfold nextElement at h
  split at h
  · contradiction
  · exact nomatch Except.ok.inj h
  · next c rest hclose hc =>
    have hspace := not_space_of_skipSpace hc
    split at h
    · next hfirst =>
      obtain rfl := Slot.next.inj (Except.ok.inj h)
      refine ⟨b, by rw [← hc, ← hs], fun r' hstart ↦ ?_⟩
      obtain ⟨t, rfl⟩ := List.head?_eq_some_iff.mp hstart.head
      simp only [nextElement, skipSpace_append hb, skipSpace_cons hspace, hfirst, if_true]
    next hfirst =>
    split at h
    · next hcomma =>
      subst hcomma
      split at h
      · contradiction
      · contradiction
      · next d rest' hend hd =>
        obtain rfl := Slot.next.inj (Except.ok.inj h)
        refine ⟨b ++ [','], by rw [hs, hc]; simp, fun r' hstart ↦ ?_⟩
        have hhead := hstart.head_skipSpace
        rw [hd] at hhead
        obtain ⟨t, ht⟩ := List.head?_eq_some_iff.mp hhead
        simp only [List.append_assoc, List.singleton_append, nextElement, skipSpace_append hb,
          skipSpace_cons hspace, ht, if_neg hfirst, if_true]
    · contradiction

/-- The items of an array, with its closing bracket. -/
theorem elements_front (hitem : Local item) {i : Nat} {acc as : List α}
    (h : elements item i s acc = .ok (as, r)) :
    ∃ front, s = front ++ ']' :: r ∧
      ∀ r', elements item i (front ++ ']' :: r') acc = .ok (as, r') := by
  fun_induction elements item i s acc with
  | case1 => simp [failHere] at h
  | case2 i s acc rest hslot =>
    obtain ⟨rfl, rfl⟩ := Prod.mk.inj (Except.ok.inj h)
    obtain ⟨b, hb, rfl⟩ := exists_blank_of_closed hslot
    exact ⟨b, rfl, fun r' ↦ elements_of_closed (nextElement_close hb _ r') acc⟩
  | case3 => contradiction
  | case4 i s acc more hslot a rest hrun ih =>
    obtain ⟨front, rfl, hfront⟩ := ih h
    obtain ⟨value, rfl, hvalue⟩ := hitem hrun
    obtain ⟨start, rfl, hstart⟩ := nextElement_front hslot
    refine ⟨start ++ (value ++ front), by simp, fun r' ↦ ?_⟩
    have hclose : SameStart (front ++ ']' :: r) (front ++ ']' :: r') :=
      sameStart_of_close (by decide) front r r'
    simp only [List.append_assoc]
    rw [elements_of_next (hstart _ (hclose.append value)) (hvalue _ hclose), hfront]

theorem closed_list (hitem : Local item) : Closed item.list := by
  intro s as r hrun
  obtain ⟨b, hb, hs⟩ := exists_blank s
  simp only [Parser.list] at hrun
  split at hrun
  · next rest hopen =>
    obtain ⟨front, rfl, hfront⟩ := elements_front hitem hrun
    refine ⟨b ++ '[' :: (front ++ [']']), by rw [hs, hopen]; simp, fun r' ↦ ?_⟩
    simp only [List.append_assoc, List.cons_append, List.nil_append, Parser.list,
      skipSpace_append hb, skipSpace_cons (c := '[') rfl, hfront]
  · simp [failHere] at hrun

end Arrays

/-! ## Objects -/

section Objects

variable {σ : Type} {first : Bool} {s r : List Char}

theorem nextMember_closed_front (h : nextMember first s = .ok (.closed r)) :
    ∃ b, Blank b ∧ s = b ++ '}' :: r := by
  obtain ⟨b, hb, hs⟩ := exists_blank s
  refine ⟨b, hb, ?_⟩
  unfold nextMember at h
  split at h
  · contradiction
  · next hclose => rw [hs, hclose, Slot.closed.inj (Except.ok.inj h)]
  · split at h
    · split at h
      · exact nomatch Except.ok.inj h
      · contradiction
    split at h
    · split at h
      · contradiction
      · exact nomatch Except.ok.inj h
      · contradiction
    · contradiction

theorem nextMember_next_front (h : nextMember first s = .ok (.next r)) :
    ∃ b₁ b₂, Blank b₁ ∧ Blank b₂ ∧ s = b₁ ++ (comma first ++ (b₂ ++ '"' :: r)) := by
  obtain ⟨b, hb, hs⟩ := exists_blank s
  unfold nextMember at h
  split at h
  · contradiction
  · exact nomatch Except.ok.inj h
  · next c rest hclose hc =>
    cases first with
    | true =>
      rw [if_pos rfl] at h
      split at h
      · next hquote =>
        refine ⟨b, [], hb, blank_nil, ?_⟩
        rw [hs, hc, hquote, Slot.next.inj (Except.ok.inj h)]
        rfl
      · contradiction
    | false =>
      rw [if_neg Bool.false_ne_true] at h
      split at h
      · next hcomma =>
        obtain ⟨b', hb', hs'⟩ := exists_blank rest
        split at h
        · contradiction
        · next hquote =>
          refine ⟨b, b', hb, hb', ?_⟩
          rw [hs, hc, hcomma, hs', hquote, Slot.next.inj (Except.ok.inj h)]
          rfl
        · contradiction
      · contradiction

theorem readColon_front {s r : List Char} (h : readColon s = .ok r) :
    ∃ b, Blank b ∧ s = b ++ ':' :: r := by
  obtain ⟨b, hb, hs⟩ := exists_blank s
  unfold readColon at h
  split at h
  · contradiction
  · next hcolon => exact ⟨b, hb, by rw [hs, hcolon, Except.ok.inj h]⟩
  · contradiction

/-- The members of an object, with its closing bracket. -/
theorem members_front {read : σ → String → Except Fault (Parser σ)}
    (hread : ∀ state key value, read state key = .ok value → Local value) {state state' : σ}
    (h : members read first s state = .ok (state', r)) :
    ∃ front, s = front ++ '}' :: r ∧
      ∀ r', members read first (front ++ '}' :: r') state = .ok (state', r') := by
  fun_induction members read first s state with
  | case1 => contradiction
  | case2 first s state rest hslot =>
    obtain ⟨rfl, rfl⟩ := Prod.mk.inj (Except.ok.inj h)
    obtain ⟨b, hb, rfl⟩ := nextMember_closed_front hslot
    exact ⟨b, rfl, fun r' ↦ members_of_closed (nextMember_close hb _ r')⟩
  | case3 => contradiction
  | case4 => simp [failHere] at h
  | case5 => simp [failHere] at h
  | case6 => contradiction
  | case7 first s state r₁ hslot key r₂ hkey value hvalue r₃ hcolon state₁ r₄ hrun ih =>
    obtain ⟨front, rfl, hfront⟩ := ih h
    obtain ⟨piece, rfl, hpiece⟩ := hread state key value hvalue hrun
    obtain ⟨b₃, hb₃, rfl⟩ := readColon_front hcolon
    obtain ⟨quoted, rfl, hquoted⟩ := readString_front hkey
    obtain ⟨b₁, b₂, hb₁, hb₂, rfl⟩ := nextMember_next_front hslot
    refine ⟨b₁ ++ (comma first ++ (b₂ ++ '"' :: (quoted ++ '"' :: (b₃ ++ ':' :: (piece ++ front))))),
      by simp, fun r' ↦ ?_⟩
    have hclose : SameStart (front ++ '}' :: r) (front ++ '}' :: r') :=
      sameStart_of_close (by decide) front r r'
    simp only [List.append_assoc, List.cons_append]
    rw [members_of_next (nextMember_quote hb₁ hb₂ first _) (hquoted _) hvalue
      (readColon_append hb₃ _) (hpiece _ hclose), hfront]

end Objects

/-! ## Records -/

section Records

variable {σ : Type} {fields : List (RecordField σ)} {s r : List Char}

theorem readEnd_front (h : readEnd s = .ok r) : ∃ b, Blank b ∧ s = b ++ ']' :: r := by
  obtain ⟨b, hb, hs⟩ := exists_blank s
  unfold readEnd at h
  split at h
  · contradiction
  · next hclose => exact ⟨b, hb, by rw [hs, hclose, Except.ok.inj h]⟩
  · contradiction

/-- The fields of a record in an array, with its closing bracket. -/
theorem positional_front (hfields : ∀ field ∈ fields, Local field.value) {i : Nat} {state state' : σ}
    (h : positional i s state fields = .ok (state', r)) :
    ∃ front, s = front ++ ']' :: r ∧
      ∀ r', positional i (front ++ ']' :: r') state fields = .ok (state', r') := by
  induction fields generalizing i s state with
  | nil =>
    unfold positional at h
    split at h
    · next hend =>
      obtain ⟨rfl, rfl⟩ := Prod.mk.inj (Except.ok.inj h)
      obtain ⟨b, hb, rfl⟩ := readEnd_front hend
      have hend' (r' : List Char) : readEnd (b ++ ']' :: r') = .ok r' := by
        rw [readEnd, skipSpace_append hb]
        rfl
      exact ⟨b, rfl, fun r' ↦ by simp only [positional, hend']⟩
    · simp [failHere] at h
  | cons field fields ih =>
    unfold positional at h
    split at h
    · simp [failHere] at h
    · next rest hslot =>
      split at h
      · simp [failHere] at h
      next hneeded =>
      obtain ⟨rfl, rfl⟩ := Prod.mk.inj (Except.ok.inj h)
      obtain ⟨b, hb, rfl⟩ := exists_blank_of_closed hslot
      exact ⟨b, rfl, fun r' ↦ by
        simp only [positional, nextElement_close hb, if_neg hneeded]⟩
    · next more hslot =>
      split at h
      · contradiction
      next set rest hrun =>
      obtain ⟨front, rfl, hfront⟩ :=
        ih (fun f hf ↦ hfields f (List.mem_cons_of_mem field hf)) h
      obtain ⟨value, rfl, hvalue⟩ := hfields field List.mem_cons_self hrun
      obtain ⟨start, rfl, hstart⟩ := nextElement_front hslot
      refine ⟨start ++ (value ++ front), by simp, fun r' ↦ ?_⟩
      have hclose : SameStart (front ++ ']' :: r) (front ++ ']' :: r') :=
        sameStart_of_close (by decide) front r r'
      simp only [List.append_assoc, positional, hstart _ (hclose.append value), hvalue _ hclose,
        hfront]

theorem local_fieldOf (hfields : ∀ field ∈ fields, Local field.value) {state : List String × σ}
    {key : String} {value : Parser (List String × σ)} (h : fieldOf fields state key = .ok value) :
    Local value := by
  unfold fieldOf at h
  split at h
  · exact Except.ok.inj h ▸ local_skip.map _
  · next field hfield =>
    split at h
    · contradiction
    · exact Except.ok.inj h ▸ (hfields field (List.mem_of_find?_eq_some hfield)).map _

/-- A record is read up to its closing bracket. -/
theorem closed_record (hfields : ∀ field ∈ fields, Local field.value) (start : σ) :
    Closed (Parser.record fields start) := by
  intro s state r hrun
  obtain ⟨b, hb, hs⟩ := exists_blank s
  simp only [Parser.record] at hrun
  split at hrun
  · next rest hopen =>
    obtain ⟨front, rfl, hfront⟩ := positional_front hfields hrun
    refine ⟨b ++ '[' :: (front ++ [']']), by rw [hs, hopen]; simp, fun r' ↦ ?_⟩
    simp only [List.append_assoc, List.cons_append, List.nil_append, Parser.record,
      skipSpace_append hb, skipSpace_cons (c := '[') rfl, hfront]
  · next rest hopen =>
    split at hrun
    · contradiction
    next names state' r hmembers =>
    split at hrun
    · next hall =>
      obtain ⟨rfl, rfl⟩ := Prod.mk.inj (Except.ok.inj hrun)
      obtain ⟨front, rfl, hfront⟩ := members_front
        (fun state key value hvalue ↦ local_fieldOf hfields hvalue) hmembers
      refine ⟨b ++ '{' :: (front ++ ['}']), by rw [hs, hopen]; simp, fun r' ↦ ?_⟩
      simp only [List.append_assoc, List.cons_append, List.nil_append, Parser.record,
        skipSpace_append hb, skipSpace_cons (c := '{') rfl, hfront, hall, if_true]
    · simp [failHere] at hrun
  · simp [failHere] at hrun

end Records

end BrowserTrace.Json
