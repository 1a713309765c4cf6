import BrowserTrace.Json.Reader
import BrowserTrace.Json.Record
import BrowserTrace.Proofs.Json.Float
import BrowserTrace.Proofs.Json.LaidOut
import Mathlib.Data.List.Forall2

/-!
# What the readers make of a value

`Reads p v a` says that the reader `p` takes the value `v` for `a`, however `v` is laid out and
whatever stands behind it.  There is one lemma for each way to build a reader, and the value of a
whole type is then read by putting them together as its reader is put together.

* The loops over items and members go with the layout: `elements_of_itemsLaidOut` and
  `members_of_membersLaidOut` rest on what a single round does.
* A record is read from an object whose members fill its fields one after the other (`Fills`).
-/

namespace BrowserTrace.Json

open BrowserTrace.Json.Parser

/-! ## One round of a loop -/

section Loops

variable {α σ : Type} {s rest : List Char}

theorem elements_of_closed {item : Parser α} {i : Nat}
    (h : nextElement (i == 0) s = .ok (.closed rest)) (acc : List α) :
    elements item i s acc = .ok (acc.reverse, rest) := by
  rw [elements]
  split <;> simp_all

theorem elements_of_next {item : Parser α} {i : Nat} {a : α} {more : List Char}
    (hslot : nextElement (i == 0) s = .ok (.next more)) (hitem : item.run more = .ok (a, rest))
    (acc : List α) : elements item i s acc = elements item (i + 1) rest (a :: acc) := by
  rw [elements]
  split
  · simp_all
  · simp_all
  · split <;> simp_all

variable {read : σ → String → Except Fault (Parser σ)} {first : Bool} {state state' : σ}

theorem members_of_closed (h : nextMember first s = .ok (.closed rest)) :
    members read first s state = .ok (state, rest) := by
  rw [members]
  grind

theorem members_of_next {key : String} {value : Parser σ} {r₁ r₂ r₃ : List Char}
    (hslot : nextMember first s = .ok (.next r₁)) (hkey : readString r₁ [] = .ok (key, r₂))
    (hread : read state key = .ok value) (hcolon : readColon r₂ = .ok r₃)
    (hvalue : value.run r₃ = .ok (state', rest)) :
    members read first s state = members read false rest state' := by
  rw [members]
  grind

end Loops

/-! ## Scalars -/

/-- The reader takes `v` for `a` where `v` comes next, up to blanks, and what follows does not go on
with a number. -/
def Reads {α : Type} (p : Parser α) (v : Json) (a : α) : Prop :=
  ∀ ⦃s cs rest : List Char⦄, skipSpace s = cs ++ rest → LaidOut v cs → EndsNumber rest →
    p.run s = .ok (a, rest)

section Scalars

variable {α β : Type} {p : Parser α} {v : Json} {a : α}

theorem Reads.map (h : Reads p v a) (f : α → β) : Reads (p.map f) v (f a) := by
  intro s cs rest hs hcs hrest
  simp only [Parser.map, h hs hcs hrest]

theorem Reads.run_eq (h : Reads p v a) {cs : List Char} (hcs : LaidOut v cs) {rest : List Char}
    (hrest : EndsNumber rest) : p.run (cs ++ rest) = .ok (a, rest) := by
  obtain ⟨c, ds, rfl, hc⟩ := hcs.eq_cons
  exact h (by exact skipSpace_cons hc.not_space (ds ++ rest)) hcs hrest

theorem Reads.whole_eq (h : Reads p v a) {cs b : List Char} (hcs : LaidOut v cs) (hb : Blank b) :
    p.whole (cs ++ b) = some a := by
  have hblank : EndsNumber b := b.append_nil ▸ hb.endsNumber endsNumber_nil
  have hspace : skipSpace b = [] := by
    rw [← b.append_nil, skipSpace_append hb]
    rfl
  simp only [Parser.whole, h.run_eq hcs hblank, hspace, if_true]

theorem reads_text (t : String) : Reads text (.string t) t := by
  rintro s _ rest hs ⟨⟩ -
  rw [quoted, List.cons_append, List.append_assoc, List.singleton_append] at hs
  simp only [text, hs, readString_toList, here]

/-- A number is read if its text is, and if it is one of those that are asked for. -/
theorem reads_number {n : Numeral} {f : Numeral → Option α} (hf : f n = some a)
    (hread : ∀ rest, EndsNumber rest → readNumber (n.text ++ rest) = .ok (n, rest)) :
    Reads (Parser.number f) (.number n) a := by
  rintro s _ rest hs ⟨⟩ hrest
  obtain ⟨c, hc, hbegins⟩ := startsNumber_text n
  have hn := hread rest hrest
  rw [List.eq_cons_of_mem_head? hc, List.cons_append] at hs hn
  simp only [Parser.number, hs, if_pos (show c = '-' ∨ c.isDigit from hbegins), hn, hf]

theorem reads_integer {i : Int} (hmin : minInt64 ≤ i) (hmax : i ≤ maxInt64) :
    Reads integer (.number (.integer i)) i :=
  reads_number (n := .integer i) (if_pos ⟨hmin, hmax⟩) fun _ hrest ↦ readNumber_integerText hrest hmin
    (Int.le_trans hmax (by decide))

theorem reads_float {x : Number.Binary64} {n : Nat} (hx : x.HasMagnitude n 1)
    (hlt : n * 10 < 2 * Number.leastNormal) : Reads float (.number (.float x)) x :=
  reads_number (n := .float x) rfl fun _ hrest ↦ readNumber_floatText hrest hx hlt

theorem reads_choice {ofName? : String → Option α} {name : String} (h : ofName? name = some a) :
    Reads (choice ofName?) (.string name) a := by
  rintro s _ rest hs ⟨⟩ -
  rw [quoted, List.cons_append, List.append_assoc, List.singleton_append] at hs
  simp only [choice, hs, readString_toList, h]

/-- A value that is there is no `null`. -/
theorem Reads.option (h : Reads p v a) (hv : v ≠ .null) : Reads p.option v (some a) := by
  intro s cs rest hs hcs hrest
  simp only [Parser.option, hs]
  split
  · next heq =>
    obtain ⟨c, ds, rfl, -⟩ := hcs.eq_cons
    exact absurd (congrArg some (List.cons.inj heq).1) (hcs.head?_ne hv)
  · exact (h.map some).run_eq hcs hrest

end Scalars

/-! ## Arrays -/

section Arrays

variable {α : Type} {item : Parser α} {b b₁ b₂ : List Char}

theorem nextElement_close (hb : Blank b) (first : Bool) (s : List Char) :
    nextElement first (b ++ ']' :: s) = .ok (.closed s) := by
  rw [nextElement, skipSpace_append hb]
  rfl

theorem exists_nextElement (hb₁ : Blank b₁) (hb₂ : Blank b₂) (first : Bool) {c : Char}
    (hc : BeginsValue c) (s : List Char) :
    ∃ more, nextElement first (b₁ ++ (comma first ++ (b₂ ++ c :: s))) = .ok (.next more) ∧
      skipSpace more = c :: s := by
  have hvalue : skipSpace (b₂ ++ c :: s) = c :: s := by
    rw [skipSpace_append hb₂, skipSpace_cons hc.not_space]
  cases first with
  | true =>
    have hstart : skipSpace (b₁ ++ (comma true ++ (b₂ ++ c :: s))) = c :: s := by
      rw [skipSpace_append hb₁]
      exact hvalue
    refine ⟨c :: s, ?_, skipSpace_cons hc.not_space s⟩
    rw [nextElement, hstart]
    split
    · contradiction
    · next heq => exact absurd (List.cons.inj heq).1 hc.ne_close
    · next heq => rw [if_pos rfl, heq]
  | false =>
    have hstart : skipSpace (b₁ ++ (comma false ++ (b₂ ++ c :: s))) = ',' :: (b₂ ++ c :: s) := by
      rw [skipSpace_append hb₁]
      rfl
    refine ⟨b₂ ++ c :: s, ?_, hvalue⟩
    rw [nextElement, hstart]
    split
    · contradiction
    · next heq => exact absurd (List.cons.inj heq).1 (by decide)
    · next heq =>
      obtain ⟨rfl, rfl⟩ := List.cons.inj heq
      rw [if_neg Bool.false_ne_true, if_pos rfl, hvalue]
      split
      · contradiction
      · next heq => exact absurd (List.cons.inj heq).1 hc.ne_close
      · rfl

/-- The items of an array are read one by one behind those before them. -/
theorem elements_of_itemsLaidOut {vs : List Json} {as : List α}
    (h : List.Forall₂ (Reads item) vs as) {i : Nat} {cs : List Char}
    (hcs : ItemsLaidOut (i == 0) vs cs) (rest : List Char) (acc : List α) :
    elements item i (cs ++ rest) acc = .ok (acc.reverse ++ as, rest) := by
  induction h generalizing i cs acc with
  | nil =>
    cases hcs with
    | nil hb =>
      rw [List.append_assoc, List.append_nil]
      exact elements_of_closed (nextElement_close hb _ rest) acc
  | @cons v a vs as hitem _ ih =>
    cases hcs with
    | @cons _ _ _ b₁ b₂ cs ds hb₁ hb₂ hv hitems =>
      obtain ⟨c, ds', rfl, hc⟩ := hv.eq_cons
      obtain ⟨more, hslot, hmore⟩ := exists_nextElement hb₁ hb₂ (i == 0) hc (ds' ++ (ds ++ rest))
      have hrun := @hitem _ (c :: ds') _ hmore hv (hitems.endsNumber rest)
      simp only [List.append_assoc, List.cons_append]
      rw [elements_of_next hslot hrun, ih (i := i + 1) hitems, List.reverse_cons, List.append_assoc]
      rfl

theorem Reads.list {vs : List Json} {as : List α} (h : List.Forall₂ (Reads item) vs as) :
    Reads item.list (.array vs) as := by
  rintro s _ rest hs (_ | _ | _ | _ | hcs) -
  rw [List.cons_append] at hs
  simp only [Parser.list, hs]
  exact elements_of_itemsLaidOut (i := 0) h hcs rest []

/-- Items that are read one by one are read as a list. -/
theorem Reads.list_map {f : α → Json} {as : List α} (h : ∀ a ∈ as, Reads item (f a) a) :
    Reads item.list (.array (as.map f)) as :=
  Reads.list (List.forall₂_map_left_iff.mpr (List.forall₂_same.mpr h))

end Arrays

/-! ## Objects -/

section Objects

variable {σ : Type} {read : σ → String → Except Fault (Parser σ)} {b b₁ b₂ : List Char}

/-- The members are read one after the other, and so lead from a state to another. -/
inductive MembersRead (read : σ → String → Except Fault (Parser σ)) :
    List (String × Json) → σ → σ → Prop
  | nil (state : σ) : MembersRead read [] state state
  | cons {key : String} {v : Json} {members : List (String × Json)} {value : Parser σ}
    {state state₁ state₂ : σ} (hread : read state key = .ok value) (hvalue : Reads value v state₁)
    (hmembers : MembersRead read members state₁ state₂) :
    MembersRead read ((key, v) :: members) state state₂

theorem nextMember_close (hb : Blank b) (first : Bool) (s : List Char) :
    nextMember first (b ++ '}' :: s) = .ok (.closed s) := by
  rw [nextMember, skipSpace_append hb]
  rfl

theorem nextMember_quote (hb₁ : Blank b₁) (hb₂ : Blank b₂) (first : Bool) (s : List Char) :
    nextMember first (b₁ ++ (comma first ++ (b₂ ++ '"' :: s))) = .ok (.next s) := by
  have hkey : skipSpace (b₂ ++ '"' :: s) = '"' :: s := by
    rw [skipSpace_append hb₂, skipSpace_cons (by decide)]
  rw [nextMember, skipSpace_append hb₁]
  cases first with
  | true =>
    rw [show comma true ++ (b₂ ++ '"' :: s) = b₂ ++ '"' :: s from rfl, hkey]
    rfl
  | false =>
    rw [show skipSpace (comma false ++ (b₂ ++ '"' :: s)) = ',' :: (b₂ ++ '"' :: s) from rfl]
    split
    · contradiction
    · next heq => exact absurd (List.cons.inj heq).1 (by decide)
    · next heq =>
      obtain ⟨rfl, rfl⟩ := List.cons.inj heq
      rw [if_neg Bool.false_ne_true, if_pos rfl, hkey]
      rfl

theorem readColon_append (hb : Blank b) (s : List Char) : readColon (b ++ ':' :: s) = .ok s := by
  rw [readColon, skipSpace_append hb]
  rfl

/-- The members of an object are read one by one. -/
theorem members_of_membersLaidOut {ms : List (String × Json)} {state state' : σ}
    (h : MembersRead read ms state state') {first : Bool} {cs : List Char}
    (hcs : MembersLaidOut first ms cs) (rest : List Char) :
    members read first (cs ++ rest) state = .ok (state', rest) := by
  induction h generalizing first cs with
  | nil =>
    cases hcs with
    | nil hb =>
      rw [List.append_assoc]
      exact members_of_closed (nextMember_close hb _ rest)
  | @cons key v members value _ _ _ hread hvalue _ ih =>
    cases hcs with
    | @cons _ _ _ _ b₁ b₂ b₃ b₄ cs ds hb₁ hb₂ hb₃ hb₄ hv hmembers =>
      have hspace : skipSpace (b₄ ++ (cs ++ (ds ++ rest))) = cs ++ (ds ++ rest) := by
        obtain ⟨c, ds', rfl, hc⟩ := hv.eq_cons
        rw [skipSpace_append hb₄, List.cons_append, skipSpace_cons hc.not_space]
      simp only [quoted, List.append_assoc, List.cons_append, List.nil_append]
      rw [members_of_next (nextMember_quote hb₁ hb₂ first _) (readString_toList key _) hread
        (readColon_append hb₃ _) (hvalue hspace hv (hmembers.endsNumber rest))]
      exact ih hmembers

end Objects

/-! ## Records -/

section Records

variable {σ : Type} {fields : List (RecordField σ)} {ms ms' : List (String × Json)} {r r' r'' : σ}

/-- The members are fields of a record, and reading their values one after the other makes one
record out of another. -/
inductive Fills (fields : List (RecordField σ)) : List (String × Json) → σ → σ → Prop
  | nil (r : σ) : Fills fields [] r r
  | cons {key : String} {v : Json} {ms : List (String × Json)} {field : RecordField σ}
    {set : σ → σ} {r r' : σ} (hfield : fields.find? (·.name == key) = some field)
    (hvalue : Reads field.value v set) (hms : Fills fields ms (set r) r') :
    Fills fields ((key, v) :: ms) r r'

theorem Fills.append (h : Fills fields ms r r') (h' : Fills fields ms' r' r'') :
    Fills fields (ms ++ ms') r r'' := by
  induction h with
  | nil => exact h'
  | cons hfield hvalue _ ih => exact .cons hfield hvalue (ih h')

theorem Fills.membersRead (h : Fills fields ms r r') (names : List String)
    (hkeys : (ms.map (·.1)).Nodup) (hnew : ∀ key ∈ ms.map (·.1), key ∉ names) :
    MembersRead (fieldOf fields) ms (names, r) ((ms.map (·.1)).reverse ++ names, r') := by
  induction h generalizing names with
  | nil => exact .nil _
  | @cons key v ms field set r r' hfield hvalue _ ih =>
    rw [List.map_cons, List.nodup_cons] at hkeys
    have hkey : names.contains key = false := by
      rw [List.contains_eq_mem, decide_eq_false (hnew key List.mem_cons_self)]
    have hread : fieldOf fields (names, r) key =
        .ok (field.value.map fun set ↦ (key :: names, set r)) := by
      simp only [fieldOf, hfield, hkey, Bool.false_eq_true, if_false]
    have hms := ih (key :: names) hkeys.2 fun k hk hmem ↦ by
      rcases List.mem_cons.mp hmem with rfl | hmem
      · exact hkeys.1 hk
      · exact hnew k (List.mem_cons_of_mem key hk) hmem
    rw [List.map_cons, List.reverse_cons, List.append_assoc]
    exact .cons hread (hvalue.map fun set ↦ (key :: names, set r)) hms

/-- The keys of the members of a value that is an object. -/
def keys? (v : Json) : Option (List String) := v.members?.map (·.map Prod.fst)

/-- A record is read from an object whose members fill its fields, each at most once, and leave out
none that must be there. -/
theorem Reads.record (h : Fills fields ms r r') {keys : List String}
    (hkeys : keys? (.object ms) = some keys) (hnodup : keys.Nodup)
    (hrequired : (fields.filter (·.required)).map (·.name) ⊆ keys) :
    Reads (Parser.record fields r) (.object ms) r' := by
  obtain rfl : ms.map Prod.fst = keys := Option.some.inj hkeys
  rintro s _ rest hs (_ | _ | _ | _ | _ | hcs) -
  have hmembers := members_of_membersLaidOut
    (h.membersRead [] hnodup fun _ _ ↦ List.not_mem_nil) hcs rest
  have hall : (fields.all fun field ↦
      !field.required || ((ms.map Prod.fst).reverse ++ []).contains field.name) = true := by
    rw [List.all_eq_true]
    intro field hfield
    cases hneeded : field.required with
    | false => rfl
    | true =>
      have hkey := hrequired (List.mem_map_of_mem (List.mem_filter.mpr ⟨hfield, hneeded⟩))
      rw [List.append_nil, List.contains_eq_mem]
      exact decide_eq_true (List.mem_reverse.mpr hkey)
  rw [List.cons_append] at hs
  simp only [Parser.record, hs, hmembers, hall, if_true]

end Records

end BrowserTrace.Json
