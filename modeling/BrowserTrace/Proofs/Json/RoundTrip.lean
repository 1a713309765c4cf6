import BrowserTrace.Proofs.Json.Order
import BrowserTrace.Proofs.Json.Reads

/-!
# Written values are read back

A value that fits is read back with its members in order, however it is laid out (`Fits.reads`), and
so it is from its text on one line (`Fits.parse?_compact`).  The induction is on the value; the loops
over items and members are those of every reader.
-/

namespace BrowserTrace.Json

open BrowserTrace.Json.Parser

variable {depth : Nat} {v : Json} {s rest : List Char}

/-! ## Scalars -/

/-- Where neither an array nor an object begins, a scalar is read, at any depth. -/
theorem value_run_eq_scalar {c : Char} {cs : List Char} (hs : skipSpace s = c :: cs)
    (harray : c ≠ '[') (hobject : c ≠ '{') : (value depth).run s = scalar (c :: cs) := by
  cases depth with
  | zero =>
    simp only [value, hs]
    split <;> simp_all
  | succ depth =>
    simp only [value, hs]
    split <;> simp_all

theorem scalar_string (t : String) (rest : List Char) :
    scalar (quoted t ++ rest) = .ok (string t, rest) := by
  rw [quoted, List.cons_append, List.append_assoc, List.singleton_append]
  simp only [scalar, readString_toList, here, Except.map]

/-- What begins like a number is read as one. -/
theorem scalar_of_number {c : Char} (hc : BeginsNumber c) (s : List Char) :
    scalar (c :: s) =
      (here (readNumber (c :: s))).map fun (n, rest) ↦ (number n, rest) :=
  (hc.choice_eq s _ _ _ _ _ _).trans (if_pos hc)

theorem reads_value_integer {i : Int} (hmin : minInt64 ≤ i) (hmax : i ≤ (Number.maxWord : Int)) :
    Reads (value depth) (.number (.integer i)) (.number (.integer i)) := by
  rintro s _ rest hs ⟨⟩ hrest
  obtain ⟨c, cs, hcs, hc⟩ := integerText_eq_cons i
  have hnumber := readNumber_integerText hrest hmin hmax
  rw [Numeral.text, hcs] at hs
  rw [hcs] at hnumber
  rw [value_run_eq_scalar hs (hc.ne (by decide)) (hc.ne (by decide)), scalar_of_number hc]
  exact congrArg (fun result ↦ (here result).map _) hnumber

/-! ## Arrays and objects -/

theorem reads_value_array {items : List Json}
    (h : ∀ item ∈ items, Reads (value depth) item item.sorted) :
    Reads (value (depth + 1)) (.array items) (sorted (.array items)) := by
  rintro s _ rest hs (_ | _ | _ | _ | hcs) -
  have hitems : List.Forall₂ (Reads (value depth)) items (items.map sorted) :=
    List.forall₂_map_right_iff.mpr (List.forall₂_same.mpr h)
  have helements := elements_of_itemsLaidOut (i := 0) hitems hcs rest []
  rw [List.cons_append] at hs
  simp only [value, hs, helements, Except.map, List.reverse_nil, List.nil_append, sorted,
    sortedItems_eq_map]

/-- How the members of an object are gathered, the newest first. -/
def gather (depth : Nat) (acc : List (String × Json)) (key : String) :
    Except Fault (Parser (List (String × Json))) :=
  .ok ((value depth).map fun v ↦ (key, v) :: acc)

theorem membersRead_gather {ms : List (String × Json)}
    (h : ∀ m ∈ ms, Reads (value depth) m.2 m.2.sorted) (acc : List (String × Json)) :
    MembersRead (gather depth) ms acc ((sortedMembers ms).reverse ++ acc) := by
  induction ms generalizing acc with
  | nil => exact .nil acc
  | cons m ms ih =>
    obtain ⟨key, w⟩ := m
    rw [sortedMembers, List.reverse_cons, List.append_assoc]
    exact .cons rfl ((h _ List.mem_cons_self).map fun v ↦ (key, v) :: acc)
      (ih (fun m hm ↦ h m (List.mem_cons_of_mem _ hm)) _)

theorem reads_value_object {ms : List (String × Json)}
    (h : ∀ m ∈ ms, Reads (value depth) m.2 m.2.sorted) :
    Reads (value (depth + 1)) (.object ms) (sorted (.object ms)) := by
  rintro s _ rest hs (_ | _ | _ | _ | _ | hcs) -
  have hmembers := members_of_membersLaidOut (membersRead_gather h []) hcs rest
  unfold gather at hmembers
  rw [List.cons_append] at hs
  simp only [value, hs, hmembers, Except.map, List.append_nil, List.reverse_reverse, sorted]

/-! ## Values -/

/-- Every value that fits is read back. -/
theorem Fits.reads (hv : Fits depth v) : Reads (value depth) v v.sorted := by
  induction hv with
  | null =>
    rintro s _ rest hs ⟨⟩ -
    exact value_run_eq_scalar hs (by decide) (by decide)
  | bool _ b =>
    rintro s _ rest hs ⟨⟩ -
    cases b with
    | true => exact value_run_eq_scalar hs (by decide) (by decide)
    | false => exact value_run_eq_scalar hs (by decide) (by decide)
  | string _ t =>
    rintro s _ rest hs ⟨⟩ -
    exact (value_run_eq_scalar hs (by decide) (by decide)).trans (scalar_string t rest)
  | integer _ hmin hmax => exact reads_value_integer hmin hmax
  | array _ ih => exact reads_value_array ih
  | object _ _ ih => exact reads_value_object ih

/-- The text of a value that fits is that value, with its members in order. -/
theorem Fits.parse?_compact (hv : Fits maxDepth v) : parse? v.compact = some v.sorted := by
  rw [parse?, ← v.compact.append_nil]
  exact hv.reads.whole_eq (laidOut_compact v) blank_nil

end BrowserTrace.Json
