import BrowserTrace.Json.Printer
import BrowserTrace.Json.Reader

/-!
# Members in the order of their keys

A value that was read has the members of its objects in the order of their keys, so reading back
what was written gives the value with its members put in order (`Json.sorted`).  Nobody who looks
into a value by its keys can tell the two apart as long as the keys of each object are distinct
(`get?_sorted`).

`Fits depth v` says which values can be written and read back: integers of 64 bits, objects with
distinct keys, and arrays and objects nested at most `depth` deep.
-/

namespace BrowserTrace.Json

/-! ## Values in order -/

mutual

/-- The value with the members of every object in the order of their keys. -/
def sorted : Json → Json
  | array items => array (sortedItems items)
  | object members => ofMembers (sortedMembers members)
  | v => v

/-- The items, each in order. -/
def sortedItems : List Json → List Json
  | [] => []
  | item :: items => sorted item :: sortedItems items

/-- The members where they stand, the value of each in order. -/
def sortedMembers : List (String × Json) → List (String × Json)
  | [] => []
  | (key, value) :: members => (key, sorted value) :: sortedMembers members

end

@[simp] theorem sortedItems_eq_map (items : List Json) : sortedItems items = items.map sorted := by
  induction items with
  | nil => rfl
  | cons item items ih => rw [sortedItems, ih, List.map_cons]

@[simp] theorem keys_sortedMembers (members : List (String × Json)) :
    (sortedMembers members).map (·.1) = members.map (·.1) := by
  induction members with
  | nil => rfl
  | cons m members ih => rw [sortedMembers, List.map_cons, List.map_cons, ih]

theorem lookup_sortedMembers (members : List (String × Json)) (key : String) :
    (sortedMembers members).lookup key = (members.lookup key).map sorted := by
  induction members with
  | nil => rfl
  | cons m members ih =>
    rw [sortedMembers, List.lookup_cons, List.lookup_cons, ih]
    split <;> rfl

/-! ## Looking up a key -/

theorem lookup_insertMember_self (key : String) (value : Json) (members : List (String × Json)) :
    (insertMember key value members).lookup key = some value := by
  induction members with
  | nil => exact List.lookup_cons_self
  | cons m members ih =>
    rw [insertMember]
    split
    · exact List.lookup_cons_self
    split
    · exact List.lookup_cons_self
    · next hk => rw [List.lookup_cons, beq_eq_false_iff_ne.mpr hk, ih]

theorem lookup_insertMember_of_ne {key k : String} (h : k ≠ key) (value : Json)
    (members : List (String × Json)) :
    (insertMember key value members).lookup k = members.lookup k := by
  have hne : (k == key) = false := beq_eq_false_iff_ne.mpr h
  induction members with
  | nil => rw [insertMember, List.lookup_cons, hne]
  | cons m members ih =>
    rw [insertMember]
    split
    · rw [List.lookup_cons, hne]
    split
    · next hk => rw [List.lookup_cons, hne, List.lookup_cons, ← hk, hne]
    · rw [List.lookup_cons, ih, List.lookup_cons]

/-- Of members with distinct keys each is found again, whatever their order. -/
theorem lookup_foldl_insertMember {members : List (String × Json)}
    (h : (members.map (·.1)).Nodup) (acc : List (String × Json)) (k : String) :
    (members.foldl (fun sorted (key, value) ↦ insertMember key value sorted) acc).lookup k =
      (members.lookup k).or (acc.lookup k) := by
  induction members generalizing acc with
  | nil => rfl
  | cons m members ih =>
    obtain ⟨key, value⟩ := m
    rw [List.map_cons, List.nodup_cons] at h
    rw [List.foldl_cons, ih h.2, List.lookup_cons]
    by_cases hk : k = key
    · subst hk
      have hnone : members.lookup k = none := List.lookup_eq_none_iff.mpr fun m hm ↦
        bne_iff_ne.mpr fun heq ↦ h.1 (List.mem_map.mpr ⟨m, hm, heq.symm⟩)
      rw [hnone, lookup_insertMember_self, beq_self_eq_true]
      rfl
    · rw [lookup_insertMember_of_ne hk, beq_eq_false_iff_ne.mpr hk]

/-! ## What can be written and read back -/

/-- The value has integers of 64 bits only, with a sign or without, distinct keys in each of its
objects, and arrays and objects nested at most `depth` deep. -/
inductive Fits : Nat → Json → Prop
  | null (depth : Nat) : Fits depth .null
  | bool (depth : Nat) (b : Bool) : Fits depth (.bool b)
  | string (depth : Nat) (s : String) : Fits depth (.string s)
  | integer (depth : Nat) {i : Int} (hmin : minInt64 ≤ i) (hmax : i ≤ (Number.maxWord : Int)) :
    Fits depth (.number (.integer i))
  | array {depth : Nat} {items : List Json} (h : ∀ item ∈ items, Fits depth item) :
    Fits (depth + 1) (.array items)
  | object {depth : Nat} {members : List (String × Json)} (hkeys : (members.map (·.1)).Nodup)
    (h : ∀ m ∈ members, Fits depth m.2) : Fits (depth + 1) (.object members)

variable {depth : Nat} {v : Json}

/-- What stands under a key fits one level less deep. -/
theorem Fits.get? (hv : Fits depth v) {key : String} {w : Json} (hw : v.get? key = some w) :
    ∃ depth', Fits depth' w := by
  cases hv with
  | null => contradiction
  | bool => contradiction
  | string => contradiction
  | integer => contradiction
  | array => contradiction
  | @object depth' members _ h =>
    obtain ⟨before, behind, hsplit, -⟩ := List.lookup_eq_some_iff.mp hw
    exact ⟨depth', h (key, w) (hsplit ▸ List.mem_append_right before List.mem_cons_self)⟩

/-- The value under a key of a value in order is the one under that key, in order. -/
theorem Fits.get?_sorted (hv : Fits depth v) (key : String) :
    v.sorted.get? key = (v.get? key).map sorted := by
  cases hv with
  | null => rfl
  | bool => rfl
  | string => rfl
  | integer => rfl
  | array => rfl
  | @object _ members hkeys _ =>
    have hkeys' : ((sortedMembers members).map (·.1)).Nodup := by rwa [keys_sortedMembers]
    have hlookup := lookup_foldl_insertMember hkeys' [] key
    rw [lookup_sortedMembers, List.lookup_nil, Option.or_none] at hlookup
    exact hlookup

theorem isObject_sorted (v : Json) : v.sorted.isObject = v.isObject := by
  cases v <;> rfl

theorem string?_sorted (v : Json) : v.sorted.string? = v.string? := by
  cases v <;> rfl

theorem float?_sorted (v : Json) : v.sorted.float? = v.float? := by
  cases v <;> rfl

theorem Fits.stringAt?_sorted (hv : Fits depth v) (key : String) :
    v.sorted.stringAt? key = v.stringAt? key := by
  rw [stringAt?, stringAt?, hv.get?_sorted]
  cases v.get? key with
  | none => rfl
  | some w => exact string?_sorted w

end BrowserTrace.Json
