import BrowserTrace.Proofs.Json.Order
import BrowserTrace.Proofs.Lookup

/-!
# Paths into a value, and edits

A path of keys leads through objects to a value (`Json.at?`).  An edit gives the last key of a path
another value, or takes the key away (`Json.edit`); where the path leads through anything but
objects, it changes nothing.  What an edit does is told by comparing the two paths:

* a path that neither begins the other leads to what it led to before (`at?_edit_of_parted`);
* a path that leads only part of the way to the edit leads to a value of the same type
  (`kind_at?_edit`);
* a path through a key that is taken away leads nowhere (`at?_edit_none`).
-/

namespace BrowserTrace.Json

/-! ## Types -/

/-- The types of JSON values. -/
inductive Kind where
  | null
  | bool
  | number
  | string
  | array
  | object
deriving DecidableEq, Repr

/-- The type of a value. -/
def kind : Json → Kind
  | null => .null
  | bool _ => .bool
  | number _ => .number
  | string _ => .string
  | array _ => .array
  | object _ => .object

variable {v w : Json} {key k : String} {value : Option Json} {path other : List String}

theorem kind_eq_object_iff : v.kind = .object ↔ ∃ members, v = .object members := by
  cases v <;> simp [kind]

theorem isObject_iff_kind : v.isObject = true ↔ v.kind = .object := by
  cases v <;> simp [isObject, members?, kind]

theorem kind_of_get? (h : v.get? key = some w) : v.kind = .object := by
  cases v with
  | object members => rfl
  | null | bool | number | string | array => contradiction

/-! ## Paths -/

/-- The value that a path of keys leads to, through objects only. -/
def at? (v : Json) : List String → Option Json
  | [] => some v
  | key :: path => (v.get? key).bind (at? · path)

@[simp] theorem at?_nil (v : Json) : v.at? [] = some v := rfl

theorem at?_cons (v : Json) (key : String) (path : List String) :
    v.at? (key :: path) = (v.get? key).bind (at? · path) := rfl

@[simp] theorem at?_singleton (v : Json) (key : String) : v.at? [key] = v.get? key :=
  Option.bind_fun_some _

theorem at?_append (v : Json) (path other : List String) :
    v.at? (path ++ other) = (v.at? path).bind (at? · other) := by
  induction path generalizing v with
  | nil => rfl
  | cons key path ih =>
    rw [List.cons_append, at?_cons, at?_cons, Option.bind_assoc]
    exact Option.bind_congr fun w _ ↦ ih w

/-- The last step to a value is one into an object. -/
theorem object_of_at?_concat (h : v.at? (path ++ [key]) = some w) :
    ∃ members, v.at? path = some (.object members) := by
  rw [at?_append] at h
  obtain ⟨u, hu, hget⟩ := Option.bind_eq_some_iff.mp h
  rw [at?_singleton] at hget
  obtain ⟨members, rfl⟩ := kind_eq_object_iff.mp (kind_of_get? hget)
  exact ⟨members, hu⟩

/-! ## A key of an object -/

/-- The object with this value under a key, or without the key. -/
def set (key : String) (value : Option Json) : Json → Json
  | object members =>
    match value with
    | some x => object (insertMember key x members)
    | none => object (members.filter (·.1 != key))
  | v => v

@[simp] theorem kind_set (key : String) (value : Option Json) (v : Json) :
    (v.set key value).kind = v.kind := by
  cases v with
  | object members => cases value <;> rfl
  | null | bool | number | string | array => rfl

theorem get?_set_of_ne (h : k ≠ key) (value : Option Json) (v : Json) :
    (v.set key value).get? k = v.get? k := by
  cases v with
  | object members =>
    cases value with
    | some x => exact lookup_insertMember_of_ne h x members
    | none => exact Lookup.lookup_filter (p := (· != key)) (bne_iff_ne.mpr h) members
  | null | bool | number | string | array => rfl

theorem get?_set_none (key : String) (v : Json) : (v.set key none).get? key = none := by
  cases v with
  | object members =>
    refine List.lookup_eq_none_iff.mpr fun m hm ↦ bne_iff_ne.mpr ?_
    exact Ne.symm (bne_iff_ne.mp (List.mem_filter.mp hm).2)
  | null | bool | number | string | array => rfl

theorem get?_set_map (f : Json → Json) (key : String) (v : Json) :
    (v.set key ((v.get? key).map f)).get? key = (v.get? key).map f := by
  cases hget : v.get? key with
  | none => exact get?_set_none key v
  | some w =>
    obtain ⟨members, rfl⟩ := kind_eq_object_iff.mp (kind_of_get? hget)
    exact lookup_insertMember_self key (f w) members

/-! ## Edits at a path -/

/-- The value with another value at the end of a path, or with nothing there. -/
def edit (value : Option Json) : List String → Json → Json
  | [], v => v
  | [key], v => v.set key value
  | key :: next :: path, v => v.set key ((v.get? key).map (edit value (next :: path)))

@[simp] theorem kind_edit (value : Option Json) (path : List String) (v : Json) :
    (v.edit value path).kind = v.kind := by
  fun_cases edit value path v with
  | case1 => rfl
  | case2 => exact kind_set _ _ _
  | case3 => exact kind_set _ _ _

theorem get?_edit_of_ne (h : k ≠ key) (value : Option Json) (path : List String) (v : Json) :
    (v.edit value (key :: path)).get? k = v.get? k := by
  cases path with
  | nil => exact get?_set_of_ne h _ _
  | cons next path => exact get?_set_of_ne h _ _

/-- A path that parts from that of an edit leads to what it led to before. -/
theorem at?_edit_of_parted (value : Option Json) (hpath : ¬ path <+: other)
    (hother : ¬ other <+: path) (v : Json) : (v.edit value path).at? other = v.at? other := by
  induction path generalizing v other with
  | nil => exact absurd List.nil_prefix hpath
  | cons key path ih =>
    cases other with
    | nil => exact absurd List.nil_prefix hother
    | cons k other =>
      rw [at?_cons, at?_cons]
      by_cases hk : k = key
      · subst hk
        rw [List.cons_prefix_cons, not_and] at hpath hother
        cases path with
        | nil => exact absurd List.nil_prefix (hpath rfl)
        | cons next path =>
          rw [edit, get?_set_map, Option.bind_map]
          exact Option.bind_congr fun w _ ↦ ih (hpath rfl) (hother rfl) w
      · rw [get?_edit_of_ne hk]

/-- A path that does not reach the edit leads to a value of the same type as before. -/
theorem kind_at?_edit (value : Option Json) (h : ¬ path <+: other) (v : Json) :
    ((v.edit value path).at? other).map kind = (v.at? other).map kind := by
  by_cases hother : other <+: path
  · induction other generalizing v path with
    | nil => exact congrArg some (kind_edit value path v)
    | cons k other ih =>
      cases path with
      | nil => exact absurd List.nil_prefix h
      | cons key path =>
        rw [List.cons_prefix_cons] at h hother
        obtain ⟨rfl, hother⟩ := hother
        cases path with
        | nil => exact absurd ⟨rfl, List.nil_prefix⟩ h
        | cons next path =>
          rw [at?_cons, at?_cons, edit, get?_set_map]
          cases v.get? k with
          | none => rfl
          | some w => exact ih (fun hpath ↦ h ⟨rfl, hpath⟩) w hother
  · rw [at?_edit_of_parted value h hother]

/-- A path through a key that was taken away leads nowhere. -/
theorem at?_edit_none (hne : path ≠ []) (h : path <+: other) (v : Json) :
    (v.edit none path).at? other = none := by
  induction path generalizing v other with
  | nil => contradiction
  | cons key path ih =>
    cases other with
    | nil => exact absurd (List.prefix_nil.mp h) hne
    | cons k other =>
      obtain ⟨rfl, hpath⟩ := List.cons_prefix_cons.mp h
      rw [at?_cons]
      cases path with
      | nil =>
        rw [edit, get?_set_none]
        rfl
      | cons next path =>
        rw [edit, get?_set_map, Option.bind_map]
        refine Option.bind_eq_none_iff.mpr fun w _ ↦ ih (List.cons_ne_nil _ _) hpath w

end BrowserTrace.Json
