import BrowserTrace.Proofs.Event.Fields

/-!
# What may be left out of a network event

A network event is read part by part.  So two things can be left out of it, or changed in it:

* a key that is not read (`Edit.Unread`), of any of the four objects that an event consists of;
* a field of the wrong type, which counts as absent.

There is one exception to the second.  A pointer to a body should be an object, but a list of up to
two texts is read as one, too (`Json.ListsPointer`): such a list counts, although it is of the wrong
type.

Both are shown on the fields of the event.  Values of a field agree (`Field.Agree`) if the snapshot
cannot tell them apart; of the response it sees only whether it is an object, since what stands in
it are fields of their own.
-/

namespace BrowserTrace

open Snapshot (Field)

/-! ## Values that a snapshot cannot tell apart -/

namespace Snapshot

/-- The values of a field are equal, or both are responses of the same type. -/
def Field.Agree (f : Field) (x y : Option Json) : Prop :=
  x.map Json.kind = y.map Json.kind ∧ (f ≠ .response → x = y)

theorem Field.Agree.refl (f : Field) (x : Option Json) : f.Agree x x := ⟨rfl, fun _ ↦ rfl⟩

theorem Field.Agree.trans {f : Field} {x y z : Option Json} (hxy : f.Agree x y)
    (hyz : f.Agree y z) : f.Agree x z :=
  ⟨hxy.1.trans hyz.1, fun hf ↦ (hxy.2 hf).trans (hyz.2 hf)⟩

theorem Field.Agree.isObject_eq {f : Field} {x y : Option Json} (h : f.Agree x y) {α : Type}
    (a : α) :
    (x.filter Json.isObject).map (fun _ ↦ a) = (y.filter Json.isObject).map (fun _ ↦ a) := by
  have hkind (z : Option Json) : (z.filter Json.isObject).map (fun _ ↦ a) =
      ((z.map Json.kind).filter (· == .object)).map (fun _ ↦ a) := by
    cases z with
    | none => rfl
    | some w => cases w <;> rfl
  rw [hkind x, hkind y, h.1]

theorem ofFields_congr {x y : Field → Option Json} (h : ∀ f : Field, f.Agree (x f) (y f)) :
    ofFields x = ofFields y := by
  have heq (f : Field) (hf : decide (f ≠ .response) = true) : x f = y f :=
    (h f).2 (of_decide_eq_true hf)
  rw [ofFields, ofFields, heq .time rfl, heq .resourceType rfl, heq .resourceTypeAlias rfl,
    heq .method rfl, heq .url rfl, heq .postData rfl, heq .status rfl, heq .content rfl,
    (h .response).isObject_eq]

end Snapshot

/-! ## Fields of the wrong type -/

section WrongType

variable {v : Json}

theorem Json.float?_of_kind_ne (h : v.kind ≠ .number) : v.float? = none := by
  cases v with
  | number n => exact absurd rfl h
  | null | bool | string | array | object => rfl

theorem Json.string?_of_kind_ne (h : v.kind ≠ .string) : v.string? = none := by
  cases v with
  | string s => exact absurd rfl h
  | null | bool | number | array | object => rfl

theorem Snapshot.statusIn?_of_kind_ne (h : v.kind ≠ .number) : statusIn? v = none := by
  cases v with
  | number n => exact absurd rfl h
  | null | bool | string | array | object => rfl

end WrongType

namespace Snapshot

/-- The values of fields, without those of some. -/
def hide (fields : List Field) (look : Field → Option Json) (f : Field) : Option Json :=
  if f ∈ fields then none else look f

theorem Field.kind_of_isPointer {f : Field} (h : f.isPointer) : f.kind = .object := by
  cases f with
  | postData | content => rfl
  | time | resourceType | resourceTypeAlias | method | url | response | status => contradiction

section Hide

variable {fields : List Field} {look : Field → Option Json} {f : Field}

/-- Hiding a field changes nothing for a reader that finds nothing in it. -/
theorem bind_hide {α : Type} {read : Json → Option α}
    (h : f ∈ fields → ∀ x, look f = some x → read x = none) :
    (hide fields look f).bind read = (look f).bind read := by
  unfold hide
  split
  · next hf =>
    cases hx : look f with
    | none => rfl
    | some x => exact (h hf x hx).symm
  · rfl

variable (hwrong : ∀ f ∈ fields, ∀ x, look f = some x → x.kind ≠ f.kind)

include hwrong

/-- A pointer of the wrong type is missed exactly if it is written as a list. -/
theorem bind_hide_pointer_iff (hpointer : f.isPointer) :
    (hide fields look f).bind PayloadRef.ofJson? = (look f).bind PayloadRef.ofJson? ↔
      (f ∈ fields → ∀ x, look f = some x → ¬ x.ListsPointer) := by
  have hlists (hf : f ∈ fields) (x : Json) (hx : look f = some x) :
      PayloadRef.ofJson? x = none ↔ ¬ x.ListsPointer := by
    rw [← PayloadRef.exists_ofJson?_iff (Field.kind_of_isPointer hpointer ▸ hwrong f hf x hx),
      ← Option.ne_none_iff_exists', not_not]
  constructor
  · intro heq hf x hx
    rw [hide, if_pos hf, hx] at heq
    exact (hlists hf x hx).mp heq.symm
  · intro h
    exact bind_hide fun hf x hx ↦ (hlists hf x hx).mpr (h hf x hx)

theorem filter_hide_response :
    (hide fields look .response).filter Json.isObject =
      (look .response).filter Json.isObject := by
  unfold hide
  split
  · next hf =>
    cases hx : look .response with
    | none => rfl
    | some x =>
      have hobject : ¬ x.isObject = true := fun h ↦ hwrong _ hf x hx (Json.isObject_iff_kind.mp h)
      rw [Option.filter_some, if_neg hobject, Option.filter_none]
  · rfl

/-- Hiding fields of the wrong type leaves a snapshot as it is unless one of them is a pointer that
is written as a list. -/
theorem ofFields_hide_eq_iff
    (hcontent : ∀ x, look .content = some x → ∃ members, look .response = some (.object members)) :
    ofFields (hide fields look) = ofFields look ↔
      ∀ f ∈ fields, f.isPointer → ∀ x, look f = some x → ¬ x.ListsPointer := by
  have hresponse := filter_hide_response hwrong
  constructor
  · intro heq
    have hpost := (bind_hide_pointer_iff hwrong (f := .postData) rfl).mp
      (congrArg Snapshot.postData heq)
    have hcont := (bind_hide_pointer_iff hwrong (f := .content) rfl).mp <| by
      cases hx : look .content with
      | none => simp [hide, hx]
      | some x =>
        -- A response with a content is an object, so the snapshot has it with its content.
        obtain ⟨members, hobject⟩ := hcontent x hx
        have hresponses := congrArg Snapshot.response heq
        simp only [ofFields, hresponse, hobject] at hresponses
        rw [← hx]
        exact congrArg Response.content (Option.some.inj hresponses)
    intro f hf hpointer
    cases f with
    | postData => exact hpost hf
    | content => exact hcont hf
    | time | resourceType | resourceTypeAlias | method | url | response | status => contradiction
  · intro h
    have hstring (f : Field) (hkind : f.kind = .string) :
        (hide fields look f).bind Json.string? = (look f).bind Json.string? :=
      bind_hide fun hf x hx ↦ Json.string?_of_kind_ne (hkind ▸ hwrong f hf x hx)
    rw [ofFields, ofFields, hresponse, hstring _ rfl, hstring _ rfl, hstring _ rfl, hstring _ rfl,
      bind_hide fun hf x hx ↦ Json.float?_of_kind_ne (hwrong _ hf x hx),
      bind_hide fun hf x hx ↦ statusIn?_of_kind_ne (hwrong _ hf x hx),
      (bind_hide_pointer_iff hwrong (f := .postData) rfl).mpr fun hf ↦ h _ hf rfl,
      (bind_hide_pointer_iff hwrong (f := .content) rfl).mpr fun hf ↦ h _ hf rfl]

end Hide

end Snapshot

/-! ## Deleting fields -/

namespace Snapshot

section Agree

variable {x y : Field → Option Json} {f : Field}

theorem Field.Agree.hide (fields : List Field) (h : f.Agree (x f) (y f)) :
    f.Agree (hide fields x f) (hide fields y f) := by
  unfold Snapshot.hide
  split
  · exact .refl f none
  · exact h

theorem hide_hide (f : Field) (fields : List Field) (look : Field → Option Json) :
    hide fields (hide [f] look) = hide (f :: fields) look := by
  funext g
  by_cases hg : g ∈ fields
  · simp [hide, hg]
  · simp [hide, hg]

/-- A value that agrees with one of the wrong type is of the wrong type. -/
theorem Field.Agree.kind_ne (h : f.Agree (x f) (y f)) (hy : ∀ w, y f = some w → w.kind ≠ f.kind) :
    ∀ w, x f = some w → w.kind ≠ f.kind := by
  intro w hw
  have hkind : (y f).map Json.kind = some w.kind := by rw [← h.1, hw, Option.map_some]
  obtain ⟨w', hw', heq⟩ := Option.map_eq_some_iff.mp hkind
  exact heq ▸ hy w' hw'

end Agree

/-- Only the response has fields in it. -/
theorem Field.eq_response_of_prefix {f g : Field} (h : f.path <+: g.path) (hne : f ≠ g) :
    f = .response ∧ ∃ key, g.path = Field.response.path ++ [key] := by
  cases f <;> cases g <;> simp_all [path]

end Snapshot

namespace Json

variable {v : Json} {f g : Field} {value : Option Json} {path : List String}

/-- What the response holds is not there if the response is no object. -/
theorem field?_eq_none_of_response {key : String} (hg : g.path = Field.response.path ++ [key])
    (h : ∀ x, v.field? .response = some x → x.kind ≠ .object) : v.field? g = none := by
  by_contra hne
  obtain ⟨x, hx⟩ := Option.ne_none_iff_exists'.mp hne
  obtain ⟨members, hobject⟩ := object_of_field? hg hx
  exact h _ hobject rfl

/-- Deleting a field of the wrong type hides it and nothing else. -/
theorem agree_edit_none (h : ∀ x, v.field? f = some x → x.kind ≠ f.kind) (g : Field) :
    g.Agree ((v.edit none f.path).field? g) (Snapshot.hide [f] v.field? g) := by
  have hne : f.path ≠ [] := by cases f <;> exact List.cons_ne_nil _ _
  by_cases hg : g = f
  · subst hg
    rw [field?, at?_edit_none hne (List.prefix_refl _)]
    exact ⟨by simp [Snapshot.hide], fun _ ↦ by simp [Snapshot.hide]⟩
  · have hhide : Snapshot.hide [f] v.field? g = v.field? g := if_neg (by simpa using hg)
    rw [hhide]
    by_cases hprefix : f.path <+: g.path
    · -- The response is deleted, and nothing was in it.
      obtain ⟨rfl, key, hkey⟩ := Field.eq_response_of_prefix hprefix (Ne.symm hg)
      rw [field?, at?_edit_none hne hprefix, field?_eq_none_of_response hkey h]
      exact .refl g none
    · refine ⟨kind_at?_edit none hprefix v, fun hresponse ↦ at?_edit_of_parted none hprefix ?_ v⟩
      exact fun h ↦ hresponse (Field.eq_response_of_prefix h hg).1

theorem IsNetworkEvent.edit (hv : v.IsNetworkEvent) (htype : ¬ path <+: ["type"])
    (hbehind : ¬ ["type"] <+: path) (hrequest : ¬ path <+: ["snapshot", "request"]) :
    (v.edit value path).IsNetworkEvent where
  type_eq := (at?_edit_of_parted value htype hbehind v).trans hv.type_eq
  request := by
    obtain ⟨members, hmembers⟩ := hv.request
    have hkind := kind_at?_edit value hrequest v
    rw [hmembers, Option.map_some] at hkind
    obtain ⟨w, hw, hobject⟩ := Option.map_eq_some_iff.mp hkind
    obtain ⟨members', rfl⟩ := kind_eq_object_iff.mp hobject
    exact ⟨members', hw⟩

theorem IsNetworkEvent.edit_field (hv : v.IsNetworkEvent) (f : Field) :
    (v.edit value f.path).IsNetworkEvent := by
  refine hv.edit ?_ ?_ ?_
  all_goals cases f <;> simp [Field.path]

/-- The value with these fields deleted. -/
def without (v : Json) (fields : List Field) : Json :=
  fields.foldl (fun v f ↦ v.edit none f.path) v

theorem IsNetworkEvent.without (hv : v.IsNetworkEvent) (fields : List Field) :
    (v.without fields).IsNetworkEvent := by
  induction fields generalizing v with
  | nil => exact hv
  | cons f fields ih => exact ih (hv.edit_field f)

/-- Deleting fields of the wrong type hides them and nothing else. -/
theorem agree_without {fields : List Field}
    (h : ∀ f ∈ fields, ∀ x, v.field? f = some x → x.kind ≠ f.kind) (g : Field) :
    g.Agree ((v.without fields).field? g) (Snapshot.hide fields v.field? g) := by
  induction fields generalizing v with
  | nil => exact .refl g _
  | cons f fields ih =>
    rw [List.forall_mem_cons] at h
    have hstep (g : Field) := agree_edit_none h.1 g
    have hwrong : ∀ f' ∈ fields, ∀ x, (v.edit none f.path).field? f' = some x →
        x.kind ≠ f'.kind := by
      intro f' hf'
      refine (hstep f').kind_ne fun x hx ↦ h.2 f' hf' x ?_
      unfold Snapshot.hide at hx
      split at hx
      · contradiction
      · exact hx
    rw [← Snapshot.hide_hide]
    exact (ih hwrong).trans ((hstep g).hide fields)

end Json

/-! ## Changing what is not read -/

/-- The objects that a network event consists of. -/
inductive Part where
  | event
  | snapshot
  | request
  | response
deriving DecidableEq, Repr

namespace Part

/-- Where a part stands. -/
def path : Part → List String
  | event => []
  | snapshot => ["snapshot"]
  | request => ["snapshot", "request"]
  | response => ["snapshot", "response"]

/-- The keys of a part that are read. -/
def keys : Part → List String
  | event => ["type", "snapshot"]
  | snapshot => ["request", "time", "_resourceType", "resourceType", "response"]
  | request => ["method", "url", "postData"]
  | response => ["status", "content"]

end Part

/-- Another value for a key of a part, or none. -/
structure Edit where
  part : Part
  key : String
  value : Option Json

namespace Edit

/-- The path of the key that is changed. -/
def path (e : Edit) : List String := e.part.path ++ [e.key]

/-- The key is none of those that are read. -/
def Unread (e : Edit) : Prop := e.key ∉ e.part.keys

variable {e : Edit} {f : Field}

theorem Unread.not_prefix (h : e.Unread) (f : Field) : ¬ e.path <+: f.path := by
  obtain ⟨part, key, value⟩ := e
  cases part <;> cases f <;> simp_all [Unread, path, Part.path, Part.keys, Field.path]

theorem Unread.not_prefix_of_ne (h : e.Unread) (hf : f ≠ .response) : ¬ f.path <+: e.path := by
  rw [path, List.prefix_concat_iff, not_or]
  constructor
  · intro heq
    exact h.not_prefix f (heq ▸ List.prefix_refl _)
  · cases e.part <;> cases f <;> simp_all [Part.path, Field.path]

end Edit

namespace Json

variable {v : Json}

/-- The value after some edits. -/
def revise (v : Json) (edits : List Edit) : Json :=
  edits.foldl (fun v e ↦ v.edit e.value e.path) v

theorem agree_edit_of_unread {e : Edit} (h : e.Unread) (f : Field) :
    f.Agree ((v.edit e.value e.path).field? f) (v.field? f) :=
  ⟨kind_at?_edit e.value (h.not_prefix f) v,
    fun hf ↦ at?_edit_of_parted e.value (h.not_prefix f) (h.not_prefix_of_ne hf) v⟩

theorem IsNetworkEvent.edit_unread {e : Edit} (hv : v.IsNetworkEvent) (h : e.Unread) :
    (v.edit e.value e.path).IsNetworkEvent := by
  have htype : ¬ e.path <+: ["type"] := by
    obtain ⟨part, key, value⟩ := e
    cases part <;> simp_all [Edit.Unread, Edit.path, Part.path, Part.keys]
  refine hv.edit htype ?_ ?_
  · rw [Edit.path, List.prefix_concat_iff, not_or]
    refine ⟨fun heq ↦ htype (heq ▸ List.prefix_refl _), ?_⟩
    cases e.part <;> simp [Part.path]
  · obtain ⟨part, key, value⟩ := e
    cases part <;> simp_all [Edit.Unread, Edit.path, Part.path, Part.keys]

end Json

/-! ## What counts -/

section Lenient

variable {v : Json}

theorem Event.ofJson?_of_isNetworkEvent (hv : v.IsNetworkEvent) :
    Event.ofJson? v = some (.snapshot (.ofFields v.field?)) :=
  Event.ofJson?_eq_snapshot_iff.mpr ⟨hv, rfl⟩

/-- An edit of a key that is not read leaves a network event as it is. -/
theorem Event.ofJson?_edit_of_unread {e : Edit} (hv : v.IsNetworkEvent) (h : e.Unread) :
    Event.ofJson? (v.edit e.value e.path) = Event.ofJson? v := by
  rw [ofJson?_of_isNetworkEvent (hv.edit_unread h), ofJson?_of_isNetworkEvent hv,
    Snapshot.ofFields_congr (Json.agree_edit_of_unread h)]

/-- Edits of keys that are not read leave a network event as it is. -/
theorem Event.ofJson?_revise {edits : List Edit} (hv : v.IsNetworkEvent)
    (h : ∀ e ∈ edits, e.Unread) : Event.ofJson? (v.revise edits) = Event.ofJson? v := by
  induction edits generalizing v with
  | nil => rfl
  | cons e edits ih =>
    rw [List.forall_mem_cons] at h
    exact (ih (hv.edit_unread h.1) h.2).trans (ofJson?_edit_of_unread hv h.1)

/-- **Fields of the wrong type count as absent.**  Deleting any fields of the wrong type from a
network event leaves what is read from it as it is, exactly if none of them is a pointer to a body
that is written as a list of up to two texts.  Giving keys that are not read other values, adding
and removing them changes nothing at all. -/
theorem Event.wrong_types_count_as_absent (hv : v.IsNetworkEvent) :
    (∀ fields : List Field, (∀ f ∈ fields, ∀ x, v.field? f = some x → x.kind ≠ f.kind) →
      (Event.ofJson? (v.without fields) = Event.ofJson? v ↔
        ∀ f ∈ fields, f.isPointer → ∀ x, v.field? f = some x → ¬ x.ListsPointer)) ∧
    ∀ edits : List Edit, (∀ e ∈ edits, e.Unread) →
      Event.ofJson? (v.revise edits) = Event.ofJson? v := by
  refine ⟨fun fields hwrong ↦ ?_, fun edits ↦ ofJson?_revise hv⟩
  rw [← Snapshot.ofFields_hide_eq_iff hwrong fun x ↦ Json.object_of_field? rfl,
    ofJson?_of_isNetworkEvent (hv.without fields), ofJson?_of_isNetworkEvent hv,
    Snapshot.ofFields_congr (Json.agree_without hwrong), Option.some.injEq, Event.snapshot.injEq]

end Lenient

namespace Sample

/-- A network event with a time and a status that are texts, and with a list for a pointer. -/
def untidyEvent : Json :=
  .object [
    ("snapshot", .object [
      ("request", .object [
        ("method", .string "GET"),
        ("postData", .array [.string "text/json", .string "1"]),
        ("url", .string "/")]),
      ("response", .object [("status", .string "200")]),
      ("time", .string "5")]),
    ("type", .string "resource-snapshot")]

theorem isNetworkEvent_untidyEvent : untidyEvent.IsNetworkEvent := ⟨rfl, _, rfl⟩

/-- The texts that stand for a time and a status can be deleted, and a key that is not read can be
added. -/
theorem wrong_types_count_as_absent_untidy :
    untidyEvent.IsNetworkEvent ∧
      Event.ofJson? (untidyEvent.without [.time, .status]) = Event.ofJson? untidyEvent ∧
      Event.ofJson? (untidyEvent.revise [⟨.response, "headers", some (.array [])⟩]) =
        Event.ofJson? untidyEvent := by
  obtain ⟨hdelete, hrevise⟩ := Event.wrong_types_count_as_absent isNetworkEvent_untidyEvent
  refine ⟨isNetworkEvent_untidyEvent, (hdelete [.time, .status] ?_).mpr ?_, hrevise _ ?_⟩
  · have htime : untidyEvent.field? .time = some (.string "5") := rfl
    have hstatus : untidyEvent.field? .status = some (.string "200") := rfl
    simp [htime, hstatus, Json.kind, Field.kind]
  · simp [Field.isPointer]
  · simp [Edit.Unread, Part.keys]

/-- The list that stands for a pointer cannot: it is of the wrong type, and it is read. -/
theorem listed_pointer_counts :
    untidyEvent.IsNetworkEvent ∧
      (∃ x, untidyEvent.field? .postData = some x ∧ x.kind ≠ Field.kind .postData) ∧
      Event.ofJson? (untidyEvent.without [.postData]) ≠ Event.ofJson? untidyEvent :=
  ⟨isNetworkEvent_untidyEvent, ⟨_, rfl, by decide⟩, by decide +kernel⟩

end Sample

end BrowserTrace
