import BrowserTrace.Event
import BrowserTrace.Proofs.Json.Paths

/-!
# The fields of a network event

Of a network event nine fields are read (`Snapshot.Field`), each at its path and each with a JSON
type of its own.  A value is a network event when its type says so and it has a request
(`Json.IsNetworkEvent`), and what it says is a function of the values of its fields
(`Snapshot.ofFields`, `Event.ofJson?_eq_snapshot_iff`).

A pointer to a body should be an object, but a list of up to two texts is read as one, too
(`Json.ListsPointer`).
-/

namespace BrowserTrace

/-! ## Pointers written as lists -/

namespace Json

/-- A text or nothing. -/
def IsText (v : Json) : Prop := v = .null ∨ ∃ s, v = .string s

/-- A list of a media type and a hash, of which the hash or both may be missing. -/
def ListsPointer (v : Json) : Prop :=
  ∃ texts, v = .array texts ∧ texts.length ≤ 2 ∧ ∀ text ∈ texts, text.IsText

end Json

theorem exists_optionalText?_iff {v : Json} :
    (∃ text, optionalText? (some v) = some text) ↔ v.IsText := by
  cases v <;> simp [optionalText?, Json.IsText]

/-- A value that is no object is a pointer only if it is a list of texts. -/
theorem PayloadRef.exists_ofJson?_iff {v : Json} (h : v.kind ≠ .object) :
    (∃ ref, PayloadRef.ofJson? v = some ref) ↔ v.ListsPointer := by
  cases v with
  | object members => exact absurd rfl h
  | null | bool | number | string => simp [PayloadRef.ofJson?, Json.ListsPointer]
  | array texts =>
    match texts with
    | [] => simp [PayloadRef.ofJson?, Json.ListsPointer]
    | [mediaType] =>
      simp [PayloadRef.ofJson?, Json.ListsPointer, ← exists_optionalText?_iff,
        Option.bind_eq_some_iff]
    | [mediaType, hash] =>
      simp [PayloadRef.ofJson?, Json.ListsPointer, ← exists_optionalText?_iff,
        Option.bind_eq_some_iff]
    | _ :: _ :: _ :: _ => simp [PayloadRef.ofJson?, Json.ListsPointer]

/-! ## Fields -/

namespace Snapshot

/-- The fields of a network event.  The type of the resource has two, of which the first counts
where it is a text. -/
inductive Field where
  | time
  | resourceType
  | resourceTypeAlias
  | method
  | url
  | postData
  | response
  | status
  | content
deriving DecidableEq, Repr

namespace Field

/-- Where a field stands in an event. -/
def path : Field → List String
  | time => ["snapshot", "time"]
  | resourceType => ["snapshot", "_resourceType"]
  | resourceTypeAlias => ["snapshot", "resourceType"]
  | method => ["snapshot", "request", "method"]
  | url => ["snapshot", "request", "url"]
  | postData => ["snapshot", "request", "postData"]
  | response => ["snapshot", "response"]
  | status => ["snapshot", "response", "status"]
  | content => ["snapshot", "response", "content"]

/-- The JSON type of a field. -/
def kind : Field → Json.Kind
  | time | status => .number
  | resourceType | resourceTypeAlias | method | url => .string
  | postData | response | content => .object

/-- Whether a field is a pointer to a body. -/
def isPointer : Field → Bool
  | postData | content => true
  | time | resourceType | resourceTypeAlias | method | url | response | status => false

end Field

/-- The status that a value is, if it is a number that is one. -/
def statusIn? : Json → Option Int
  | .number n => statusOf? n
  | _ => none

/-- The snapshot with these values of its fields. -/
def ofFields (look : Field → Option Json) : Snapshot where
  time := (look .time).bind Json.float?
  resourceType :=
    ((look .resourceType).bind Json.string?).or ((look .resourceTypeAlias).bind Json.string?)
  method := (look .method).bind Json.string?
  url := (look .url).bind Json.string?
  postData := (look .postData).bind PayloadRef.ofJson?
  response := ((look .response).filter Json.isObject).map fun _ ↦
    { status := (look .status).bind statusIn?
      content := (look .content).bind PayloadRef.ofJson? }

end Snapshot

open Snapshot (Field)

namespace Json

/-- The value of a field. -/
def field? (v : Json) (f : Field) : Option Json := v.at? f.path

/-- The value is a network event: its type says so, and its request is an object. -/
structure IsNetworkEvent (v : Json) : Prop where
  type_eq : v.at? ["type"] = some (.string "resource-snapshot")
  request : ∃ members, v.at? ["snapshot", "request"] = some (.object members)

/-- A field that has a value stands in an object. -/
theorem object_of_field? {v x : Json} {f : Field} {path : List String} {key : String}
    (hf : f.path = path ++ [key]) (h : v.field? f = some x) :
    ∃ members, v.at? path = some (.object members) := by
  rw [field?, hf] at h
  exact object_of_at?_concat h

end Json

/-! ## Reading an event -/

section Reading

variable {v u : Json} {s : Snapshot} {e : Event}

theorem Json.stringAt?_eq_some_iff {key text : String} :
    v.stringAt? key = some text ↔ v.at? [key] = some (.string text) := by
  rw [stringAt?, at?_singleton]
  cases v.get? key with
  | none => simp
  | some w => cases w <;> simp [string?]

/-- An event is of one of three shapes, which the type of the value tells apart. -/
theorem Event.ofJson?_eq_some_iff :
    ofJson? v = some e ↔
      (v.at? ["type"] = some (.string "resource-snapshot") ∧ ∃ u s, v.get? "snapshot" = some u ∧
        Snapshot.ofJson? u = some s ∧ e = .snapshot s) ∨
      (v.at? ["type"] = some (.string "console") ∧ ∃ messageType text,
        v.at? ["messageType"] = some (.string messageType) ∧
        optionalText? (v.get? "text") = some text ∧ e = .console messageType text) ∨
      (v.at? ["type"] = some (.string "event") ∧ v.at? ["method"] = some (.string "pageError") ∧
        e = .pageError (errorText? (v.get? "params"))) := by
  simp only [← Json.stringAt?_eq_some_iff]
  constructor
  · intro h
    unfold ofJson? at h
    split at h
    · next htype =>
      obtain ⟨s, hs, rfl⟩ := Option.map_eq_some_iff.mp h
      obtain ⟨u, hu, hs⟩ := Option.bind_eq_some_iff.mp hs
      exact .inl ⟨htype, u, s, hu, hs, rfl⟩
    · next htype =>
      obtain ⟨messageType, hmessageType, h⟩ := Option.bind_eq_some_iff.mp h
      obtain ⟨text, htext, h⟩ := Option.bind_eq_some_iff.mp h
      exact .inr (.inl ⟨htype, messageType, text, hmessageType, htext, (Option.some.inj h).symm⟩)
    · next htype =>
      split at h
      · next hmethod => exact .inr (.inr ⟨htype, hmethod, (Option.some.inj h).symm⟩)
      · contradiction
    · contradiction
  · rintro (⟨htype, u, s, hu, hs, rfl⟩ | ⟨htype, messageType, text, hmessageType, htext, rfl⟩ |
      ⟨htype, hmethod, rfl⟩)
    · simp [ofJson?, htype, hu, hs]
    · simp [ofJson?, consoleOfJson?, htype, hmessageType, htext]
    · simp [ofJson?, htype, hmethod]

theorem Response.ofJson_eq (w : Json) :
    ofJson w = ⟨(w.get? "status").bind Snapshot.statusIn?,
      (w.get? "content").bind PayloadRef.ofJson?⟩ := by
  rw [ofJson]
  congr 1
  cases w.get? "status" with
  | none => rfl
  | some s => cases s <;> rfl

/-- What a snapshot says is what its fields say. -/
theorem Snapshot.ofJson?_eq_some_iff (hu : v.get? "snapshot" = some u) :
    Snapshot.ofJson? u = some s ↔
      (∃ members, u.get? "request" = some (.object members)) ∧ Snapshot.ofFields v.field? = s := by
  have hfields (request : Json) (hrequest : u.get? "request" = some request) :
      Snapshot.ofFields v.field? =
        { time := (u.get? "time").bind Json.float?
          resourceType := (u.stringAt? "_resourceType").or (u.stringAt? "resourceType")
          method := request.stringAt? "method"
          url := request.stringAt? "url"
          postData := (request.get? "postData").bind PayloadRef.ofJson?
          response := ((u.get? "response").filter Json.isObject).map Response.ofJson } := by
    simp only [ofFields, Json.field?, Field.path, Json.at?_cons, Json.at?_nil, hu, hrequest,
      Option.bind_some, Option.bind_fun_some, Json.stringAt?, Snapshot.mk.injEq, true_and]
    cases u.get? "response" with
    | none => rfl
    | some response => simp [Response.ofJson_eq, Option.filter_some]
  constructor
  · intro h
    obtain ⟨request, hrequest, h⟩ := Option.bind_eq_some_iff.mp h
    obtain ⟨⟨⟩, hobject, h⟩ := Option.bind_eq_some_iff.mp h
    have hkind : request.isObject = true := by simpa [guard] using hobject
    obtain ⟨members, rfl⟩ := Json.kind_eq_object_iff.mp (Json.isObject_iff_kind.mp hkind)
    exact ⟨⟨members, hrequest⟩, (hfields _ hrequest).trans (Option.some.inj h)⟩
  · rintro ⟨⟨members, hrequest⟩, rfl⟩
    rw [hfields _ hrequest, ofJson?, hrequest]
    rfl

/-- A value is a network event exactly if it is read as one, and what it says is what its fields
say. -/
theorem Event.ofJson?_eq_snapshot_iff :
    Event.ofJson? v = some (.snapshot s) ↔
      v.IsNetworkEvent ∧ Snapshot.ofFields v.field? = s := by
  have hrequest : (∃ members, v.at? ["snapshot", "request"] = some (.object members)) ↔
      ∃ u, v.get? "snapshot" = some u ∧ ∃ members, u.get? "request" = some (.object members) := by
    simp only [Json.at?_cons, Json.at?_nil, Option.bind_fun_some, Option.bind_eq_some_iff]
    grind
  rw [Event.ofJson?_eq_some_iff]
  constructor
  · rintro (⟨htype, u, s, hu, hs, heq⟩ | ⟨-, _, _, -, -, heq⟩ | ⟨-, -, heq⟩)
    · obtain rfl := Event.snapshot.inj heq
      obtain ⟨hobject, hfields⟩ := (Snapshot.ofJson?_eq_some_iff hu).mp hs
      exact ⟨⟨htype, hrequest.mpr ⟨u, hu, hobject⟩⟩, hfields⟩
    · contradiction
    · contradiction
  · rintro ⟨⟨htype, hobject⟩, hfields⟩
    obtain ⟨u, hu, hobject⟩ := hrequest.mp hobject
    exact .inl ⟨htype, u, s, hu, (Snapshot.ofJson?_eq_some_iff hu).mpr ⟨hobject, hfields⟩, rfl⟩

end Reading

end BrowserTrace
