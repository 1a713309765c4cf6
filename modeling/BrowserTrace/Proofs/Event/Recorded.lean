import BrowserTrace.Proofs.Event.Fields
import BrowserTrace.Proofs.Event.Status
import BrowserTrace.Proofs.Record

/-!
# Which values become records

A value becomes a network record if it is a request with an answer (`Json.IsAnsweredRequest`), and
the record then says what the value says (`Json.Describes`).  Whether there is a record does not
depend on the archive: a body that cannot be had is left out.  A value becomes a console record if it
is a warning, an error, or an uncaught error of the page, with a text (`Json.Reports`).

The conditions are on the paths of the value, which lead through objects only, so that each of them
has something to say about every shape of a value.
-/

namespace BrowserTrace

open Snapshot (Field)

/-! ## Network records -/

namespace Json

/-- The value is a request with an answer: it has a method, a URL and a status. -/
structure IsAnsweredRequest (v : Json) : Prop where
  type_eq : v.at? ["type"] = some (.string "resource-snapshot")
  method : ∃ method, v.field? .method = some (.string method) ∧ method ≠ ""
  url : ∃ url, v.field? .url = some (.string url) ∧ url ≠ ""
  status : ∃ n k, v.field? .status = some (.number n) ∧ statusOf? n = some k

/-- The value has a pointer in a field, and this is the body that it points to. -/
def PointsTo (v : Json) (f : Field) (a : Archive) (max : Nat) (body : String) : Prop :=
  ∃ x ref, v.field? f = some x ∧ PayloadRef.ofJson? x = some ref ∧ a.payload? ref max = some body

/-- The record says what the value says, with the bodies that it points to. -/
structure Describes (v : Json) (a : Archive) (limits : RecordLimits) (r : NetworkRecord) :
    Prop where
  type_eq : v.at? ["type"] = some (.string "resource-snapshot")
  method_eq : v.field? .method = some (.string r.method)
  method_ne : r.method ≠ ""
  url_eq : v.field? .url = some (.string r.url)
  url_ne : r.url ≠ ""
  status : ∃ n, v.field? .status = some (.number n) ∧ statusOf? n = some r.status
  duration : ∀ x, r.durationMs = some x ↔
    ∃ n, v.field? .time = some (.number n) ∧ n.toBinary64? = some x
  /-- The alias counts only where the other field is no text. -/
  resourceType : ∀ type, r.resourceType = some type ↔
    v.field? .resourceType = some (.string type) ∨
      (∀ other, v.field? .resourceType ≠ some (.string other)) ∧
        v.field? .resourceTypeAlias = some (.string type)
  requestBody : ∀ body, r.requestBody = some body ↔ v.PointsTo .postData a limits.maxBodyChars body
  responseBody : ∀ body, r.responseBody = some body ↔ v.PointsTo .content a limits.maxBodyChars body

/-! ### What the fields of a snapshot say -/

section Fields

variable {x? : Option Json}

theorem bind_string?_eq_some_iff {text : String} :
    x?.bind string? = some text ↔ x? = some (.string text) := by
  cases x? with
  | none => simp
  | some x => cases x <;> simp [string?]

theorem bind_float?_eq_some_iff {x : Number.Binary64} :
    x?.bind float? = some x ↔ ∃ n, x? = some (.number n) ∧ n.toBinary64? = some x := by
  cases x? with
  | none => simp
  | some x => cases x <;> simp [float?]

theorem bind_statusIn?_eq_some_iff {k : Int} :
    x?.bind Snapshot.statusIn? = some k ↔ ∃ n, x? = some (.number n) ∧ statusOf? n = some k := by
  cases x? with
  | none => simp
  | some x => cases x <;> simp [Snapshot.statusIn?]

theorem bind_payload?_eq_some_iff {a : Archive} {max : Nat} {body : String} :
    (x?.bind PayloadRef.ofJson?).bind (a.payload? · max) = some body ↔
      ∃ x ref, x? = some x ∧ PayloadRef.ofJson? x = some ref ∧ a.payload? ref max = some body := by
  simp only [Option.bind_assoc, Option.bind_eq_some_iff]
  grind

end Fields

/-- The type of a resource is its first name where that is a text, and otherwise its second. -/
theorem resourceType_ofFields_eq_some_iff {look : Field → Option Json} {type : String} :
    (Snapshot.ofFields look).resourceType = some type ↔
      look .resourceType = some (.string type) ∨
        (∀ other, look .resourceType ≠ some (.string other)) ∧
          look .resourceTypeAlias = some (.string type) := by
  have hnone : (look .resourceType).bind string? = none ↔
      ∀ other, look .resourceType ≠ some (.string other) := by
    simp only [Option.eq_none_iff_forall_ne_some, ne_eq, bind_string?_eq_some_iff]
  rw [Snapshot.ofFields, Option.or_eq_some_iff, hnone, bind_string?_eq_some_iff,
    bind_string?_eq_some_iff]

/-- What is read from the response is read from its fields: without the object that the response
should be, they have no values. -/
theorem response_ofFields_bind {v : Json} {f : Field} {key : String} {α : Type}
    {read : Response → Option α} {readField : Json → Option α}
    (hf : f.path = Field.response.path ++ [key])
    (hread : ∀ response, (Snapshot.ofFields v.field?).response = some response →
      read response = (v.field? f).bind readField) :
    (Snapshot.ofFields v.field?).response.bind read = (v.field? f).bind readField := by
  cases hresponse : (Snapshot.ofFields v.field?).response with
  | some response => exact hread response hresponse
  | none =>
    have hnone : v.field? f = none := by
      by_contra hne
      obtain ⟨x, hx⟩ := Option.ne_none_iff_exists'.mp hne
      obtain ⟨members, hobject⟩ := object_of_field? hf hx
      have hsome : v.field? .response = some (.object members) := hobject
      simp [Snapshot.ofFields, hsome, isObject, members?] at hresponse
    rw [hnone, Option.bind_none, Option.bind_none]

/-- A number of 64 bits has a nearest floating-point number. -/
theorem exists_toBinary64? {n : Numeral} (h : (Json.number n).InRange) :
    ∃ x, n.toBinary64? = some x := by
  cases n with
  | float x => exact ⟨x, rfl⟩
  | integer i =>
    obtain ⟨hmin, hmax⟩ := h i rfl
    refine Number.Binary64.exists_ofInt? ?_
    unfold minInt64 at hmin
    unfold Number.maxWord at hmax
    omega

variable {v : Json} {a : Archive} {limits : RecordLimits} {r : NetworkRecord}

/-- A record describes a value exactly if it is the record of the snapshot that the fields of the
value make. -/
theorem describes_iff :
    v.Describes a limits r ↔
      v.IsNetworkEvent ∧ (Snapshot.ofFields v.field?).record? a limits = some r := by
  have hstatus : (Snapshot.ofFields v.field?).response.bind (·.status) =
      (v.field? .status).bind Snapshot.statusIn? := by
    refine response_ofFields_bind rfl fun response hresponse ↦ ?_
    obtain ⟨-, -, rfl⟩ := Option.map_eq_some_iff.mp hresponse
    rfl
  have hcontent : (Snapshot.ofFields v.field?).response.bind (·.content) =
      (v.field? .content).bind PayloadRef.ofJson? := by
    refine response_ofFields_bind rfl fun response hresponse ↦ ?_
    obtain ⟨-, -, rfl⟩ := Option.map_eq_some_iff.mp hresponse
    rfl
  rw [Snapshot.record?_eq_some_iff, hstatus, hcontent, bind_statusIn?_eq_some_iff]
  constructor
  · intro h
    refine ⟨⟨h.type_eq, object_of_field? rfl h.method_eq⟩,
      bind_string?_eq_some_iff.mpr h.method_eq, h.method_ne,
      bind_string?_eq_some_iff.mpr h.url_eq, h.url_ne, h.status, ?_, ?_, ?_, ?_⟩
    · exact Option.ext fun x ↦ (h.duration x).trans bind_float?_eq_some_iff.symm
    · exact Option.ext fun type ↦ (h.resourceType type).trans
        resourceType_ofFields_eq_some_iff.symm
    · exact Option.ext fun body ↦ (h.requestBody body).trans bind_payload?_eq_some_iff.symm
    · exact Option.ext fun body ↦ (h.responseBody body).trans bind_payload?_eq_some_iff.symm
  · rintro ⟨hv, hmethod, hmethodNe, hurl, hurlNe, hstatus, htime, htype, hrequest, hbody⟩
    exact {
      type_eq := hv.type_eq
      method_eq := bind_string?_eq_some_iff.mp hmethod
      method_ne := hmethodNe
      url_eq := bind_string?_eq_some_iff.mp hurl
      url_ne := hurlNe
      status := hstatus
      duration := fun x ↦ htime ▸ bind_float?_eq_some_iff
      resourceType := fun type ↦ htype ▸ resourceType_ofFields_eq_some_iff
      requestBody := fun body ↦ hrequest ▸ bind_payload?_eq_some_iff
      responseBody := fun body ↦ hbody ▸ bind_payload?_eq_some_iff }

/-- A record describes a value exactly if it was read from it. -/
theorem networkRecord_iff_describes :
    (∃ e, Event.ofJson? v = some e ∧ e.networkRecord? a limits = some r) ↔
      v.Describes a limits r := by
  rw [describes_iff]
  constructor
  · rintro ⟨e, he, hr⟩
    cases e with
    | snapshot s =>
      obtain ⟨hv, rfl⟩ := Event.ofJson?_eq_snapshot_iff.mp he
      exact ⟨hv, hr⟩
    | console messageType text => contradiction
    | pageError text => contradiction
  · rintro ⟨hv, hr⟩
    exact ⟨_, Event.ofJson?_eq_snapshot_iff.mpr ⟨hv, rfl⟩, hr⟩

/-- A request with an answer has a record, whatever its archive holds. -/
theorem IsAnsweredRequest.exists_describes (h : v.IsAnsweredRequest) (a : Archive)
    (limits : RecordLimits) : ∃ r, v.Describes a limits r := by
  obtain ⟨method, hmethod, hmethodNe⟩ := h.method
  obtain ⟨url, hurl, hurlNe⟩ := h.url
  obtain ⟨n, k, hn, hk⟩ := h.status
  let s := Snapshot.ofFields v.field?
  exact ⟨⟨method, url, k, s.time, s.resourceType,
      ((v.field? .postData).bind PayloadRef.ofJson?).bind (a.payload? · limits.maxBodyChars),
      ((v.field? .content).bind PayloadRef.ofJson?).bind (a.payload? · limits.maxBodyChars)⟩, {
    type_eq := h.type_eq
    method_eq := hmethod
    method_ne := hmethodNe
    url_eq := hurl
    url_ne := hurlNe
    status := ⟨n, hn, hk⟩
    duration := fun _ ↦ bind_float?_eq_some_iff
    resourceType := fun _ ↦ resourceType_ofFields_eq_some_iff
    requestBody := fun _ ↦ bind_payload?_eq_some_iff
    responseBody := fun _ ↦ bind_payload?_eq_some_iff }⟩

theorem Describes.isAnsweredRequest (h : v.Describes a limits r) : v.IsAnsweredRequest where
  type_eq := h.type_eq
  method := ⟨_, h.method_eq, h.method_ne⟩
  url := ⟨_, h.url_eq, h.url_ne⟩
  status := h.status.imp fun _ hn ↦ ⟨_, hn⟩

end Json

/-- **Which values become network records.**  A value becomes a network record if and only if it is
a request with an answer, whatever the archive holds, and the record is the one that describes it.
It has a duration if and only if the value has a number for a time. -/
theorem network_record_of_value (v : Json) (a : Archive) (limits : RecordLimits) :
    ((∃ e r, Event.ofJson? v = some e ∧ e.networkRecord? a limits = some r) ↔
      v.IsAnsweredRequest) ∧
    (∀ r, (∃ e, Event.ofJson? v = some e ∧ e.networkRecord? a limits = some r) ↔
      v.Describes a limits r) ∧
    ∀ r, v.Describes a limits r → (∀ t, v.field? .time = some t → t.InRange) →
      (r.durationMs.isSome ↔ ∃ n, v.field? .time = some (.number n)) := by
  refine ⟨?_, fun r ↦ Json.networkRecord_iff_describes, ?_⟩
  · rw [exists_comm]
    simp only [Json.networkRecord_iff_describes]
    exact ⟨fun ⟨r, hr⟩ ↦ hr.isAnsweredRequest, fun h ↦ h.exists_describes a limits⟩
  · intro r hr htime
    rw [Option.isSome_iff_exists]
    constructor
    · rintro ⟨x, hx⟩
      obtain ⟨n, hn, -⟩ := (hr.duration x).mp hx
      exact ⟨n, hn⟩
    · rintro ⟨n, hn⟩
      obtain ⟨x, hx⟩ := Json.exists_toBinary64? (htime _ hn)
      exact ⟨x, (hr.duration x).mpr ⟨n, hn, hx⟩⟩

/-! ## Console records -/

namespace Json

/-- The value is a warning or an error on the console or an uncaught error of the page, with this
text. -/
inductive Reports (v : Json) : ConsoleKind → String → Prop where
  | warning {text : String} (htype : v.at? ["type"] = some (.string "console"))
      (hkind : v.at? ["messageType"] = some (.string "warning"))
      (htext : v.at? ["text"] = some (.string text)) : v.Reports .warning text
  | error {text : String} (htype : v.at? ["type"] = some (.string "console"))
      (hkind : v.at? ["messageType"] = some (.string "error"))
      (htext : v.at? ["text"] = some (.string text)) : v.Reports .error text
  | pageError {text : String} (htype : v.at? ["type"] = some (.string "event"))
      (hmethod : v.at? ["method"] = some (.string "pageError"))
      (htext : v.at? ["params", "error"] = some (.string text) ∨
        v.at? ["params", "error", "message"] = some (.string text)) : v.Reports .pageError text

end Json

section Console

variable {v : Json} {text : String}

theorem optionalText?_eq_some_some_iff {x? : Option Json} :
    optionalText? x? = some (some text) ↔ x? = some (.string text) := by
  cases x? with
  | none => simp [optionalText?]
  | some x => cases x <;> simp [optionalText?]

/-- The text of an uncaught error is the error or its message; they exclude each other. -/
theorem errorText?_eq_some_iff :
    errorText? (v.get? "params") = some text ↔
      v.at? ["params", "error"] = some (.string text) ∨
        v.at? ["params", "error", "message"] = some (.string text) := by
  have hmessage : v.at? ["params", "error", "message"] =
      (v.at? ["params", "error"]).bind (·.get? "message") := by
    rw [show ["params", "error", "message"] = ["params", "error"] ++ ["message"] from rfl,
      Json.at?_append]
    simp only [Json.at?_singleton]
  have herror : (v.get? "params").bind (·.get? "error") = v.at? ["params", "error"] := by
    rw [Json.at?_cons]
    simp only [Json.at?_singleton]
  rw [hmessage, errorText?, herror]
  cases v.at? ["params", "error"] with
  | none => simp
  | some error =>
    cases error with
    | object members => simp [Json.stringAt?_eq_some_iff]
    | null | bool | number | string | array => simp [Json.get?, Json.members?]

/-- A value reports a text exactly if it is read as the event that is recorded with that text. -/
theorem Event.ofJson?_eq_event_iff {kind : ConsoleKind} :
    ofJson? v = some (kind.event text) ↔ v.Reports kind text := by
  rw [ofJson?_eq_some_iff]
  constructor
  · rintro (⟨-, u, s, -, -, heq⟩ | ⟨htype, messageType, text?, hkind, htext, heq⟩ |
      ⟨htype, hmethod, heq⟩)
    · cases kind <;> contradiction
    · rw [← Json.at?_singleton] at htext
      cases kind with
      | warning =>
        obtain ⟨rfl, rfl⟩ := Event.console.inj heq
        exact .warning htype hkind (optionalText?_eq_some_some_iff.mp htext)
      | error =>
        obtain ⟨rfl, rfl⟩ := Event.console.inj heq
        exact .error htype hkind (optionalText?_eq_some_some_iff.mp htext)
      | pageError => contradiction
    · cases kind with
      | warning => contradiction
      | error => contradiction
      | pageError =>
        exact .pageError htype hmethod (errorText?_eq_some_iff.mp (Event.pageError.inj heq).symm)
  · rintro (⟨htype, hkind, htext⟩ | ⟨htype, hkind, htext⟩ | ⟨htype, hmethod, htext⟩)
    · rw [Json.at?_singleton] at htext
      exact .inr (.inl ⟨htype, _, _, hkind, optionalText?_eq_some_some_iff.mpr htext, rfl⟩)
    · rw [Json.at?_singleton] at htext
      exact .inr (.inl ⟨htype, _, _, hkind, optionalText?_eq_some_some_iff.mpr htext, rfl⟩)
    · exact .inr (.inr ⟨htype, hmethod,
        congrArg Event.pageError (errorText?_eq_some_iff.mpr htext).symm⟩)

/-- A console record has the text that its value reports, cut to the limit. -/
theorem consoleRecord_iff_reports {limits : RecordLimits} {r : ConsoleRecord} :
    (∃ e, Event.ofJson? v = some e ∧ e.consoleRecord? limits = some r) ↔
      ∃ text, v.Reports r.kind text ∧ text ≠ "" ∧
        r.text.toList = text.toList.take limits.maxTextChars := by
  constructor
  · rintro ⟨e, he, hr⟩
    obtain ⟨⟨kind, text⟩, htext, rfl⟩ := Option.map_eq_some_iff.mp hr
    obtain ⟨rfl, hne⟩ := Event.consoleText?_eq_some_iff.mp htext
    exact ⟨text, Event.ofJson?_eq_event_iff.mp he, hne, Text.toList_truncate _ _⟩
  · rintro ⟨text, hreports, hne, htext⟩
    obtain ⟨kind, cut⟩ := r
    obtain rfl : cut = Text.truncate limits.maxTextChars text :=
      String.toList_inj.mp (htext.trans (Text.toList_truncate _ _).symm)
    refine ⟨_, Event.ofJson?_eq_event_iff.mpr hreports, ?_⟩
    rw [Event.consoleRecord?, Event.consoleText?_eq_some_iff.mpr ⟨rfl, hne⟩]
    rfl

end Console

/-- **Which values become console records.**  A value becomes a console record if and only if it is
a warning or an error on the console or an uncaught error of the page, and it has a text that is not
empty; the record has its kind and its text, cut to the limit. -/
theorem console_record_of_value (v : Json) (limits : RecordLimits) :
    ((∃ e r, Event.ofJson? v = some e ∧ e.consoleRecord? limits = some r) ↔
      ∃ kind text, v.Reports kind text ∧ text ≠ "") ∧
    ∀ r, (∃ e, Event.ofJson? v = some e ∧ e.consoleRecord? limits = some r) ↔
      ∃ text, v.Reports r.kind text ∧ text ≠ "" ∧
        r.text.toList = text.toList.take limits.maxTextChars := by
  refine ⟨?_, fun r ↦ consoleRecord_iff_reports⟩
  rw [exists_comm]
  simp only [consoleRecord_iff_reports]
  constructor
  · rintro ⟨r, text, hreports, hne, -⟩
    exact ⟨r.kind, text, hreports, hne⟩
  · rintro ⟨kind, text, hreports, hne⟩
    exact ⟨⟨kind, Text.truncate limits.maxTextChars text⟩, text, hreports, hne,
      Text.toList_truncate _ _⟩

end BrowserTrace
