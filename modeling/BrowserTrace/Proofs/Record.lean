import BrowserTrace.Proofs.Archive.NameIndex
import BrowserTrace.Proofs.Text.Utf8
import BrowserTrace.Record
import Mathlib.Data.String.Basic

/-!
# What records hold

A console record has a text that is not empty, cut to the limit; a network record has a method and a
URL that are not empty, and its bodies begin the contents of entries of its archive
(`Archive.BodyOf`).  Texts are checked before they are cut, so a limit of zero would empty them.
-/

namespace BrowserTrace

/-! ## Texts -/

namespace Text

/-- Where a character begins is told by the bytes of those before it. -/
theorem byteIndex?_eq (cs : List Char) (index start : Nat) :
    byteIndex? cs index start =
      if index < cs.length then some (start + String.utf8Len (cs.take index)) else none := by
  fun_induction byteIndex? cs index start with
  | case1 => rfl
  | case2 => rfl
  | case3 c cs index start ih =>
    rw [ih, List.length_cons, List.take_succ_cons, String.utf8Len_cons, Nat.add_assoc,
      Nat.add_comm c.utf8Size]
    exact if_congr Nat.succ_lt_succ_iff.symm rfl rfl

/-- A text is never cut inside a character. -/
theorem toList_truncate (max : Nat) (s : String) : (truncate max s).toList = s.toList.take max := by
  rw [truncate, byteIndex?_eq]
  split
  · next i hi =>
    split at hi
    · obtain rfl := Option.some.inj hi
      have hcut := String.extract_of_valid [] (s.toList.take max) (s.toList.drop max)
      rw [List.nil_append, List.take_append_drop, String.ofList_toList] at hcut
      rw [String.utf8Len_nil] at hcut
      exact (congrArg String.toList hcut).trans String.toList_ofList
    · contradiction
  · next hnone =>
    split at hnone
    · contradiction
    · next hlength => exact (List.take_of_length_le (Nat.le_of_not_lt hlength)).symm

theorem length_truncate_le (max : Nat) (s : String) : (truncate max s).length ≤ max := by
  rw [← String.length_toList, toList_truncate]
  exact List.length_take_le _ _

theorem truncate_ne_empty {max : Nat} {s : String} (hmax : 0 < max) (hs : s ≠ "") :
    truncate max s ≠ "" := by
  intro hempty
  have htake : s.toList.take max = [] := by rw [← toList_truncate, hempty, String.toList_empty]
  rcases List.take_eq_nil_iff.mp htake with hzero | hnil
  · exact Nat.ne_of_gt hmax hzero
  · exact hs (String.toList_eq_nil_iff.mp hnil)

end Text

theorem nonempty?_eq_some_iff {text? : Option String} {text : String} :
    nonempty? text? = some text ↔ text? = some text ∧ text ≠ "" := by
  simp [nonempty?, Option.filter_eq_some_iff]

/-! ## Console records -/

/-- The event of a console record with this text. -/
def ConsoleKind.event (text : String) : ConsoleKind → Event
  | warning => .console "warning" (some text)
  | error => .console "error" (some text)
  | pageError => .pageError (some text)

namespace Event

variable {e : Event} {limits : RecordLimits}

theorem consoleText?_eq_some_iff {kind : ConsoleKind} {text : String} :
    e.consoleText? = some (kind, text) ↔ e = kind.event text ∧ text ≠ "" := by
  have hmap (kind' : ConsoleKind) (text? : Option String) :
      (nonempty? text?).map (kind', ·) = some (kind, text) ↔
        kind' = kind ∧ text? = some text ∧ text ≠ "" := by
    simp only [Option.map_eq_some_iff, nonempty?_eq_some_iff, Prod.mk.injEq]
    grind
  constructor
  · intro h
    unfold consoleText? at h
    split at h
    · obtain ⟨rfl, rfl, hne⟩ := (hmap _ _).mp h
      exact ⟨rfl, hne⟩
    · obtain ⟨rfl, rfl, hne⟩ := (hmap _ _).mp h
      exact ⟨rfl, hne⟩
    · contradiction
    · obtain ⟨rfl, rfl, hne⟩ := (hmap _ _).mp h
      exact ⟨rfl, hne⟩
    · contradiction
  · rintro ⟨rfl, hne⟩
    cases kind with
    | warning => exact (hmap _ _).mpr ⟨rfl, rfl, hne⟩
    | error => exact (hmap _ _).mpr ⟨rfl, rfl, hne⟩
    | pageError => exact (hmap _ _).mpr ⟨rfl, rfl, hne⟩

/-- The text of a console record is neither empty nor longer than the limit. -/
theorem consoleRecord?_text {r : ConsoleRecord} (hlimit : 0 < limits.maxTextChars)
    (h : e.consoleRecord? limits = some r) :
    r.text ≠ "" ∧ r.text.length ≤ limits.maxTextChars := by
  obtain ⟨⟨kind, text⟩, htext, rfl⟩ := Option.map_eq_some_iff.mp h
  exact ⟨Text.truncate_ne_empty hlimit (consoleText?_eq_some_iff.mp htext).2,
    Text.length_truncate_le _ _⟩

end Event

/-! ## Bodies -/

theorem resourcePrefix_isPrefix (hash : String) :
    resourcePrefix.toList <+: (resourcePrefix ++ hash).toList := by
  rw [String.toList_append]
  exact List.prefix_append _ _

namespace PayloadRef

/-- The name of the entry that a pointer to a JSON body points to. -/
def target? (ref : PayloadRef) : Option String :=
  (ref.mediaType.filter MediaType.isJson).bind fun _ ↦ ref.contentHash.map (resourcePrefix ++ ·)

theorem target?_eq_some_iff {ref : PayloadRef} {name : String} :
    ref.target? = some name ↔ ∃ mediaType hash, ref.mediaType = some mediaType ∧
      MediaType.isJson mediaType = true ∧ ref.contentHash = some hash ∧
      resourcePrefix ++ hash = name := by
  simp only [target?, Option.bind_eq_some_iff, Option.filter_eq_some_iff, Option.map_eq_some_iff]
  constructor
  · rintro ⟨mediaType, ⟨hmediaType, hjson⟩, hash, hhash, hname⟩
    exact ⟨mediaType, hash, hmediaType, hjson, hhash, hname⟩
  · rintro ⟨mediaType, hash, hmediaType, hjson, hhash, hname⟩
    exact ⟨mediaType, ⟨hmediaType, hjson⟩, hash, hhash, hname⟩

/-- A pointer points to a resource with its hash. -/
theorem target?_eq_some {ref : PayloadRef} {name : String} (h : ref.target? = some name) :
    ∃ hash, ref.contentHash = some hash ∧ name = resourcePrefix ++ hash := by
  obtain ⟨-, hash, -, -, hhash, hname⟩ := target?_eq_some_iff.mp h
  exact ⟨hash, hhash, hname.symm⟩

end PayloadRef

namespace Archive

/-- The text is what a pointer to a body gives: no longer than `max` characters, and the beginning
of the contents of the entry that the hash of the pointer names. -/
structure BodyOf (a : Archive) (ref : PayloadRef) (max : Nat) (body : String) : Prop where
  length_le : body.length ≤ max
  begins : ∃ hash, ref.contentHash = some hash ∧ ∃ e ∈ a.entries, e.name = resourcePrefix ++ hash ∧
    ∃ contents, a.read e = .ok contents ∧
      body.toList <+: (Text.decodeLossy contents).toList

theorem find?_eq_some {a : Archive} {name : String} {e : Entry} (h : a.find? name = some e) :
    e ∈ a.entries ∧ e.name = name := by
  rw [find?_eq] at h
  exact ⟨List.mem_of_find?_eq_some h, by simpa using List.find?_some h⟩

theorem payloadEntry?_eq_bind (a : Archive) (ref : PayloadRef) :
    a.payloadEntry? ref = ref.target?.bind a.find? := by
  unfold payloadEntry? PayloadRef.target?
  cases ref.mediaType with
  | none => rfl
  | some mediaType =>
    rw [Option.filter_some, Option.bind_eq_bind, Option.bind_some]
    cases MediaType.isJson mediaType with
    | false => rfl
    | true => cases ref.contentHash <;> rfl

theorem readText_eq (a : Archive) (e : Entry) :
    a.readText e = (a.read e).map Text.decodeLossy :=
  congrArg (Except.map · (a.read e)) (funext Text.ofContents_eq)

theorem readText_eq_ok_iff {a : Archive} {e : Entry} {text : String} :
    a.readText e = .ok text ↔ ∃ contents, a.read e = .ok contents ∧
      Text.decodeLossy contents = text := by
  rw [readText_eq]
  cases a.read e with
  | error error => simp [Except.map]
  | ok contents => simp [Except.map]

theorem payload?_eq_some_iff {a : Archive} {ref : PayloadRef} {max : Nat} {body : String} :
    a.payload? ref max = some body ↔ ∃ name e contents, ref.target? = some name ∧
      a.find? name = some e ∧ a.read e = .ok contents ∧
      Text.truncate max (Text.decodeLossy contents) = body := by
  constructor
  · intro h
    obtain ⟨e, he, h⟩ := Option.bind_eq_some_iff.mp h
    rw [payloadEntry?_eq_bind] at he
    obtain ⟨name, hname, he⟩ := Option.bind_eq_some_iff.mp he
    obtain ⟨text, htext, h⟩ := Option.bind_eq_some_iff.mp h
    have hread : a.readText e = .ok text := by
      cases hr : a.readText e with
      | error error => simp [hr, Except.toOption] at htext
      | ok text' => simpa [hr, Except.toOption] using htext
    obtain ⟨contents, hcontents, rfl⟩ := readText_eq_ok_iff.mp hread
    exact ⟨name, e, contents, hname, he, hcontents, Option.some.inj h⟩
  · rintro ⟨name, e, contents, hname, he, hcontents, rfl⟩
    have hread := readText_eq_ok_iff.mpr ⟨contents, hcontents, rfl⟩
    simp [payload?, payloadEntry?_eq_bind, hname, he, hread, Except.toOption]

/-- What a pointer gives is the beginning of the entry it points to. -/
theorem payload?_bodyOf {a : Archive} {ref : PayloadRef} {max : Nat} {body : String}
    (h : a.payload? ref max = some body) : a.BodyOf ref max body := by
  obtain ⟨name, e, contents, htarget, hfind, hcontents, rfl⟩ := payload?_eq_some_iff.mp h
  obtain ⟨hash, hhash, rfl⟩ := PayloadRef.target?_eq_some htarget
  obtain ⟨hmem, hname⟩ := find?_eq_some hfind
  refine ⟨Text.length_truncate_le _ _, hash, hhash, e, hmem, hname, contents, hcontents, ?_⟩
  rw [Text.toList_truncate]
  exact List.take_prefix _ _

end Archive

/-! ## Network records -/

namespace Snapshot

variable {s : Snapshot} {a : Archive} {limits : RecordLimits} {r : NetworkRecord}

/-- The record of a snapshot, field by field. -/
theorem record?_eq_some_iff :
    s.record? a limits = some r ↔
      s.method = some r.method ∧ r.method ≠ "" ∧ s.url = some r.url ∧ r.url ≠ "" ∧
        (s.response.bind (·.status)) = some r.status ∧ r.durationMs = s.time ∧
        r.resourceType = s.resourceType ∧
        r.requestBody = s.postData.bind (a.payload? · limits.maxBodyChars) ∧
        r.responseBody =
          (s.response.bind (·.content)).bind (a.payload? · limits.maxBodyChars) := by
  simp only [record?, Option.bind_eq_bind, Option.bind_eq_some_iff, nonempty?_eq_some_iff]
  constructor
  · rintro ⟨method, ⟨hmethod, hmethodNe⟩, url, ⟨hurl, hurlNe⟩, response, hresponse, status, hstatus,
      h⟩
    obtain rfl := Option.some.inj h
    simp [hmethod, hmethodNe, hurl, hurlNe, hresponse, hstatus]
  · rintro ⟨hmethod, hmethodNe, hurl, hurlNe, ⟨response, hresponse, hstatus⟩, htime, htype,
      hrequest, hbody⟩
    rw [hresponse, Option.bind_some] at hbody
    refine ⟨_, ⟨hmethod, hmethodNe⟩, _, ⟨hurl, hurlNe⟩, response, hresponse, _, hstatus, ?_⟩
    rw [← htime, ← htype, ← hrequest, ← hbody]

/-- What the record of a snapshot holds. -/
theorem record?_eq_some (h : s.record? a limits = some r) :
    r.method ≠ "" ∧ r.url ≠ "" ∧
      r.requestBody = s.postData.bind (a.payload? · limits.maxBodyChars) ∧
      r.responseBody =
        (s.response.bind Response.content).bind (a.payload? · limits.maxBodyChars) := by
  obtain ⟨-, hmethod, -, hurl, -, -, -, hrequest, hresponse⟩ := record?_eq_some_iff.mp h
  exact ⟨hmethod, hurl, hrequest, hresponse⟩

/-- A body of a record is one that a pointer of its snapshot gives. -/
theorem record?_body (h : s.record? a limits = some r) {body : String}
    (hbody : r.requestBody = some body ∨ r.responseBody = some body) :
    ∃ ref ∈ s.payloadRefs, a.BodyOf ref limits.maxBodyChars body := by
  obtain ⟨-, -, hrequest, hresponse⟩ := record?_eq_some h
  have hof : ∃ ref, (s.postData = some ref ∨ s.response.bind Response.content = some ref) ∧
      a.payload? ref limits.maxBodyChars = some body := by
    rcases hbody with hb | hb
    · obtain ⟨ref, href, hp⟩ := Option.bind_eq_some_iff.mp (hrequest.symm.trans hb)
      exact ⟨ref, .inl href, hp⟩
    · obtain ⟨ref, href, hp⟩ := Option.bind_eq_some_iff.mp (hresponse.symm.trans hb)
      exact ⟨ref, .inr href, hp⟩
  obtain ⟨ref, href, hp⟩ := hof
  refine ⟨ref, ?_, Archive.payload?_bodyOf hp⟩
  simpa [payloadRefs] using href

/-- A record has nothing but its bodies from the archive. -/
theorem record?_eq_map (s : Snapshot) (a a' : Archive) (limits : RecordLimits) :
    s.record? a' limits = (s.record? a limits).map fun r ↦
      { r with
        requestBody := s.postData.bind (a'.payload? · limits.maxBodyChars)
        responseBody :=
          (s.response.bind Response.content).bind (a'.payload? · limits.maxBodyChars) } := by
  unfold record?
  cases nonempty? s.method with
  | none => rfl
  | some method =>
    cases nonempty? s.url with
    | none => rfl
    | some url =>
      cases s.response with
      | none => rfl
      | some response =>
        cases hs : response.status with
        | none => simp [hs]
        | some status => simp [hs]

/-- Archives that give the same bodies give the same records. -/
theorem record?_congr {s : Snapshot} {a a' : Archive} {limits : RecordLimits}
    (h : ∀ ref, a'.payload? ref limits.maxBodyChars = a.payload? ref limits.maxBodyChars) :
    s.record? a' limits = s.record? a limits := by
  rw [record?_eq_map s a a' limits, funext h]
  exact (record?_eq_map s a a limits).symm

end Snapshot

end BrowserTrace
