import BrowserTrace.Event
import BrowserTrace.Proofs.Json.OneLine

/-!
# Written events are read back

An event is recognized by looking into a value by its keys, so it makes no difference that a value
that is read back has its members in order (`ofJson?_sorted`).  Together with the round trip of
values and of lines this says that the events of written values are exactly the events among the
values.
-/

namespace BrowserTrace

open Json (Fits)

variable {depth : Nat} {v : Json}

/-! ## Parts of an event -/

theorem optionalText?_sorted (v? : Option Json) :
    optionalText? (v?.map Json.sorted) = optionalText? v? := by
  cases v? with
  | none => rfl
  | some v => cases v <;> rfl

theorem optionalText?_get?_sorted (hv : Fits depth v) (key : String) :
    optionalText? (v.sorted.get? key) = optionalText? (v.get? key) := by
  rw [hv.get?_sorted, optionalText?_sorted]

/-- What is read from under a key in the same way in order is read in order in the same way. -/
theorem bind_get?_sorted {α : Type} {f : Json → Option α} (hv : Fits depth v) (key : String)
    (hf : ∀ {depth : Nat} {w : Json}, Fits depth w → f w.sorted = f w) :
    (v.sorted.get? key).bind f = (v.get? key).bind f := by
  rw [hv.get?_sorted]
  cases hw : v.get? key with
  | none => rfl
  | some w =>
    obtain ⟨depth', hfits⟩ := hv.get? hw
    exact hf hfits

theorem PayloadRef.ofJson?_sorted (hv : Fits depth v) : ofJson? v.sorted = ofJson? v := by
  have hitem (item : Json) : optionalText? (some item.sorted) = optionalText? (some item) :=
    optionalText?_sorted (some item)
  cases hv with
  | null => rfl
  | bool => rfl
  | string => rfl
  | integer => rfl
  | @array _ items _ =>
    match items with
    | [] => rfl
    | [mediaType] =>
      simp only [Json.sorted, Json.sortedItems_eq_map, List.map_cons, List.map_nil, ofJson?, hitem]
    | [mediaType, hash] =>
      simp only [Json.sorted, Json.sortedItems_eq_map, List.map_cons, List.map_nil, ofJson?, hitem]
    | _ :: _ :: _ :: _ => rfl
  | @object depth members hkeys h =>
    have hfits := Fits.object hkeys h
    obtain ⟨members', hsorted⟩ : ∃ members', (Json.object members).sorted = .object members' :=
      ⟨_, rfl⟩
    have hmedia := optionalText?_get?_sorted hfits "mimeType"
    have hlong := hfits.get?_sorted "contentHash"
    have hshort := hfits.get?_sorted "_sha1"
    rw [hsorted] at hmedia hlong hshort ⊢
    simp only [ofJson?, hmedia, hlong, hshort]
    congr 1
    funext mediaType
    have hread (hash : Json) : ((optionalText? (some hash.sorted)).bind fun text ↦
        some (PayloadRef.mk mediaType text)) =
        (optionalText? (some hash)).bind fun text ↦ some ⟨mediaType, text⟩ := by
      rw [hitem]
    cases (Json.object members).get? "contentHash" with
    | none =>
      cases (Json.object members).get? "_sha1" with
      | none => rfl
      | some hash => exact hread hash
    | some hash =>
      cases (Json.object members).get? "_sha1" with
      | none => exact hread hash
      | some _ => rfl

theorem Response.ofJson_sorted (hv : Fits depth v) : ofJson v.sorted = ofJson v := by
  have hcontent : (v.sorted.get? "content").bind PayloadRef.ofJson? =
      (v.get? "content").bind PayloadRef.ofJson? :=
    bind_get?_sorted hv "content" PayloadRef.ofJson?_sorted
  simp only [ofJson, hcontent]
  rw [hv.get?_sorted "status"]
  congr 1
  cases v.get? "status" with
  | none => rfl
  | some w => cases w <;> rfl

theorem Snapshot.ofJson?_sorted (hv : Fits depth v) : ofJson? v.sorted = ofJson? v := by
  have htime : (v.sorted.get? "time").bind Json.float? = (v.get? "time").bind Json.float? :=
    bind_get?_sorted hv "time" fun _ ↦ Json.float?_sorted _
  have hresponse : ((v.sorted.get? "response").filter Json.isObject).map Response.ofJson =
      ((v.get? "response").filter Json.isObject).map Response.ofJson := by
    rw [hv.get?_sorted]
    cases hw : v.get? "response" with
    | none => rfl
    | some w =>
      obtain ⟨_, hfits⟩ := hv.get? hw
      rw [Option.map_some, Option.filter_some, Option.filter_some, Json.isObject_sorted]
      cases w.isObject with
      | false => rfl
      | true => exact congrArg some (Response.ofJson_sorted hfits)
  unfold ofJson?
  rw [htime, hresponse, hv.stringAt?_sorted, hv.stringAt?_sorted, hv.get?_sorted "request"]
  cases hw : v.get? "request" with
  | none => rfl
  | some request =>
    obtain ⟨_, hfits⟩ := hv.get? hw
    have hpost : (request.sorted.get? "postData").bind PayloadRef.ofJson? =
        (request.get? "postData").bind PayloadRef.ofJson? :=
      bind_get?_sorted hfits "postData" PayloadRef.ofJson?_sorted
    rw [Option.map_some, Option.bind_eq_bind, Option.bind_some, Option.bind_eq_bind,
      Option.bind_some, Json.isObject_sorted, hfits.stringAt?_sorted, hfits.stringAt?_sorted, hpost]

theorem errorText?_sorted (hv : Fits depth v) :
    errorText? (v.sorted.get? "params") = errorText? (v.get? "params") := by
  rw [hv.get?_sorted]
  cases hparams : v.get? "params" with
  | none => rfl
  | some params =>
    obtain ⟨_, hfits⟩ := hv.get? hparams
    simp only [errorText?, Option.map_some, Option.bind_some]
    rw [hfits.get?_sorted]
    cases herror : params.get? "error" with
    | none => rfl
    | some error =>
      obtain ⟨_, herrorFits⟩ := hfits.get? herror
      cases error with
      | object members => exact herrorFits.stringAt?_sorted "message"
      | null | bool | number | string | array => rfl

namespace Event

theorem consoleOfJson?_sorted (hv : Fits depth v) :
    consoleOfJson? v.sorted = consoleOfJson? v := by
  simp only [consoleOfJson?, hv.stringAt?_sorted, optionalText?_get?_sorted hv]

/-- Putting members in order does not change which event a value is. -/
theorem ofJson?_sorted (hv : Fits depth v) : ofJson? v.sorted = ofJson? v := by
  have hsnapshot : (v.sorted.get? "snapshot").bind Snapshot.ofJson? =
      (v.get? "snapshot").bind Snapshot.ofJson? :=
    bind_get?_sorted hv "snapshot" Snapshot.ofJson?_sorted
  simp only [ofJson?, hv.stringAt?_sorted, hsnapshot, consoleOfJson?_sorted hv,
    errorText?_sorted hv]

/-! ## Lines of events -/

/-- The event on the line of a value is the event that the value is. -/
theorem ofLine?_compact (hv : Fits Json.maxDepth v) : ofLine? v.compact = ofJson? v := by
  rw [ofLine?, hv.parse?_compact, Option.bind_some, ofJson?_sorted hv]

/-- **Event lines are a code.**  Take any values with integers of 64 bits, distinct keys, and arrays
and objects nested at most 127 deep, and write each on a line of its own.  The text has exactly
these lines and an empty one at its end; the event on each line is the one that its value is; and
the events of the text are those among the values, in their order. -/
theorem ofText_linesOf {values : List Json} (h : ∀ v ∈ values, Fits 127 v) :
    Text.lines (Json.linesOf values).toList = values.map Json.compact ++ [[]] ∧
      (∀ v ∈ values, ofLine? v.compact = ofJson? v) ∧
      ofText (Json.linesOf values).toList = values.filterMap ofJson? := by
  have hlines := Json.lines_linesOf h
  refine ⟨hlines, fun v hv ↦ ofLine?_compact (h v hv), ?_⟩
  have hline : ∀ v ∈ values, ofLine? (Text.trim v.compact) = ofJson? v := fun v hv ↦ by
    rw [(h v hv).trim_compact]
    exact ofLine?_compact (h v hv)
  have hend : [([] : List Char)].filterMap (fun line ↦ ofLine? (Text.trim line)) = [] := rfl
  rw [ofText, hlines, List.filterMap_append, hend, List.append_nil, List.filterMap_map]
  exact List.filterMap_congr hline

/-- Values whose text has much to get wrong: a line feed, a quote and a backslash in a text, keys
out of order, the greatest integer, and values that are no events. -/
def awkwardValues : List Json :=
  [.object [("type", .string "console"), ("text", .string "a\n\"b\\"),
      ("messageType", .string "error")],
    .array [.number (.integer Number.maxWord), .null],
    .object [("type", .string "event"), ("method", .string "pageError"),
      ("params", .object [
        ("error", .object [("stack", .bool true), ("message", .string "\x1f")])])]]

/-- The hypothesis is met by these values, and two of them are events. -/
theorem ofText_linesOf_awkwardValues :
    (∀ v ∈ awkwardValues, Fits 127 v) ∧ ofText (Json.linesOf awkwardValues).toList =
      [.console "error" (some "a\n\"b\\"), .pageError (some "\x1f")] := by
  have hfits : ∀ v ∈ awkwardValues, Fits 127 v := by
    simp only [awkwardValues, List.forall_mem_cons]
    refine ⟨.object (by decide) ?_, .array ?_, .object (by decide) ?_, nofun⟩
    · simp only [List.forall_mem_cons]
      exact ⟨.string _ _, .string _ _, .string _ _, nofun⟩
    · simp only [List.forall_mem_cons]
      exact ⟨.integer _ (by decide) (by decide), .null _, nofun⟩
    · simp only [List.forall_mem_cons]
      refine ⟨.string _ _, .string _ _, .object (by decide) ?_, nofun⟩
      simp only [List.forall_mem_cons]
      refine ⟨.object (by decide) ?_, nofun⟩
      simp only [List.forall_mem_cons]
      exact ⟨.bool _ _, .string _ _, nofun⟩
  exact ⟨hfits, (ofText_linesOf hfits).2.2⟩

end Event

end BrowserTrace
