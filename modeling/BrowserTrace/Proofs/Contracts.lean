import BrowserTrace.Command.Run
import BrowserTrace.Diagnostics.Reader
import BrowserTrace.Proofs.Json.Reads

/-!
# The JSON contracts

Diagnostics are written for other programs to read, and lists of attempts are written by other
programs.  Either contract goes round: what is written for a value is read back as that value, over
one line or several (`Diagnostics.reads`, `Attempt.reads_list`).

Each record is read by filling its fields in the order in which they were written, so there is one
lemma a type.  A status is a 64-bit integer, and a duration is a whole number of milliseconds of at
most `10 ^ 12`, which every fraction-free reading of the text gives back exactly
(`NetworkRecord.InRange`).
-/

namespace BrowserTrace

open Json
open Json.Parser (record)

/-- A member that is left out when its value is absent leaves its field as it was. -/
theorem Json.Fills.optionalMember {σ α : Type} {fields : List (RecordField σ)} {r : σ} {key : String}
    {f : α → Json} {p : Parser α} {o : Option α} (set : Option α → σ → σ)
    (hfield : fields.find? (·.name == key) = some (.defaulted key p.option set))
    (hvalue : ∀ a ∈ o, f a ≠ .null ∧ Reads p (f a) a) (habsent : set none r = r) :
    Fills fields (optionalMember key f o) r (set o r) := by
  cases o with
  | none =>
    rw [habsent]
    exact .nil r
  | some a =>
    obtain ⟨hnull, hread⟩ := hvalue a rfl
    exact .cons hfield ((hread.option hnull).map set) (.nil _)

/-! ## Keys -/

/-- The key of an optional member, if it is there. -/
def optionalKey {α : Type} (key : String) (o : Option α) : List String := (o.map fun _ ↦ key).toList

theorem keys_optionalMember {α : Type} (key : String) (f : α → Json) (o : Option α) :
    (optionalMember key f o).map Prod.fst = optionalKey key o := by
  cases o <;> rfl

theorem optionalKey_sublist {α : Type} (key : String) (o : Option α) :
    (optionalKey key o).Sublist [key] := by
  cases o with
  | none => exact List.nil_sublist _
  | some a => exact List.Sublist.refl _

/-! ## Network records -/

namespace NetworkRecord

/-- The status is one of 64 bits, and the duration, if there is one, a whole number of at most
`10 ^ 12` milliseconds. -/
structure InRange (r : NetworkRecord) : Prop where
  status_ge : minInt64 ≤ r.status
  status_le : r.status ≤ maxInt64
  duration : ∀ x ∈ r.durationMs, ∃ i : Int, x.toInt? = some i ∧ i.natAbs ≤ 10 ^ 12

/-- The keys that a record is written with. -/
def keys (r : NetworkRecord) : List String :=
  ["method", "url", "status"] ++ optionalKey "durationMs" r.durationMs ++
    optionalKey "resourceType" r.resourceType ++ optionalKey "requestBody" r.requestBody ++
    optionalKey "responseBody" r.responseBody

theorem keys?_toJson (r : NetworkRecord) : r.toJson.keys? = some r.keys := by
  simp only [Json.keys?, toJson, members?, Option.map_some, List.map_append, keys_optionalMember]
  rfl

theorem nodup_keys (r : NetworkRecord) : r.keys.Nodup := by
  have hsublist : r.keys.Sublist (["method", "url", "status"] ++ ["durationMs"] ++ ["resourceType"] ++
      ["requestBody"] ++ ["responseBody"]) :=
    ((((List.Sublist.refl _).append (optionalKey_sublist _ _)).append
      (optionalKey_sublist _ _)).append (optionalKey_sublist _ _)).append (optionalKey_sublist _ _)
  exact hsublist.nodup (by decide)

theorem reads {r : NetworkRecord} (h : r.InRange) : Reads reader r.toJson r := by
  have hduration : ∀ x ∈ r.durationMs, floatJson x ≠ .null ∧ Reads Parser.float (floatJson x) x := by
    intro x hx
    obtain ⟨i, hi, hle⟩ := h.duration x hx
    have hlt : i.natAbs * 10 < 2 * Number.leastNormal :=
      Nat.lt_of_le_of_lt (Nat.mul_le_mul_right 10 hle) (by decide)
    exact ⟨nofun, reads_float (Number.Binary64.hasMagnitude_of_toInt? hi) hlt⟩
  have htext (o : Option String) :
      ∀ t ∈ o, Json.string t ≠ .null ∧ Reads Parser.text (Json.string t) t :=
    fun t _ ↦ ⟨nofun, reads_text t⟩
  have hrequired : Fills fields [("method", .string r.method), ("url", .string r.url),
      ("status", .number (.integer r.status))] { method := "", url := "", status := 0 }
      { method := r.method, url := r.url, status := r.status } :=
    .cons rfl ((reads_text r.method).map _) <| .cons rfl ((reads_text r.url).map _) <|
      .cons rfl ((reads_integer h.status_ge h.status_le).map _) (.nil _)
  refine Reads.record ((((hrequired.append
      (.optionalMember (fun durationMs r ↦ { r with durationMs }) rfl hduration rfl)).append
      (.optionalMember (fun resourceType r ↦ { r with resourceType }) rfl (htext _) rfl)).append
      (.optionalMember (fun requestBody r ↦ { r with requestBody }) rfl (htext _) rfl)).append
      (.optionalMember (fun responseBody (r : NetworkRecord) ↦ { r with responseBody }) rfl
        (htext _) rfl)) r.keys?_toJson r.nodup_keys ?_
  exact fun key hkey ↦ List.mem_append_left _ (List.mem_append_left _ (List.mem_append_left _
    (List.mem_append_left _ hkey)))

end NetworkRecord

/-! ## Diagnostics -/

theorem ConsoleRecord.reads (r : ConsoleRecord) : Reads reader r.toJson r := by
  have hfills : Fills fields [("type", .string r.kind.name), ("text", .string r.text)]
      { kind := .warning, text := "" } r :=
    .cons rfl ((reads_choice r.kind.ofName?_name).map _) <|
      .cons rfl ((reads_text r.text).map _) (.nil _)
  exact Reads.record hfills rfl (show ["type", "text"].Nodup by decide) (List.Subset.refl _)

theorem Diagnostics.reads {d : Diagnostics} (h : ∀ r ∈ d.network, r.InRange) :
    Reads reader d.toJson d := by
  have hnetwork := Reads.list_map fun r hr ↦ NetworkRecord.reads (h r hr)
  have hconsole := Reads.list_map fun r (_ : r ∈ d.consoleMessages) ↦ r.reads
  have hfills : Fills fields [("network", .array (d.network.map NetworkRecord.toJson)),
      ("consoleMessages", .array (d.consoleMessages.map ConsoleRecord.toJson))] {} d :=
    .cons rfl (hnetwork.map _) <| .cons rfl (hconsole.map _) (.nil _)
  exact Reads.record hfills rfl (show ["network", "consoleMessages"].Nodup by decide) (List.nil_subset _)

/-! ## Attempts -/

namespace Attachment

/-- The keys that an attachment is written with. -/
def keys (a : Attachment) : List String := ["name", "contentType"] ++ optionalKey "path" a.path

theorem keys?_toJson (a : Attachment) : a.toJson.keys? = some a.keys := by
  simp only [Json.keys?, toJson, members?, Option.map_some, List.map_append, keys_optionalMember]
  rfl

theorem reads (a : Attachment) : Reads reader a.toJson a := by
  have hrequired : Fills fields [("name", .string a.name), ("contentType", .string a.contentType)]
      {} { name := a.name, contentType := a.contentType } :=
    .cons rfl ((reads_text a.name).map _) <| .cons rfl ((reads_text a.contentType).map _) (.nil _)
  have hpath : ∀ t ∈ a.path, Json.string t ≠ .null ∧ Reads Parser.text (Json.string t) t :=
    fun t _ ↦ ⟨nofun, reads_text t⟩
  have hnodup : a.keys.Nodup :=
    ((List.Sublist.refl _).append (optionalKey_sublist "path" a.path)).nodup (by decide)
  refine Reads.record (hrequired.append
    (.optionalMember (fun path (a : Attachment) ↦ { a with path }) rfl hpath rfl))
    a.keys?_toJson hnodup ?_
  exact fun key hkey ↦ List.mem_append_left _ (List.mem_cons_of_mem _ hkey)

end Attachment

namespace Attempt

/-- A list of attempts as JSON. -/
def listJson (attempts : List Attempt) : Json := .array (attempts.map toJson)

theorem reads (a : Attempt) : Reads reader a.toJson a := by
  have hattachments := Reads.list_map fun f (_ : f ∈ a.attachments) ↦ f.reads
  have hfills : Fills fields [("attachments", .array (a.attachments.map Attachment.toJson))] {} a :=
    .cons rfl (hattachments.map _) (.nil _)
  exact Reads.record hfills rfl (show ["attachments"].Nodup by decide) (List.nil_subset _)

theorem reads_list (attempts : List Attempt) : Reads reader.list (listJson attempts) attempts :=
  Reads.list_map fun a _ ↦ a.reads

end Attempt

/-! ## There and back -/

theorem Files.textOf_toUTF8 (text : String) : Files.textOf text.toUTF8 = .ok text := by
  have htext : String.fromUTF8? text.toUTF8 = some text := dif_pos text.isValidUTF8
  simp only [Files.textOf, htext]

/-- The text stands at the path that an extraction reads its attempts from, which may be the
standard input. -/
def Command.StandsAt (text : String) (files : Files) (stdin : ByteArray) (path : String) : Prop :=
  if path = "-" then stdin = text.toUTF8 else files.read path = .ok text.toUTF8

theorem Command.standsAt_stdin (text : String) (files : Files) :
    StandsAt text files text.toUTF8 "-" := by
  rw [StandsAt, if_pos rfl]

theorem Command.readAttempts_eq_ok {text : String} {files : Files} {stdin : ByteArray} {path : String}
    (hplace : StandsAt text files stdin path) {attempts : List Attempt} :
    readAttempts files stdin path = .ok attempts ↔ Attempt.readList text.toList = .ok attempts := by
  have hread : (if path = "-" then Files.textOf stdin else files.readText path) = .ok text := by
    unfold StandsAt at hplace
    split at hplace
    · next hpath => rw [if_pos hpath, hplace, Files.textOf_toUTF8]
    · next hpath => simp only [if_neg hpath, Files.readText, hplace, Files.textOf_toUTF8]
  simp only [readAttempts, hread]
  cases Attempt.readList text.toList with
  | error error => exact iff_of_false nofun nofun
  | ok attempts' => simp

/-- Attempts that were written are the attempts that an extraction starts from. -/
theorem Attempt.readList_of_laidOut {attempts : List Attempt} {text : List Char}
    (htext : LaidOut (listJson attempts) text) : readList text = .ok attempts := by
  have hrun := (reads_list attempts).run_eq htext endsNumber_nil
  rw [List.append_nil] at hrun
  rw [readList, hrun]
  rfl

/-- Diagnostics are read back from the text that is printed for them, which has both lists and no
optional member that is absent; and a list of attempts is read back from its text. -/
theorem contracts_roundTrip (d : Diagnostics) (h : ∀ r ∈ d.network, r.InRange)
    (attempts : List Attempt) :
    (Diagnostics.reader.whole (d.toJson.pretty ++ "\n").toList = some d ∧
      Diagnostics.ofText (d.toJson.pretty ++ "\n").toList = .ok d) ∧
    (LaidOut d.toJson d.toJson.pretty.toList ∧
      d.toJson.keys? = some ["network", "consoleMessages"] ∧
      (∀ r ∈ d.network, r.toJson.keys? = some r.keys) ∧
      ∀ r ∈ d.consoleMessages, r.toJson.keys? = some ["type", "text"]) ∧
    (LaidOut (Attempt.listJson attempts) (Attempt.listJson attempts).pretty.toList ∧
      LaidOut (Attempt.listJson attempts) (Attempt.listJson attempts).compact ∧
      ∀ text : String, LaidOut (Attempt.listJson attempts) text.toList →
        ∀ (files : Files) (stdin : ByteArray) (path : String),
          Command.StandsAt text files stdin path →
            Command.readAttempts files stdin path = .ok attempts) := by
  have hpretty (v : Json) : LaidOut v v.pretty.toList := by
    rw [pretty, String.toList_ofList]
    exact laidOut_prettyAt 0 v
  have hblank : Blank "\n".toList := by
    rintro c hc
    rw [List.mem_singleton.mp hc]
    rfl
  have hwhole := (Diagnostics.reads h).whole_eq (hpretty d.toJson) hblank
  have hend : EndsNumber "\n".toList := by
    rintro c ⟨⟩
    decide
  have hrun := (Diagnostics.reads h).run_eq (hpretty d.toJson) hend
  rw [← String.toList_append] at hwhole hrun
  refine ⟨⟨hwhole, ?_⟩, ⟨hpretty _, rfl, fun r _ ↦ r.keys?_toJson, fun r _ ↦ rfl⟩, hpretty _,
    laidOut_compact _, fun text htext files stdin path hplace ↦
      (Command.readAttempts_eq_ok hplace).mpr (Attempt.readList_of_laidOut htext)⟩
  rw [Diagnostics.ofText, hrun]
  rfl

/-- Awkward strings, negative numbers, and optional fields that are there and that are not. -/
def Sample.diagnostics : Diagnostics where
  network :=
    [{ method := "GET", url := "https://example.test/\"a\\b\"?q=\u0001", status := -1
       durationMs := some ⟨true, 250 * 2 ^ 45, -45, by decide⟩, responseBody := some "null" },
      { method := "", url := "\n\t", status := minInt64, requestBody := some "" }]
  consoleMessages := [{ kind := .pageError, text := "line\nline" }]

/-- An attempt with an attachment on disk and one without a path, and an attempt without any. -/
def Sample.attempts : List Attempt :=
  [{ attachments := [.trace "application/zip" "a/\"trace\".zip", { contentType := "text/plain" }] },
    {}]

theorem contracts_roundTrip_sample :
    (∀ r ∈ Sample.diagnostics.network, r.InRange) ∧
      Diagnostics.ofText (Sample.diagnostics.toJson.pretty ++ "\n").toList =
        .ok Sample.diagnostics ∧
      ∀ files : Files, Command.readAttempts files
        (Attempt.listJson Sample.attempts).pretty.toUTF8 "-" = .ok Sample.attempts := by
  have hrange : ∀ r ∈ Sample.diagnostics.network, r.InRange := by
    rintro r hr
    rcases List.mem_pair.mp hr with rfl | rfl
    · refine ⟨by decide, by decide, ?_⟩
      rintro x ⟨⟩
      exact ⟨-250, by decide, by omega⟩
    · refine ⟨by decide, by decide, ?_⟩
      rintro x ⟨⟩
  obtain ⟨⟨-, hread⟩, -, hpretty, -, hattempts⟩ :=
    contracts_roundTrip Sample.diagnostics hrange Sample.attempts
  exact ⟨hrange, hread, fun files ↦ hattempts _ hpretty files _ "-"
    (Command.standsAt_stdin _ files)⟩

end BrowserTrace
