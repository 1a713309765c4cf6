import BrowserTrace.Proofs.Bounds

/-!
# Smaller limits only cut

An attempt is extracted twice, under limits and under larger ones.  Whether there is a record, and
whether it has a body, is decided before anything is cut, so no decision depends on the limits, and
cutting twice is cutting once at the smaller length.  Hence what comes of the smaller limits is cut
from what comes of the larger ones (`Diagnostics.cut`).  Each function from a text to the lists of
records has its lemma here; the recognized events, from which all of them start, know nothing of
these limits.
-/

namespace BrowserTrace

/-! ## Limits and cuts -/

/-- None of the limits is above the other one of its kind. -/
structure RecordLimits.AtMost (limits larger : RecordLimits) : Prop where
  consoleRecords_le : limits.maxConsoleRecords ≤ larger.maxConsoleRecords
  bodyChars_le : limits.maxBodyChars ≤ larger.maxBodyChars
  textChars_le : limits.maxTextChars ≤ larger.maxTextChars

/-- A network record with its bodies cut. -/
def NetworkRecord.cut (max : Nat) (r : NetworkRecord) : NetworkRecord :=
  { r with
    requestBody := r.requestBody.map (Text.truncate max)
    responseBody := r.responseBody.map (Text.truncate max) }

/-- A console record with its text cut. -/
def ConsoleRecord.cut (max : Nat) (r : ConsoleRecord) : ConsoleRecord :=
  { r with text := Text.truncate max r.text }

/-- Diagnostics cut to limits: the bodies, the texts, and the list of console records. -/
def Diagnostics.cut (limits : RecordLimits) (d : Diagnostics) : Diagnostics where
  network := d.network.map (·.cut limits.maxBodyChars)
  consoleMessages :=
    (d.consoleMessages.take limits.maxConsoleRecords).map (·.cut limits.maxTextChars)

/-- A network record without its bodies, and whether it has them. -/
def NetworkRecord.outline (r : NetworkRecord) : NetworkRecord × Bool × Bool :=
  ({ r with requestBody := none, responseBody := none }, r.requestBody.isSome,
    r.responseBody.isSome)

/-- Limits above both. -/
def RecordLimits.join (limits limits' : RecordLimits) : RecordLimits where
  maxConsoleRecords := max limits.maxConsoleRecords limits'.maxConsoleRecords
  maxBodyChars := max limits.maxBodyChars limits'.maxBodyChars
  maxTextChars := max limits.maxTextChars limits'.maxTextChars

theorem RecordLimits.atMost_join_left (limits limits' : RecordLimits) :
    limits.AtMost (limits.join limits') :=
  ⟨Nat.le_max_left .., Nat.le_max_left .., Nat.le_max_left ..⟩

theorem RecordLimits.atMost_join_right (limits limits' : RecordLimits) :
    limits'.AtMost (limits.join limits') :=
  ⟨Nat.le_max_right .., Nat.le_max_right .., Nat.le_max_right ..⟩

/-- A cut leaves all but the bodies as it was, and leaves no body out. -/
@[simp] theorem NetworkRecord.outline_cut (max : Nat) (r : NetworkRecord) :
    (r.cut max).outline = r.outline := by
  simp [outline, cut]

/-! ## From texts to records -/

section Records

variable {limits larger : RecordLimits}

theorem Text.truncate_truncate {max more : Nat} (h : max ≤ more) (s : String) :
    truncate max (truncate more s) = truncate max s := by
  rw [← String.toList_inj, toList_truncate, toList_truncate, toList_truncate, List.take_take,
    Nat.min_eq_left h]

/-- Whether there is a body does not depend on the limit. -/
theorem Archive.payload?_eq_map_truncate {max more : Nat} (h : max ≤ more) (a : Archive)
    (ref : PayloadRef) : a.payload? ref max = (a.payload? ref more).map (Text.truncate max) := by
  unfold payload?
  cases a.payloadEntry? ref with
  | none => rfl
  | some e =>
    cases hr : (a.readText e).toOption with
    | none => simp [hr]
    | some text => simp [hr, Text.truncate_truncate h]

theorem Archive.bind_payload? {max more : Nat} (h : max ≤ more) (a : Archive)
    (ref? : Option PayloadRef) :
    ref?.bind (a.payload? · max) = (ref?.bind (a.payload? · more)).map (Text.truncate max) := by
  rw [Option.map_bind]
  exact Option.bind_congr fun ref _ ↦ a.payload?_eq_map_truncate h ref

theorem Snapshot.record?_eq_map_cut (h : limits.AtMost larger) (s : Snapshot) (a : Archive) :
    s.record? a limits = (s.record? a larger).map (·.cut limits.maxBodyChars) := by
  have hbind := a.bind_payload? h.bodyChars_le
  unfold record?
  cases nonempty? s.method with
  | none => rfl
  | some method =>
    cases nonempty? s.url with
    | none => rfl
    | some url =>
      cases s.response with
      | none => rfl
      | some response =>
        cases hs : response.status with
        | none => simp [hs]
        | some status => simp [hs, NetworkRecord.cut, ← hbind]

theorem Event.networkRecord?_eq_map_cut (h : limits.AtMost larger) (e : Event) (a : Archive) :
    e.networkRecord? a limits = (e.networkRecord? a larger).map (·.cut limits.maxBodyChars) := by
  cases e with
  | snapshot s => exact s.record?_eq_map_cut h a
  | console => rfl
  | pageError => rfl

/-- A text is found not to be empty before it is cut. -/
theorem Event.consoleRecord?_eq_map_cut (h : limits.AtMost larger) (e : Event) :
    e.consoleRecord? limits = (e.consoleRecord? larger).map (·.cut limits.maxTextChars) := by
  unfold consoleRecord?
  cases e.consoleText? with
  | none => rfl
  | some found => simp [ConsoleRecord.cut, Text.truncate_truncate h.textChars_le]

/-! ## From events to lists -/

variable (events : List (Archive × Event))

theorem Collector.networkOf_eq_map_cut (h : limits.AtMost larger) :
    networkOf limits events = (networkOf larger events).map (·.cut limits.maxBodyChars) := by
  rw [networkOf, networkOf, List.map_filterMap]
  exact congrArg (List.filterMap · events) (funext fun p ↦ p.2.networkRecord?_eq_map_cut h p.1)

theorem Collector.consoleOf_eq_map_cut (h : limits.AtMost larger) :
    consoleOf limits events = (consoleOf larger events).map (·.cut limits.maxTextChars) := by
  rw [consoleOf, consoleOf, List.map_filterMap]
  exact congrArg (List.filterMap · events) (funext fun p ↦ p.2.consoleRecord?_eq_map_cut h)

/-- Which records and bodies there are does not depend on the limits: both lists are cut from one. -/
theorem Collector.map_outline_networkOf (limits limits' : RecordLimits) :
    (networkOf limits events).map (·.outline) = (networkOf limits' events).map (·.outline) := by
  rw [networkOf_eq_map_cut events (limits.atMost_join_left limits'),
    networkOf_eq_map_cut events (limits.atMost_join_right limits')]
  simp only [List.map_map, Function.comp_def, NetworkRecord.outline_cut]

theorem Collector.length_consoleOf (limits limits' : RecordLimits) :
    (consoleOf limits events).length = (consoleOf limits' events).length := by
  rw [consoleOf_eq_map_cut events (limits.atMost_join_left limits'),
    consoleOf_eq_map_cut events (limits.atMost_join_right limits'), List.length_map,
    List.length_map]

end Records

/-! ## Two runs -/

/-- An attempt extracted under limits on its records. -/
def extractUnder (files : Files) (settings : Settings) (attempt : Attempt)
    (limits : RecordLimits) : Extraction :=
  extract files { settings with recordLimits := limits } attempt

section Runs

variable (files : Files) (settings : Settings) (attempt : Attempt)

/-- The limits on records have no say in which events are recognized. -/
theorem Collector.tells_extractUnder (limits : RecordLimits) :
    Tells limits
      (attempt.attachments.foldl
        (Collector.addAttachment files { settings with recordLimits := limits })
        (.empty limits)).finish
      (Extraction.historyOf files settings attempt.attachments) :=
  tells_attempt files { settings with recordLimits := limits } attempt

theorem diagnostics_extractUnder (limits : RecordLimits) :
    let events := Extraction.recognized files settings attempt.attachments
    (extractUnder files settings attempt limits).diagnostics =
      { network := Collector.networkOf limits events
        consoleMessages := (Collector.consoleOf limits events).take limits.maxConsoleRecords } := by
  intro events
  have htells := Collector.tells_extractUnder files settings attempt limits
  exact congrArg₂ Diagnostics.mk htells.network_eq htells.console_eq

theorem stats_extractUnder (limits : RecordLimits) :
    (extractUnder files settings attempt limits).stats =
      (Extraction.historyOf files settings attempt.attachments).stats limits :=
  (Collector.tells_extractUnder files settings attempt limits).stats_eq

/-- All console records are counted, the kept ones and the dropped ones. -/
theorem consoleRecords_add_dropped (limits : RecordLimits) :
    (extractUnder files settings attempt limits).stats.consoleRecords +
        (extractUnder files settings attempt limits).stats.consoleRecordsDropped =
      (Collector.consoleOf limits
        (Extraction.recognized files settings attempt.attachments)).length := by
  rw [stats_extractUnder]
  change (List.take _ _).length + (List.drop _ _).length = _
  rw [← List.length_append, List.take_append_drop]
  rfl

theorem diagnostics_extractUnder_eq_cut {limits larger : RecordLimits} (h : limits.AtMost larger) :
    (extractUnder files settings attempt limits).diagnostics =
      (extractUnder files settings attempt larger).diagnostics.cut limits := by
  rw [diagnostics_extractUnder, diagnostics_extractUnder, Diagnostics.cut]
  refine congrArg₂ Diagnostics.mk ?_ ?_
  · exact Collector.networkOf_eq_map_cut _ h
  · rw [Collector.consoleOf_eq_map_cut _ h, List.take_take,
      Nat.min_eq_left h.consoleRecords_le, List.map_take]

/-- **Smaller limits only cut.**  Under limits that are nowhere above others, the diagnostics of an
attempt are those under the others with every body, every text and the list of console records cut.
Whatever two limits are compared, the network records are the same ones in the same order, with the
same bodies present; as many console records are found, kept or dropped; and the other counts are the
same. -/
theorem smaller_limits_only_cut (limits limits' : RecordLimits) :
    let result := extractUnder files settings attempt limits
    let result' := extractUnder files settings attempt limits'
    (limits.AtMost limits' → result.diagnostics = result'.diagnostics.cut limits) ∧
      result.diagnostics.network.map (·.outline) = result'.diagnostics.network.map (·.outline) ∧
      result.stats.consoleRecords + result.stats.consoleRecordsDropped =
        result'.stats.consoleRecords + result'.stats.consoleRecordsDropped ∧
      result.stats = { result'.stats with
        consoleRecords := result.stats.consoleRecords
        consoleRecordsDropped := result.stats.consoleRecordsDropped } := by
  intro result result'
  have houtline := Collector.map_outline_networkOf
    (Extraction.recognized files settings attempt.attachments) limits limits'
  refine ⟨diagnostics_extractUnder_eq_cut files settings attempt, ?_, ?_, ?_⟩
  · simpa only [result, result', diagnostics_extractUnder] using houtline
  · rw [consoleRecords_add_dropped, consoleRecords_add_dropped]
    exact Collector.length_consoleOf _ limits limits'
  · have hnetwork := congrArg List.length houtline
    rw [List.length_map, List.length_map] at hnetwork
    simp only [result, result', stats_extractUnder]
    exact (Stats.mk.injEq ..).mpr ⟨rfl, rfl, rfl, rfl, hnetwork, rfl, rfl⟩

end Runs

namespace Sample

/-- Limits under which one character is left of each text. -/
def oneChar : RecordLimits where
  maxConsoleRecords := 1
  maxBodyChars := 1
  maxTextChars := 1

/-- The body of the sample is cut to its first character, and is still there. -/
theorem smaller_limits_only_cut_oneChar :
    oneChar.AtMost {} ∧
      (extractUnder files {} attempt oneChar).diagnostics.network =
        [{ record with responseBody := some "\x7b" }] := by
  have hle : oneChar.AtMost {} := ⟨by decide, by decide, by decide⟩
  have hcut := (smaller_limits_only_cut files {} attempt oneChar {}).1 hle
  have hnetwork : (extractUnder files {} attempt {}).diagnostics.network = [record] :=
    network_extract
  refine ⟨hle, (congrArg Diagnostics.network hcut).trans ?_⟩
  rw [Diagnostics.cut, hnetwork]
  decide

end Sample

end BrowserTrace
