import BrowserTrace.Proofs.Command.Traces
import BrowserTrace.Proofs.Contracts

/-!
# Two ways to name the traces

The traces of an extraction are given by their paths, or by a list of attempts with attachments.
What is printed for an attempt depends on the archives that open (`diagnostics_eq_of_opened_eq`), and
these on the attempt and on what the file system has at its paths (`Extraction.opened_congr`).  Of an
attempt all of whose attachments are traces, only the paths matter
(`Extraction.opened_eq_filterMap_paths`).

So both ways print the same for the same paths, up to the brackets of a list, and each attempt of a
list is printed as if it were the only one (`routes_agree`).
-/

namespace BrowserTrace

open Json (LaidOut)

/-- The file systems have the same at a path. -/
structure Files.SameAt (files files' : Files) (path : String) : Prop where
  info_eq : files.info path = files'.info path
  read_eq : files.read path = files'.read path

theorem Files.SameAt.refl (files : Files) (path : String) : files.SameAt files path := ⟨rfl, rfl⟩

theorem Archive.load_congr {files files' : Files} {path : String} (h : files.SameAt files' path)
    (limits : ArchiveLimits) : load files path limits = load files' path limits := by
  simp only [load, h.info_eq, h.read_eq]

/-! ## The archives of an attempt -/

namespace Extraction

variable {files files' : Files} {settings : Settings} {attachments : List Attachment}

/-- Only the paths of the attachments are looked at. -/
theorem opened_congr (h : ∀ t ∈ attachments, ∀ path ∈ t.path, files.SameAt files' path) :
    opened files settings attachments = opened files' settings attachments := by
  refine List.filterMap_congr fun t ht ↦ ?_
  rw [openTrace?, openTrace?]
  refine Option.bind_congr fun path hpath ↦ ?_
  rw [Archive.load_congr (h t (List.mem_of_mem_filter ht) path hpath)]

/-- Where all attachments are traces, their names do not matter. -/
theorem opened_eq_filterMap_paths
    (htype : ∀ t ∈ attachments, t.contentType = settings.archiveContentType) {paths : List String}
    (hpaths : attachments.map (·.path) = paths.map some) :
    opened files settings attachments =
      paths.filterMap fun path ↦ (Archive.load files path settings.archiveLimits).toOption := by
  have htraces : traces settings attachments = attachments :=
    List.filter_eq_self.mpr fun t ht ↦ beq_iff_eq.mpr (htype t ht)
  have hopen : attachments.filterMap (openTrace? files settings) =
      (attachments.map (·.path)).filterMap fun path? ↦ path?.bind fun path ↦
        (Archive.load files path settings.archiveLimits).toOption := by
    rw [List.filterMap_map]
    rfl
  rw [opened, htraces, hopen, hpaths, List.filterMap_map]
  rfl

end Extraction

namespace Command

variable {files files' : Files} {stdin stdin' : ByteArray} {settings : Settings}
  {path path' : String}

theorem opened_attemptOf (paths : List String) :
    Extraction.opened files settings (attemptOf settings paths).attachments =
      paths.filterMap fun path ↦ (Archive.load files path settings.archiveLimits).toOption := by
  refine Extraction.opened_eq_filterMap_paths (fun t ht ↦ ?_) ?_
  · obtain ⟨path, -, rfl⟩ := List.mem_map.mp ht
    rfl
  · exact List.map_map

/-! ## What is printed -/

/-- The extraction comes to this JSON, and prints it with a line feed behind it. -/
structure Source.Prints (source : Source) (files : Files) (stdin : ByteArray) (settings : Settings)
    (v : Json) : Prop where
  json_eq : source.json files stdin settings = .ok v
  result_eq : ∀ verbose colored output,
    ((Task.extract source output).perform files stdin settings verbose colored).result =
      .ok (v.pretty ++ "\n")

theorem Source.prints_iff {source : Source} {v : Json} :
    source.Prints files stdin settings v ↔ source.json files stdin settings = .ok v := by
  refine ⟨Source.Prints.json_eq, fun h ↦ ⟨h, fun verbose colored output ↦ ?_⟩⟩
  rw [perform_extract, h]
  rfl

theorem prints_traces {paths : List String} {v : Json} :
    (Source.traces paths).Prints files stdin settings v ↔
      (extract files settings (attemptOf settings paths)).diagnostics.toJson = v :=
  Source.prints_iff.trans ⟨Except.ok.inj, congrArg Except.ok⟩

theorem prints_attachments {attempts : List Attempt}
    (hread : readAttempts files stdin path = .ok attempts) {v : Json} :
    (Source.attachments path).Prints files stdin settings v ↔
      .array (attempts.map fun attempt ↦ (extract files settings attempt).diagnostics.toJson) =
        v := by
  rw [Source.prints_iff, Source.json, hread]
  exact ⟨Except.ok.inj, congrArg Except.ok⟩

theorem prints_one_attempt {attempt : Attempt}
    (hread : readAttempts files stdin path = .ok [attempt]) {d : Diagnostics}
    (hd : (extract files settings attempt).diagnostics = d) :
    (Source.attachments path).Prints files stdin settings (.array [d.toJson]) := by
  rw [prints_attachments hread, List.map_singleton, hd]

/-- A list of attempts is read from any of its layouts. -/
theorem readAttempts_of_laidOut {attempts : List Attempt} {text : List Char}
    (htext : LaidOut (Attempt.listJson attempts) text)
    (hplace : StandsAt (String.ofList text) files stdin path) :
    readAttempts files stdin path = .ok attempts := by
  rw [readAttempts_eq_ok hplace, String.toList_ofList]
  exact Attempt.readList_of_laidOut htext

/-! ## Both ways -/

/-- A list with one attempt, all of whose attachments are traces, prints what the traces at their
paths print. -/
theorem prints_attachments_of_traces {paths : List String} {d : Json}
    (hprints : (Source.traces paths).Prints files stdin settings d) {attachments : List Attachment}
    (hpaths : attachments.map (·.path) = paths.map some)
    (htype : ∀ t ∈ attachments, t.contentType = settings.archiveContentType)
    (hsame : ∀ p ∈ paths, files.SameAt files' p)
    (hread : readAttempts files' stdin' path = .ok [⟨attachments⟩]) :
    (Source.attachments path).Prints files' stdin' settings (.array [d]) := by
  obtain rfl := prints_traces.mp hprints
  have hopened : Extraction.opened files' settings attachments =
      Extraction.opened files settings (attemptOf settings paths).attachments := by
    rw [opened_attemptOf, Extraction.opened_eq_filterMap_paths htype hpaths]
    refine List.filterMap_congr fun p hp ↦ ?_
    rw [Archive.load_congr (hsame p hp)]
  exact prints_one_attempt hread (diagnostics_eq_of_opened_eq hopened)

/-- Each attempt of a list is printed as if it were the only one. -/
theorem prints_attempt_alone {attempts : List Attempt}
    (hread : readAttempts files stdin path = .ok attempts) {items : List Json}
    (hprints : (Source.attachments path).Prints files stdin settings (.array items)) {i : Nat}
    {attempt : Attempt} (hattempt : attempts[i]? = some attempt) {item : Json}
    (hitem : items[i]? = some item)
    (hsame : ∀ t ∈ attempt.attachments, ∀ p ∈ t.path, files.SameAt files' p)
    (hread' : readAttempts files' stdin' path' = .ok [attempt]) :
    (Source.attachments path').Prints files' stdin' settings (.array [item]) := by
  obtain rfl := Json.array.inj ((prints_attachments hread).mp hprints)
  rw [List.getElem?_map, hattempt] at hitem
  obtain rfl := Option.some.inj hitem
  exact prints_one_attempt hread' (diagnostics_eq_of_opened_eq (Extraction.opened_congr hsame)).symm

/-- **Paths and attachments lead to the same.**  A list of attempts is read from any layout of its
JSON.  The traces at some paths always print something, and a list with one attempt whose attachments
are traces at these paths, whatever their names, prints the array of just that, as long as both file
systems have the same at the paths.  A list of attempts that is read prints an array with one item an
attempt, and a list with just one of the attempts prints the array of just its item. -/
theorem routes_agree (settings : Settings) (files : Files) (stdin : ByteArray) :
    (∀ attempts text path, LaidOut (Attempt.listJson attempts) text →
      StandsAt (String.ofList text) files stdin path →
      readAttempts files stdin path = .ok attempts) ∧
    (∀ paths, (∃ d, (Source.traces paths).Prints files stdin settings d) ∧
      ∀ d, (Source.traces paths).Prints files stdin settings d →
        ∀ attachments : List Attachment, attachments.map (·.path) = paths.map some →
          (∀ t ∈ attachments, t.contentType = settings.archiveContentType) →
          ∀ files' stdin' path, (∀ p ∈ paths, files.SameAt files' p) →
            readAttempts files' stdin' path = .ok [⟨attachments⟩] →
            (Source.attachments path).Prints files' stdin' settings (.array [d])) ∧
    ∀ path attempts, readAttempts files stdin path = .ok attempts →
      (∃ items, (Source.attachments path).Prints files stdin settings (.array items)) ∧
      ∀ items : List Json, (Source.attachments path).Prints files stdin settings (.array items) →
        items.length = attempts.length ∧
        ∀ (i : Nat) attempt item, attempts[i]? = some attempt → items[i]? = some item →
          ∀ files' stdin' path', (∀ t ∈ attempt.attachments, ∀ p ∈ t.path, files.SameAt files' p) →
            readAttempts files' stdin' path' = .ok [attempt] →
            (Source.attachments path').Prints files' stdin' settings (.array [item]) := by
  refine ⟨fun attempts text path htext hplace ↦ readAttempts_of_laidOut htext hplace,
    fun paths ↦ ?_, fun path attempts hread ↦ ?_⟩
  · exact ⟨⟨_, prints_traces.mpr rfl⟩, fun d hprints attachments hpaths htype files' stdin' path ↦
      prints_attachments_of_traces hprints hpaths htype⟩
  · refine ⟨⟨_, (prints_attachments hread).mpr rfl⟩, fun items hprints ↦ ⟨?_, ?_⟩⟩
    · rw [← Json.array.inj ((prints_attachments hread).mp hprints), List.length_map]
    · intro i attempt item hattempt hitem files' stdin' path'
      exact prints_attempt_alone hread hprints hattempt hitem

namespace Sample

/-- An attempt without a trace, and one with the trace of the tree under a name of its own. -/
def twoAttempts : List Attempt :=
  [{}, { attachments := [⟨"t", "application/zip", some "trace.zip"⟩] }]

/-- Attempts as a text over one line. -/
def attemptsText (attempts : List Attempt) : ByteArray :=
  (String.ofList (Attempt.listJson attempts).compact).toUTF8

/-- The trace is printed for its path, for an attempt with it, and behind another attempt. -/
theorem routes_agree_twoAttempts :
    let files := goodTree.toFiles
    let d : Diagnostics := { consoleMessages := [⟨.error, "boom"⟩] }
    (Source.traces ["trace.zip"]).Prints files .empty {} d.toJson ∧
      (Source.attachments "-").Prints files (attemptsText (twoAttempts.drop 1)) {}
        (.array [d.toJson]) ∧
      ∃ first, (Source.attachments "-").Prints files (attemptsText twoAttempts) {}
        (.array [first, d.toJson]) := by
  intro files d
  have htrace : (Source.traces ["trace.zip"]).Prints files .empty {} d.toJson := by
    rw [prints_traces]
    exact congrArg Diagnostics.toJson (by decide +kernel)
  obtain ⟨hlayout, -⟩ := routes_agree {} files (attemptsText (twoAttempts.drop 1))
  have hread := hlayout (twoAttempts.drop 1) _ "-" (Json.laidOut_compact _) (standsAt_stdin _ _)
  obtain ⟨-, htraces, -⟩ := routes_agree {} files .empty
  have halone := (htraces _).2 _ htrace _ rfl (by decide) files _ "-"
    (fun _ _ ↦ Files.SameAt.refl _ _) hread
  obtain ⟨hlayout, -, hlists⟩ := routes_agree {} files (attemptsText twoAttempts)
  have hread₂ := hlayout twoAttempts _ "-" (Json.laidOut_compact _) (standsAt_stdin _ _)
  obtain ⟨⟨items, hitems⟩, hitem⟩ := hlists _ _ hread₂
  obtain ⟨hlength, hitem⟩ := hitem items hitems
  obtain ⟨first, second, rfl⟩ := List.length_eq_two.mp hlength
  have hsecond := hitem 1 _ second rfl rfl files _ "-" (fun _ _ _ _ ↦ Files.SameAt.refl _ _) hread
  obtain rfl : second = d.toJson := by
    simpa using hsecond.json_eq.symm.trans halone.json_eq
  exact ⟨htrace, halone, first, hitems⟩

end Sample

end Command

end BrowserTrace
