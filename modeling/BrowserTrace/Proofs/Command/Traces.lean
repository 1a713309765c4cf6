import BrowserTrace.Archive.Writer
import BrowserTrace.Proofs.Command.Outcome
import BrowserTrace.Proofs.Extraction
import BrowserTrace.Proofs.Settings

/-!
# Traces do not decide how an extraction ends

The exit code of a run is a function of few things (`run_exit`).  Of an extraction these are the
settings, the list of attempts and the place of the output file; what is in the traces, and whether
there are any, is none of them.  So two file trees that agree on these things (`Arguments.Agree`) give
the same exit code, and outputs with as many elements (`extract_exit_eq`, `delivered_attempts`).

A listing is about one archive, and fails just when an extraction would pass this archive over.
-/

namespace BrowserTrace

/-! ## The place of an output file -/

namespace FileTree

/-- What is seen of a place without opening it: its names, and whether it is a file. -/
def Place.sight : Place → List String × Bool
  | directory names => (names, false)
  | file names _ => (names, true)

/-- Two trees show the same where an output file is to be put: the way to its directory leads to the
same place, and so does its name from there.  What a file there contains may differ. -/
structure SameSite (t t' : FileTree) (path : String) : Prop where
  directory : (t.walk (PathText.parent path)).map Place.sight =
    (t'.walk (PathText.parent path)).map Place.sight
  target : ∀ names, t.walk (PathText.parent path) = .ok (.directory names) →
    ∀ name ∈ PathText.name? path,
      (t.child names name).map Place.sight = (t'.child names name).map Place.sight

/-- Two walks that show the same fail alike, or lead to directories of the same names, or to files. -/
theorem sight_cases {r r' : Except FileError Place} (h : r.map Place.sight = r'.map Place.sight) :
    (∃ cause, r = .error cause ∧ r' = .error cause) ∨
      (∃ names, r = .ok (.directory names) ∧ r' = .ok (.directory names)) ∨
      ∃ names contents contents', r = .ok (.file names contents) ∧
        r' = .ok (.file names contents') := by
  cases r with
  | error cause =>
    cases r' with
    | error cause' => exact .inl ⟨cause, rfl, congrArg Except.error (Except.error.inj h).symm⟩
    | ok place => contradiction
  | ok place =>
    cases r' with
    | error cause => contradiction
    | ok place' =>
      have hsight : place.sight = place'.sight := Except.ok.inj h
      cases place with
      | directory names =>
        cases place' with
        | directory names' =>
          obtain rfl : names = names' := congrArg Prod.fst hsight
          exact .inr (.inl ⟨names, rfl, rfl⟩)
        | file => exact Bool.noConfusion (congrArg Prod.snd hsight)
      | file names contents =>
        cases place' with
        | directory => exact Bool.noConfusion (congrArg Prod.snd hsight)
        | file names' contents' =>
          obtain rfl : names = names' := congrArg Prod.fst hsight
          exact .inr (.inr ⟨names, contents, contents', rfl, rfl⟩)

end FileTree

namespace Command

open FileTree (SameSite sight_cases)

/-- Whether an output file can be written does not depend on what is written. -/
theorem OutputFile.written_eq {t t' : FileTree} {path : String} (h : SameSite t t' path)
    (contents contents' : String) :
    (OutputFile.write ⟨path, contents⟩ t).1 = (OutputFile.write ⟨path, contents'⟩ t').1 := by
  unfold OutputFile.write
  dsimp only
  rcases sight_cases h.directory with ⟨cause, hw, hw'⟩ | ⟨names, hw, hw'⟩ | ⟨_, _, _, hw, hw'⟩
  · rw [hw, hw']
  · rw [hw, hw']
    cases hname : PathText.name? path with
    | none => rfl
    | some name =>
      dsimp only [FileTree.write]
      rw [hw, hw']
      simp only [bind, Except.bind]
      rcases sight_cases (h.target names hw name hname) with
        ⟨cause, hc, hc'⟩ | ⟨_, hc, hc'⟩ | ⟨_, _, _, hc, hc'⟩
      · rw [hc, hc']
        cases cause <;> rfl
      · rw [hc, hc']
      · rw [hc, hc']
  · rw [hw, hw']

/-! ## Exit codes -/

variable {inv : Invocation} {args : Arguments} {t t' : FileTree}

/-- What the exit code of a run depends on. -/
theorem run_exit (hargs : Arguments.ofWords inv.words inv.environment = .ok args) (t : FileTree) :
    (run inv t).1.exit =
      match (Settings.load t.toFiles args.settingsFile).result with
      | .error _ => .setup
      | .ok settings =>
        match (args.task.perform t.toFiles inv.stdin settings args.verbose
            (args.color.isOn inv.environment inv.stdoutIsTerminal)).result, args.task.output? with
        | .error failure, _ => failure.exitCode
        | .ok _, none => .success
        | .ok contents, some path => (OutputFile.write ⟨path, contents⟩ t).1.exit := by
  simp only [run, plan, hargs, Arguments.plan]
  cases (Settings.load t.toFiles args.settingsFile).result with
  | error error => rfl
  | ok settings =>
    dsimp only
    cases (args.task.perform t.toFiles inv.stdin settings args.verbose
        (args.color.isOn inv.environment inv.stdoutIsTerminal)).result with
    | error failure => rfl
    | ok contents =>
      cases args.task.output? with
      | none => rfl
      | some path => exact conclude_exit ..

/-! ## Trees that agree -/

/-- Two trees agree on what decides how an extraction ends: on the settings, if they are in a file; on
the list of attempts, if it is in a file; and on the place of the output file, if there is one.
Everything else may differ, and the traces in particular. -/
structure Arguments.Agree (args : Arguments) (t t' : FileTree) : Prop where
  settings : ∀ path ∈ args.settingsFile, (Settings.load t.toFiles (some path)).result =
    (Settings.load t'.toFiles (some path)).result
  attempts : ∀ path output, args.task = .extract (.attachments path) output → path ≠ "-" →
    t.read path = t'.read path
  output : ∀ path ∈ args.task.output?, SameSite t t' path

theorem Arguments.Agree.load_eq (h : args.Agree t t') :
    (Settings.load t.toFiles args.settingsFile).result =
      (Settings.load t'.toFiles args.settingsFile).result := by
  cases hfile : args.settingsFile with
  | none => rfl
  | some path => exact h.settings path hfile

theorem Arguments.Agree.readAttempts_eq (h : args.Agree t t') {path : String}
    {output : Option String} (htask : args.task = .extract (.attachments path) output)
    (stdin : ByteArray) : readAttempts t.toFiles stdin path = readAttempts t'.toFiles stdin path := by
  by_cases hstdin : path = "-"
  · simp only [readAttempts, if_pos hstdin]
  · have hread : t.toFiles.read path = t'.toFiles.read path := h.attempts path output htask hstdin
    simp only [readAttempts, if_neg hstdin, Files.readText, hread]

/-! ## Extractions -/

/-- Extractions from the same list of attempts fail alike or come both to something. -/
theorem Source.json_cases {files files' : Files} {stdin : ByteArray} {source : Source}
    (h : ∀ path, source = .attachments path →
      readAttempts files stdin path = readAttempts files' stdin path) (settings : Settings) :
    (∃ failure, source.json files stdin settings = .error failure ∧
      source.json files' stdin settings = .error failure) ∨
    ∃ json json', source.json files stdin settings = .ok json ∧
      source.json files' stdin settings = .ok json' := by
  cases source with
  | traces paths => exact .inr ⟨_, _, rfl, rfl⟩
  | attachments path =>
    simp only [Source.json, h path rfl]
    cases readAttempts files' stdin path with
    | error failure => exact .inl ⟨failure, rfl, rfl⟩
    | ok attempts => exact .inr ⟨_, _, rfl, rfl⟩

/-- An extraction ends with the same exit code in trees that agree. -/
theorem extract_exit_eq (hargs : Arguments.ofWords inv.words inv.environment = .ok args)
    {source : Source} {output : Option String} (htask : args.task = .extract source output)
    (h : args.Agree t t') : (run inv t).1.exit = (run inv t').1.exit := by
  rw [run_exit hargs, run_exit hargs, h.load_eq]
  cases (Settings.load t'.toFiles args.settingsFile).result with
  | error error => rfl
  | ok settings =>
    have hsite := h.output
    have hread (path : String) (hsource : source = .attachments path) :=
      h.readAttempts_eq (htask.trans (by rw [hsource])) inv.stdin
    simp only [htask, perform_extract]
    rcases Source.json_cases hread settings with ⟨failure, hj, hj'⟩ | ⟨json, json', hj, hj'⟩
    · rw [hj, hj']
      rfl
    · rw [hj, hj']
      cases output with
      | none => rfl
      | some path =>
        rw [htask] at hsite
        exact congrArg Written.exit (OutputFile.written_eq (hsite path rfl) _ _)

/-- An extraction from a list of attempts that succeeds delivers an array with one element an
attempt. -/
theorem delivered_attempts (hargs : Arguments.ofWords inv.words inv.environment = .ok args)
    {path : String} {output : Option String}
    (htask : args.task = .extract (.attachments path) output)
    (hexit : (run inv t).1.exit = .success) :
    ∃ attempts items, readAttempts t.toFiles inv.stdin path = .ok attempts ∧
      items.length = attempts.length ∧
      Delivered t output ((Json.array items).pretty ++ "\n") (run inv t).1 (run inv t).2 := by
  rcases run_cases hargs t with ⟨hfail, -⟩ |
    ⟨settings, colored, text, -, hdone, -, hdelivered⟩
  · exact absurd hexit hfail
  rw [htask] at hdelivered hdone
  rw [perform_extract] at hdone
  simp only [Source.json] at hdone
  cases hread : readAttempts t.toFiles inv.stdin path with
  | error failure =>
    rw [hread] at hdone
    contradiction
  | ok attempts =>
    rw [hread] at hdone
    obtain rfl := Except.ok.inj hdone
    exact ⟨attempts, _, rfl, List.length_map _, hdelivered⟩

/-! ## Listings -/

/-- A listing with settings fails if the archive does not open, and succeeds if it does. -/
theorem listEntries_exit (hargs : Arguments.ofWords inv.words inv.environment = .ok args)
    {path : String} (htask : args.task = .listEntries path) {settings : Settings}
    (hload : (Settings.load t.toFiles args.settingsFile).result = .ok settings) :
    (run inv t).1.exit =
      match Archive.load t.toFiles path settings.archiveLimits with
      | .error _ => .archiveUnreadable
      | .ok _ => .success := by
  rw [run_exit hargs, hload]
  simp only [htask, Task.perform, listing, Task.output?]
  cases Archive.load t.toFiles path settings.archiveLimits <;> rfl

/-- A further trace counts as passed over if it does not open. -/
theorem archivesSkipped_insert (files : Files) {settings : Settings} {trace : Attachment}
    (htype : trace.contentType = settings.archiveContentType) (before after : List Attachment) :
    (extract files settings ⟨before ++ trace :: after⟩).stats.archivesSkipped =
      (extract files settings ⟨before ++ after⟩).stats.archivesSkipped +
        if (Extraction.openTrace? files settings trace).isNone then 1 else 0 := by
  have htrace : (trace.contentType == settings.archiveContentType) = true := beq_iff_eq.mpr htype
  rw [(extract_eq_flatMap_opened _ _ _).2, (extract_eq_flatMap_opened _ _ _).2]
  simp only [Collector.History.stats, Extraction.historyOf, Extraction.traces, List.filter_append,
    List.filter_cons, htrace, if_true, List.countP_append, List.countP_cons, Nat.add_assoc]

/-- **Traces do not decide how a run ends, but in a listing.**  Words that ask for an extraction, if
they can be read at all, give the same exit code in any two trees that agree on the settings, on the
list of attempts and on the place of the output file; and where attempts are listed and the run
succeeds, both outputs are arrays with one element an attempt.  A listing under settings that have
been loaded ends with 97 just when an extraction under these settings counts the same path among the
archives that it passes over, and with 0 otherwise. -/
theorem only_listings_depend_on_traces (inv : Invocation) :
    (∀ t t', (∀ args, Arguments.ofWords inv.words inv.environment = .ok args →
        (∃ source output, args.task = .extract source output) ∧ args.Agree t t') →
      (run inv t).1.exit.number = (run inv t').1.exit.number ∧
      ∀ args path output, Arguments.ofWords inv.words inv.environment = .ok args →
        args.task = .extract (.attachments path) output → (run inv t).1.exit.number = 0 →
        ∃ attempts items items', readAttempts t.toFiles inv.stdin path = .ok attempts ∧
          items.length = attempts.length ∧ items'.length = attempts.length ∧
          Delivered t output ((Json.array items).pretty ++ "\n") (run inv t).1 (run inv t).2 ∧
          Delivered t' output ((Json.array items').pretty ++ "\n") (run inv t').1 (run inv t').2) ∧
    ∀ t args path settings, Arguments.ofWords inv.words inv.environment = .ok args →
      args.task = .listEntries path →
      (Settings.load t.toFiles args.settingsFile).result = .ok settings →
      ((run inv t).1.exit.number = 97 ∨ (run inv t).1.exit.number = 0) ∧
      ∀ name before after,
        (extract t.toFiles settings
          ⟨before ++ ⟨name, settings.archiveContentType, some path⟩ :: after⟩).stats.archivesSkipped =
          (extract t.toFiles settings ⟨before ++ after⟩).stats.archivesSkipped +
            if (run inv t).1.exit.number = 97 then 1 else 0 := by
  constructor
  · intro t t' hagree
    have hexit : (run inv t).1.exit = (run inv t').1.exit := by
      cases hargs : Arguments.ofWords inv.words inv.environment with
      | error stop =>
        -- Words that cannot be read end the run before any file is looked at.
        simp only [run, plan, hargs]
        cases stop <;> rfl
      | ok args =>
        obtain ⟨⟨source, output, htask⟩, h⟩ := hagree args hargs
        exact extract_exit_eq hargs htask h
    refine ⟨congrArg ExitCode.number hexit, fun args path output hargs htask hzero ↦ ?_⟩
    rw [ExitCode.number_eq_zero] at hzero
    obtain ⟨attempts, items, hread, hitems, hdelivered⟩ := delivered_attempts hargs htask hzero
    obtain ⟨attempts', items', hread', hitems', hdelivered'⟩ :=
      delivered_attempts hargs htask (hexit.symm.trans hzero)
    rw [← (hagree args hargs).2.readAttempts_eq htask, hread] at hread'
    obtain rfl := Except.ok.inj hread'
    exact ⟨attempts, items, items', hread, hitems, hitems', hdelivered, hdelivered'⟩
  · intro t args path settings hargs htask hload
    have hexit := listEntries_exit hargs htask hload
    cases hopen : Archive.load t.toFiles path settings.archiveLimits with
    | error error =>
      rw [hopen] at hexit
      rw [hexit]
      refine ⟨.inl rfl, fun name before after ↦ ?_⟩
      rw [archivesSkipped_insert t.toFiles rfl, Extraction.openTrace?, Option.bind_some, hopen]
      rfl
    | ok a =>
      rw [hopen] at hexit
      rw [hexit]
      refine ⟨.inr rfl, fun name before after ↦ ?_⟩
      rw [archivesSkipped_insert t.toFiles rfl, Extraction.openTrace?, Option.bind_some, hopen]
      rfl

namespace Sample

/-- A list of one attempt, with one trace. -/
def oneAttempt : String :=
  "[\x7b\"attachments\":[\x7b\"contentType\":\"application/zip\",\"path\":\"trace.zip\"\x7d]\x7d]"

/-- A message on the console. -/
def consoleLine : String :=
  "\x7b\"type\":\"console\",\"messageType\":\"error\",\"text\":\"boom\"\x7d"

/-- The list of the attempt, and a file where its trace should be. -/
def treeWith (trace : ByteArray) : FileTree :=
  { files := [(["a.json"], oneAttempt.toUTF8), (["trace.zip"], trace)] }

/-- A tree with a trace that has an event. -/
def goodTree : FileTree := treeWith (writeArchive [.stored "0.trace" consoleLine.toUTF8] .empty)

/-- A tree where the trace is no archive. -/
def spoiledTree : FileTree := treeWith "no archive".toUTF8

/-- The extraction of the attempt. -/
def attemptExtraction : Invocation :=
  { words := ["extract", "--attachments", "a.json", "--output", "out.json"] }

/-- The listing of its trace. -/
def traceListing : Invocation := { words := ["list-entries", "trace.zip"] }

theorem sameSite_trees : SameSite spoiledTree goodTree "out.json" := by
  refine ⟨rfl, fun names hnames name hname ↦ ?_⟩
  obtain rfl : [] = names := (FileTree.Place.directory.inj (Except.ok.inj hnames))
  obtain rfl : "out.json" = name := Option.some.inj hname
  rfl

end Sample

theorem only_listings_depend_on_traces_spoiled :
    (run Sample.attemptExtraction Sample.goodTree).1.exit.number =
        (run Sample.attemptExtraction Sample.spoiledTree).1.exit.number ∧
      (∃ items, items.length = 1 ∧
        Delivered Sample.goodTree (some "out.json") ((Json.array items).pretty ++ "\n")
          (run Sample.attemptExtraction Sample.goodTree).1
          (run Sample.attemptExtraction Sample.goodTree).2) ∧
      (run Sample.traceListing Sample.spoiledTree).1.exit.number = 97 ∧
      (extract Sample.spoiledTree.toFiles {}
        ⟨[⟨"", "application/zip", some "trace.zip"⟩]⟩).stats.archivesSkipped = 1 := by
  have hargs : Arguments.ofWords Sample.attemptExtraction.words {} =
      .ok { task := .extract (.attachments "a.json") (some "out.json") } := by rfl
  have hlisting : Arguments.ofWords Sample.traceListing.words {} =
      .ok { task := .listEntries "trace.zip" } := by rfl
  have hagree (args : Arguments)
      (h : Arguments.ofWords Sample.attemptExtraction.words {} = .ok args) :
      (∃ source output, args.task = .extract source output) ∧
        args.Agree Sample.spoiledTree Sample.goodTree := by
    obtain rfl := Except.ok.inj (hargs.symm.trans h)
    refine ⟨⟨_, _, rfl⟩, nofun, ?_, ?_⟩
    · rintro path output ⟨⟩ -
      rfl
    · rintro path ⟨⟩
      exact Sample.sameSite_trees
  have hzero : (run Sample.attemptExtraction Sample.spoiledTree).1.exit.number = 0 := by
    decide +kernel
  have hspoiled : (run Sample.traceListing Sample.spoiledTree).1.exit.number = 97 := by
    decide +kernel
  obtain ⟨hexit, hdelivered⟩ :=
    (only_listings_depend_on_traces Sample.attemptExtraction).1 Sample.spoiledTree Sample.goodTree
      hagree
  obtain ⟨attempts, -, items, hread, -, hitems, -, hgood⟩ := hdelivered _ _ _ hargs rfl hzero
  have hone : (readAttempts Sample.spoiledTree.toFiles Sample.attemptExtraction.stdin
      "a.json").toOption.map List.length = some 1 := by
    decide +kernel
  rw [hread] at hone
  obtain ⟨-, hskipped⟩ := (only_listings_depend_on_traces Sample.traceListing).2 Sample.spoiledTree _
    _ _ hlisting rfl (Settings.load_none _)
  refine ⟨hexit.symm, ⟨items, hitems.trans (Option.some.inj hone), hgood⟩, hspoiled, ?_⟩
  rw [hspoiled] at hskipped
  exact hskipped "" [] []

end Command

end BrowserTrace
