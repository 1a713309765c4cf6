import BrowserTrace.Command.InTree
import BrowserTrace.Proofs.Lookup

/-!
# What a run leaves behind

A run writes once, at its very end.  `Arguments.plan_cases` says how it gets there: either it has
failed, and its report has nothing for the standard output, or its task came to a text, which is the
standard output or the contents of the output file.  Writing an output file puts one file in its
place or changes nothing (`OutputFile.write_cases`).

So a run that fails leaves the file tree as it was and the standard output empty, and one that
extracts delivers the diagnostics, with a line feed behind them, to one place and changes no other
(`run_cases`).
-/

namespace BrowserTrace

/-! ## Writing a file into a tree -/

namespace FileTree

variable {t : FileTree} {names other : List String} {contents : ByteArray}

theorem lookup_insert_self : (t.insert names contents).lookup names = some contents := by
  rw [lookup, insert, List.lookup_cons, beq_self_eq_true]

theorem lookup_insert_of_ne (h : other ≠ names) :
    (t.insert names contents).lookup other = t.lookup other := by
  rw [lookup, insert, List.lookup_cons, beq_eq_false_iff_ne.mpr h]
  exact Lookup.lookup_filter (p := (decide <| · ≠ names)) (decide_eq_true h) t.files

theorem eq_of_child_eq_file {name : String} {found : List String}
    (h : t.child names name = .ok (.file found contents)) : found = names ++ [name] := by
  unfold child at h
  split at h
  · contradiction
  · split at h
    · exact (Place.file.inj (Except.ok.inj h)).1.symm
    · split at h
      · exact nomatch Except.ok.inj h
      · contradiction

/-- The names of the file that a path is written to: its last name, in the directory before it. -/
def target? (t : FileTree) (path : String) : Option (List String) :=
  match t.walk (PathText.parent path), PathText.name? path with
  | .ok (.directory names), some name => some (names ++ [name])
  | _, _ => none

theorem insert_of_write {directory name : String} {t' : FileTree}
    (hwalk : t.walk directory = .ok (.directory names))
    (h : t.write directory name contents = .ok t') : t' = t.insert (names ++ [name]) contents := by
  unfold write at h
  rw [hwalk] at h
  simp only [bind, Except.bind] at h
  split at h
  · next hchild =>
    rw [← Except.ok.inj h, eq_of_child_eq_file hchild]
  · contradiction
  · exact (Except.ok.inj h).symm
  · contradiction

end FileTree

namespace Command

/-- An output file is put in its place, or nothing changes. -/
theorem OutputFile.write_cases (file : OutputFile) (t : FileTree) :
    (∃ names, t.target? file.path = some names ∧
      file.write t = (.done, t.insert names file.contents.toUTF8)) ∨
    ∃ written, written ≠ .done ∧ file.write t = (written, t) := by
  unfold OutputFile.write FileTree.target?
  cases hwalk : t.walk (PathText.parent file.path) with
  | error cause => exact .inr ⟨.failed cause, nofun, rfl⟩
  | ok place =>
    cases place with
    | file => exact .inr ⟨.failed .notADirectory, nofun, rfl⟩
    | directory names =>
      cases hname : PathText.name? file.path with
      | none => exact .inr ⟨.noName, nofun, rfl⟩
      | some name =>
        dsimp only
        cases hwrite : t.write (PathText.parent file.path) name file.contents.toUTF8 with
        | error cause => exact .inr ⟨.failed cause, nofun, rfl⟩
        | ok t' =>
          rw [FileTree.insert_of_write hwalk hwrite]
          exact .inl ⟨_, rfl, rfl⟩

/-! ## How a run ends -/

theorem ExitCode.number_eq_zero {code : ExitCode} : code.number = 0 ↔ code = .success := by
  cases code <;> decide

theorem Failure.exitCode_ne_success (f : Failure) : f.exitCode ≠ .success := by
  cases f <;> exact nofun

/-- The standard output of a run with an output file is empty, and it succeeds if the file has been
written. -/
theorem conclude_stdout (file : OutputFile) (console : Console) (messages : List Log.Message)
    (written : Written) : (conclude file console messages written).stdout = "" := by
  cases written <;> rfl

/-- The exit code after an output file has been tried to write. -/
def Written.exit : Written → ExitCode
  | done => .success
  | failed _ => .outputFailed
  | noName => .noOutputName

theorem Written.exit_eq_success {written : Written} : written.exit = .success ↔ written = .done := by
  cases written with
  | done => exact iff_of_true rfl rfl
  | failed cause => exact iff_of_false nofun nofun
  | noName => exact iff_of_false nofun nofun

theorem conclude_exit (file : OutputFile) (console : Console) (messages : List Log.Message)
    (written : Written) : (conclude file console messages written).exit = written.exit := by
  cases written <;> rfl

/-- How a run with arguments goes on: it has failed, or its task came to a text. -/
theorem Arguments.plan_cases (args : Arguments) (inv : Invocation) (files : Files) :
    (∃ report, args.plan inv files = .ended report ∧ report.exit ≠ .success ∧ report.stdout = "") ∨
    ∃ settings colored output, (Settings.load files args.settingsFile).result = .ok settings ∧
      (args.task.perform files inv.stdin settings args.verbose colored).result = .ok output ∧
      ∃ console messages, args.plan inv files =
        match args.task.output? with
        | none =>
          .ended { exit := .success, stdout := output
                   stderr := Log.render console.colored console.filter messages }
        | some path => .writing { path, contents := output } console messages := by
  unfold Arguments.plan
  obtain ⟨console, first⟩ := Console.ofEnvironment args inv
  dsimp only
  cases hload : (Settings.load files args.settingsFile).result with
  | error error => exact .inl ⟨_, rfl, Failure.exitCode_ne_success (.settings error), rfl⟩
  | ok settings =>
    dsimp only
    set done := args.task.perform files inv.stdin settings args.verbose
      (args.color.isOn inv.environment inv.stdoutIsTerminal) with hperform
    cases hdone : done.result with
    | error failure => exact .inl ⟨_, rfl, failure.exitCode_ne_success, rfl⟩
    | ok output =>
      refine .inr ⟨settings, _, output, rfl, hperform ▸ hdone, console,
        first ++ (Settings.load files args.settingsFile).notes.map SettingsNote.toMessage ++
          done.messages, ?_⟩
      cases args.task.output? <;> rfl

/-! ## What an extraction is -/

/-- The JSON that an extraction comes to: the diagnostics of the traces, or those of each attempt of
a list, in order. -/
def Source.json (files : Files) (stdin : ByteArray) (settings : Settings) :
    Source → Except Failure Json
  | .attachments path => (readAttempts files stdin path).map fun attempts =>
    .array (attempts.map fun attempt => (extract files settings attempt).diagnostics.toJson)
  | .traces paths => .ok (extract files settings (attemptOf settings paths)).diagnostics.toJson

/-- The output of an extraction is its JSON, and a line feed. -/
theorem perform_extract (files : Files) (stdin : ByteArray) (settings : Settings)
    (verbose colored : Bool) (source : Source) (output : Option String) :
    ((Task.extract source output).perform files stdin settings verbose colored).result =
      (source.json files stdin settings).map fun json ↦ json.pretty ++ "\n" := by
  cases source with
  | traces paths => rfl
  | attachments path =>
    simp only [Task.perform, Source.json]
    cases readAttempts files stdin path with
    | error failure => rfl
    | ok attempts =>
      simp only [extractAttempts, List.map_map]
      rfl

/-! ## All or nothing -/

/-- The run has succeeded, and delivered a text: to the standard output, with the file tree as it
was, or, if there is an output file, to that file, with the standard output empty and everything else
as it was. -/
def Delivered (t : FileTree) (output : Option String) (text : String) (report : Report)
    (t' : FileTree) : Prop :=
  match output with
  | none => report.stdout = text ∧ t' = t
  | some path =>
    report.stdout = "" ∧ ∃ names, t.target? path = some names ∧
      t'.lookup names = some text.toUTF8 ∧ (∀ other ≠ names, t'.lookup other = t.lookup other) ∧
      t'.directories = t.directories

/-- A run with arguments fails and changes nothing, or it delivers what its task came to. -/
theorem run_cases {inv : Invocation} {args : Arguments}
    (hargs : Arguments.ofWords inv.words inv.environment = .ok args) (t : FileTree) :
    ((run inv t).1.exit ≠ .success ∧ (run inv t).1.stdout = "" ∧ (run inv t).2 = t) ∨
    ∃ settings colored text,
      (Settings.load t.toFiles args.settingsFile).result = .ok settings ∧
      (args.task.perform t.toFiles inv.stdin settings args.verbose colored).result = .ok text ∧
      (run inv t).1.exit = .success ∧
      Delivered t args.task.output? text (run inv t).1 (run inv t).2 := by
  have hplan : plan inv t.toFiles = args.plan inv t.toFiles := by
    simp only [plan, hargs]
  simp only [run, hplan]
  rcases args.plan_cases inv t.toFiles with ⟨report, hrun, hexit, hstdout⟩ |
    ⟨settings, colored, text, hload, hdone, console, messages, hrun⟩
  · rw [hrun]
    exact .inl ⟨hexit, hstdout, rfl⟩
  cases houtput : args.task.output? with
  | none =>
    rw [houtput] at hrun
    rw [hrun]
    exact .inr ⟨settings, colored, text, hload, hdone, rfl, rfl, rfl⟩
  | some path =>
    rw [houtput] at hrun
    rw [hrun]
    dsimp only
    rcases OutputFile.write_cases ⟨path, text⟩ t with ⟨names, hnames, hwrite⟩ |
      ⟨written, hwritten, hwrite⟩
    · rw [hwrite]
      exact .inr ⟨settings, colored, text, hload, hdone, rfl, rfl, names, hnames,
        FileTree.lookup_insert_self, fun other ↦ FileTree.lookup_insert_of_ne, rfl⟩
    · rw [hwrite]
      have hexit : (conclude ⟨path, text⟩ console messages written).exit ≠ .success := by
        rw [conclude_exit]
        exact fun h ↦ hwritten (Written.exit_eq_success.mp h)
      exact .inl ⟨hexit, conclude_stdout .., rfl⟩

/-- A run that ends with another exit code than zero has printed nothing and changed no file.  An
extraction that ends with zero has delivered its JSON with a line feed behind it, and a listing has
changed no file. -/
theorem run_all_or_nothing (inv : Invocation) (t : FileTree) :
    ((run inv t).1.exit.number ≠ 0 → (run inv t).1.stdout = "" ∧ (run inv t).2 = t) ∧
    ((run inv t).1.exit.number = 0 →
      ∀ args, Arguments.ofWords inv.words inv.environment = .ok args →
        (∀ path, args.task = .listEntries path → (run inv t).2 = t) ∧
        ∀ source output, args.task = .extract source output →
          ∃ settings json, (Settings.load t.toFiles args.settingsFile).result = .ok settings ∧
            source.json t.toFiles inv.stdin settings = .ok json ∧
            Delivered t output (json.pretty ++ "\n") (run inv t).1 (run inv t).2) := by
  constructor
  · intro hexit
    cases hargs : Arguments.ofWords inv.words inv.environment with
    | error stop =>
      have hplan : plan inv t.toFiles = match stop with
          | .help => .ended { exit := .success, stdout := usageText }
          | .version => .ended { exit := .success, stdout := versionText }
          | .fault fault =>
            .ended { exit := .usage, stderr := "error: " ++ fault.message ++ "\n" } := by
        simp only [plan, hargs]
        cases stop <;> rfl
      rw [run, hplan] at hexit ⊢
      cases stop with
      | help => exact absurd rfl hexit
      | version => exact absurd rfl hexit
      | fault fault => exact ⟨rfl, rfl⟩
    | ok args =>
      rcases run_cases hargs t with ⟨-, hnothing⟩ | ⟨_, _, _, _, _, hsuccess, -⟩
      · exact hnothing
      · exact absurd (ExitCode.number_eq_zero.mpr hsuccess) hexit
  · intro hexit args hargs
    rcases run_cases hargs t with ⟨hfail, -⟩ |
      ⟨settings, colored, text, hload, hdone, -, hdelivered⟩
    · exact absurd (ExitCode.number_eq_zero.mp hexit) hfail
    constructor
    · intro path htask
      rw [htask] at hdelivered
      exact hdelivered.2
    · intro source output htask
      rw [htask] at hdelivered hdone
      rw [perform_extract] at hdone
      cases hjson : source.json t.toFiles inv.stdin settings with
      | error failure =>
        rw [hjson] at hdone
        contradiction
      | ok json =>
        rw [hjson] at hdone
        obtain rfl := Except.ok.inj hdone
        exact ⟨settings, json, hload, hjson, hdelivered⟩

/-- A tree with an output file from an earlier run. -/
def Sample.tree : FileTree := { files := [(["out.json"], "old".toUTF8)] }

/-- An extraction into that file. -/
def Sample.extraction : Invocation :=
  { words := ["extract", "--trace", "missing.zip", "--output", "out.json"] }

/-- An extraction into that file which fails, as its list of attachments is missing. -/
def Sample.failure : Invocation :=
  { words := ["extract", "--attachments", "missing.json", "--output", "out.json"] }

theorem run_all_or_nothing_sample :
    ((run Sample.failure Sample.tree).1.exit.number = 98 ∧
      (run Sample.failure Sample.tree).2 = Sample.tree) ∧
    (run Sample.extraction Sample.tree).1.exit.number = 0 ∧
      ∃ text, Delivered Sample.tree (some "out.json") text (run Sample.extraction Sample.tree).1
        (run Sample.extraction Sample.tree).2 := by
  have hfailure : (run Sample.failure Sample.tree).1.exit.number = 98 := by decide +kernel
  have hsuccess : (run Sample.extraction Sample.tree).1.exit.number = 0 := by decide +kernel
  have hargs : Arguments.ofWords Sample.extraction.words Sample.extraction.environment =
      .ok { task := .extract (.traces ["missing.zip"]) (some "out.json") } := by rfl
  have hnothing := (run_all_or_nothing Sample.failure Sample.tree).1 (by rw [hfailure]; decide)
  obtain ⟨settings, json, -, -, hdelivered⟩ :=
    ((run_all_or_nothing Sample.extraction Sample.tree).2 hsuccess _ hargs).2 _ _ rfl
  exact ⟨⟨hfailure, hnothing.2⟩, hsuccess, _, hdelivered⟩

end Command

end BrowserTrace
