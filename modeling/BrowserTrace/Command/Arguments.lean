import BrowserTrace.Command.Environment

/-! # Arguments of the command

The command has two subcommands, `extract` and `list-entries`. The options for verbosity, colours
and the settings file may stand before the subcommand or behind it, and the place behind it wins; a
variable of the environment gives the value when no argument does. An option is given once, but for
`--trace`, which takes all the words up to the next option. After `--` no word is an option.
-/

namespace BrowserTrace.Command

/-! ## What can be asked for -/

/-- When output is colored. -/
inductive ColorChoice where
  | auto
  | always
  | never
deriving DecidableEq, Repr

/-- The choice with a name. -/
def ColorChoice.ofName? : String → Option ColorChoice
  | "auto" => some auto
  | "always" => some always
  | "never" => some never
  | _ => none

/-- Where the attachments to extract from come from. -/
inductive Source where
  | attachments (path : String)
  | traces (paths : List String)
deriving DecidableEq, Repr

/-- What is to be done. -/
inductive Task where
  | extract (source : Source) (output : Option String)
  | listEntries (path : String)
deriving DecidableEq, Repr

/-- The arguments, put in order. -/
structure Arguments where
  verbose : Bool := false
  color : ColorChoice := .auto
  settingsFile : Option String := none
  task : Task
deriving DecidableEq, Repr

/-- Why arguments cannot be used. -/
inductive UsageFault where
  | noSubcommand
  | unknown (word : String)
  | noValue (option : String)
  | needlessValue (option : String)
  | badValue (option value : String)
  | repeated (option : String)
  | conflicting
  | noSource
  | noPath
deriving DecidableEq, Repr

/-- The text of a fault. -/
def UsageFault.message : UsageFault → String
  | noSubcommand => "a subcommand is required"
  | unknown word => s!"unexpected argument '{word}' found"
  | noValue option => s!"a value is required for '{option}' but none was supplied"
  | needlessValue option => s!"unexpected value for '{option}' found"
  | badValue option value => s!"invalid value '{value}' for '{option}'"
  | repeated option => s!"the argument '{option}' cannot be used multiple times"
  | conflicting => "the argument '--attachments' cannot be used with '--trace'"
  | noSource => "one of '--attachments' and '--trace' is required"
  | noPath => "a path is required"

/-- Why reading the arguments ends before there is a task. -/
inductive Stop where
  | help
  | version
  | fault (f : UsageFault)
deriving DecidableEq, Repr

/-! ## Options -/

/-- Where an argument stands: before the subcommand, or behind one. -/
inductive Scope where
  | top
  | extract
  | listEntries
deriving DecidableEq, Repr

/-- The options with a value. -/
inductive ValueOption where
  | color
  | settingsFile
  | attachments
  | trace
  | output
deriving DecidableEq, Repr

/-- The name of an option. -/
def ValueOption.name : ValueOption → String
  | color => "--color"
  | settingsFile => "--config-file"
  | attachments => "--attachments"
  | trace => "--trace"
  | output => "--output"

/-- The options of a scope. -/
def Scope.options : Scope → List ValueOption
  | top | listEntries => [.color, .settingsFile]
  | extract => [.color, .settingsFile, .attachments, .trace, .output]

/-- What is given in a scope. -/
structure Given where
  verbose : Bool := false
  color : Option ColorChoice := none
  settingsFile : Option String := none
  attachments : Option String := none
  traces : List String := []
  output : Option String := none
  path : Option String := none
deriving DecidableEq, Repr

namespace Given

/-- Sets an option that is given once. -/
def once {α : Type} (option : ValueOption) (old : Option α) (g : Given) : Except Stop Given :=
  match old with
  | some _ => .error (.fault (.repeated option.name))
  | none => .ok g

/-- Gives an option a value. -/
def set (g : Given) (option : ValueOption) (value : String) : Except Stop Given :=
  match option with
  | .color =>
    match ColorChoice.ofName? value with
    | some color => once option g.color { g with color := some color }
    | none => .error (.fault (.badValue option.name value))
  | .settingsFile => once option g.settingsFile { g with settingsFile := some value }
  | .attachments => once option g.attachments { g with attachments := some value }
  | .trace => .ok { g with traces := g.traces ++ [value] }
  | .output => once option g.output { g with output := some value }

/-- Sets the flag for verbosity. -/
def setVerbose (g : Given) : Except Stop Given :=
  if g.verbose then .error (.fault (.repeated "--verbose")) else .ok { g with verbose := true }

end Given

/-! ## Reading word by word -/

/-- What the next word is: the value that an option still needs, one more value of an option, or a
word of its own. -/
inductive Expecting where
  | value (option : ValueOption)
  | more (option : ValueOption)
  | word
deriving DecidableEq, Repr

/-- What comes after a value of an option. -/
def ValueOption.afterValue : ValueOption → Expecting
  | trace => .more .trace
  | _ => .word

/-- The reading of a scope under way. -/
structure Reading where
  given : Given := {}
  expecting : Expecting := .word
deriving DecidableEq, Repr

namespace Reading

/-- An option begins, or the words end: no option may still need its value. -/
def settle (r : Reading) : Except Stop Given :=
  match r.expecting with
  | .value option => .error (.fault (.noValue option.name))
  | .more _ | .word => .ok r.given

/-- Reads an option that begins with two dashes, which are taken off. -/
def long (scope : Scope) (r : Reading) (text : List Char) : Except Stop Reading := do
  let name := "--" ++ String.ofList (text.takeWhile (· ≠ '='))
  let attached := text.dropWhile (· ≠ '=')
  match scope.options.find? (·.name == name), attached with
  | some option, [] => .ok { given := ← r.settle, expecting := .value option }
  | some option, _ :: value => .ok { given := ← (← r.settle).set option (String.ofList value) }
  | none, [] =>
    if name = "--verbose" then .ok { given := ← (← r.settle).setVerbose }
    else if name = "--help" then do
      let _ ← r.settle
      .error .help
    else if name = "--version" ∧ scope = .top then do
      let _ ← r.settle
      .error .version
    else .error (.fault (.unknown name))
  | none, _ :: _ =>
    if name = "--verbose" ∨ name = "--help" ∨ (name = "--version" ∧ scope = .top) then
      .error (.fault (.needlessValue name))
    else .error (.fault (.unknown name))

/-- Reads options of one letter, of which the last may have its value attached. -/
def short (scope : Scope) (r : Reading) : List Char → Except Stop Reading
  | [] => .ok r
  | c :: rest =>
    if c = 'v' then do
      short scope { given := ← (← r.settle).setVerbose } rest
    else if c = 'h' then do
      let _ ← r.settle
      .error .help
    else if c = 'V' ∧ scope = .top then do
      let _ ← r.settle
      .error .version
    else if c = 'o' ∧ scope = .extract then do
      let given ← r.settle
      match rest with
      | [] => .ok { given, expecting := .value .output }
      | '=' :: value => .ok { given := ← given.set .output (String.ofList value) }
      | value => .ok { given := ← given.set .output (String.ofList value) }
    else .error (.fault (.unknown (String.ofList ['-', c])))

/-- Reads a word that is no option. -/
def positional (scope : Scope) (r : Reading) (word : String) : Except Stop Reading :=
  match scope, r.given.path with
  | .listEntries, none => .ok { given := { r.given with path := some word } }
  | _, _ => .error (.fault (.unknown word))

/-- Reads words that cannot be options. -/
def plain (scope : Scope) (r : Reading) : List String → Except Stop Given
  | [] => r.settle
  | word :: words =>
    match r.expecting with
    | .value option => .error (.fault (.noValue option.name))
    | .more _ | .word => do plain scope (← r.positional scope word) words

end Reading

/-- Reads the words behind a subcommand. -/
def readScope (scope : Scope) (r : Reading) : List String → Except Stop Given
  | [] => r.settle
  | word :: words =>
    match word.toList with
    | ['-', '-'] => Reading.plain scope r words
    | '-' :: '-' :: text => do readScope scope (← r.long scope text) words
    | '-' :: c :: rest => do readScope scope (← r.short scope (c :: rest)) words
    | _ =>
      match r.expecting with
      | .value option | .more option => do
        readScope scope
          { given := ← r.given.set option word, expecting := option.afterValue } words
      | .word => do readScope scope (← r.positional scope word) words

/-- The scope of a subcommand. -/
def Scope.ofName? : String → Option Scope
  | "extract" => some extract
  | "list-entries" => some listEntries
  | _ => none

/-- Reads the words after `help`, which name a subcommand or nothing. -/
def readHelp : List String → Stop
  | [] => .help
  | [name] =>
    if name = "help" ∨ (Scope.ofName? name).isSome then .help else .fault (.unknown name)
  | _ :: word :: _ => .fault (.unknown word)

/-- Reads all words: what is given before the subcommand, the subcommand, and what is given behind
it. -/
def readTop (r : Reading) : List String → Except Stop (Given × Scope × Given)
  | [] => do
    let _ ← r.settle
    .error (.fault .noSubcommand)
  | word :: words =>
    match word.toList with
    | ['-', '-'] => do
      let _ ← Reading.plain .top r words
      .error (.fault .noSubcommand)
    | '-' :: '-' :: text => do readTop (← r.long .top text) words
    | '-' :: c :: rest => do readTop (← r.short .top (c :: rest)) words
    | _ =>
      match r.expecting with
      | .value option | .more option => do
        readTop { given := ← r.given.set option word, expecting := option.afterValue } words
      | .word =>
        if word = "help" then .error (readHelp words)
        else
          match Scope.ofName? word with
          | none => .error (.fault (.unknown word))
          | some scope => do
            let given ← readScope scope {} words
            .ok (r.given, scope, given)

/-! ## Putting the arguments in order -/

/-- The task that is asked for in a scope. -/
def taskOf (scope : Scope) (g : Given) : Except Stop Task :=
  match scope with
  | .top => .error (.fault .noSubcommand)
  | .listEntries =>
    match g.path with
    | some path => .ok (.listEntries path)
    | none => .error (.fault .noPath)
  | .extract =>
    match g.attachments, g.traces with
    | some _, _ :: _ => .error (.fault .conflicting)
    | some path, [] => .ok (.extract (.attachments path) g.output)
    | none, [] => .error (.fault .noSource)
    | none, paths => .ok (.extract (.traces paths) g.output)

/-- The truth value that a variable for verbosity gives. -/
def truth? : String → Option Bool
  | "true" => some true
  | "false" => some false
  | _ => none

/-- The value of an option: the argument behind the subcommand, else that before it, else that of
the environment. The variable must be right unless both arguments are there. -/
def choose {α : Type} (name : String) (read : String → Option α) (default : Option String)
    (before behind : Option α) : Except Stop (Option α) :=
  match before, behind, default with
  | some _, some a, _ => .ok (some a)
  | _, _, none => .ok (behind.or before)
  | _, _, some text =>
    match read text with
    | some a => .ok ((behind.or before).or (some a))
    | none => .error (.fault (.badValue name text))

/-- Whether the flag for verbosity is given. -/
def Given.verbose? (g : Given) : Option Bool := if g.verbose then some true else none

/-- The arguments that words mean in an environment. -/
def Arguments.ofWords (words : List String) (env : Environment) : Except Stop Arguments := do
  let (before, scope, behind) ← readTop {} words
  let verbose ← choose "--verbose" truth? (env.get? "TRACEDIAG_VERBOSE") before.verbose?
    behind.verbose?
  let color ← choose "--color" ColorChoice.ofName? (env.get? "TRACEDIAG_COLOR") before.color
    behind.color
  let settingsFile ← choose "--config-file" some (env.get? "TRACEDIAG_CONFIG") before.settingsFile
    behind.settingsFile
  .ok {
    verbose := verbose.getD false
    color := color.getD .auto
    settingsFile
    task := ← taskOf scope behind }

/-- Whether output is colored. -/
def ColorChoice.isOn (c : ColorChoice) (env : Environment) (isTerminal : Bool) : Bool :=
  match c with
  | auto => env.supportsColor isTerminal
  | always => true
  | never => false

end BrowserTrace.Command
