import BrowserTrace.Number.Natural

/-! # Environment variables

Variables can give options a value, set the log filter, and say whether output to a terminal is
colored when no option does.
-/

namespace BrowserTrace

/-- Variables and their values. -/
structure Environment where
  bindings : List (String × String) := []
deriving DecidableEq, Repr

namespace Environment

/-- The value of a variable, if it is set. -/
def get? (e : Environment) (name : String) : Option String := e.bindings.lookup name

/-- Whether a variable is set. -/
def has (e : Environment) (name : String) : Bool := (e.get? name).isSome

/-- Whether a variable is set, and not to `0`. -/
def isOn (e : Environment) (name : String) : Bool := (e.get? name).any (· ≠ "0")

/-! ## Colours by default -/

/-- Whether colours are asked for whatever the output is. -/
def forcesColor (e : Environment) : Bool :=
  match e.get? "FORCE_COLOR" with
  | some "true" | some "" => true
  | some "false" => false
  | some text => Number.readWord? text.toList ≠ some 0
  | none => e.isOn "CLICOLOR_FORCE"

/-- Variables that services for continuous integration set. -/
def integrationVariables : List String :=
  ["CI_NAME", "GITHUB_ACTION", "GITLAB_CI", "NETLIFY", "TRAVIS", "CODEBUILD_SRC_DIR",
    "BUILDER_OUTPUT", "GITLAB_DEPLOYMENT", "NOW_GITHUB_DEPLOYMENT", "NOW_BUILDER",
    "BITBUCKET_DEPLOYMENT", "GERRIT_PROJECT", "SYSTEM_TEAMFOUNDATIONCOLLECTIONURI", "BITRISE_IO",
    "BUDDY_WORKSPACE_ID", "BUILDKITE", "CIRRUS_CI", "APPVEYOR", "CIRCLECI", "SEMAPHORE", "DRONE",
    "DSARI", "TDDIUM", "STRIDER", "TASKCLUSTER_ROOT_URL", "JENKINS_URL", "bamboo.buildKey",
    "GO_PIPELINE_NAME", "HUDSON_URL", "WERCKER", "MAGNUM", "NEVERCODE", "RENDER", "SAIL_CI",
    "SHIPPABLE"]

/-- Where a service for continuous integration keeps its interpreter, from some directory on. -/
def integrationInterpreter : String := "//heroku/node/bin/node"

/-- Whether a service for continuous integration runs the program. -/
def isIntegration (e : Environment) : Bool :=
  ["true", "1", "woodpecker"].any (e.get? "CI" == some ·) || integrationVariables.any e.has ||
    (e.get? "NODE").any fun path => integrationInterpreter.toList.isSuffixOf path.toList

/-- Whether output is colored by default: when it is forced, or when it goes to a terminal that has
colours. Every terminal of a kind that is told has them, but for the kind `dumb`. -/
def supportsColor (e : Environment) (isTerminal : Bool) : Bool :=
  e.forcesColor ||
    !(e.isOn "NO_COLOR" || e.get? "TERM" == some "dumb") &&
      (isTerminal || e.isOn "IGNORE_IS_TERMINAL") &&
        (e.has "COLORTERM" || e.has "TERM" ||
          ["iTerm.app", "Apple_Terminal"].any (e.get? "TERM_PROGRAM" == some ·) ||
          e.isOn "CLICOLOR" || e.isIntegration)

/-- The variables that the program looks at. -/
def names : List String :=
  ["TRACEDIAG_VERBOSE", "TRACEDIAG_COLOR", "TRACEDIAG_CONFIG", "TRACEDIAG_LOG", "FORCE_COLOR",
    "CLICOLOR_FORCE", "NO_COLOR", "TERM", "IGNORE_IS_TERMINAL", "COLORTERM", "TERM_PROGRAM",
    "CLICOLOR", "CI", "NODE"] ++ integrationVariables

end Environment

end BrowserTrace
