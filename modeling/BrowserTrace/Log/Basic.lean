/-! # The log

While it works the program says what it passes over and what it did. Each message has a level and a
topic, which a filter can ask for, and the names of the values that come with it.
-/

namespace BrowserTrace.Log

/-- How grave a message is. -/
inductive Level where
  | error
  | warning
  | info
  | debug
  | trace
deriving DecidableEq, Repr

namespace Level

/-- What a level is called in front of a message. -/
def name : Level → String
  | error => "error"
  | warning => "warning"
  | info => "info"
  | debug => "debug"
  | trace => "trace"

/-- How much detail a level has: the more, the less grave. -/
def detail : Level → Nat
  | error => 1
  | warning => 2
  | info => 3
  | debug => 4
  | trace => 5

end Level

/-- A message of the log. -/
structure Message where
  level : Level
  topic : String
  text : String
  /-- The names of the values that come with the text. -/
  extraFields : List String := []
deriving DecidableEq, Repr

/-- The field names of a message, of which the text is one. -/
def Message.fields (m : Message) : List String := "message" :: m.extraFields

end BrowserTrace.Log
