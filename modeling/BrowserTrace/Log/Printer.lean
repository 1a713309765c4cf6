import BrowserTrace.Log.Filter

/-! # Writing messages

A message is written on lines of its own, with its level in front. Messages of one topic, which
continue the message before them, have no level in front. Colours are escape sequences around a
text.
-/

namespace BrowserTrace

/-- How a text can stand out. -/
inductive Style where
  | bold
  | dimmed
  | cyan
  | boldRed
  | boldYellow
deriving DecidableEq, Repr

namespace Style

/-- The number of a style in an escape sequence. -/
def code : Style → String
  | bold => "1"
  | dimmed => "2"
  | cyan => "36"
  | boldRed => "31;1"
  | boldYellow => "33;1"

/-- A text in a style, if colours are on. -/
def paint (colored : Bool) (style : Style) (text : String) : String :=
  if colored then "\x1b[" ++ style.code ++ "m" ++ text ++ "\x1b[0m" else text

end Style

namespace Log

/-- The style of a level. -/
def Level.style : Level → Style
  | error => .boldRed
  | warning => .boldYellow
  | info | debug => .bold
  | trace => .dimmed

/-- The topic of messages that continue the one before them. -/
def continuationTopic : String := "tracediag::no_heading"

/-- The lines of a message. -/
def Message.render (colored : Bool) (m : Message) : String :=
  if m.topic = continuationTopic then m.text ++ "\n"
  else m.level.style.paint colored m.level.name ++ ": " ++ m.text ++ "\n"

/-- The lines of those messages that a filter lets through. -/
def render (colored : Bool) (filter : Filter) (messages : List Message) : String :=
  String.join ((messages.filter filter.allows).map (Message.render colored))

end Log

end BrowserTrace
