import BrowserTrace.Event
import BrowserTrace.MediaType

/-! # Payload bodies

A network event does not hold the bodies of its request and response. It points to them by a hash,
and the body is the entry of that name under `resources/`. Only JSON bodies are taken, and they are
cut to a number of characters.
-/

namespace BrowserTrace

namespace Text

/-- The byte where the character at an index begins, if there is one. The first character begins at
`start`. -/
def byteIndex? : (cs : List Char) → (index start : Nat) → Option Nat
  | [], _, _ => none
  | _ :: _, 0, start => some start
  | c :: cs, index + 1, start => byteIndex? cs index (start + c.utf8Size)

/-- The first `max` characters of a text: it is cut at the byte where the next one begins. -/
def truncate (max : Nat) (s : String) : String :=
  match byteIndex? s.toList max 0 with
  | some i => String.Pos.Raw.extract s 0 ⟨i⟩
  | none => s

end Text

namespace Archive

/-- The entry that a pointer to a JSON body points to. -/
def payloadEntry? (a : Archive) (ref : PayloadRef) : Option Entry := do
  let mediaType ← ref.mediaType
  guard (MediaType.isJson mediaType)
  let hash ← ref.contentHash
  a.find? (resourcePrefix ++ hash)

/-- The body that a pointer points to, cut to `max` characters. -/
def payload? (a : Archive) (ref : PayloadRef) (max : Nat) : Option String := do
  let entry ← a.payloadEntry? ref
  let text ← (a.readText entry).toOption
  some (Text.truncate max text)

/-- The entry that a pointer points to in vain, and why it cannot be read. -/
def unreadablePayload? (a : Archive) (ref : PayloadRef) : Option (Entry × EntryError) := do
  let entry ← a.payloadEntry? ref
  match a.read entry with
  | .ok _ => none
  | .error e => some (entry, e)

end Archive

end BrowserTrace
