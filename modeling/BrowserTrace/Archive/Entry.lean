/-! # Entries of an archive

An entry is what the central directory says of a member, with the place where its data begins. Its
name decides what it is for: under `resources/` lies a payload body, a name that ends in a slash is
a directory, and every other entry holds trace events.
-/

namespace BrowserTrace

/-- How an entry's data is stored. -/
inductive Method where
  | stored
  | deflate
  | unsupported (number : UInt16)
deriving DecidableEq, Repr

namespace Method

/-- The method with a number. -/
def ofNumber (n : UInt16) : Method :=
  if n = 0 then stored else if n = 8 then deflate else unsupported n

/-- The number of a method. -/
def number : Method → UInt16
  | stored => 0
  | deflate => 8
  | unsupported n => n

@[simp] theorem number_ofNumber (n : UInt16) : (ofNumber n).number = n := by
  unfold ofNumber
  split
  · simp [number, *]
  · split <;> simp [number, *]

/-- What a method is called. -/
def name : Method → String
  | stored => "stored"
  | deflate => "deflate"
  | unsupported n => s!"unsupported ({n.toNat})"

end Method

/-- A member of an archive. -/
structure Entry where
  name : String
  flags : UInt16
  method : Method
  compressedSize : UInt32
  uncompressedSize : UInt32
  localOffset : UInt32
  dataStart : Nat
deriving DecidableEq, Repr

/-- The directory of an archive that holds payload bodies. -/
def resourcePrefix : String := "resources/"

namespace Entry

/-- Where the entry's data ends. -/
def dataEnd (e : Entry) : Nat := e.dataStart + e.compressedSize.toNat

/-- Whether the data is encrypted, which the lowest flag says. -/
def isEncrypted (e : Entry) : Bool := e.flags.toNat % 2 == 1

/-- Whether the entry is a directory. -/
def isDirectory (e : Entry) : Bool := e.name.toList.getLast? == some '/'

/-- Whether the entry holds a payload body. -/
def isResource (e : Entry) : Bool := resourcePrefix.toList.isPrefixOf e.name.toList

/-- Whether the entry holds trace events. -/
def holdsEvents (e : Entry) : Bool := !e.isResource && !e.isDirectory

end Entry

end BrowserTrace
