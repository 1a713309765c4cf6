import BrowserTrace.Text.Blank

/-! # JSON media types

Of a media type only its essence counts, the part before any parameters: blanks around it are taken
off and its ASCII letters are compared without regard to case. JSON is `application/json`,
`text/json`, and every type with the suffix `+json`.
-/

namespace BrowserTrace.MediaType

/-- A media type without its parameters, in lower case. -/
def essence (mediaType : List Char) : List Char :=
  (Text.trim (mediaType.takeWhile (· ≠ ';'))).map Char.toLower

/-- The suffix of the types whose syntax is JSON. -/
def suffix : List Char := ['+', 'j', 's', 'o', 'n']

/-- Whether a subtype has the suffix, after something else. -/
def hasSuffix (subtype : List Char) : Bool :=
  suffix.isSuffixOf subtype && suffix.length < subtype.length

/-- Whether an essence with this type and subtype is JSON. -/
def isJsonPair (type subtype : List Char) : Bool :=
  !type.isEmpty && !type.any Text.isBlank &&
    ((type == "application".toList || type == "text".toList) && subtype == "json".toList ||
      hasSuffix subtype)

/-- Whether an essence is JSON. Its type ends at the first slash; without a slash it is none. -/
def isJsonEssence (essence : List Char) : Bool :=
  match essence.dropWhile (· ≠ '/') with
  | [] => false
  | _ :: subtype => isJsonPair (essence.takeWhile (· ≠ '/')) subtype

/-- Whether a media type denotes JSON. -/
def isJson (mediaType : String) : Bool :=
  isJsonEssence (essence mediaType.toList)

end BrowserTrace.MediaType
