/-!
# Faults in JSON texts

What can be wrong with a JSON text and where. A place is a line, counted from one, and the number
of bytes of that line before it.
-/

namespace ReductionStepper.Json

/-- What is wrong with a text. -/
inductive SyntaxError where
  | endInList
  | endInObject
  | endInString
  | endInValue
  | expectedColon
  | expectedListEnd
  | expectedObjectEnd
  | expectedKeyword
  | expectedValue
  | invalidEscape
  | invalidNumber
  | numberOutOfRange
  | controlCharacter
  | keyNotString
  | loneSurrogate
  | unpairedSurrogate
  | trailingComma
  | trailingText
  | tooDeep
  deriving DecidableEq, Repr

/-- The text of an error. -/
def SyntaxError.message : SyntaxError → String
  | .endInList => "EOF while parsing a list"
  | .endInObject => "EOF while parsing an object"
  | .endInString => "EOF while parsing a string"
  | .endInValue => "EOF while parsing a value"
  | .expectedColon => "expected \x60:\x60"
  | .expectedListEnd => "expected \x60,\x60 or \x60]\x60"
  | .expectedObjectEnd => "expected \x60,\x60 or \x60\x7d\x60"
  | .expectedKeyword => "expected ident"
  | .expectedValue => "expected value"
  | .invalidEscape => "invalid escape"
  | .invalidNumber => "invalid number"
  | .numberOutOfRange => "number out of range"
  | .controlCharacter =>
    "control character (\\u0000-\\u001F) found while parsing a string"
  | .keyNotString => "key must be a string"
  | .loneSurrogate => "lone leading surrogate in hex escape"
  | .unpairedSurrogate => "unexpected end of hex escape"
  | .trailingComma => "trailing comma"
  | .trailingText => "trailing characters"
  | .tooDeep => "recursion limit exceeded"

/-- A spot in a text: the text from there on, and how many bytes of it count as read. -/
structure Spot where
  unread : List Char
  ahead : Nat

/-- The number of bytes of a text in UTF-8. -/
def byteCount (text : List Char) : Nat := text.foldr (fun c count => c.utf8Size + count) 0

/-- A line number and the number of bytes of that line before a place. -/
structure Place where
  line : Nat
  column : Nat
  deriving DecidableEq, Repr

/-- Walks over the characters that begin within the next `count` bytes. -/
def Place.advance (place : Place) (count : Nat) : List Char → Place
  | [] => ⟨place.line, place.column + count⟩
  | c :: cs =>
    if count = 0 then place
    else if c = '\n' then Place.advance ⟨place.line + 1, 0⟩ (count - 1) cs
    else if count ≤ c.utf8Size then ⟨place.line, place.column + count⟩
    else Place.advance ⟨place.line, place.column + c.utf8Size⟩ (count - c.utf8Size) cs

/-- The place of a spot in a text; no spot lies beyond the text's end. -/
def Spot.place (spot : Spot) (text : List Char) : Place :=
  let size := byteCount text
  let offset := min size (size - byteCount spot.unread + spot.ahead)
  Place.advance ⟨1, 0⟩ offset text

/-- The end of an error text that names a place. -/
def Place.suffix (place : Place) : String :=
  s!" at line {place.line} column {place.column}"

end ReductionStepper.Json
