import ReductionStepper.Source.Position
import ReductionStepper.Text.Digit

/-!
# Diagnostics

What a check has to say about a place in the program. A parse error comes as a message in which a
line and a column may be named, both counted from one; the diagnostic marks one character there, or
the first of the program if the message names no place.
-/

namespace ReductionStepper.Source

/-- A message about a range of the program. -/
structure Diagnostic where
  range : Range
  message : String
  deriving DecidableEq

/-- The digits behind the first occurrence of a word that digits follow. -/
def digitsAfter? (word : List Char) : List Char → Option (List Char)
  | [] => none
  | c :: cs =>
    let digits := ((c :: cs).drop word.length).takeWhile Text.isDecimalDigit
    if word.isPrefixOf (c :: cs) && !digits.isEmpty then some digits else digitsAfter? word cs

/-- The 32-bit number behind a word. Digits of other scripts count as digits but give no number. -/
def numberAfter? (word : List Char) (message : List Char) : Option UInt32 :=
  (digitsAfter? word message).bind fun digits =>
    (Text.readNumeral UInt32.size digits).map UInt32.ofNat

/-- The line and column that a message names. -/
def errorPosition? (message : String) : Option (UInt32 × UInt32) := do
  let line ← numberAfter? ['l', 'i', 'n', 'e', ' '] message.toList
  let column ← numberAfter? ['c', 'o', 'l', 'u', 'm', 'n', ' '] message.toList
  return (line, column)

namespace Diagnostic

/-- The severity of every diagnostic. -/
def severity : String := "error"

/-- The diagnostic of a term that got stuck. -/
def stuck (span : Span) (reason : String) : Diagnostic := ⟨span.toRange, reason⟩

/-- The diagnostic of a program that does not parse. -/
def parseError (message : String) : Diagnostic :=
  let (line, column) := (errorPosition? message).getD (1, 1)
  { range :=
      { start := ⟨fromZero line, fromZero column⟩
        stop := ⟨fromZero line, max column 1⟩ }
    message := "Parse error" }

end Diagnostic

end ReductionStepper.Source
