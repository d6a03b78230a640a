import ReductionStepper.Json.Fault
import ReductionStepper.Json.Writer
import ReductionStepper.Text.Quoted

/-!
# Why a text is no reply

A text that is not JSON is malformed at a place. A JSON text may still not fit the form of a reply;
what is wrong with its kind has a place too, what is wrong with its fields is found after the
whole text was read and has none.
-/

namespace ReductionStepper.Reply

/-- How a JSON value does not fit. -/
inductive Mismatch where
  | missingField (name : String)
  | repeatedField (name : String)
  | wrongType (found : Json) (expected : String)
  | wrongNumber (found : Json.Number) (expected : String)
  | wrongLength (length : Nat) (expected : String)
  | unknownKind (word : String)
  | noName

/-- How a value is described where another one is expected. -/
def describe : Json → String
  | .null => "null"
  | .bool true => "boolean \x60true\x60"
  | .bool false => "boolean \x60false\x60"
  | .number (.double x) => "floating point \x60" ++ Json.doubleText x ++ "\x60"
  | .number n => "integer \x60" ++ n.text ++ "\x60"
  | .string text => "string " ++ Text.quote text
  | .array _ => "sequence"
  | .object _ => "map"

/-- The text of a mismatch. -/
def Mismatch.message : Mismatch → String
  | .missingField name => "missing field \x60" ++ name ++ "\x60"
  | .repeatedField name => "duplicate field \x60" ++ name ++ "\x60"
  | .wrongType found expected => "invalid type: " ++ describe found ++ ", expected " ++ expected
  | .wrongNumber found expected =>
    "invalid value: " ++ describe (.number found) ++ ", expected " ++ expected
  | .wrongLength length expected =>
    "invalid length " ++ Nat.repr length ++ ", expected " ++ expected
  | .unknownKind word =>
    "unknown variant \x60" ++ word ++
      "\x60, expected one of \x60value\x60, \x60stuck\x60, \x60timeout\x60, \x60parse-error\x60"
  | .noName => "data did not match any variant of untagged enum WireId"

/-- Why a text is no reply. -/
inductive DecodeError where
  | malformed (error : Json.SyntaxError) (place : Json.Place)
  | unfit (mismatch : Mismatch) (place : Option Json.Place)

/-- The text of an error. -/
def DecodeError.message : DecodeError → String
  | .malformed error place => error.message ++ place.suffix
  | .unfit mismatch none => mismatch.message
  | .unfit mismatch (some place) => mismatch.message ++ place.suffix

end ReductionStepper.Reply
