import ReductionStepper.Evaluator.Reply.Fields
import ReductionStepper.Json.Reader

/-!
# Reading replies

A reply is an object whose entry `result` names its kind, or an array whose first item does. The
kind is looked at as soon as it is met; the other entries are kept and read as fields when the whole
value has been read. Only then may nothing but blanks follow.
-/

namespace ReductionStepper.Reply

open Json (Fault Spot skipGap)

/-- The most brackets that may be open at a time. -/
def nestingLimit : Nat := 127

/-- What can go wrong before the fields are looked at. -/
inductive HeadFault where
  | malformed (fault : Fault)
  | unfit (mismatch : Mismatch) (spot : Spot)

/-- The error of a fault in a text. -/
def HeadFault.toError (text : List Char) : HeadFault → DecodeError
  | .malformed fault => .malformed fault.error (fault.spot.place text)
  | .unfit mismatch spot => .unfit mismatch (some (spot.place text))

/-- Reports the faults of a JSON reader. -/
def lift {α : Type} : Except Fault α → Except HeadFault α
  | .error fault => .error (.malformed fault)
  | .ok result => .ok result

/-- A mismatch right before the text that is left. -/
def unfitBefore {α : Type} (mismatch : Mismatch) (text : List Char) : Except HeadFault α :=
  .error (.unfit mismatch ⟨text, 0⟩)

/-- Refuses a value where another one is expected. A list or an object is refused before it is
read, any other value behind it. -/
def refuse {α : Type} (expected : String) (text : List Char) : Except HeadFault α :=
  match text with
  | '[' :: _ => unfitBefore (.wrongType (.array []) expected) text
  | '\x7b' :: _ => unfitBefore (.wrongType (.object []) expected) text
  | _ => do
    let (found, rest) ← lift (Json.readValue nestingLimit text)
    unfitBefore (.wrongType found expected) rest

/-- Reads the word for a kind. -/
def readKind (text : List Char) : Except HeadFault (Kind × List Char) :=
  match skipGap text with
  | '"' :: rest => do
    let (word, rest) ← lift (Json.quoted rest)
    match Kind.ofWord? word with
    | some kind => return (kind, rest)
    | none => unfitBefore (.unknownKind word) rest
  | text => refuse "variant identifier" text

/-- The spot behind a repeated kind: the closing brace is passed if it comes next. -/
def behindRepeated (text : List Char) : List Char :=
  match skipGap text with
  | '\x7d' :: rest => rest
  | rest => rest

/-- Reads the entries that are left of an object that names a kind, and its closing brace. -/
def readTagged : Nat → Bool → Option Kind → List Char →
    Except HeadFault ((Kind × List (String × Json)) × List Char)
  | 0, _, _, text => .error (.malformed ⟨.endInObject, ⟨text, 0⟩⟩)
  | steps + 1, first, kind?, text => do
    let (more, rest) ← lift (Json.nextKey first text)
    if more then
      let (key, rest) ← lift (Json.quoted rest)
      if key = "result" then
        if kind?.isSome then unfitBefore (.repeatedField "result") (behindRepeated rest)
        else
          let rest ← lift (Json.colon rest)
          let (kind, rest) ← readKind rest
          readTagged steps false (some kind) rest
      else
        let rest ← lift (Json.colon rest)
        let (found, rest) ← lift (Json.readValue (nestingLimit - 1) rest)
        let ((kind, entries), rest) ← readTagged steps false kind? rest
        return ((kind, (key, found) :: entries), rest)
    else
      match kind? with
      | some kind => return ((kind, []), rest)
      | none => unfitBefore (.missingField "result") rest

/-- Reads the kind of a reply and its fields as they were written. -/
def readHead (text : List Char) : Except HeadFault ((Kind × Json) × List Char) :=
  match skipGap text with
  | '\x7b' :: rest => do
    let ((kind, entries), rest) ← readTagged (Json.stepBound rest) true none rest
    return ((kind, .object entries), rest)
  | '[' :: rest => do
    let (more, rest) ← lift (Json.nextItem true rest)
    if more then
      let (kind, rest) ← readKind rest
      let (items, rest) ← lift
        (Json.itemsWithin (Json.stepBound rest) (nestingLimit - 1) false rest)
      return ((kind, .array items), rest)
    else unfitBefore (.missingField "result") rest
  | text => refuse "internally tagged enum CheckResponse" text

/-- Reads a reply from the characters of a text. -/
def decodeList (text : List Char) : Except DecodeError Reply :=
  match readHead text with
  | .error fault => .error (fault.toError text)
  | .ok ((kind, fields), rest) =>
    match readFields kind fields with
    | .error mismatch => .error (.unfit mismatch none)
    | .ok reply =>
      match skipGap rest with
      | [] => .ok reply
      | rest => .error (.malformed .trailingText (Spot.place ⟨rest, 1⟩ text))

/-- Reads a reply. -/
def decode (text : String) : Except DecodeError Reply := decodeList text.toList

end ReductionStepper.Reply
