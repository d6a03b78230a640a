import ReductionStepper.Text.Layout

/-!
# Top-level bindings

A top-level binding is a `let` at the start of a line, white space, perhaps `rec` and white space,
and a name. A text is searched from front to back; the search goes on behind a binding that was
found, so a `let` inside the white space of an earlier binding is passed over.
-/

namespace ReductionStepper.Source

/-- Whether a name may start with this character. -/
def startsName (c : Char) : Bool := c.isAlpha || c = '_'

/-- Whether a name may go on with this character. -/
def continuesName (c : Char) : Bool := c.isAlphanum || c = '_' || c = '\''

/-- The name at the start of a text, and the text behind it. -/
def name? : List Char → Option (List Char × List Char)
  | [] => none
  | c :: cs =>
    if startsName c then some (c :: cs.takeWhile continuesName, cs.dropWhile continuesName)
    else none

/-- The text behind a keyword and the white space that has to follow it. -/
def afterKeyword? (keyword text : List Char) : Option (List Char) :=
  if keyword.isPrefixOf text && ((text.drop keyword.length).head?.any Text.isBlank) then
    some ((text.drop keyword.length).dropWhile Text.isBlank)
  else none

/-- The name that a binding at the start of a text binds, and the text behind the name. A `rec` that
no name follows is itself the name. -/
def binding? (text : List Char) : Option (List Char × List Char) := do
  let rest ← afterKeyword? ['l', 'e', 't'] text
  ((afterKeyword? ['r', 'e', 'c'] rest).bind name?).or (name? rest)

/-- The last name that a top-level binding binds, `found` if there is none. The first `skip`
characters belong to a binding that was found. -/
def lastBinding (found : List Char) : Nat → Bool → List Char → List Char
  | _, _, [] => found
  | skip + 1, _, c :: cs => lastBinding found skip (c = '\n') cs
  | 0, atLineStart, c :: cs =>
    match if atLineStart then binding? (c :: cs) else none with
    | some (name, rest) => lastBinding name (cs.length - rest.length) (c = '\n') cs
    | none => lastBinding found 0 (c = '\n') cs

/-- The name of a function where a program binds none. -/
def fallbackName : String := "main"

/-- The name that the last top-level binding of a program binds. -/
def lastBound (program : String) : String :=
  String.ofList (lastBinding fallbackName.toList 0 true program.toList)

end ReductionStepper.Source
