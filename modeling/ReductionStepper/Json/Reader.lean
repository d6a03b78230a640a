import ReductionStepper.Json.Fault
import ReductionStepper.Json.Value
import ReductionStepper.Text.Digit

/-!
# Reading JSON

A reader takes the text that is left and answers what it read and the text behind it, or the
first fault and its spot. The reader of values takes a bound on its steps, which the length of
the text is enough for, and the number of brackets that may still be opened.
-/

namespace ReductionStepper.Json

/-- A fault at a spot. -/
structure Fault where
  error : SyntaxError
  spot : Spot

/-- A fault before the text that is left. -/
def failBefore {α : Type} (error : SyntaxError) (text : List Char) : Except Fault α :=
  .error ⟨error, ⟨text, 0⟩⟩

/-- A fault at the first byte of the text that is left. -/
def failAt {α : Type} (error : SyntaxError) (text : List Char) : Except Fault α :=
  .error ⟨error, ⟨text, 1⟩⟩

/-- Whether a character is a blank between the parts of a value. -/
def isGap (c : Char) : Bool := c = ' ' || c = '\n' || c = '\t' || c = '\r'

/-- The text without the blanks at its start. -/
def skipGap (text : List Char) : List Char := text.dropWhile isGap

/-- Reads the rest of a keyword. -/
def keyword {α : Type} (result : α) : List Char → List Char → Except Fault (α × List Char)
  | [], text => .ok (result, text)
  | _ :: _, [] => failBefore .endInValue []
  | k :: ks, c :: cs => if c = k then keyword result ks cs else failAt .expectedKeyword (c :: cs)

/-! ## Numbers -/

/-- Appends digits to a number as long as it stays below `2 ^ 64`; answers the number, the count of
digits taken and the text behind them. -/
def fitDigits (number count : Nat) : List Char → Nat × Nat × List Char
  | [] => (number, count, [])
  | c :: cs =>
    if c.isDigit && number * 10 + Text.digitValue c < UInt64.size then
      fitDigits (number * 10 + Text.digitValue c) (count + 1) cs
    else (number, count, c :: cs)

/-- Whether the text starts with a digit. -/
def startsWithDigit : List Char → Bool
  | [] => false
  | c :: _ => c.isDigit

/-- The power of ten as a double. -/
def powerOfTen (exponent : Nat) : Float := Float.ofScientific 1 false exponent

/-- `value * 10 ^ exponent` in double arithmetic; none beyond the largest double. -/
def scaleDouble (value : Float) (exponent : Int) : Option Float :=
  if exponent.natAbs ≤ 308 then
    if 0 ≤ exponent then
      let scaled := value * powerOfTen exponent.natAbs
      if scaled.isInf then none else some scaled
    else some (value / powerOfTen exponent.natAbs)
  else if value == 0 then some value
  else if h : 0 ≤ exponent then none
  else scaleDouble (value / powerOfTen 308) (exponent + 308)
termination_by (-exponent).toNat
decreasing_by omega

/-- The double `±number * 10 ^ exponent`. -/
def double (positive : Bool) (number : Nat) (exponent : Int) (text : List Char) :
    Except Fault (Number × List Char) :=
  match scaleDouble (UInt64.ofNat number).toFloat exponent with
  | none => failBefore .numberOutOfRange text
  | some value => .ok (.double (if positive then value else -value), text)

/-- Reads the digits of an exponent onto `exponent`. One beyond 31 bits gives zero or is out of
range. -/
def exponentDigits (positive : Bool) (number : Nat) (start : Int) (upward : Bool)
    (exponent : Nat) : List Char → Except Fault (Number × List Char)
  | [] => double positive number (if upward then start + exponent else start - exponent) []
  | c :: cs =>
    if c.isDigit then
      let next := exponent * 10 + Text.digitValue c
      if next < Nat.pow 2 31 then exponentDigits positive number start upward next cs
      else if number ≠ 0 ∧ upward = true then failBefore .numberOutOfRange cs
      else .ok (.double (if positive then 0.0 else -0.0), cs.dropWhile Char.isDigit)
    else
      double positive number (if upward then start + exponent else start - exponent) (c :: cs)

/-- Reads an exponent behind its letter. -/
def exponentPart (positive : Bool) (number : Nat) (start : Int) (text : List Char) :
    Except Fault (Number × List Char) :=
  let (upward, digits) :=
    match text with
    | '+' :: rest => (true, rest)
    | '-' :: rest => (false, rest)
    | rest => (true, rest)
  match digits with
  | [] => failBefore .endInValue []
  | c :: cs =>
    if c.isDigit then exponentDigits positive number start upward (Text.digitValue c) cs
    else failAt .invalidNumber (c :: cs)

/-- Goes on behind the digits of a number that is not whole. -/
def exponentOrDouble (positive : Bool) (number : Nat) (exponent : Int) :
    List Char → Except Fault (Number × List Char)
  | 'e' :: rest => exponentPart positive number exponent rest
  | 'E' :: rest => exponentPart positive number exponent rest
  | rest => double positive number exponent rest

/-- Reads the digits behind a decimal point. Digits that no longer fit are passed over. -/
def fractionPart (positive : Bool) (number : Nat) (start : Int) (text : List Char) :
    Except Fault (Number × List Char) :=
  let (number, count, rest) := fitDigits number 0 text
  if startsWithDigit rest then
    exponentOrDouble positive number (start - count) (rest.dropWhile Char.isDigit)
  else if count = 0 then
    failAt (if rest.isEmpty then .endInValue else .invalidNumber) rest
  else exponentOrDouble positive number (start - count) rest

/-- Goes on behind the whole part of a number that fits 64 bits. -/
def wholeNumber (positive : Bool) (number : Nat) : List Char → Except Fault (Number × List Char)
  | '.' :: rest => fractionPart positive number 0 rest
  | 'e' :: rest => exponentPart positive number 0 rest
  | 'E' :: rest => exponentPart positive number 0 rest
  | rest =>
    if positive then .ok (.natural (UInt64.ofNat number), rest)
    else if number ≠ 0 ∧ number ≤ Nat.pow 2 63 then .ok (.negative (UInt64.ofNat number), rest)
    else .ok (.double (-(UInt64.ofNat number).toFloat), rest)

/-- Goes on behind the digits of a whole part that does not fit 64 bits; the digits that did not
fit count as zeros. -/
def longNumber (positive : Bool) (number : Nat) (text : List Char) :
    Except Fault (Number × List Char) :=
  let dropped := (text.takeWhile Char.isDigit).length
  match text.dropWhile Char.isDigit with
  | '.' :: rest => fractionPart positive number dropped rest
  | rest => exponentOrDouble positive number dropped rest

/-- Reads a number without its sign. -/
def readNumber (positive : Bool) : List Char → Except Fault (Number × List Char)
  | [] => failBefore .endInValue []
  | c :: cs =>
    if c = '0' then
      if startsWithDigit cs then failAt .invalidNumber cs else wholeNumber positive 0 cs
    else if c.isDigit then
      let (value, _, rest) := fitDigits (Text.digitValue c) 1 cs
      if startsWithDigit rest then longNumber positive value rest
      else wholeNumber positive value rest
    else failAt .invalidNumber (c :: cs)

/-! ## Strings -/

/-- The number that four hexadecimal digits denote. -/
def hexNumber? (a b c d : Char) : Option Nat := do
  let a ← Text.hexValue? a
  let b ← Text.hexValue? b
  let c ← Text.hexValue? c
  let d ← Text.hexValue? d
  return ((a * 16 + b) * 16 + c) * 16 + d

/-- Reads four hexadecimal digits. Four bytes are taken whether or not they are digits. -/
def hexDigits (text : List Char) : Except Fault (Nat × List Char) :=
  if byteCount text < 4 then failBefore .endInString []
  else
    match text with
    | a :: b :: c :: d :: rest =>
      match hexNumber? a b c d with
      | some code => .ok (code, rest)
      | none => .error ⟨.invalidEscape, ⟨text, 4⟩⟩
    | _ => .error ⟨.invalidEscape, ⟨text, 4⟩⟩

/-- Reads the second half of a surrogate pair, its backslash included. -/
def lowSurrogate (high : Nat) : List Char → Except Fault (Char × List Char)
  | '\\' :: 'u' :: rest => do
    let (low, rest) ← hexDigits rest
    if 0xDC00 ≤ low ∧ low ≤ 0xDFFF then
      return (Char.ofNat ((high - 0xD800) * 0x400 + (low - 0xDC00) + 0x10000), rest)
    else failBefore .loneSurrogate rest
  | '\\' :: [] => failBefore .endInString []
  | '\\' :: rest => failAt .unpairedSurrogate rest
  | [] => failBefore .endInString []
  | rest => failAt .unpairedSurrogate rest

/-- Reads an escape behind its backslash. -/
def escape : List Char → Except Fault (Char × List Char)
  | [] => failBefore .endInString []
  | '"' :: rest => .ok ('"', rest)
  | '\\' :: rest => .ok ('\\', rest)
  | '/' :: rest => .ok ('/', rest)
  | 'b' :: rest => .ok ('\x08', rest)
  | 'f' :: rest => .ok ('\x0c', rest)
  | 'n' :: rest => .ok ('\n', rest)
  | 'r' :: rest => .ok ('\r', rest)
  | 't' :: rest => .ok ('\t', rest)
  | 'u' :: rest => do
    let (code, rest) ← hexDigits rest
    if 0xDC00 ≤ code ∧ code ≤ 0xDFFF then failBefore .loneSurrogate rest
    else if 0xD800 ≤ code ∧ code ≤ 0xDBFF then lowSurrogate code rest
    else return (Char.ofNat code, rest)
  | rest => failAt .invalidEscape rest

/-- Reads a string behind its opening quote, in at most as many steps as given. -/
def characters : Nat → List Char → Except Fault (List Char × List Char)
  | 0, _ => failBefore .endInString []
  | _ + 1, [] => failBefore .endInString []
  | _ + 1, '"' :: rest => .ok ([], rest)
  | steps + 1, '\\' :: rest => do
    let (c, rest) ← escape rest
    let (cs, rest) ← characters steps rest
    return (c :: cs, rest)
  | steps + 1, c :: rest =>
    if c.toNat < 0x20 then failAt .controlCharacter (c :: rest)
    else do
      let (cs, rest) ← characters steps rest
      return (c :: cs, rest)

/-- Reads a string behind its opening quote. -/
def quoted (text : List Char) : Except Fault (String × List Char) := do
  let (cs, rest) ← characters (text.length + 1) text
  return (String.ofList cs, rest)

/-! ## Lists and objects -/

/-- Looks whether another item of a list follows; answers the text at the item or, behind the
closing bracket, nothing more. -/
def nextItem (first : Bool) (text : List Char) : Except Fault (Bool × List Char) :=
  match skipGap text with
  | [] => failAt .endInList []
  | ']' :: rest => .ok (false, rest)
  | ',' :: rest =>
    if first then .ok (true, ',' :: rest)
    else
      match skipGap rest with
      | [] => failAt .endInValue []
      | ']' :: rest => failAt .trailingComma (']' :: rest)
      | rest => .ok (true, rest)
  | rest => if first then .ok (true, rest) else failAt .expectedListEnd rest

/-- Looks whether another entry of an object follows; answers the text behind the quote that opens
its key or, behind the closing brace, nothing more. -/
def nextKey (first : Bool) (text : List Char) : Except Fault (Bool × List Char) :=
  match skipGap text with
  | [] => failAt .endInObject []
  | '}' :: rest => .ok (false, rest)
  | '"' :: rest => if first then .ok (true, rest) else failAt .expectedObjectEnd ('"' :: rest)
  | ',' :: rest =>
    if first then failAt .keyNotString (',' :: rest)
    else
      match skipGap rest with
      | [] => failAt .endInValue []
      | '"' :: rest => .ok (true, rest)
      | '}' :: rest => failAt .trailingComma ('}' :: rest)
      | rest => failAt .keyNotString rest
  | rest => failAt (if first then .keyNotString else .expectedObjectEnd) rest

/-- Passes the colon behind a key. -/
def colon (text : List Char) : Except Fault (List Char) :=
  match skipGap text with
  | [] => failAt .endInObject []
  | ':' :: rest => .ok rest
  | rest => failAt .expectedColon rest

mutual

/-- Reads a value in which at most `depth` brackets are open at a time. -/
def valueWithin : Nat → Nat → List Char → Except Fault (Json × List Char)
  | 0, _, text => failBefore .endInValue text
  | steps + 1, depth, text =>
    match skipGap text with
    | [] => failAt .endInValue []
    | 'n' :: rest => keyword .null ['u', 'l', 'l'] rest
    | 't' :: rest => keyword (.bool true) ['r', 'u', 'e'] rest
    | 'f' :: rest => keyword (.bool false) ['a', 'l', 's', 'e'] rest
    | '"' :: rest => do
      let (content, rest) ← quoted rest
      return (.string content, rest)
    | '-' :: rest => do
      let (value, rest) ← readNumber false rest
      return (.number value, rest)
    | '[' :: rest =>
      match depth with
      | 0 => failAt .tooDeep ('[' :: rest)
      | depth + 1 => do
        let (items, rest) ← itemsWithin steps depth true rest
        return (.array items, rest)
    | '{' :: rest =>
      match depth with
      | 0 => failAt .tooDeep ('{' :: rest)
      | depth + 1 => do
        let (entries, rest) ← entriesWithin steps depth true rest
        return (.object entries, rest)
    | c :: rest =>
      if c.isDigit then do
        let (value, rest) ← readNumber true (c :: rest)
        return (.number value, rest)
      else failAt .expectedValue (c :: rest)

/-- Reads the items of a list that are left, and the closing bracket. -/
def itemsWithin : Nat → Nat → Bool → List Char → Except Fault (List Json × List Char)
  | 0, _, _, text => failBefore .endInList text
  | steps + 1, depth, first, text => do
    let (more, rest) ← nextItem first text
    if more then
      let (item, rest) ← valueWithin steps depth rest
      let (items, rest) ← itemsWithin steps depth false rest
      return (item :: items, rest)
    else return ([], rest)

/-- Reads the entries of an object that are left, and the closing brace. -/
def entriesWithin : Nat → Nat → Bool → List Char →
    Except Fault (List (String × Json) × List Char)
  | 0, _, _, text => failBefore .endInObject text
  | steps + 1, depth, first, text => do
    let (more, rest) ← nextKey first text
    if more then
      let (key, rest) ← quoted rest
      let rest ← colon rest
      let (value, rest) ← valueWithin steps depth rest
      let (entries, rest) ← entriesWithin steps depth false rest
      return ((key, value) :: entries, rest)
    else return ([], rest)

end

/-- More steps than reading the text can take. -/
def stepBound (text : List Char) : Nat := 2 * text.length + 2

/-- Reads a value in which at most `depth` brackets are open at a time. -/
def readValue (depth : Nat) (text : List Char) : Except Fault (Json × List Char) :=
  valueWithin (stepBound text) depth text

/-- Reads the items of a list behind its opening bracket. -/
def readItems (depth : Nat) (text : List Char) : Except Fault (List Json × List Char) :=
  itemsWithin (stepBound text) depth true text

end ReductionStepper.Json
