import ReductionStepper.Decimal.Shortest
import ReductionStepper.Json.Value

/-!
# Writing JSON

Compact JSON: no blanks between the parts. A string escapes the quote, the backslash and the
control characters, nothing else. A double is written with the fewest digits that read back,
positionally while the decimal point falls within or near the digits.
-/

namespace ReductionStepper.Json

/-! ## Numbers -/

/-- How doubles are written. -/
structure DoubleLayout where
  /-- The most digits before the decimal point. -/
  wholeDigits : Int
  /-- The most zeros between the decimal point and the first digit. -/
  leadingZeros : Int

/-- Positional up to sixteen digits before the point and four zeros behind it. -/
def doubleLayout : DoubleLayout := ⟨16, 4⟩

private def zeros (count : Int) : String := String.ofList (List.replicate count.toNat '0')

/-- The text of a positive decimal. -/
def DoubleLayout.text (layout : DoubleLayout) (d : Decimal) : String :=
  let digits := Nat.repr d.digits
  let point : Int := digits.length + d.exponent
  if 0 ≤ d.exponent ∧ point ≤ layout.wholeDigits then digits ++ zeros d.exponent ++ ".0"
  else if 0 < point ∧ point ≤ layout.wholeDigits then
    String.ofList (digits.toList.take point.toNat) ++ "." ++
      String.ofList (digits.toList.drop point.toNat)
  else if point ≤ 0 ∧ -layout.leadingZeros ≤ point then "0." ++ zeros (-point) ++ digits
  else
    let sign := if 0 < point then "+" else "-"
    let rest := digits.toList.drop 1
    String.ofList (digits.toList.take 1) ++
      (if rest.isEmpty then "" else "." ++ String.ofList rest) ++
      "e" ++ sign ++ Nat.repr (point - 1).natAbs

/-- The text of a finite double. -/
def doubleText (value : Float) : String :=
  (if value.toBits < 0x8000000000000000 then "" else "-") ++
    match Decimal.shortest? value with
    | none => "0.0"
    | some d => doubleLayout.text d

/-- The text of a number. -/
def Number.text : Number → String
  | .natural value => Nat.repr value.toNat
  | .negative magnitude => "-" ++ Nat.repr magnitude.toNat
  | .double value => doubleText value

/-! ## Strings -/

/-- The lower-case hexadecimal digit of a number below sixteen. -/
def hexDigit (value : Nat) : Char := Nat.digitChar value

/-- How a character is written inside a string. -/
def writeChar (c : Char) : List Char :=
  if c = '"' then ['\\', '"']
  else if c = '\\' then ['\\', '\\']
  else if c = '\x08' then ['\\', 'b']
  else if c = '\x0c' then ['\\', 'f']
  else if c = '\n' then ['\\', 'n']
  else if c = '\r' then ['\\', 'r']
  else if c = '\t' then ['\\', 't']
  else if c.toNat < 0x20 then
    ['\\', 'u', '0', '0', hexDigit (c.toNat / 16), hexDigit (c.toNat % 16)]
  else [c]

/-- A string in quotes. -/
def writeString (text : String) : List Char := '"' :: text.toList.flatMap writeChar ++ ['"']

/-! ## Values -/

mutual

/-- A value in compact form. -/
def write : Json → List Char
  | .null => ['n', 'u', 'l', 'l']
  | .bool true => ['t', 'r', 'u', 'e']
  | .bool false => ['f', 'a', 'l', 's', 'e']
  | .number value => value.text.toList
  | .string text => writeString text
  | .array items => '[' :: writeItems true items
  | .object entries => '\x7b' :: writeEntries true entries

/-- The items of a list and its closing bracket. -/
def writeItems (first : Bool) : List Json → List Char
  | [] => [']']
  | item :: later => (if first then [] else [',']) ++ write item ++ writeItems false later

/-- The entries of an object and its closing brace. -/
def writeEntries (first : Bool) : List (String × Json) → List Char
  | [] => ['\x7d']
  | (key, value) :: later =>
    (if first then [] else [',']) ++ writeString key ++ ':' :: write value ++
      writeEntries false later

end

/-- A value in compact form. -/
def compact (value : Json) : String := String.ofList (write value)

end ReductionStepper.Json
