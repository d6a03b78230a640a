/-!
# Tables of code points

A table is written as hexadecimal numbers with blanks between them and read once. Runs of code
points are given by their first and last code point.
-/

namespace ReductionStepper.Text

/-- The numbers written before a place, with the sign and value of the number at that place. -/
structure TableReader where
  done : List Int
  negative : Bool
  value : Option Nat

namespace TableReader

/-- Ends the number that is being read. -/
def endNumber (reader : TableReader) : TableReader :=
  match reader.value with
  | none => reader
  | some value =>
    ⟨(if reader.negative then -(value : Int) else value) :: reader.done, false, none⟩

/-- Reads one more character. -/
def next (reader : TableReader) (c : Char) : TableReader :=
  if c = '-' then { reader with negative := true }
  else if c.isDigit then
    { reader with value := some (reader.value.getD 0 * 16 + (c.toNat - '0'.toNat)) }
  else if c.isLower then
    { reader with value := some (reader.value.getD 0 * 16 + (c.toNat - 'a'.toNat + 10)) }
  else reader.endNumber

end TableReader

/-- The numbers of a table. -/
def tableNumbers (table : String) : List Int :=
  (table.toList.foldl TableReader.next ⟨[], false, none⟩).endNumber.done.reverse

/-- The numbers of a table two by two. -/
def pairUp : List Int → List (Nat × Nat)
  | first :: last :: later => (first.toNat, last.toNat) :: pairUp later
  | _ => []

/-- The runs of code points of a table. -/
def tableRuns (table : String) : List (Nat × Nat) := pairUp (tableNumbers table)

/-- Whether a character lies in one of the runs. -/
def inRuns (runs : List (Nat × Nat)) (c : Char) : Bool :=
  runs.any fun (first, last) => first ≤ c.toNat && c.toNat ≤ last

end ReductionStepper.Text
