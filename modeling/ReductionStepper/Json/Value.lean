/-!
# JSON values

A JSON value as it was written: objects keep the order of their entries and their repeated keys.
The canonical form of a value has the keys of every object in order, and of repeated keys the
last entry.
-/

namespace ReductionStepper

/-- A JSON number: whole numbers that fit 64 bits are kept exactly, all others as doubles. -/
inductive Json.Number where
  | natural (value : UInt64)
  /-- The number `-magnitude`; the magnitude is between one and `2 ^ 63`. -/
  | negative (magnitude : UInt64)
  | double (value : Float)

/-- A JSON value. -/
inductive Json where
  | null
  | bool (value : Bool)
  | number (value : Json.Number)
  | string (text : String)
  | array (items : List Json)
  | object (entries : List (String × Json))
  deriving Inhabited

namespace Json

/-- Puts an entry into entries that are sorted by key, in place of an entry with that key. -/
def putEntry (key : String) (value : Json) : List (String × Json) → List (String × Json)
  | [] => [(key, value)]
  | (k, v) :: later =>
    match compare key k with
    | .lt => (key, value) :: (k, v) :: later
    | .eq => (key, value) :: later
    | .gt => (k, v) :: putEntry key value later

mutual

/-- The value with sorted keys, of repeated keys the last entry. -/
def canonical : Json → Json
  | .array items => .array (canonicalItems items)
  | .object entries => .object (canonicalEntries [] entries)
  | value => value

/-- The items in canonical form. -/
def canonicalItems : List Json → List Json
  | [] => []
  | item :: later => canonical item :: canonicalItems later

/-- Puts the entries, in canonical form, one after the other into sorted entries. -/
def canonicalEntries (sorted : List (String × Json)) :
    List (String × Json) → List (String × Json)
  | [] => sorted
  | (key, value) :: later => canonicalEntries (putEntry key (canonical value) sorted) later

end

end Json

end ReductionStepper
