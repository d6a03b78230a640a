/-!
# Layout of texts

How texts divide into words and lines, and how they are fitted to a width. White space is what has
the Unicode property `White_Space`: everything that splits or trims text in this library goes by
this one class.
-/

namespace ReductionStepper.Text

/-! ## White space -/

/-- The characters with the property `White_Space`. -/
def blanks : List Char :=
  ['\t', '\n', '\x0b', '\x0c', '\r', ' ', '\u0085', '\u00a0', '\u1680', '\u2000', '\u2001',
    '\u2002', '\u2003', '\u2004', '\u2005', '\u2006', '\u2007', '\u2008', '\u2009', '\u200a',
    '\u2028', '\u2029', '\u202f', '\u205f', '\u3000']

/-- Whether a character is white space. -/
def isBlank (c : Char) : Bool := blanks.contains c

/-- Drops the blanks at both ends. -/
def trimList (text : List Char) : List Char :=
  ((text.dropWhile isBlank).reverse.dropWhile isBlank).reverse

/-- Drops the blanks at both ends. -/
def trim (text : String) : String := String.ofList (trimList text.toList)

/-! ## Words

The words of a text are its maximal runs of characters that are not white space. Folding a text to
a single line joins its words by one space. -/

/-- The word that starts at the head of the text, empty when the text starts with a blank or is
empty, and the words after it. -/
def leadingWord : List Char → List Char × List (List Char)
  | [] => ([], [])
  | c :: cs =>
    let (word, later) := leadingWord cs
    if isBlank c then ([], if word.isEmpty then later else word :: later)
    else (c :: word, later)

/-- The words of a text in order. -/
def wordList (text : List Char) : List (List Char) :=
  let (word, later) := leadingWord text
  if word.isEmpty then later else word :: later

/-- The words of a text in order. -/
def words (text : String) : List String := (wordList text.toList).map String.ofList

/-- The words of a text joined by single spaces. -/
def singleLine (text : String) : String := " ".intercalate (words text)

/-! ## Lines

A line ends in a line feed, or in a carriage return and a line feed; the last line may lack its
end. An end of line at the end of the text starts no further line, and a carriage return
without its line feed belongs to the line. -/

/-- The lines of a text without their ends. -/
def lineList : List Char → List (List Char)
  | [] => []
  | '\n' :: cs => [] :: lineList cs
  | '\r' :: '\n' :: cs => [] :: lineList cs
  | c :: cs =>
    match lineList cs with
    | [] => [[c]]
    | line :: later => (c :: line) :: later

/-- The lines of a text without their ends. -/
def lines (text : String) : List String := (lineList text.toList).map String.ofList

/-- The pieces of a text between the occurrences of a separator, empty pieces included. -/
def pieces (separator : Char) : List Char → List (List Char)
  | [] => [[]]
  | c :: cs =>
    if c = separator then [] :: pieces separator cs
    else
      match pieces separator cs with
      | [] => [[c]]
      | piece :: later => (c :: piece) :: later

/-! ## Width

Width is counted in characters. A text that is too wide is cut and ends in an ellipsis, which
takes one of the allowed characters. -/

/-- The sign that ends a shortened text. -/
def ellipsis : Char := '…'

/-- The text if it has at most `width` characters, else its first `width - 1` characters and an
ellipsis; nothing at width zero. -/
def shorten (width : Nat) (text : String) : String :=
  if width = 0 then ""
  else if text.length ≤ width then text
  else String.ofList (text.toList.take (width - 1) ++ [ellipsis])

/-- The text preceded by as many spaces as bring it to `width` characters. -/
def alignRight (width : Nat) (text : String) : String :=
  String.ofList (List.replicate (width - text.length) ' ') ++ text

end ReductionStepper.Text
