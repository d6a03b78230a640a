import ReductionStepper.Text.Casing
import ReductionStepper.Text.Layout

/-!
# Sample programs

The programs that come with the stepper. One is found by its name in any case, else by the name
most similar to what was asked for, if that is similar enough.
-/

namespace ReductionStepper

/-! ## Similarity of two texts

The similarity of two texts is twice the length of their longest common subsequence over the sum
of their lengths, so equal texts have similarity one. It is kept as a fraction: comparing it with
a threshold or with another similarity needs no rounding. -/

namespace Text

/-- The row of common-subsequence lengths for `a :: as` against every suffix of `bs`, from the
row for `as`; both rows have one entry per suffix, the empty suffix last. -/
def commonRow (a : Char) : List Char → List Nat → List Nat
  | b :: bs, here :: below =>
    match commonRow a bs below with
    | [] => [here]
    | next :: later =>
      (if a = b then below.headD 0 + 1 else max here next) :: next :: later
  | _, _ => [0]

/-- The length of the longest common subsequence. -/
def commonLength (as bs : List Char) : Nat :=
  (as.foldr (fun a row => commonRow a bs row) (List.replicate (bs.length + 1) 0)).headD 0

/-- A similarity as a fraction. -/
structure Similarity where
  common : Nat
  total : Nat

/-- The similarity of two texts. -/
def similarity (as bs : List Char) : Similarity :=
  ⟨2 * commonLength as bs, as.length + bs.length⟩

/-- Whether a similarity is at least `num / den`. -/
def Similarity.atLeast (s : Similarity) (num den : Nat) : Bool :=
  num * s.total ≤ den * s.common

/-- Whether a similarity is at most another. -/
def Similarity.le (s t : Similarity) : Bool :=
  s.common * t.total ≤ t.common * s.total

end Text

/-! ## Samples -/

/-- A program that comes with the stepper, and the function of it that is checked. -/
structure Sample where
  name : String
  function : String
  source : String
  deriving DecidableEq

namespace Sample

/-- All samples in the order in which they are listed. -/
def all : List Sample :=
  [{ name := "factorial"
     function := "fac"
     source :=
      "let rec fac n =\n" ++
      "  if n <= 0 then\n" ++
      "    true\n" ++
      "  else\n" ++
      "    n * fac (n - 1);;" },
    { name := "wwhile"
      function := "wwhile"
      source :=
        "let (x,y) = (\"5\", 5);;\n" ++
        "let rec wwhile (f,b) =\n" ++
        "  let f b = (x, y) in \n" ++
        "  if y = true \n" ++
        "  then wwhile (f, x)\n" ++
        "  else x;;" },
    { name := "loop"
      function := "f"
      source :=
        "let f lst =\n" ++
        "  let rec loop lst acc =\n" ++
        "    if lst = [] then\n" ++
        "      acc\n" ++
        "    else\n" ++
        "      ()\n" ++
        "  in\n" ++
        "  match loop lst [(0.0,0.0)] with\n" ++
        "    | h :: t -> h;;" },
    { name := "palindrome"
      function := "palindrome"
      source :=
        "let listReverse l =\n" ++
        "  let rec helper xs = function \n" ++
        "    | [] -> xs \n" ++
        "    | hd::tl -> helper (hd :: xs) tl \n" ++
        "  in helper [];;\n" ++
        "\n" ++
        "let palindrome (w : char list) =\n" ++
        "  if (listReverse w) = w \n" ++
        "  then true \n" ++
        "  else false;;" }]

/-- The least similarity of a name, `3 / 5`. -/
def similarEnough (s : Text.Similarity) : Bool := s.atLeast 3 5

/-- Of the samples with the greatest similarity the last one. -/
def mostSimilar : List (Sample × Text.Similarity) → Option (Sample × Text.Similarity)
  | [] => none
  | (sample, s) :: later =>
    match mostSimilar later with
    | none => some (sample, s)
    | some (other, t) => if s.le t then some (other, t) else some (sample, s)

/-- The sample with a name. -/
def find? (name : String) : Option Sample :=
  let wanted := Text.lower (Text.trim name)
  if wanted = "" then none
  else
    (all.find? (·.name = wanted)).or <|
      let candidates := all.map fun sample =>
        (sample, Text.similarity wanted.toList sample.name.toList)
      (mostSimilar (candidates.filter fun (_, s) => similarEnough s)).map Prod.fst

end Sample

end ReductionStepper
