import ReductionStepper.Source.Position

/-!
# Terms

A term of a reduction graph has an id, a label with markup and perhaps a place in the program.
Ids are non-empty texts, ordered by code point.
-/

namespace ReductionStepper

/-! ## Markup in labels

Labels carry tags, `<b>` or `</b>`, and write the characters that could be taken for markup as
entities. A `<` opens a tag only before an ASCII letter or a slash, so that comparison operators
survive unescaped. -/

namespace Markup

/-- Whether a `<` before this text opens a tag. -/
def opensTag : List Char → Bool
  | [] => false
  | c :: _ => c.isAlpha || c = '/'

/-- The text without its tags, read from inside a tag or from outside. -/
def withoutTags (inTag : Bool) : List Char → List Char
  | [] => []
  | c :: cs =>
    if inTag then withoutTags (c ≠ '>') cs
    else if c = '<' && opensTag cs then withoutTags true cs
    else c :: withoutTags false cs

/-- Puts `c` in place of every occurrence of an entity, first passing over `skip` characters. -/
def replaceEntity (entity : List Char) (c : Char) : Nat → List Char → List Char
  | _, [] => []
  | skip + 1, _ :: cs => replaceEntity entity c skip cs
  | 0, d :: cs =>
    if entity.isPrefixOf (d :: cs) then c :: replaceEntity entity c (entity.length - 1) cs
    else d :: replaceEntity entity c 0 cs

/-- The entities and the characters they stand for. The ampersand comes last. -/
def entities : List (List Char × Char) :=
  [(['&', 'l', 't', ';'], '<'), (['&', 'g', 't', ';'], '>'),
    (['&', 'q', 'u', 'o', 't', ';'], '"'), (['&', '#', '3', '9', ';'], '\''),
    (['&', 'a', 'm', 'p', ';'], '&')]

/-- The text with all entities replaced, one kind after the other. -/
def decodeEntities (text : List Char) : List Char :=
  entities.foldl (fun text (entity, c) => replaceEntity entity c 0 text) text

/-- The text that a label shows. -/
def plain (label : String) : String :=
  String.ofList (decodeEntities (withoutTags false label.toList))

end Markup

/-! ## Ids and terms -/

/-- The id of a term: a text that is not empty. -/
structure TermId where
  text : String
  text_ne : text ≠ ""
  deriving DecidableEq

namespace TermId

instance : Repr TermId := ⟨fun id _ => repr id.text⟩

instance : Ord TermId := ⟨compareOn text⟩

instance : Std.TransOrd TermId := inferInstanceAs (Std.TransCmp (compareOn text))

instance : Std.LawfulEqOrd TermId where
  compare_self {a} := (Std.ReflCmp.compare_self : compare a.text a.text = .eq)
  eq_of_compare {a b} h := by
    have h : compare a.text b.text = .eq := h
    have htext : a.text = b.text := Std.LawfulEqCmp.eq_of_compare h
    cases a
    cases b
    cases htext
    rfl

/-- The id with the given text; an empty text is none. -/
def ofString? (text : String) : Option TermId :=
  if h : text = "" then none else some ⟨text, h⟩

/-- The id that a number stands for: its decimal digits. -/
def ofNat (n : Nat) : TermId :=
  ⟨Nat.repr n, fun h => by
    have hne : 0 < (Nat.repr n).length := Nat.length_repr_pos
    rw [h] at hne
    exact absurd hne (by decide)⟩

/-- The text of an id is read as the id. -/
@[simp] theorem ofString?_text (id : TermId) : ofString? id.text = some id := by
  simp [ofString?, id.text_ne]

end TermId

/-- What is said of an empty id. -/
def emptyIdMessage : String := "id must not be empty"

/-- A term of a reduction graph. -/
structure Term where
  id : TermId
  label : String
  span : Option Source.Span
  deriving DecidableEq

/-- The label without its markup. -/
def Term.plainLabel (term : Term) : String := Markup.plain term.label

end ReductionStepper
