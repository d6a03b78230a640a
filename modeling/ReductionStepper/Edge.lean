import ReductionStepper.Term
import ReductionStepper.Text.Layout

/-!
# Edges

An edge leads from one term of a reduction graph to another. The words of its label name its tags:
a subterm, a step, and for a step whether it calls or returns. Words that name no tag mean
nothing.
-/

namespace ReductionStepper

/-- What an edge says about its two terms. -/
inductive Tag where
  | subTerm
  | stepsTo
  | callStep
  | returnStep
  deriving DecidableEq, Repr

namespace Tag

/-- All tags in their order. -/
def all : List Tag := [.subTerm, .stepsTo, .callStep, .returnStep]

/-- The word for a tag. -/
def name : Tag → String
  | .subTerm => "SubTerm"
  | .stepsTo => "StepsTo"
  | .callStep => "CallStep"
  | .returnStep => "ReturnStep"

/-- The tag that a word names. -/
def ofName? (word : String) : Option Tag := all.find? (·.name = word)

/-- The name of a tag is read as the tag. -/
@[simp] theorem ofName?_name (tag : Tag) : ofName? tag.name = some tag := by
  cases tag <;> decide

end Tag

/-- A set of tags. -/
structure Tags where
  subTerm : Bool
  stepsTo : Bool
  callStep : Bool
  returnStep : Bool
  deriving DecidableEq, Repr

namespace Tags

/-- No tag. -/
def empty : Tags := ⟨false, false, false, false⟩

/-- Whether a tag is in the set. -/
def contains (tags : Tags) : Tag → Bool
  | .subTerm => tags.subTerm
  | .stepsTo => tags.stepsTo
  | .callStep => tags.callStep
  | .returnStep => tags.returnStep

/-- The set with one tag more. -/
def insert (tags : Tags) : Tag → Tags
  | .subTerm => { tags with subTerm := true }
  | .stepsTo => { tags with stepsTo := true }
  | .callStep => { tags with callStep := true }
  | .returnStep => { tags with returnStep := true }

/-- The set of the tags in a list. -/
def ofList (list : List Tag) : Tags := list.foldl insert empty

/-- The tags in the set in their order. -/
def toList (tags : Tags) : List Tag := Tag.all.filter tags.contains

/-- The tags that the words of a label name. -/
def ofLabel (label : String) : Tags := ofList ((Text.words label).filterMap Tag.ofName?)

/-- Whether the set has no tag. -/
def isEmpty (tags : Tags) : Bool := tags.toList.isEmpty

/-- The empty set has no tag. -/
@[simp] theorem contains_empty (tag : Tag) : empty.contains tag = false := by
  cases tag <;> rfl

/-- A tag that is put in is the only one that a set gains. -/
@[simp] theorem contains_insert (tags : Tags) (a b : Tag) :
    (tags.insert a).contains b = (a = b || tags.contains b) := by
  cases a <;> cases b <;> simp [insert, contains]

/-- Sets with the same tags are equal. -/
theorem ext_contains {s t : Tags} (h : ∀ tag, s.contains tag = t.contains tag) : s = t := by
  have h₁ := h .subTerm
  have h₂ := h .stepsTo
  have h₃ := h .callStep
  have h₄ := h .returnStep
  cases s
  cases t
  simp_all [contains]

end Tags

/-- An edge of a reduction graph. -/
structure Edge where
  source : TermId
  target : TermId
  label : String
  deriving DecidableEq

namespace Edge

/-- The tags of an edge. -/
def tags (edge : Edge) : Tags := Tags.ofLabel edge.label

/-- Whether an edge carries a tag. -/
def has (edge : Edge) (tag : Tag) : Bool := edge.tags.contains tag

end Edge

end ReductionStepper
