import ReductionStepper.Evaluator.Reply
import ReductionStepper.Evaluator.Reply.Mismatch

/-!
# The fields of a reply

A record is read from an object by the names of its fields or from an array by their order. In an
object unknown fields are passed over and a repeated field is a mismatch; the first entry that is
wrong decides, and a missing field is noticed at the end. In an array the fields are read in order
and nothing may follow them.
-/

namespace ReductionStepper.Reply

/-! ## Single values -/

/-- Reads a text. -/
def readText : Json → Except Mismatch String
  | .string content => .ok content
  | found => .error (.wrongType found "a string")

/-- Reads a 32-bit number. -/
def readCount : Json → Except Mismatch UInt32
  | .number (.natural n) =>
    if n.toNat < UInt32.size then .ok n.toUInt32 else .error (.wrongNumber (.natural n) "u32")
  | .number (.negative n) => .error (.wrongNumber (.negative n) "u32")
  | found => .error (.wrongType found "u32")

/-- Reads a name: a number or a text. -/
def readName : Json → Except Mismatch Name
  | .number (.natural n) => .ok (.number n)
  | .string content => .ok (.text content)
  | _ => .error .noName

/-- Reads a value that may be absent, written as null. -/
def readOptional {α : Type} (read : Json → Except Mismatch α) :
    Json → Except Mismatch (Option α)
  | .null => .ok none
  | found => (read found).map some

/-- Reads a list. -/
def readList {α : Type} (read : Json → Except Mismatch α) : Json → Except Mismatch (List α)
  | .array items => items.mapM read
  | found => .error (.wrongType found "a sequence")

/-! ## Fields of records -/

/-- Fills a field that was not read before. -/
def fill {α : Type} (name : String) (field : Option α) (read : Json → Except Mismatch α)
    (found : Json) : Except Mismatch (Option α) :=
  match field with
  | some _ => .error (.repeatedField name)
  | none => (read found).map some

/-- The value of a field that has to be there. -/
def require {α : Type} (name : String) : Option α → Except Mismatch α
  | some x => .ok x
  | none => .error (.missingField name)

/-- The item of an array for a field that has to be there. -/
def itemAt {α : Type} (expected : String) (items : List Json) (position : Nat)
    (read : Json → Except Mismatch α) : Except Mismatch α :=
  match items[position]? with
  | some found => read found
  | none => .error (.wrongLength position expected)

/-- The item of an array for a field that may be left out. -/
def itemOr {α : Type} (absent : α) (items : List Json) (position : Nat)
    (read : Json → Except Mismatch α) : Except Mismatch α :=
  match items[position]? with
  | some found => read found
  | none => .ok absent

/-- Refuses items behind the fields of a record. -/
def atMost (count : Nat) (items : List Json) : Except Mismatch Unit :=
  if items.length ≤ count then .ok ()
  else
    .error (.wrongLength items.length
      (Nat.repr count ++ (if count = 1 then " element" else " elements") ++ " in sequence"))

/-- Reads a record from an object or an array. -/
def readRecord {α : Type} (expected : String)
    (fromEntries : List (String × Json) → Except Mismatch α)
    (fromItems : List Json → Except Mismatch α) : Json → Except Mismatch α
  | .object entries => fromEntries entries
  | .array items => fromItems items
  | found => .error (.wrongType found expected)

/-! ## Spans -/

/-- The fields of a span read so far. -/
structure SpanDraft where
  startLine : Option UInt32 := none
  startColumn : Option UInt32 := none
  endLine : Option UInt32 := none
  endColumn : Option UInt32 := none

/-- Takes one entry of an object. -/
def SpanDraft.take (draft : SpanDraft) (entry : String × Json) : Except Mismatch SpanDraft :=
  match entry.1 with
  | "startLine" => do
    return { draft with startLine := ← fill "startLine" draft.startLine readCount entry.2 }
  | "startCol" => do
    return { draft with startColumn := ← fill "startCol" draft.startColumn readCount entry.2 }
  | "endLine" => do
    return { draft with endLine := ← fill "endLine" draft.endLine readCount entry.2 }
  | "endCol" => do
    return { draft with endColumn := ← fill "endCol" draft.endColumn readCount entry.2 }
  | _ => .ok draft

/-- Reads a span. -/
def readSpan : Json → Except Mismatch Source.Span :=
  readRecord "struct WireSpan"
    (fun entries => do
      let draft ← entries.foldlM SpanDraft.take {}
      return {
        startLine := ← require "startLine" draft.startLine
        startColumn := ← require "startCol" draft.startColumn
        endLine := ← require "endLine" draft.endLine
        endColumn := ← require "endCol" draft.endColumn })
    (fun items => do
      let item (position : Nat) := itemAt "struct WireSpan with 4 elements" items position readCount
      let span : Source.Span :=
        { startLine := ← item 0
          startColumn := ← item 1
          endLine := ← item 2
          endColumn := ← item 3 }
      atMost 4 items
      return span)

/-! ## Terms -/

/-- The fields of a term read so far. -/
structure NodeDraft where
  id : Option Name := none
  label : Option String := none
  span : Option (Option Source.Span) := none

/-- Takes one entry of an object. -/
def NodeDraft.take (draft : NodeDraft) (entry : String × Json) : Except Mismatch NodeDraft :=
  match entry.1 with
  | "id" => do return { draft with id := ← fill "id" draft.id readName entry.2 }
  | "label" => do return { draft with label := ← fill "label" draft.label readText entry.2 }
  | "span" => do
    return { draft with span := ← fill "span" draft.span (readOptional readSpan) entry.2 }
  | _ => .ok draft

/-- Reads a term. -/
def readNode : Json → Except Mismatch Node :=
  readRecord "struct WireNode"
    (fun entries => do
      let draft ← entries.foldlM NodeDraft.take {}
      return {
        id := ← require "id" draft.id
        label := draft.label.getD ""
        span := draft.span.getD none })
    (fun items => do
      let node : Node :=
        { id := ← itemAt "struct WireNode with 3 elements" items 0 readName
          label := ← itemOr "" items 1 readText
          span := ← itemOr none items 2 (readOptional readSpan) }
      atMost 3 items
      return node)

/-! ## Edges -/

/-- The fields of an edge read so far. -/
structure ArrowDraft where
  source : Option Name := none
  target : Option Name := none
  label : Option String := none

/-- Takes one entry of an object. -/
def ArrowDraft.take (draft : ArrowDraft) (entry : String × Json) : Except Mismatch ArrowDraft :=
  match entry.1 with
  | "from" => do return { draft with source := ← fill "from" draft.source readName entry.2 }
  | "to" => do return { draft with target := ← fill "to" draft.target readName entry.2 }
  | "label" => do return { draft with label := ← fill "label" draft.label readText entry.2 }
  | _ => .ok draft

/-- Reads an edge. -/
def readArrow : Json → Except Mismatch Arrow :=
  readRecord "struct WireEdge"
    (fun entries => do
      let draft ← entries.foldlM ArrowDraft.take {}
      return {
        source := ← require "from" draft.source
        target := ← require "to" draft.target
        label := draft.label.getD "" })
    (fun items => do
      let arrow : Arrow :=
        { source := ← itemAt "struct WireEdge with 3 elements" items 0 readName
          target := ← itemAt "struct WireEdge with 3 elements" items 1 readName
          label := ← itemOr "" items 2 readText }
      atMost 3 items
      return arrow)

/-! ## Replies -/

/-- The fields of a reply read so far; each kind of reply uses some of them. -/
structure Draft where
  nodes : Option (List Node) := none
  edges : Option (List Arrow) := none
  root : Option Name := none
  value : Option Name := none
  stuck : Option (Option Name) := none
  bad : Option (Option Name) := none
  reason : Option String := none

/-- Takes one of the entries that replies with a graph share. -/
def Draft.takeShared (draft : Draft) (entry : String × Json) : Except Mismatch Draft :=
  match entry.1 with
  | "nodes" => do
    return { draft with nodes := ← fill "nodes" draft.nodes (readList readNode) entry.2 }
  | "edges" => do
    return { draft with edges := ← fill "edges" draft.edges (readList readArrow) entry.2 }
  | "root" => do return { draft with root := ← fill "root" draft.root readName entry.2 }
  | _ => .ok draft

/-- Takes one entry of a reply with a value. -/
def Draft.takeValue (draft : Draft) (entry : String × Json) : Except Mismatch Draft :=
  match entry.1 with
  | "value" => do return { draft with value := ← fill "value" draft.value readName entry.2 }
  | _ => draft.takeShared entry

/-- Takes one entry of a reply that is stuck. -/
def Draft.takeStuck (draft : Draft) (entry : String × Json) : Except Mismatch Draft :=
  match entry.1 with
  | "stuck" => do
    return { draft with stuck := ← fill "stuck" draft.stuck (readOptional readName) entry.2 }
  | "bad" => do
    return { draft with bad := ← fill "bad" draft.bad (readOptional readName) entry.2 }
  | "reason" => do return { draft with reason := ← fill "reason" draft.reason readText entry.2 }
  | _ => draft.takeShared entry

/-- Reads the fields of a reply with a value. -/
def readValueFields : Json → Except Mismatch Reply :=
  let expected := "struct variant CheckResponse::Value with 4 elements"
  readRecord expected
    (fun entries => do
      let draft ← entries.foldlM Draft.takeValue {}
      return .value (← require "nodes" draft.nodes) (← require "edges" draft.edges)
        (← require "root" draft.root) (← require "value" draft.value))
    (fun items => do
      let nodes ← itemAt expected items 0 (readList readNode)
      let edges ← itemAt expected items 1 (readList readArrow)
      let root ← itemAt expected items 2 readName
      let last ← itemAt expected items 3 readName
      atMost 4 items
      return .value nodes edges root last)

/-- Reads the fields of a reply that is stuck. -/
def readStuckFields : Json → Except Mismatch Reply :=
  let expected := "struct variant CheckResponse::Stuck with 6 elements"
  readRecord expected
    (fun entries => do
      let draft ← entries.foldlM Draft.takeStuck {}
      return .stuck (← require "nodes" draft.nodes) (← require "edges" draft.edges)
        (← require "root" draft.root) (draft.stuck.getD none) (draft.bad.getD none)
        (draft.reason.getD ""))
    (fun items => do
      let nodes ← itemAt expected items 0 (readList readNode)
      let edges ← itemAt expected items 1 (readList readArrow)
      let root ← itemAt expected items 2 readName
      let last ← itemOr none items 3 (readOptional readName)
      let bad ← itemOr none items 4 (readOptional readName)
      let reason ← itemOr "" items 5 readText
      atMost 6 items
      return .stuck nodes edges root last bad reason)

/-- Reads any value, in canonical form. -/
def readAny (found : Json) : Except Mismatch Json := .ok found.canonical

/-- Takes one entry of a timeout. -/
def takeTimeout (root : Option (Option Json)) (entry : String × Json) :
    Except Mismatch (Option (Option Json)) :=
  match entry.1 with
  | "root" => fill "root" root (readOptional readAny) entry.2
  | _ => .ok root

/-- Reads the fields of a timeout. -/
def readTimeoutFields : Json → Except Mismatch Reply :=
  readRecord "struct variant CheckResponse::Timeout with 1 element"
    (fun entries => do
      let root ← entries.foldlM takeTimeout none
      return .timeout (root.getD none))
    (fun items => do
      let root ← itemOr none items 0 (readOptional readAny)
      atMost 1 items
      return .timeout root)

/-- Takes one entry of a parse error. -/
def takeParseError (error : Option String) (entry : String × Json) :
    Except Mismatch (Option String) :=
  match entry.1 with
  | "error" => fill "error" error readText entry.2
  | _ => .ok error

/-- Reads the fields of a parse error. -/
def readParseErrorFields : Json → Except Mismatch Reply :=
  let expected := "struct variant CheckResponse::ParseError with 1 element"
  readRecord expected
    (fun entries => do
      let error ← entries.foldlM takeParseError none
      return .parseError (← require "error" error))
    (fun items => do
      let error ← itemAt expected items 0 readText
      atMost 1 items
      return .parseError error)

/-- Reads the fields of a reply of a kind. -/
def readFields : Kind → Json → Except Mismatch Reply
  | .value => readValueFields
  | .stuck => readStuckFields
  | .timeout => readTimeoutFields
  | .parseError => readParseErrorFields

end ReductionStepper.Reply
