import ReductionStepper.Evaluator.Reply
import ReductionStepper.Json.Writer

/-!
# Writing replies

A reply is written as a JSON object: first the word for its kind under `result`, then its fields in
their order. A field without a value is left out.
-/

namespace ReductionStepper.Reply

/-- A 32-bit number in JSON. -/
def encodeCount (n : UInt32) : Json := .number (.natural n.toUInt64)

/-- A span in JSON. -/
def encodeSpan (span : Source.Span) : Json :=
  .object
    [("startLine", encodeCount span.startLine), ("startCol", encodeCount span.startColumn),
      ("endLine", encodeCount span.endLine), ("endCol", encodeCount span.endColumn)]

/-- A name in JSON. -/
def Name.encode : Name → Json
  | .number n => .number (.natural n)
  | .text content => .string content

/-- A field that may have no value. -/
def optionalField {α : Type} (name : String) (encode : α → Json) :
    Option α → List (String × Json)
  | none => []
  | some x => [(name, encode x)]

/-- A term in JSON. -/
def Node.encode (node : Node) : Json :=
  .object
    ([("id", node.id.encode), ("label", .string node.label)] ++
      optionalField "span" encodeSpan node.span)

/-- An edge in JSON. -/
def Arrow.encode (arrow : Arrow) : Json :=
  .object
    [("from", arrow.source.encode), ("to", arrow.target.encode), ("label", .string arrow.label)]

/-- The fields of a reply without its kind. -/
def encodeFields : Reply → List (String × Json)
  | .value nodes edges root last =>
    [("nodes", .array (nodes.map Node.encode)), ("edges", .array (edges.map Arrow.encode)),
      ("root", root.encode), ("value", last.encode)]
  | .stuck nodes edges root last bad reason =>
    [("nodes", .array (nodes.map Node.encode)), ("edges", .array (edges.map Arrow.encode)),
      ("root", root.encode)] ++ optionalField "stuck" Name.encode last ++
      optionalField "bad" Name.encode bad ++ [("reason", .string reason)]
  | .timeout root => optionalField "root" id root
  | .parseError error => [("error", .string error)]

/-- A reply in JSON. -/
def encode (reply : Reply) : Json :=
  .object (("result", .string reply.kind.word) :: reply.encodeFields)

/-- A reply as compact JSON text. -/
def text (reply : Reply) : String := reply.encode.compact

end ReductionStepper.Reply
