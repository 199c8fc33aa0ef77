import Calculator.Json
import Calculator.Tree

/-! Trees as JSON documents: one object a node, with its place as the last field. -/

set_option autoImplicit false

namespace Calculator

def Location.toJson (l : Location) : Json :=
  .object [("line".toList, .literal (Text.ofNat l.line)),
    ("column".toList, .literal (Text.ofNat l.column))]

namespace Tree

mutual

/-- A tree as a document. Numbers that are not finite become null. -/
def toJson : Tree → Json
  | .number value l =>
    .object [("value".toList, .literal (Layout.dumped.write value)), ("location".toList, l.toJson)]
  | .identifier name l => .object [("name".toList, .string name), ("location".toList, l.toJson)]
  | .operation op left right l =>
    .object [("op".toList, .string op.spelling), ("left".toList, left.toJson),
      ("right".toList, right.toJson), ("location".toList, l.toJson)]
  | .assignment name right l =>
    .object [("name".toList, .string name), ("right".toList, right.toJson),
      ("location".toList, l.toJson)]
  | .program statements l =>
    .object [("statements".toList, .array (toJsonAll statements)), ("location".toList, l.toJson)]

def toJsonAll : List Tree → List Json
  | [] => []
  | t :: rest => t.toJson :: toJsonAll rest

end

end Tree

end Calculator
