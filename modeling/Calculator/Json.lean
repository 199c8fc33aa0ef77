import Calculator.Text

/-! A small model of JSON documents and their two written forms: compact, and indented by two
blanks with one item on a line. Numbers are already in digits. -/

set_option autoImplicit false

namespace Calculator

/-- A JSON document. A `literal` is a number or a null that is written as it stands. -/
inductive Json
  | literal (text : Text)
  | string (text : Text)
  | array (items : List Json)
  | object (fields : List (Text × Json))

namespace Json

def escape (c : Char) : Text :=
  if c == '"' || c == '\\' then ['\\', c]
  else if c == '\n' then ['\\', 'n']
  else if c == '\r' then ['\\', 'r']
  else if c == '\t' then ['\\', 't']
  else if c == '\x08' then ['\\', 'b']
  else if c == '\x0c' then ['\\', 'f']
  else if c.toNat < 0x20 then '\\' :: 'u' :: Text.hex 4 c.toNat
  else [c]

def quote (t : Text) : Text := '"' :: t.flatMap escape ++ ['"']

mutual

def compact : Json → Text
  | .literal text => text
  | .string text => quote text
  | .array items => '[' :: Text.join [','] (compactItems items) ++ [']']
  | .object fields => '\x7b' :: Text.join [','] (compactFields fields) ++ ['\x7d']

def compactItems : List Json → List Text
  | [] => []
  | j :: rest => j.compact :: compactItems rest

def compactFields : List (Text × Json) → List Text
  | [] => []
  | (name, j) :: rest => (quote name ++ ':' :: j.compact) :: compactFields rest

end

/-- Items on lines of their own between two brackets, one level deeper than the brackets. -/
def block (opening closing : Char) (depth : Nat) (items : List Text) : Text :=
  if items.isEmpty then [opening, closing]
  else
    let line := '\n' :: List.replicate (2 * (depth + 1)) ' '
    opening :: line ++ Text.join (',' :: line) items ++
      '\n' :: List.replicate (2 * depth) ' ' ++ [closing]

mutual

def indented (depth : Nat) : Json → Text
  | .literal text => text
  | .string text => quote text
  | .array items => block '[' ']' depth (indentedItems (depth + 1) items)
  | .object fields => block '\x7b' '\x7d' depth (indentedFields (depth + 1) fields)

def indentedItems (depth : Nat) : List Json → List Text
  | [] => []
  | j :: rest => j.indented depth :: indentedItems depth rest

def indentedFields (depth : Nat) : List (Text × Json) → List Text
  | [] => []
  | (name, j) :: rest =>
    (quote name ++ ": ".toList ++ j.indented depth) :: indentedFields depth rest

end

end Json

end Calculator
