import Calculator.Document

/-! Building tables by paths of keys. Missing tables on a path are made, and an array of tables
on it stands for its last table. -/

set_option autoImplicit false

namespace Calculator

abbrev Path := List Text

namespace Table

def find? (t : Table) (key : Text) : Option Value := t.lookup key

/-- Gives a key a value; a key that is there keeps its place. -/
def set (key : Text) (value : Value) : Table → Table
  | [] => [(key, value)]
  | (k, v) :: rest => if k = key then (k, value) :: rest else (k, v) :: set key value rest

/-- Changes the table at a path. Nothing is changed if a value that is no table stands in the
way; an array of tables is entered only if `arrays` says so. -/
def updateAt (arrays : Bool) : Path → (Table → Option Table) → Table → Option Table
  | [], change, t => change t
  | key :: path, change, t =>
    match Table.find? t key with
    | none => (updateAt arrays path change []).map fun inner => t.set key (.table inner)
    | some (.table inner) =>
      (updateAt arrays path change inner).map fun inner => t.set key (.table inner)
    | some (.array items) =>
      match arrays, items.getLast? with
      | true, some (.table inner) =>
        (updateAt arrays path change inner).map fun inner =>
          t.set key (.array (items.dropLast ++ [.table inner]))
      | _, _ => none
    | some _ => none

def addNew (key : Text) (value : Value) (t : Table) : Option Table :=
  match Table.find? t key with
  | none => some (t ++ [(key, value)])
  | some _ => none

def addElement (key : Text) (t : Table) : Option Table :=
  match Table.find? t key with
  | none => some (t ++ [(key, .array [.table []])])
  | some (.array items) => some (t.set key (.array (items ++ [.table []])))
  | some _ => none

end Table

/-- A document under construction. Tables with a heading of their own are declared once; inline
tables and arrays are frozen with all that is in them; what dotted keys pass through is declared
when the next heading comes. -/
structure TableBuilder where
  data : Table
  declared : List Path
  frozen : List Path
  pending : List Path
  heading : Path

namespace TableBuilder

def empty : TableBuilder := ⟨[], [], [], [], []⟩

def isFrozen (frozen : List Path) (path : Path) : Bool := frozen.any (·.isPrefixOf path)

def settle (b : TableBuilder) : TableBuilder :=
  { b with declared := b.pending ++ b.declared, pending := [] }

def openTable (b : TableBuilder) (path : Path) : Option TableBuilder :=
  if b.declared.contains path || isFrozen b.frozen path then none
  else (Table.updateAt true path some b.data).map fun data =>
    { b with data, declared := path :: b.declared, heading := path }

/-- Opens a further table of an array by its heading. Nothing in it has been declared yet. -/
def openElement (b : TableBuilder) (path : Path) : Option TableBuilder :=
  if isFrozen b.frozen path then none
  else match path.getLast? with
    | none => none
    | some key =>
      (Table.updateAt true path.dropLast (Table.addElement key) b.data).map fun data =>
        { b with
          data
          declared := path :: b.declared.filter fun p => !path.isPrefixOf p
          frozen := b.frozen.filter fun p => !path.isPrefixOf p
          heading := path }

def freezes : Value → Bool
  | .array _ => true
  | .table _ => true
  | _ => false

def store (b : TableBuilder) (key : Path) (value : Value) : Option TableBuilder :=
  let passed := (List.range (key.length - 1)).map fun n => b.heading ++ key.take (n + 1)
  let parent := b.heading ++ key.dropLast
  if passed.any b.declared.contains || isFrozen b.frozen parent then none
  else match key.getLast? with
    | none => none
    | some last =>
      (Table.updateAt true parent (Table.addNew last value) b.data).map fun data =>
        { b with
          data
          pending := passed ++ b.pending
          frozen := if freezes value then (b.heading ++ key) :: b.frozen else b.frozen }

end TableBuilder

structure InlineTable where
  data : Table
  frozen : List Path

namespace InlineTable

def store (t : InlineTable) (key : Path) (value : Value) : Option InlineTable :=
  if TableBuilder.isFrozen t.frozen key then none
  else match key.getLast? with
    | none => none
    | some last =>
      (Table.updateAt false key.dropLast (Table.addNew last value) t.data).map fun data =>
        ⟨data, if TableBuilder.freezes value then key :: t.frozen else t.frozen⟩

end InlineTable

end Calculator
