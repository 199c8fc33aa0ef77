import Calculator.Text

/-! Symbol tables: names bound to numbers, in the order in which the names were first bound. -/

set_option autoImplicit false

namespace Calculator

structure Symbols where
  entries : List (Text × Float)

namespace Symbols

def findEntry (name : Text) : List (Text × Float) → Option Float
  | [] => none
  | (n, v) :: rest => if n = name then some v else findEntry name rest

def find? (s : Symbols) (name : Text) : Option Float := findEntry name s.entries

/-- Binds a name in a list of entries; a bound name keeps its place. -/
def bindEntry (name : Text) (value : Float) : List (Text × Float) → List (Text × Float)
  | [] => [(name, value)]
  | (n, v) :: rest =>
    if n = name then (n, value) :: rest else (n, v) :: bindEntry name value rest

def bind (s : Symbols) (name : Text) (value : Float) : Symbols := ⟨bindEntry name value s.entries⟩

theorem findEntry_bindEntry (name key : Text) (value : Float) (entries : List (Text × Float)) :
    findEntry key (bindEntry name value entries) =
      if name = key then some value else findEntry key entries := by
  induction entries with
  | nil => rfl
  | cons entry rest ih =>
    obtain ⟨n, v⟩ := entry
    by_cases hn : n = name <;> by_cases hk : n = key <;>
      simp_all [bindEntry, findEntry, eq_comm]

theorem find?_bind (s : Symbols) (name key : Text) (value : Float) :
    (s.bind name value).find? key = if name = key then some value else s.find? key :=
  findEntry_bindEntry name key value s.entries

def pi : Float := Float.ofBits 0x400921fb54442d18

def builtin : Symbols := ⟨[(['P', 'I'], pi)]⟩

/-- The starting table with further constants, which may rebind its names. -/
def withConstants (constants : List (Text × Float)) : Symbols :=
  constants.foldl (fun s (name, value) => s.bind name value) builtin

end Symbols

end Calculator
