import Mathlib
import Calculator.Document

/-! What can be shown. A value can be shown if it nests no deeper than there is room and holds no
long integer. What is found in the way is one of the two. -/

set_option autoImplicit false

namespace Calculator.Value

mutual

/-- How deep a value nests. A value without parts nests one deep. -/
def nesting : Value → Nat
  | .array items => nestingItems items + 1
  | .table fields => nestingFields fields + 1
  | _ => 1

def nestingItems : List Value → Nat
  | [] => 0
  | v :: rest => max v.nesting (nestingItems rest)

def nestingFields : List (Text × Value) → Nat
  | [] => 0
  | (_, v) :: rest => max v.nesting (nestingFields rest)

end

mutual

def integers : Value → List Int
  | .integer n => [n]
  | .array items => integersItems items
  | .table fields => integersFields fields
  | _ => []

def integersItems : List Value → List Int
  | [] => []
  | v :: rest => v.integers ++ integersItems rest

def integersFields : List (Text × Value) → List Int
  | [] => []
  | (_, v) :: rest => v.integers ++ integersFields rest

end

/-- What an obstacle, or none, says of something that nests so deep and holds these integers. -/
inductive Explains (room nesting : Nat) (integers : List Int) : Option Obstacle → Prop
  | clear : nesting ≤ room → (∀ n ∈ integers, isLong n = false) →
      Explains room nesting integers none
  | tooDeep : room < nesting → Explains room nesting integers (some .tooDeep)
  | longInteger (n : Int) : n ∈ integers → isLong n → Explains room nesting integers (some .longInteger)

namespace Explains

variable {room k k' : Nat} {ns ns' : List Int} {o o' : Option Obstacle}

theorem nothing (room : Nat) : Explains room 0 [] none :=
  .clear (Nat.zero_le room) (List.forall_mem_nil _)

/-- The first of two obstacles counts. -/
theorem or (h : Explains room k ns o) (h' : Explains room k' ns' o') :
    Explains room (max k k') (ns ++ ns') (o.or o') := by
  cases h with
  | clear hk hns =>
    cases h' with
    | clear hk' hns' =>
      exact .clear (Nat.max_le.mpr ⟨hk, hk'⟩) (List.forall_mem_append.mpr ⟨hns, hns'⟩)
    | tooDeep hk' => exact .tooDeep (Nat.lt_of_lt_of_le hk' (Nat.le_max_right k k'))
    | longInteger n hn hlong => exact .longInteger n (List.mem_append_right ns hn) hlong
  | tooDeep hk => exact .tooDeep (Nat.lt_of_lt_of_le hk (Nat.le_max_left k k'))
  | longInteger n hn hlong => exact .longInteger n (List.mem_append_left ns' hn) hlong

/-- Around something there has to be room for one more. -/
theorem around (h : Explains (room - 1) k ns o) :
    Explains room (k + 1) ns (if room = 0 then some .tooDeep else o) := by
  by_cases hroom : room = 0
  · rw [if_pos hroom, hroom]
    exact .tooDeep (Nat.succ_pos k)
  · rw [if_neg hroom]
    cases h with
    | clear hk hns => exact .clear (by omega) hns
    | tooDeep hk => exact .tooDeep (by omega)
    | longInteger n hn hlong => exact .longInteger n hn hlong

theorem integer (room : Nat) (n : Int) :
    Explains room 0 [n] (if isLong n then some .longInteger else none) := by
  cases hlong : isLong n with
  | true => exact .longInteger n (List.mem_singleton_self n) hlong
  | false => exact .clear (Nat.zero_le room) (List.forall_mem_singleton.mpr hlong)

end Explains

mutual

/-- What is found in the way of showing a value is in the value. -/
theorem explains_obstacle? (room : Nat) : (v : Value) →
    Explains room v.nesting v.integers (v.obstacle? room)
  | .integer n => (Explains.integer (room - 1) n).around
  | .array items => (explains_itemsObstacle? (room - 1) items).around
  | .table fields => (explains_fieldsObstacle? (room - 1) fields).around
  | .text _ | .float _ | .boolean _ | .date _ | .clock _ | .moment _ _ _ =>
    (Explains.nothing (room - 1)).around

theorem explains_itemsObstacle? (room : Nat) : (items : List Value) →
    Explains room (nestingItems items) (integersItems items) (itemsObstacle? room items)
  | [] => .nothing room
  | v :: rest => (explains_obstacle? room v).or (explains_itemsObstacle? room rest)

theorem explains_fieldsObstacle? (room : Nat) : (fields : List (Text × Value)) →
    Explains room (nestingFields fields) (integersFields fields) (fieldsObstacle? room fields)
  | [] => .nothing room
  | (_, v) :: rest => (explains_obstacle? room v).or (explains_fieldsObstacle? room rest)

end

end Calculator.Value
