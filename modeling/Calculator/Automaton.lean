import Calculator.Text
import Calculator.Text.Quoted

/-! Deterministic automata over characters. A run follows the transitions as far as they are
defined; what was read is the match, provided the run ends in an accepting state. -/

set_option autoImplicit false

namespace Calculator

/-- An automaton with partial transitions. The initial state and the accepting states are among
its states. -/
structure Automaton (σ : Type) where
  states : List σ
  initial : σ
  accepting : List σ
  next : σ → Char → Option σ
  initial_mem : initial ∈ states
  accepting_subset : ∀ s ∈ accepting, s ∈ states

namespace Automaton

variable {σ : Type}

def walk (next : σ → Char → Option σ) : σ → Text → Text × σ
  | s, [] => ([], s)
  | s, c :: rest =>
    match next s c with
    | none => ([], s)
    | some s' => let w := walk next s' rest; (c :: w.1, w.2)

theorem walk_fst_isPrefix (next : σ → Char → Option σ) (s : σ) (input : Text) :
    (walk next s input).1 <+: input := by
  induction input generalizing s with
  | nil => exact List.prefix_rfl
  | cons c rest ih =>
    rw [walk]
    split
    · exact List.nil_prefix
    · exact (List.prefix_cons_inj c).mpr (ih _)

/-- The match of a run: the longest prefix with defined transitions, if its last state accepts. -/
def run [DecidableEq σ] (a : Automaton σ) (input : Text) : Option Text :=
  let w := walk a.next a.initial input
  if w.2 ∈ a.accepting then some w.1 else none

/-- The states entered character by character, ending with nothing where no transition is
defined. -/
def trace (next : σ → Char → Option σ) : σ → Text → List (Option σ)
  | _, [] => []
  | s, c :: rest =>
    match next s c with
    | none => [none]
    | some s' => some s' :: trace next s' rest

inductive Defect (σ : Type)
  | initial (state : σ)
  | accepting (states : List σ)

def build [DecidableEq σ] (states : List σ) (initial : σ) (accepting : List σ)
    (next : σ → Char → Option σ) : Except (Defect σ) (Automaton σ) :=
  if hi : initial ∈ states then
    if ha : ∀ s ∈ accepting, s ∈ states then
      .ok ⟨states, initial, accepting, next, hi, ha⟩
    else .error (.accepting (accepting.filter (· ∉ states)))
  else .error (.initial initial)

end Automaton

inductive Label
  | name (text : Text)
  | number (value : Int)
  deriving DecidableEq, Repr

namespace Label

def text : Label → Text
  | .name t => Text.quoted t
  | .number n => Text.ofInt n

end Label

namespace Automaton

def textLE : Text → Text → Bool
  | [], _ => true
  | _ :: _, [] => false
  | c :: s, d :: t => c < d || (c == d && textLE s t)

/-- What is wrong with a description, in words. Foreign accepting states are named once each, in
the order of their texts. -/
def Defect.message : Defect Label → Text
  | .initial s => "Initial state ".toList ++ s.text ++ " is not a state of this FSM".toList
  | .accepting states =>
    let names := (states.eraseDups.map Label.text).mergeSort textLE
    "Accepting states [".toList ++ Text.join ", ".toList (names.map Text.quoted) ++
      "] are not states".toList

def text (a : Automaton Label) : Text :=
  "FSM(initial=".toList ++ a.initial.text ++ ", states=".toList ++
    Text.ofNat a.states.eraseDups.length ++ [')']

/-- Transitions from a table: the first row of the state that holds the character decides. -/
def tableNext (rows : List (Label × Text × Label)) (s : Label) (c : Char) : Option Label :=
  (rows.find? fun (source, characters, _) => source == s && characters.contains c).map (·.2.2)

end Automaton

end Calculator
