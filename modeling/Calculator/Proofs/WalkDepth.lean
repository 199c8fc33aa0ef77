import Calculator.Evaluation
import Calculator.Proofs.OperatorValue
import Calculator.Proofs.Program

/-! How deep evaluation walks. A limit that reaches the height of a tree changes nothing, and the
trees of statements are not high: each level of parentheses adds at most three operations to a
path. -/

set_option autoImplicit false

namespace Calculator

namespace Tree

def isOperation : Tree → Bool
  | .operation .. => true
  | _ => false

def children : Tree → List Tree
  | .number .. => []
  | .identifier .. => []
  | .operation _ left right _ => [left, right]
  | .assignment _ right _ => [right]
  | .program statements _ => statements

/-- The nodes on a way down from a node, that node left out. -/
inductive Path : Tree → List Tree → Prop
  | nil {t : Tree} : Path t []
  | cons {t child : Tree} {path : List Tree} : child ∈ t.children → Path child path →
      Path t (child :: path)

section Steps
variable (op : Operator) (left right : Tree) (name : Text) (l : Location) (symbols : Symbols)
  (limit : Nat)

theorem evaluate_zero (t : Tree) : t.evaluate 0 symbols = .error .tooDeep symbols := by
  cases t <;> rfl

theorem evaluate_identifier : (identifier name l).evaluate (limit + 1) symbols =
    match symbols.find? name with
    | some value => .ok value symbols
    | none => .error (.error (.symbolNotFound name l)) symbols := by
  change (match symbols.find? name with
    | some value => pure value
    | none => throw (.error (.symbolNotFound name l)) : Evaluation EvalFailure Float) symbols = _
  cases symbols.find? name <;> rfl

theorem evaluate_operation : (operation op left right l).evaluate (limit + 1) symbols =
    match left.evaluate limit symbols with
    | .error e symbols' => .error e symbols'
    | .ok x symbols' =>
      match right.evaluate limit symbols' with
      | .error e symbols'' => .error e symbols''
      | .ok y symbols'' =>
        match op.value x y with
        | .ok value => .ok value symbols''
        | .error fault => .error (.error (fault.error op)) symbols'' := by
  rw [evaluate, bind_eq]
  cases left.evaluate limit symbols with
  | error e symbols' => rfl
  | ok x symbols' =>
    simp only
    rw [bind_eq]
    cases right.evaluate limit symbols' with
    | error e symbols'' => rfl
    | ok y symbols'' =>
      simp only
      cases op.value x y <;> rfl

theorem evaluate_assignment : (assignment name right l).evaluate (limit + 1) symbols =
    match right.evaluate limit symbols with
    | .error e symbols' => .error e symbols'
    | .ok value symbols' => .ok value (symbols'.bind name value) := by
  rw [evaluate, bind_eq]
  cases right.evaluate limit symbols <;> rfl

end Steps

theorem height_pos (t : Tree) : 0 < t.height := by
  cases t <;> simp [height]

theorem height_le_heightAll {t : Tree} {ts : List Tree} (h : t ∈ ts) : t.height ≤ heightAll ts := by
  induction ts with
  | nil => cases h
  | cons u ts ih =>
    rw [heightAll]
    rcases List.mem_cons.mp h with rfl | h
    · omega
    · have := ih h
      omega

theorem height_lt_of_child {t child : Tree} (h : child ∈ t.children) : child.height < t.height := by
  cases t with
  | number => cases h
  | identifier => cases h
  | operation op left right l =>
    rw [height]
    rcases List.mem_cons.mp h with rfl | h
    · omega
    · rw [List.mem_singleton.mp h]
      omega
  | assignment name right l =>
    rw [List.mem_singleton.mp h, height]
    omega
  | program statements l =>
    have hall : child.height ≤ heightAll statements := height_le_heightAll h
    rw [height]
    omega

theorem Path.length_lt {t : Tree} {path : List Tree} (h : Path t path) : path.length < t.height := by
  induction h with
  | nil => exact height_pos _
  | cons hc _ ih =>
    have := height_lt_of_child hc
    rw [List.length_cons]
    omega

/-- The operations on a path: below the last one there is still a node. -/
theorem Path.countP_lt {t : Tree} {path : List Tree} (h : Path t path) :
    (t :: path).countP isOperation < t.height := by
  induction h with
  | @nil t =>
    cases t with
    | operation op left right l =>
      have := left.height_pos
      rw [List.countP_cons_of_pos rfl, List.countP_nil, height]
      omega
    | _ => simp [isOperation, height]
  | @cons t child path hc _ ih =>
    have := height_lt_of_child hc
    rw [List.countP_cons]
    split <;> omega

/-- A limit that reaches the height of a tree changes nothing. -/
theorem evaluate_eq_of_height_le : (t : Tree) → {limit limit' : Nat} → t.height ≤ limit →
    t.height ≤ limit' → t.evaluate limit = t.evaluate limit'
  | .number value l, limit + 1, limit' + 1, _, _ => rfl
  | .identifier name l, limit + 1, limit' + 1, _, _ => rfl
  | .operation op left right l, limit + 1, limit' + 1, h, h' => by
    rw [height] at h h'
    rw [evaluate, evaluate, evaluate_eq_of_height_le left (by omega : left.height ≤ limit)
      (by omega : left.height ≤ limit'), evaluate_eq_of_height_le right
      (by omega : right.height ≤ limit) (by omega : right.height ≤ limit')]
  | .assignment name right l, limit + 1, limit' + 1, h, h' => by
    rw [height] at h h'
    rw [evaluate, evaluate, evaluate_eq_of_height_le right (by omega : right.height ≤ limit)
      (by omega : right.height ≤ limit')]
  | .program statements l, limit + 1, limit' + 1, _, _ => rfl
  | t, 0, _, h, _ => absurd h (Nat.not_le.mpr t.height_pos)
  | t, _ + 1, 0, _, h => absurd h (Nat.not_le.mpr t.height_pos)

end Tree

structure Token.Unbound (t : Token) (symbols : Symbols) : Prop where
  kind : t.kind = .identifier
  find? : symbols.find? t.lexeme = none

namespace Phrase

variable {level : Level}

/-- Parentheses add at most three operations to a path. -/
theorem height_tree_le (p : Phrase level) : p.tree.height ≤ 3 * p.depth + level.rank + 1 := by
  -- a level adds one operation to its operands, and parentheses start again at the top
  induction p with
  | number | identifier => simp [tree, depth, Tree.height, Level.rank]
  | enclosed opening inner closing ho hc ih =>
    have hr : (Level.tier .comparison).rank = 3 := rfl
    rw [tree, depth]
    omega
  | @one tier operand ih =>
    have hr := tier.rank_eq
    rw [tree, depth, Level.rank]
    omega
  | @two tier left sign right op isSign ihl ihr =>
    have hr := tier.rank_eq
    rw [tree, depth, Level.rank, Tree.height]
    omega

/-- The tree of a phrase has a value, or a name in it is not bound; no name gets bound. -/
theorem evaluate_tree (p : Phrase level) {limit : Nat} (h : p.tree.height ≤ limit)
    (symbols : Symbols) : (∃ value, p.tree.evaluate limit symbols = .ok value symbols) ∨
      ∃ t ∈ p.tokens, t.Unbound symbols ∧ p.tree.evaluate limit symbols =
        .error (.error (.symbolNotFound t.lexeme t.place)) symbols := by
  -- a limit is never reached, and every operator of the grammar has a value
  induction p generalizing limit with
  | number t ht =>
    cases limit with
    | zero => cases h
    | succ limit => exact Or.inl ⟨t.value, rfl⟩
  | identifier t ht =>
    cases limit with
    | zero => cases h
    | succ limit =>
      rw [tree, Tree.evaluate_identifier]
      cases hfind : symbols.find? t.lexeme with
      | some value => exact Or.inl ⟨value, rfl⟩
      | none => exact Or.inr ⟨t, List.mem_singleton_self t, ⟨ht, hfind⟩, rfl⟩
  | enclosed opening inner closing ho hc ih =>
    rcases ih h with hvalue | ⟨t, hm, ht, he⟩
    · exact Or.inl hvalue
    · refine Or.inr ⟨t, ?_, ht, he⟩
      exact List.mem_cons_of_mem opening (List.mem_append_left [closing] hm)
  | one operand ih => exact ih h
  | two left sign right op isSign ihl ihr =>
    rw [tree, Tree.height] at h
    cases limit with
    | zero => omega
    | succ limit =>
      rw [tree, Tree.evaluate]
      rcases ihl (by omega : left.tree.height ≤ limit) with ⟨x, hx⟩ | ⟨t, hm, ht, he⟩
      · rcases ihr (by omega : right.tree.height ≤ limit) with ⟨y, hy⟩ | ⟨t, hm, ht, he⟩
        · obtain ⟨z, hz⟩ := Operator.value_of_known (Tier.known_of_table isSign) x y
          refine Or.inl ⟨z, ?_⟩
          rw [bind_ok hx, bind_ok hy, hz]
          rfl
        · refine Or.inr ⟨t, ?_, ht, by rw [bind_ok hx, bind_error he]⟩
          exact List.mem_append_right left.tokens (List.mem_cons_of_mem sign hm)
      · exact Or.inr ⟨t, List.mem_append_left (sign :: right.tokens) hm, ht, bind_error he⟩

end Phrase

def Symbols.bindTarget (symbols : Symbols) (target : Option Text) (value : Float) : Symbols :=
  match target with
  | none => symbols
  | some name => symbols.bind name value

namespace Sentence

theorem height_tree_le (s : Sentence) : s.tree.height ≤ 3 * s.depth + 5 := by
  cases s with
  | assignment target equals right =>
    have h : right.tree.height ≤ 3 * right.depth + 4 := right.height_tree_le
    rw [tree, depth, Tree.height]
    omega
  | comparison phrase =>
    have h : phrase.tree.height ≤ 3 * phrase.depth + 4 := phrase.height_tree_le
    rw [tree, depth]
    omega

theorem countP_le (s : Sentence) {path : List Tree} (h : s.tree.Path path) :
    (s.tree :: path).countP Tree.isOperation ≤ 3 * s.depth + 3 := by
  cases s with
  | assignment target equals right =>
    have hright : right.tree.height ≤ 3 * right.depth + 4 := right.height_tree_le
    rw [tree] at h ⊢
    rw [depth]
    cases h with
    | nil => simp [Tree.isOperation]
    | cons hc hpath =>
      obtain rfl := List.mem_singleton.mp hc
      have hcount := hpath.countP_lt
      rw [List.countP_cons_of_neg (by simp [Tree.isOperation])]
      omega
  | comparison phrase =>
    have hphrase : phrase.tree.height ≤ 3 * phrase.depth + 4 := phrase.height_tree_le
    have hcount := h.countP_lt
    rw [tree] at h hcount ⊢
    rw [depth]
    omega

def target? : Sentence → Option Text
  | .assignment target _ _ _ _ => some target.lexeme
  | .comparison _ => none

/-- A statement within the limit has a value, which is bound to its target if it has one; or a
name in it is not bound, and then nothing gets bound. -/
theorem evaluate_tree (s : Sentence) {limit : Nat} (h : s.tree.height ≤ limit)
    (symbols : Symbols) :
    (∃ value, s.tree.evaluateStatement limit symbols =
      .ok value (symbols.bindTarget s.target? value)) ∨
      ∃ t ∈ s.tokens, t.Unbound symbols ∧ s.tree.evaluateStatement limit symbols =
        .error (.symbolNotFound t.lexeme t.place) symbols := by
  cases s with
  | assignment target equals right =>
    rw [tree, Tree.height] at h
    cases limit with
    | zero => omega
    | succ limit =>
      rw [tree, Tree.evaluateStatement, Tree.evaluate]
      rcases right.evaluate_tree (by omega : right.tree.height ≤ limit) symbols with
        ⟨value, hv⟩ | ⟨t, hm, ht, he⟩
      · rw [bind_ok hv]
        exact Or.inl ⟨value, rfl⟩
      · rw [bind_error he]
        refine Or.inr ⟨t, ?_, ht, rfl⟩
        exact List.mem_cons_of_mem target (List.mem_cons_of_mem equals hm)
  | comparison phrase =>
    rw [tree, Tree.evaluateStatement]
    rcases phrase.evaluate_tree h symbols with ⟨value, hv⟩ | ⟨t, hm, ht, he⟩
    · rw [hv]
      exact Or.inl ⟨value, rfl⟩
    · rw [he]
      exact Or.inr ⟨t, hm, ht, rfl⟩

end Sentence

end Calculator
