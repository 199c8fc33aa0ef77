import Calculator.Proofs.Respacing

/-! Derivations in another place. If a text stands inside another one, its tokens move by where it
starts, and so do the derivation and the tree that are made of them. -/

set_option autoImplicit false

namespace Calculator

namespace Tree

mutual

/-- A tree in a text that starts at `base`. -/
def shift (base : Location) : Tree → Tree
  | .number value l => .number value (base.shift l)
  | .identifier name l => .identifier name (base.shift l)
  | .operation op left right l => .operation op (left.shift base) (right.shift base) (base.shift l)
  | .assignment name right l => .assignment name (right.shift base) (base.shift l)
  | .program statements l => .program (shiftAll base statements) (base.shift l)

def shiftAll (base : Location) : List Tree → List Tree
  | [] => []
  | t :: rest => t.shift base :: shiftAll base rest

end

mutual

theorem unplaced_shift (base : Location) : (t : Tree) → (t.shift base).unplaced = t.unplaced
  | .number .. => rfl
  | .identifier .. => rfl
  | .operation op left right l => by
    rw [shift, unplaced, unplaced, unplaced_shift base left, unplaced_shift base right]
  | .assignment name right l => by
    rw [shift, unplaced, unplaced, unplaced_shift base right]
  | .program statements l => by
    rw [shift, unplaced, unplaced, unplacedAll_shiftAll base statements]

theorem unplacedAll_shiftAll (base : Location) :
    (ts : List Tree) → unplacedAll (shiftAll base ts) = unplacedAll ts
  | [] => rfl
  | t :: rest => by
    rw [shiftAll, unplacedAll, unplacedAll, unplaced_shift base t, unplacedAll_shiftAll base rest]

end

end Tree

theorem Token.Sound.place_shift {t : Token} (h : t.Sound) (base : Location) :
    (t.shift base).place = base.shift t.place := by
  obtain ⟨line, hline⟩ := Int.eq_ofNat_of_zero_le h.line
  obtain ⟨column, hcolumn⟩ := Int.eq_ofNat_of_zero_le h.column
  have hplace : t.place = ⟨line, column⟩ := by
    rw [place, hline, hcolumn]
    rfl
  rw [hplace, place, Token.shift, Location.shift, hline, hcolumn]
  simp only [Int.natCast_eq_zero, Location.mk.injEq]
  constructor
  · omega
  · split <;> omega

namespace Phrase

def shift (base : Location) : {level : Level} → Phrase level → Phrase level
  | _, .number t isNumber => .number (t.shift base) isNumber
  | _, .identifier t isIdentifier => .identifier (t.shift base) isIdentifier
  | _, .enclosed opening inner closing opens closes =>
    .enclosed (opening.shift base) (inner.shift base) (closing.shift base) opens closes
  | _, .one operand => .one (operand.shift base)
  | _, .two left sign right op isSign =>
    .two (left.shift base) (sign.shift base) (right.shift base) op isSign

variable {level : Level} (base : Location)

theorem shift_tokens (p : Phrase level) :
    (p.shift base).tokens = p.tokens.map (Token.shift base) := by
  induction p with
  | number | identifier => rfl
  | enclosed opening inner closing ho hc ih => simp [shift, tokens, ih]
  | one operand ih => exact ih
  | two left sign right op isSign ihl ihr => simp [shift, tokens, ihl, ihr]

theorem shift_depth (p : Phrase level) : (p.shift base).depth = p.depth := by
  induction p with
  | number | identifier => rfl
  | enclosed opening inner closing ho hc ih => simp only [shift, depth, ih]
  | one operand ih => exact ih
  | two left sign right op isSign ihl ihr => simp only [shift, depth, ihl, ihr]

theorem shift_tree (p : Phrase level) (hs : ∀ t ∈ p.tokens, t.Sound) :
    (p.shift base).tree = p.tree.shift base := by
  induction p with
  | number t ht | identifier t ht =>
    have hplace := (hs t (List.mem_singleton_self t)).place_shift base
    simp only [shift, tree, Tree.shift, hplace]
    rfl
  | enclosed opening inner closing ho hc ih =>
    apply ih
    intro t ht
    exact hs t (List.mem_cons_of_mem _ (List.mem_append_left _ ht))
  | one operand ih => exact ih hs
  | two left sign right op isSign ihl ihr =>
    obtain ⟨hl, hsign, hr⟩ : (∀ t ∈ left.tokens, t.Sound) ∧ sign.Sound ∧
        ∀ t ∈ right.tokens, t.Sound := by
      simpa only [tokens, List.forall_mem_append, List.forall_mem_cons] using hs
    simp only [shift, tree, Tree.shift, ihl hl, ihr hr, hsign.place_shift]

end Phrase

end Calculator
