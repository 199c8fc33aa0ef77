import Calculator.Proofs.Descent

/-! The depth of a cursor counts the parentheses that are open. A rule of the grammar passes tokens
one by one, and each time the depth changes with the parentheses passed, also where the rule fails
half way: nothing comes between a parenthesis and its count that could fail. So a parser can be used
again after an error, and its cursor never leaves the tokens nor the limit on nesting. -/

set_option autoImplicit false

namespace Calculator

open Calculator.Parser

namespace Token

/-- What a token adds to the number of open parentheses. -/
def opening (t : Token) : Int :=
  match t.kind with
  | .leftParen => 1
  | .rightParen => -1
  | _ => 0

theorem opening_of_ne {t : Token} (hl : t.kind ≠ .leftParen) (hr : t.kind ≠ .rightParen) :
    t.opening = 0 := by
  rw [opening]
  split
  · rename_i h
    exact absurd h hl
  · rename_i h
    exact absurd h hr
  · rfl

theorem kind_of_opening {t : Token} (h : t.opening ≠ 0) :
    t.kind = .leftParen ∨ t.kind = .rightParen := by
  by_contra hk
  rw [not_or] at hk
  exact h (opening_of_ne hk.1 hk.2)

end Token

def balance (ts : List Token) : Int :=
  ((ts.map Token.kind).count .leftParen : Int) - (ts.map Token.kind).count .rightParen

theorem balance_append (ts us : List Token) : balance (ts ++ us) = balance ts + balance us := by
  simp only [balance, List.map_append, List.count_append]
  omega

theorem balance_singleton (t : Token) : balance [t] = t.opening := by
  obtain ⟨kind, lexeme, line, column⟩ := t
  cases kind <;> rfl

namespace Cursor

/-- The open parentheses that were not counted on the tokens passed. -/
def surplus (c : Cursor) : Int := c.depth - balance (c.tokens.take c.position)

/-- One cursor is reached from another by passing tokens and counting their parentheses. -/
structure InStep (c c' : Cursor) : Prop where
  tokens : c'.tokens = c.tokens
  position_le : c.position ≤ c'.position
  within : c.position ≤ c.tokens.length → c'.position ≤ c.tokens.length
  surplus : c'.surplus = c.surplus

namespace InStep

variable {c c' c'' : Cursor} {t : Token} {d : Nat}

theorem refl (c : Cursor) : c.InStep c := ⟨rfl, Nat.le_refl _, id, rfl⟩

theorem trans (h : c.InStep c') (h' : c'.InStep c'') : c.InStep c'' := by
  refine ⟨h'.tokens.trans h.tokens, Nat.le_trans h.position_le h'.position_le, ?_,
    h'.surplus.trans h.surplus⟩
  intro hc
  have hwithin := h'.within
  rw [h.tokens] at hwithin
  exact hwithin (h.within hc)

/-- A token is passed and counted. -/
theorem pass (ht : c.tokens[c.position]? = some t) (hd : (d : Int) = c.depth + t.opening) :
    c.InStep ⟨c.tokens, c.position + 1, d⟩ := by
  have hlt : c.position < c.tokens.length := (List.getElem?_eq_some_iff.mp ht).1
  refine ⟨rfl, Nat.le_succ _, fun _ => hlt, ?_⟩
  have hbalance : balance (c.tokens.take (c.position + 1)) =
      balance (c.tokens.take c.position) + t.opening := by
    rw [List.take_add_one, ht, Option.toList_some, balance_append, balance_singleton]
  change (d : Int) - balance (c.tokens.take (c.position + 1)) =
    c.depth - balance (c.tokens.take c.position)
  omega

/-- The depth changes with the parentheses between the two positions. -/
theorem depth_sub (h : c.InStep c') : (c'.depth : Int) - c.depth =
    balance ((c.tokens.take c'.position).drop c.position) := by
  have hsplit : c.tokens.take c'.position =
      c.tokens.take c.position ++ (c.tokens.take c'.position).drop c.position := by
    have hpart := List.take_append_drop c.position (c.tokens.take c'.position)
    rw [List.take_take, Nat.min_eq_left h.position_le] at hpart
    exact hpart.symm
  have hsurplus := h.surplus
  rw [Cursor.surplus, Cursor.surplus, h.tokens] at hsurplus
  have hbalance := congrArg balance hsplit
  rw [balance_append] at hbalance
  omega

end InStep

end Cursor

open Cursor (InStep)

/-- A parser has ended in step with the tokens, with at most `room` parentheses more open than
before. With a value it has closed what it opened. -/
inductive Kept {α : Type} (room : Nat) (c : Cursor) :
    EStateM.Result ParseFailure Cursor α → Prop
  | ok {c' : Cursor} (a : α) : c.InStep c' → c'.depth = c.depth → Kept room c (.ok a c')
  | error {c' : Cursor} (e : ParseFailure) : c.InStep c' → c'.depth ≤ c.depth + room →
      Kept room c (.error e c')

namespace Kept

variable {α β : Type} {room : Nat} {c c' : Cursor} {x : Parser α} {f : α → Parser β}

theorem pure (a : α) : Kept room c ((pure a : Parser α) c) := .ok a (.refl c) rfl

theorem throw (e : ParseFailure) : Kept room c ((throw e : Parser α) c) :=
  .error e (.refl c) (Nat.le_add_right _ _)

theorem after {r : EStateM.Result ParseFailure Cursor α} (hstep : c.InStep c')
    (hd : c'.depth = c.depth) (h : Kept room c' r) : Kept room c r := by
  cases h with
  | ok a hstep' hd' => exact .ok a (hstep.trans hstep') (hd'.trans hd)
  | error e hstep' hd' => exact .error e (hstep.trans hstep') (hd ▸ hd')

theorem bind (hx : Kept room c (x c)) (hf : ∀ a c', Kept room c' (f a c')) :
    Kept room c ((x >>= f) c) := by
  rw [bind_eq]
  generalize x c = r at hx
  cases hx with
  | ok a hstep hd => exact (hf a _).after hstep hd
  | error e hstep hd => exact .error e hstep hd

theorem run (h : Kept room c (x c)) : c.InStep (c.run x).2 ∧ (c.run x).2.depth ≤ c.depth + room ∧
    ∀ a, (c.run x).1 = .ok a → (c.run x).2.depth = c.depth := by
  rw [Cursor.run]
  generalize x c = r at h
  cases h with
  | ok a hstep hd => exact ⟨hstep, hd ▸ Nat.le_add_right _ _, fun _ _ => hd⟩
  | error e hstep hd => exact ⟨hstep, hd, fun _ he => by cases he⟩

end Kept

namespace Parser

section Moves
variable {α : Type} {room : Nat} {c : Cursor} {t : Token}

theorem current?_bind (f : Option Token → Parser α) (c : Cursor) :
    (current? >>= f) c = f c.tokens[c.position]? c := rfl

theorem advance_of_some (ht : c.tokens[c.position]? = some t) :
    advance c = .ok t ⟨c.tokens, c.position + 1, c.depth⟩ := by
  rw [advance, current?_bind, ht]
  rfl

theorem advance_of_none (ht : c.tokens[c.position]? = none) : advance c = .error .noToken c := by
  rw [advance, current?_bind, ht]
  rfl

theorem kept_advance (ht : c.tokens[c.position]? = some t) (hopening : t.opening = 0) :
    Kept room c (advance c) := by
  rw [advance_of_some ht]
  refine .ok t (.pass ht ?_) rfl
  rw [hopening, Int.add_zero]

/-- A parser that leaves the cursor where it is. -/
def Stays (x : Parser α) : Prop := ∀ c, (∃ a, x c = .ok a c) ∨ ∃ e, x c = .error e c

theorem Stays.kept {x : Parser α} (h : Stays x) (c : Cursor) : Kept room c (x c) := by
  rcases h c with ⟨a, ha⟩ | ⟨e, he⟩
  · rw [ha]
    exact .pure a
  · rw [he]
    exact .throw e

theorem Stays.refuse {x : Parser Location} (h : Stays x) (failure : Location → ParseFailure)
    (c : Cursor) : ∃ e, (x >>= fun l => (throw (failure l) : Parser α)) c = .error e c := by
  rcases h c with ⟨l, hl⟩ | ⟨e, he⟩
  · exact ⟨failure l, bind_ok hl⟩
  · exact ⟨e, bind_error he⟩

theorem stays_placed (l? : Option Location) : Stays (placed l?) := by
  intro c
  cases l? with
  | none => exact Or.inr ⟨_, rfl⟩
  | some l => exact Or.inl ⟨l, rfl⟩

theorem stays_endLocation : Stays endLocation := by
  intro c
  rw [endLocation, get_bind]
  split
  · exact Or.inl ⟨_, rfl⟩
  · cases c.tokens[c.position - 1]? with
    | none => exact Or.inr ⟨_, rfl⟩
    | some t => exact stays_placed _ c

theorem kept_place (l? : Option Location) (node : Location → Tree) (c : Cursor) :
    Kept room c ((placed l? >>= fun l => pure (node l) : Parser Tree) c) := by
  apply ((stays_placed l?).kept c).bind
  intro l c'
  exact .pure (node l)

theorem kept_unexpected (t : Token) (c : Cursor) : Kept room c ((unexpected t : Parser α) c) := by
  obtain ⟨e, he⟩ := (stays_placed t.location?).refuse (α := α)
    (fun l => .grammar (.unexpectedToken t.lexeme l)) c
  rw [unexpected, he]
  exact .throw e

theorem kept_operator? {table : TokenKind → Option Operator}
    (htable : ∀ t : Token, t.opening ≠ 0 → table t.kind = none) (c : Cursor) :
    Kept room c (operator? table c) := by
  rw [operator?, current?_bind]
  cases ht : c.tokens[c.position]? with
  | none => exact .pure none
  | some t =>
    simp only
    cases hop : table t.kind with
    | none => exact .pure none
    | some op =>
      have hopening : t.opening = 0 := by
        by_contra hne
        rw [htable t hne] at hop
        cases hop
      apply (kept_advance ht hopening).bind
      intro _ c'
      exact .pure _

/-- A closing parenthesis is passed, or the cursor stays. -/
theorem close_cases (c : Cursor) : (∃ e, close c = .error e c) ∨
    ∃ t, c.tokens[c.position]? = some t ∧ t.kind = .rightParen ∧
      close c = .ok () ⟨c.tokens, c.position + 1, c.depth⟩ := by
  rw [close, current?_bind]
  cases ht : c.tokens[c.position]? with
  | none => exact Or.inl (stays_endLocation.refuse _ c)
  | some t =>
    simp only
    by_cases hk : t.kind = .rightParen
    · refine Or.inr ⟨t, rfl, hk, ?_⟩
      rw [if_pos hk, bind_ok (advance_of_some ht)]
      rfl
    · rw [if_neg hk]
      exact Or.inl ((stays_placed _).refuse _ c)

end Moves

section Rules
variable {room : Nat} {c : Cursor} {operand inner : Parser Tree} {t : Token}

theorem kept_binary (hoperand : ∀ c, Kept room c (operand c)) {table : TokenKind → Option Operator}
    (htable : ∀ t : Token, t.opening ≠ 0 → table t.kind = none) (c : Cursor) :
    Kept room c (binary operand table c) := by
  rw [binary]
  apply (hoperand c).bind
  intro left c₁
  apply (kept_operator? htable c₁).bind
  rintro (_ | ⟨t, op⟩) c₂
  · exact .pure left
  · apply (hoperand c₂).bind
    intro right c₃
    exact kept_place _ _ c₃

/-- An opening parenthesis is counted before anything behind it can fail, and a closing one as soon
as it is passed. -/
theorem kept_enclosed (hinner : ∀ c, Kept room c (inner c)) (ht : c.tokens[c.position]? = some t)
    (hk : t.kind = .leftParen) : Kept (room + 1) c (enclosed inner c) := by
  have hopened : c.InStep ⟨c.tokens, c.position + 1, c.depth + 1⟩ := by
    apply InStep.pass ht
    simp [Token.opening, hk]
  rw [enclosed, bind_ok (advance_of_some ht)]
  change Kept (room + 1) c ((inner >>= fun tree => close >>= fun _ =>
    modify (fun c => { c with depth := c.depth - 1 }) >>= fun _ => pure tree)
      ⟨c.tokens, c.position + 1, c.depth + 1⟩)
  rw [bind_eq]
  have hrun := hinner ⟨c.tokens, c.position + 1, c.depth + 1⟩
  generalize inner ⟨c.tokens, c.position + 1, c.depth + 1⟩ = r at hrun
  cases hrun with
  | error e hstep hd =>
    refine .error e (hopened.trans hstep) ?_
    simp only at hd
    omega
  | @ok c₁ tree hstep hd =>
    simp only at hd ⊢
    rcases close_cases c₁ with ⟨e, he⟩ | ⟨u, hu, hclose, hok⟩
    · rw [bind_error he]
      refine .error e (hopened.trans hstep) ?_
      omega
    · rw [bind_ok hok]
      have hclosed : c₁.InStep ⟨c₁.tokens, c₁.position + 1, c₁.depth - 1⟩ := by
        apply InStep.pass hu
        have hopening : u.opening = -1 := by simp [Token.opening, hclose]
        omega
      refine .ok tree ((hopened.trans hstep).trans hclosed) ?_
      change c₁.depth - 1 = c.depth
      omega

theorem kept_factorWith {inner? : Option (Parser Tree)}
    (hinner : ∀ inner ∈ inner?, ∀ c, ∀ t : Token, c.tokens[c.position]? = some t →
      t.kind = .leftParen → Kept room c (enclosed inner c)) (c : Cursor) :
    Kept room c (factorWith inner? c) := by
  rw [factorWith, current?_bind]
  cases ht : c.tokens[c.position]? with
  | none =>
    obtain ⟨e, he⟩ := stays_endLocation.refuse (α := Tree) (fun l => .grammar (.unexpectedEnd l)) c
    simp only
    rw [he]
    exact .throw e
  | some t =>
    simp only
    have hneutral (hl : t.kind ≠ .leftParen) (hr : t.kind ≠ .rightParen) : Kept room c (advance c) :=
      kept_advance ht (Token.opening_of_ne hl hr)
    cases hk : t.kind with
    | number =>
      apply (hneutral (by simp [hk]) (by simp [hk])).bind
      intro _ c₁
      cases Numeral.read? t.lexeme with
      | none => exact .throw _
      | some value =>
        exact kept_place _ _ c₁
    | identifier =>
      apply (hneutral (by simp [hk]) (by simp [hk])).bind
      intro _ c₁
      exact kept_place _ _ c₁
    | leftParen =>
      cases inner? with
      | none => exact kept_unexpected t c
      | some inner => exact hinner inner rfl c t ht hk
    | _ => exact kept_unexpected t c

variable {factor : Parser Tree} (hfactor : ∀ c, Kept room c (factor c))
include hfactor

theorem kept_product (c : Cursor) : Kept room c (product factor c) := by
  apply kept_binary hfactor
  intro t ht
  rcases Token.kind_of_opening ht with hk | hk <;> rw [hk] <;> rfl

theorem kept_sum (c : Cursor) : Kept room c (sum factor c) := by
  apply kept_binary (kept_product hfactor)
  intro t ht
  rcases Token.kind_of_opening ht with hk | hk <;> rw [hk] <;> rfl

theorem kept_comparison (c : Cursor) : Kept room c (comparison factor c) := by
  apply kept_binary (kept_sum hfactor)
  intro t ht
  rcases Token.kind_of_opening ht with hk | hk <;> rw [hk] <;> rfl

theorem kept_statement (c : Cursor) : Kept room c (statement factor c) := by
  rw [statement, get_bind]
  cases ht : c.tokens[c.position]? with
  | none => exact kept_comparison hfactor c
  | some target =>
    cases hn : c.tokens[c.position + 1]? with
    | none => exact kept_comparison hfactor c
    | some next =>
      simp only
      split
      · rename_i hk
        have htarget : target.opening = 0 := Token.opening_of_ne (by simp [hk.1]) (by simp [hk.1])
        have hnext : next.opening = 0 := Token.opening_of_ne (by simp [hk.2]) (by simp [hk.2])
        -- the second token is looked at before the first is passed
        have hstep : c.InStep ⟨c.tokens, c.position + 1, c.depth⟩ := by
          apply InStep.pass ht
          rw [htarget, Int.add_zero]
        rw [bind_ok (advance_of_some ht)]
        apply Kept.after hstep rfl
        apply (kept_advance hn hnext).bind
        intro _ c₁
        apply (kept_comparison hfactor c₁).bind
        intro right c₂
        exact kept_place _ _ c₂
      · exact kept_comparison hfactor c

theorem kept_program (c : Cursor) : Kept room c (program factor c) := by
  rw [program, get_bind]
  split
  · exact .pure _
  · apply (kept_statement hfactor c).bind
    intro t c₁
    rw [current?_bind]
    cases c₁.tokens[c₁.position]? with
    | none => exact .pure _
    | some trailing => exact kept_unexpected trailing c₁

end Rules

theorem kept_factor (room : Nat) (c : Cursor) : Kept room c (factor room c) := by
  induction room generalizing c with
  | zero =>
    apply kept_factorWith
    intro inner hinner
    cases hinner
  | succ room ih =>
    apply kept_factorWith
    rintro inner hinner c t ht hk
    cases hinner
    exact kept_enclosed (kept_comparison ih) ht hk

end Parser

inductive Rule
  | program
  | statement
  | comparison
  | sum
  | product
  | factor

def Rule.parser : Rule → Parser Tree
  | .program => fromHere Parser.program
  | .statement => fromHere Parser.statement
  | .comparison => fromHere Parser.comparison
  | .sum => fromHere Parser.sum
  | .product => fromHere Parser.product
  | .factor => fromHere id

theorem Rule.kept (rule : Rule) (c : Cursor) : Kept (maxDepth - c.depth) c (rule.parser c) := by
  have hfactor := kept_factor (maxDepth - c.depth)
  cases rule with
  | program => exact kept_program hfactor c
  | statement => exact kept_statement hfactor c
  | comparison => exact kept_comparison hfactor c
  | sum => exact kept_sum hfactor c
  | product => exact kept_product hfactor c
  | factor => exact hfactor c

namespace Cursor

/-- The cursors of a parser for some tokens: after any calls of its operations, also after calls
that failed. -/
inductive Reached (tokens : List Token) : Cursor → Prop
  | start : Reached tokens (.ofTokens tokens)
  | advance {c : Cursor} : Reached tokens c → Reached tokens (c.run Parser.advance).2
  | operator {c : Cursor} (table : TokenKind → Option Operator) : Reached tokens c →
      Reached tokens (c.run (operator? table)).2
  | rule {c : Cursor} (rule : Rule) : Reached tokens c → Reached tokens (c.run rule.parser).2

/-- A cursor among its tokens, with no more parentheses open than may nest. -/
structure Inside (tokens : List Token) (c : Cursor) : Prop where
  tokens_eq : c.tokens = tokens
  position_le : c.position ≤ tokens.length
  depth_le : c.depth ≤ maxDepth

variable {tokens : List Token} {c : Cursor}

theorem Inside.advance (h : c.Inside tokens) : (c.run Parser.advance).2.Inside tokens := by
  rw [run]
  cases ht : c.tokens[c.position]? with
  | none =>
    rw [advance_of_none ht]
    exact h
  | some t =>
    rw [advance_of_some ht]
    have hlt := (List.getElem?_eq_some_iff.mp ht).1
    rw [h.tokens_eq] at hlt
    exact ⟨h.tokens_eq, hlt, h.depth_le⟩

theorem Inside.operator (h : c.Inside tokens) (table : TokenKind → Option Operator) :
    (c.run (operator? table)).2.Inside tokens := by
  have hadvance := h.advance
  rw [run] at hadvance ⊢
  rw [operator?, current?_bind]
  cases ht : c.tokens[c.position]? with
  | none => exact h
  | some t =>
    rw [advance_of_some ht] at hadvance
    simp only
    cases table t.kind with
    | none => exact h
    | some op =>
      simp only
      rw [bind_ok (advance_of_some ht)]
      exact hadvance

theorem Inside.rule (h : c.Inside tokens) (rule : Rule) : (c.run rule.parser).2.Inside tokens := by
  obtain ⟨hstep, hdepth, -⟩ := (rule.kept c).run
  have hwithin := hstep.within
  rw [h.tokens_eq] at hwithin
  refine ⟨hstep.tokens.trans h.tokens_eq, hwithin h.position_le, ?_⟩
  have hmax := h.depth_le
  omega

theorem Reached.inside (h : c.Reached tokens) : c.Inside tokens := by
  induction h with
  | start => exact ⟨rfl, Nat.zero_le _, Nat.zero_le _⟩
  | advance _ ih => exact ih.advance
  | operator table _ ih => exact ih.operator table
  | rule rule _ ih => exact ih.rule rule

/-- Whatever was called before, a cursor stands among its tokens, and at most as many parentheses are
open as may nest. Each rule moves it forward, and changes the depth by the parentheses it passes,
whether it gives a tree or fails; with a tree it has closed all it opened. -/
theorem depth_in_step_with_position (tokens : List Token) (c : Cursor) (h : c.Reached tokens) :
    c.tokens = tokens ∧ c.position ≤ tokens.length ∧ c.depth ≤ 64 ∧
    ∀ (rule : Rule) (result : Except ParseFailure Tree) (c' : Cursor),
      c.run rule.parser = (result, c') →
        c.position ≤ c'.position ∧ c'.position ≤ tokens.length ∧
        (c'.depth : Int) - c.depth = balance ((tokens.take c'.position).drop c.position) ∧
        ∀ tree, result = .ok tree →
          balance ((tokens.take c'.position).drop c.position) = 0 := by
  obtain ⟨rfl, hposition, hdepth⟩ := h.inside
  refine ⟨rfl, hposition, hdepth, ?_⟩
  intro rule result c' hrun
  obtain ⟨hstep, -, hvalue⟩ := (rule.kept c).run
  simp only [hrun] at hstep hvalue
  refine ⟨hstep.position_le, hstep.within hposition, hstep.depth_sub, ?_⟩
  intro tree htree
  have hsame : c'.depth = c.depth := hvalue tree htree
  have hchange := hstep.depth_sub
  omega

/-- A parenthesis is open when an identifier without a place is refused. The parser goes on behind it,
at the depth at which it was left. -/
theorem depth_in_step_after_failure :
    let tokens : List Token :=
      [⟨.leftParen, ['('], 0, 0⟩, ⟨.identifier, ['x'], 0, -1⟩, ⟨.identifier, ['y'], 0, 5⟩]
    Reached tokens (ofTokens tokens) ∧
    (ofTokens tokens).run Rule.factor.parser = (.error .badPlace, ⟨tokens, 2, 1⟩) ∧
    balance ((tokens.take 2).drop 0) = 1 ∧
    Reached tokens ⟨tokens, 2, 1⟩ ∧ 2 ≤ tokens.length ∧ 1 ≤ 64 ∧
    run ⟨tokens, 2, 1⟩ Rule.product.parser = (.ok (.identifier ['y'] ⟨0, 5⟩), ⟨tokens, 3, 1⟩) ∧
    balance ((tokens.take 3).drop 2) = 0 := by
  obtain ⟨tokens, htokens⟩ : ∃ tokens : List Token, tokens =
      [⟨.leftParen, ['('], 0, 0⟩, ⟨.identifier, ['x'], 0, -1⟩, ⟨.identifier, ['y'], 0, 5⟩] := ⟨_, rfl⟩
  have hruns : (ofTokens tokens).run Rule.factor.parser = (.error .badPlace, ⟨tokens, 2, 1⟩) ∧
      run ⟨tokens, 2, 1⟩ Rule.product.parser =
        (.ok (.identifier ['y'] ⟨0, 5⟩), ⟨tokens, 3, 1⟩) := by
    subst htokens
    refine ⟨?_, ?_⟩ <;> cbv
  rw [← htokens]
  have hstart : Reached tokens (ofTokens tokens) := .start
  have hfailed : Reached tokens ⟨tokens, 2, 1⟩ := by
    have hreached := hstart.rule .factor
    rw [hruns.1] at hreached
    exact hreached
  obtain ⟨-, -, -, hopened⟩ := depth_in_step_with_position tokens _ hstart
  obtain ⟨-, hposition, hdepth, hkept⟩ := depth_in_step_with_position tokens _ hfailed
  exact ⟨hstart, hruns.1, (hopened _ _ _ hruns.1).2.2.1.symm, hfailed, hposition, hdepth, hruns.2,
    (hkept _ _ _ hruns.2).2.2.2 _ rfl⟩

end Cursor

end Calculator
