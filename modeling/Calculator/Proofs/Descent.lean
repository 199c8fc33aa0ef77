import Calculator.Proofs.Phrase

/-! Runs of the parser on derivations. The tokens behind the cursor and those ahead of it are
written apart, so that every operation is an equation between cursors. A phrase in front of the
cursor is read to its tree, and the number of open parentheses is what it was before. -/

set_option autoImplicit false

namespace Calculator

/-- The cursor between the tokens passed and the tokens ahead. -/
def Cursor.between (passed ahead : List Token) (depth : Nat) : Cursor :=
  ⟨passed ++ ahead, passed.length, depth⟩

/-- Where the last of some tokens ends, or the start of the source. -/
def lastPlace (passed : List Token) : Location :=
  (passed.getLast?.map Token.endPlace).getD .origin

section Bind
variable {ε σ α β : Type} {x : EStateM ε σ α} {f : α → EStateM ε σ β} {s s' : σ}

theorem bind_eq : (x >>= f) s =
    match x s with
    | .ok a s' => f a s'
    | .error e s' => .error e s' := rfl

theorem bind_ok {a : α} (h : x s = .ok a s') : (x >>= f) s = f a s' := by
  change EStateM.bind x f s = _
  simp only [EStateM.bind, h]

theorem bind_error {e : ε} (h : x s = .error e s') : (x >>= f) s = .error e s' := by
  change EStateM.bind x f s = _
  simp only [EStateM.bind, h]

end Bind

namespace Parser

open Cursor (between)

theorem get_bind {α : Type} (f : Cursor → Parser α) (c : Cursor) : (get >>= f) c = f c c := rfl

theorem deepen_bind {α : Type} {f : PUnit → Parser α} {passed ahead : List Token} {d : Nat} :
    (modify (fun c : Cursor => { c with depth := c.depth + 1 }) >>= f) (between passed ahead d) =
      f () (between passed ahead (d + 1)) := rfl

section Moves
variable {passed ahead : List Token} {t : Token} {d : Nat}

theorem current?_between :
    current? (between passed ahead d) = .ok ahead.head? (between passed ahead d) := by
  change EStateM.Result.ok (passed ++ ahead)[passed.length]? _ = _
  rw [List.getElem?_append_right (Nat.le_refl _), Nat.sub_self, List.head?_eq_getElem?]

theorem advance_between :
    advance (between passed (t :: ahead) d) = .ok t (between (passed ++ [t]) ahead d) := by
  rw [advance, bind_ok current?_between]
  simp only [List.head?_cons, between, List.append_assoc, List.singleton_append,
    List.length_append, List.length_singleton]
  rfl

theorem operator?_none {table : TokenKind → Option Operator}
    (h : ∀ t ∈ ahead.head?, table t.kind = none) :
    operator? table (between passed ahead d) = .ok none (between passed ahead d) := by
  rw [operator?, bind_ok current?_between]
  cases ahead with
  | nil => rfl
  | cons t rest =>
    simp only [List.head?_cons, h t rfl]
    rfl

theorem operator?_some {table : TokenKind → Option Operator} {op : Operator}
    (h : table t.kind = some op) :
    operator? table (between passed (t :: ahead) d) =
      .ok (some (t, op)) (between (passed ++ [t]) ahead d) := by
  rw [operator?, bind_ok current?_between]
  simp only [List.head?_cons, h]
  rw [bind_ok advance_between]
  rfl

theorem placed_location (h : t.Sound) (c : Cursor) : placed t.location? c = .ok t.place c := by
  rw [h.location?]
  rfl

theorem endLocation_between (h : ∀ t ∈ passed, t.Sound) :
    endLocation (between passed [] d) = .ok (lastPlace passed) (between passed [] d) := by
  rw [endLocation, get_bind]
  rcases List.eq_nil_or_concat passed with rfl | ⟨front, t, rfl⟩
  · rfl
  · have ht := (h t (by simp)).endLocation?
    simp [between, lastPlace, ht, placed]
    rfl

theorem unexpected_eq {α : Type} (h : t.Sound) (c : Cursor) :
    (unexpected t : Parser α) c = .error (.grammar (.unexpectedToken t.lexeme t.place)) c := by
  rw [unexpected, bind_ok (placed_location h c)]
  rfl

theorem close_ok (h : t.kind = .rightParen) :
    close (between passed (t :: ahead) d) = .ok () (between (passed ++ [t]) ahead d) := by
  rw [close, bind_ok current?_between]
  simp only [List.head?_cons, h, if_true]
  rw [bind_ok advance_between]
  rfl

theorem close_refused (ht : t.Sound) (h : t.kind ≠ .rightParen) :
    close (between passed (t :: ahead) d) =
      .error (.grammar (.expectedClose t.lexeme t.place)) (between passed (t :: ahead) d) := by
  rw [close, bind_ok current?_between]
  simp only [List.head?_cons, if_neg h]
  rw [bind_ok (placed_location ht _)]
  rfl

theorem close_nil (h : ∀ t ∈ passed, t.Sound) :
    close (between passed [] d) =
      .error (.grammar (.expectedClose endOfLine (lastPlace passed))) (between passed [] d) := by
  rw [close, bind_ok current?_between]
  simp only [List.head?_nil]
  rw [bind_ok (endLocation_between h)]
  rfl

end Moves

section Rules
variable {passed passed' ahead rest : List Token} {t u : Token} {d : Nat}
variable {operand inner : Parser Tree} {table : TokenKind → Option Operator} {op : Operator}
variable {c c' : Cursor} {left right tree : Tree} {e : ParseFailure}

theorem binary_one (hl : operand c = .ok left (between passed ahead d))
    (hn : ∀ t ∈ ahead.head?, table t.kind = none) :
    binary operand table c = .ok left (between passed ahead d) := by
  rw [binary, bind_ok hl, bind_ok (operator?_none hn)]
  rfl

theorem binary_two (hl : operand c = .ok left (between passed (t :: ahead) d))
    (ht : t.Sound) (hop : table t.kind = some op)
    (hr : operand (between (passed ++ [t]) ahead d) = .ok right c') :
    binary operand table c = .ok (.operation op left right t.place) c' := by
  rw [binary, bind_ok hl, bind_ok (operator?_some hop)]
  simp only
  rw [bind_ok hr, bind_ok (placed_location ht c')]
  rfl

theorem binary_left_error (hl : operand c = .error e c') :
    binary operand table c = .error e c' := by
  rw [binary, bind_error hl]

theorem binary_right_error (hl : operand c = .ok left (between passed (t :: ahead) d))
    (hop : table t.kind = some op)
    (hr : operand (between (passed ++ [t]) ahead d) = .error e c') :
    binary operand table c = .error e c' := by
  rw [binary, bind_ok hl, bind_ok (operator?_some hop)]
  simp only
  rw [bind_error hr]

theorem enclosed_ok
    (hi : inner (between (passed ++ [t]) ahead (d + 1)) = .ok tree (between passed' (u :: rest) (d + 1)))
    (hu : u.kind = .rightParen) :
    enclosed inner (between passed (t :: ahead) d) =
      .ok tree (between (passed' ++ [u]) rest d) := by
  rw [enclosed, bind_ok advance_between, deepen_bind,
    bind_ok hi, bind_ok (close_ok hu)]
  rfl

theorem enclosed_inner_error (hi : inner (between (passed ++ [t]) ahead (d + 1)) = .error e c') :
    enclosed inner (between passed (t :: ahead) d) = .error e c' := by
  rw [enclosed, bind_ok advance_between, deepen_bind,
    bind_error hi]

theorem enclosed_close_error (hi : inner (between (passed ++ [t]) ahead (d + 1)) = .ok tree c)
    (hc : close c = .error e c') :
    enclosed inner (between passed (t :: ahead) d) = .error e c' := by
  rw [enclosed, bind_ok advance_between, deepen_bind,
    bind_ok hi, bind_error hc]

variable (inner? : Option (Parser Tree))

theorem factorWith_number (ht : t.Sound) (hk : t.kind = .number) :
    factorWith inner? (between passed (t :: ahead) d) =
      .ok (.number t.value t.place) (between (passed ++ [t]) ahead d) := by
  rw [factorWith, bind_ok current?_between]
  simp only [List.head?_cons, hk]
  rw [bind_ok advance_between]
  simp only [ht.read? hk]
  rw [bind_ok (placed_location ht _)]
  rfl

theorem factorWith_identifier (ht : t.Sound) (hk : t.kind = .identifier) :
    factorWith inner? (between passed (t :: ahead) d) =
      .ok (.identifier t.lexeme t.place) (between (passed ++ [t]) ahead d) := by
  rw [factorWith, bind_ok current?_between]
  simp only [List.head?_cons, hk]
  rw [bind_ok advance_between, bind_ok (placed_location ht _)]
  rfl

theorem factorWith_leftParen (hk : t.kind = .leftParen) :
    factorWith (some inner) (between passed (t :: ahead) d) =
      enclosed inner (between passed (t :: ahead) d) := by
  rw [factorWith, bind_ok current?_between]
  simp only [List.head?_cons, hk]

theorem factorWith_none_leftParen (ht : t.Sound) (hk : t.kind = .leftParen) :
    factorWith none (between passed (t :: ahead) d) =
      .error (.grammar (.unexpectedToken t.lexeme t.place)) (between passed (t :: ahead) d) := by
  rw [factorWith, bind_ok current?_between]
  simp only [List.head?_cons, hk]
  exact unexpected_eq ht _

theorem factorWith_other (ht : t.Sound) (hn : t.kind ≠ .number) (hi : t.kind ≠ .identifier)
    (hp : t.kind ≠ .leftParen) :
    factorWith inner? (between passed (t :: ahead) d) =
      .error (.grammar (.unexpectedToken t.lexeme t.place)) (between passed (t :: ahead) d) := by
  rw [factorWith, bind_ok current?_between]
  simp only [List.head?_cons]
  exact unexpected_eq ht _

theorem factorWith_nil (h : ∀ t ∈ passed, t.Sound) :
    factorWith inner? (between passed [] d) =
      .error (.grammar (.unexpectedEnd (lastPlace passed))) (between passed [] d) := by
  rw [factorWith, bind_ok current?_between]
  simp only [List.head?_nil]
  rw [bind_ok (endLocation_between h)]
  rfl

end Rules

end Parser

namespace Level

/-- The parser of a level, where parentheses may nest `room` deep. -/
def parser (room : Nat) : Level → Parser Tree
  | .factor => Parser.factor room
  | .tier .product => Parser.product (Parser.factor room)
  | .tier .sum => Parser.sum (Parser.factor room)
  | .tier .comparison => Parser.comparison (Parser.factor room)

theorem parser_tier (room : Nat) (tier : Tier) :
    parser room (.tier tier) = Parser.binary (parser room tier.below) tier.table := by
  have hproduct : Tier.product.table = Operator.multiplicative? := by
    funext kind
    cases kind <;> rfl
  have hsum : Tier.sum.table = Operator.additive? := by
    funext kind
    cases kind <;> rfl
  have hcomparison : Tier.comparison.table = Operator.relational? := by
    funext kind
    cases kind <;> rfl
  cases tier with
  | product =>
    rw [hproduct]
    rfl
  | sum =>
    rw [hsum]
    rfl
  | comparison =>
    rw [hcomparison]
    rfl

/-- A factor is read by one rule, whatever room is left for parentheses. -/
theorem parser_factor (room : Nat) : ∃ inner?, parser room .factor = Parser.factorWith inner? := by
  cases room with
  | zero => exact ⟨none, rfl⟩
  | succ room => exact ⟨some (parser room (.tier .comparison)), rfl⟩

theorem parser_factor_succ (room : Nat) :
    parser (room + 1) .factor = Parser.factorWith (some (parser room (.tier .comparison))) := rfl

end Level

open Cursor (between)
open Calculator.Parser

/-- A phrase that ends where it can is read to its tree, and the cursor moves past its tokens. -/
theorem Phrase.run_level {level : Level} (p : Phrase level) {room : Nat} (hd : p.depth ≤ room)
    (hp : ∀ t ∈ p.tokens, t.Sound) {rest : List Token} (hs : p.StopsAt rest)
    (passed : List Token) (d : Nat) :
    level.parser room (between passed (p.tokens ++ rest) d) =
      .ok p.tree (between (passed ++ p.tokens) rest d) := by
  -- the room shrinks inside parentheses only; what follows the phrase changes with each operand
  induction p generalizing room rest passed d with
  | number t ht =>
    obtain ⟨inner?, he⟩ := Level.parser_factor room
    rw [he]
    exact factorWith_number inner? (hp t (by simp [tokens])) ht
  | identifier t ht =>
    obtain ⟨inner?, he⟩ := Level.parser_factor room
    rw [he]
    exact factorWith_identifier inner? (hp t (by simp [tokens])) ht
  | enclosed opening inner closing ho hc ih =>
    obtain ⟨room, rfl⟩ : ∃ r, room = r + 1 := ⟨room - 1, by simp only [depth] at hd; omega⟩
    have hinner := ih (Nat.le_of_succ_le_succ hd) (fun t ht => hp t (by simp [tokens, ht]))
      (inner.stopsAt_closing hc rest) (passed ++ [opening]) (d + 1)
    rw [Level.parser_factor_succ]
    simp only [tokens, List.cons_append, List.append_assoc, List.nil_append]
    rw [factorWith_leftParen ho, enclosed_ok hinner hc]
    simp [tree]
  | @one tier operand ih =>
    rw [Level.parser_tier]
    exact binary_one (ih hd hp hs.1 passed d) hs.2
  | @two tier left sign right op isSign ihl ihr =>
    have hdl : left.depth ≤ room := Nat.le_trans (Nat.le_max_left _ _) hd
    have hdr : right.depth ≤ room := Nat.le_trans (Nat.le_max_right _ _) hd
    have hl := ihl hdl (fun t ht => hp t (by simp [tokens, ht]))
      (left.stopsAt_sign isSign (right.tokens ++ rest)) passed d
    have hr := ihr hdr (fun t ht => hp t (by simp [tokens, ht])) hs
      (passed ++ left.tokens ++ [sign]) d
    rw [Level.parser_tier]
    simp only [tokens, List.append_assoc, List.cons_append]
    rw [binary_two hl (hp sign (by simp [tokens])) isSign hr]
    simp [tree]

end Calculator
