import Mathlib
import Calculator.Tree.Parser

/-! Derivations of the grammar, as data. A phrase holds the tokens it is made of, with proofs that
their kinds fit; from a phrase one reads off its tokens, how deep its parentheses nest, and its
tree. A list of tokens has at most one derivation. -/

set_option autoImplicit false

namespace Calculator

/-- The levels that take an operator, from the tightest on. -/
inductive Tier
  | product
  | sum
  | comparison

inductive Level
  | factor
  | tier (tier : Tier)

namespace Tier

/-- The operators of a level, by the kinds of their tokens. -/
def table : Tier → TokenKind → Option Operator
  | .product, .times => some .product
  | .product, .divide => some .quotient
  | .sum, .plus => some .sum
  | .sum, .minus => some .difference
  | .comparison, .greater => some .greater
  | .comparison, .greaterEqual => some .greaterEqual
  | .comparison, .less => some .less
  | .comparison, .lessEqual => some .lessEqual
  | .comparison, .equal => some .equal
  | _, _ => none

inductive Sign : Tier → TokenKind → Operator → Prop
  | times : Sign .product .times .product
  | divide : Sign .product .divide .quotient
  | plus : Sign .sum .plus .sum
  | minus : Sign .sum .minus .difference
  | greater : Sign .comparison .greater .greater
  | greaterEqual : Sign .comparison .greaterEqual .greaterEqual
  | less : Sign .comparison .less .less
  | lessEqual : Sign .comparison .lessEqual .lessEqual
  | equal : Sign .comparison .equal .equal

section Table
variable {tier : Tier} {kind : TokenKind} {op : Operator}

theorem sign_of_table (h : tier.table kind = some op) : tier.Sign kind op := by
  unfold table at h
  split at h <;> cases h <;> constructor

theorem known_of_table (h : tier.table kind = some op) : op ∈ Operator.known := by
  cases sign_of_table h <;> decide

end Table

def below : Tier → Level
  | .product => .factor
  | .sum => .tier .product
  | .comparison => .tier .sum

def rank : Tier → Nat
  | .product => 1
  | .sum => 2
  | .comparison => 3

end Tier

def Level.rank : Level → Nat
  | .factor => 0
  | .tier t => t.rank

theorem Tier.rank_eq (tier : Tier) : tier.rank = tier.below.rank + 1 := by cases tier <;> rfl

/-- An operator belongs to one level only. -/
theorem Tier.table_eq_none {tier other : Tier} {kind : TokenKind} {op : Operator}
    (h : tier.table kind = some op) (hr : other.rank < tier.rank) : other.table kind = none := by
  cases tier <;> cases other <;> cases kind <;> simp_all [table, rank]

/-- Derivations below statements. The rule for factors has three alternatives; each level above
takes one operand, or two with one of its operators between them. -/
inductive Phrase : Level → Type
  | number (t : Token) (isNumber : t.kind = .number) : Phrase .factor
  | identifier (t : Token) (isIdentifier : t.kind = .identifier) : Phrase .factor
  | enclosed (opening : Token) (inner : Phrase (.tier .comparison)) (closing : Token)
      (opens : opening.kind = .leftParen) (closes : closing.kind = .rightParen) : Phrase .factor
  | one {tier : Tier} (operand : Phrase tier.below) : Phrase (.tier tier)
  | two {tier : Tier} (left : Phrase tier.below) (sign : Token) (right : Phrase tier.below)
      (op : Operator) (isSign : tier.table sign.kind = some op) : Phrase (.tier tier)

inductive Sentence
  | assignment (target equals : Token) (right : Phrase (.tier .comparison))
      (isIdentifier : target.kind = .identifier) (isAssign : equals.kind = .assign)
  | comparison (phrase : Phrase (.tier .comparison))

namespace Token

def place (t : Token) : Location := ⟨t.line.toNat, t.column.toNat⟩

def endPlace (t : Token) : Location := ⟨t.line.toNat, t.column.toNat + (t.lexeme.length - 1)⟩

def value (t : Token) : Float := (Numeral.read? t.lexeme).getD 0.0

/-- What a parser relies on: coordinates from zero on, and numbers that can be read. -/
structure Sound (t : Token) : Prop where
  line : 0 ≤ t.line
  column : 0 ≤ t.column
  numeral : t.kind = .number → (Numeral.read? t.lexeme).isSome

variable {t : Token}

theorem Sound.location? (h : t.Sound) : t.location? = some t.place := by
  simp [Token.location?, Location.ofInts?, place, h.line, h.column]

theorem Sound.endLocation? (h : t.Sound) : t.endLocation? = some t.endPlace := by
  have hl := h.line
  have hc := h.column
  simp only [Token.endLocation?, Location.ofInts?, endPlace]
  rw [if_pos (by omega)]
  congr 2
  omega

theorem Sound.read? (h : t.Sound) (hk : t.kind = .number) :
    Numeral.read? t.lexeme = some t.value := by
  obtain ⟨v, hv⟩ := Option.isSome_iff_exists.mp (h.numeral hk)
  simp [value, hv]

end Token

namespace Phrase

def tokens : {level : Level} → Phrase level → List Token
  | _, .number t _ => [t]
  | _, .identifier t _ => [t]
  | _, .enclosed opening inner closing _ _ => opening :: (inner.tokens ++ [closing])
  | _, .one operand => operand.tokens
  | _, .two left sign right _ _ => left.tokens ++ sign :: right.tokens

theorem tokens_ne_nil {level : Level} (p : Phrase level) : p.tokens ≠ [] := by
  induction p with
  | number | identifier | enclosed => simp [tokens]
  | one operand ih => exact ih
  | two => simp [tokens]

/-- How deep parentheses nest. Neighbours do not add up. -/
def depth : {level : Level} → Phrase level → Nat
  | _, .number .. => 0
  | _, .identifier .. => 0
  | _, .enclosed _ inner _ _ _ => inner.depth + 1
  | _, .one operand => operand.depth
  | _, .two left _ right _ _ => max left.depth right.depth

/-- The tree of a phrase. Parentheses leave no trace, an operation stands at its sign. -/
def tree : {level : Level} → Phrase level → Tree
  | _, .number t _ => .number t.value t.place
  | _, .identifier t _ => .identifier t.lexeme t.place
  | _, .enclosed _ inner _ _ _ => inner.tree
  | _, .one operand => operand.tree
  | _, .two left sign right op _ => .operation op left.tree right.tree sign.place

/-- Whether a phrase ends before the given tokens. A level that found one operand only would have
gone on to an operator of its own. -/
def StopsAt : {level : Level} → Phrase level → List Token → Prop
  | _, .number .., _ => True
  | _, .identifier .., _ => True
  | _, .enclosed .., _ => True
  | _, @one tier operand, rest => operand.StopsAt rest ∧ ∀ t ∈ rest.head?, tier.table t.kind = none
  | _, .two _ _ right _ _, rest => right.StopsAt rest

theorem stopsAt_of_rank {level : Level} (p : Phrase level) {rest : List Token}
    (h : ∀ t ∈ rest.head?, ∀ tier : Tier, tier.rank ≤ level.rank → tier.table t.kind = none) :
    p.StopsAt rest := by
  induction p with
  | number | identifier | enclosed => trivial
  | @one tier operand ih =>
    have hr := tier.rank_eq
    refine ⟨ih fun t ht other ho => h t ht other ?_, fun t ht => h t ht tier (Nat.le_refl _)⟩
    change other.rank ≤ tier.rank
    omega
  | @two tier left sign right op isSign _ ih =>
    have hr := tier.rank_eq
    refine ih fun t ht other ho => h t ht other ?_
    change other.rank ≤ tier.rank
    omega

theorem stopsAt_head {level : Level} (p : Phrase level) {t : Token} {rest rest' : List Token}
    (h : p.StopsAt (t :: rest)) : p.StopsAt (t :: rest') := by
  induction p with
  | number | identifier | enclosed => trivial
  | one operand ih => exact ⟨ih h.1, h.2⟩
  | two left sign right op isSign _ ih => exact ih h

theorem stopsAt_nil {level : Level} (p : Phrase level) : p.StopsAt [] :=
  p.stopsAt_of_rank (by simp)

theorem stopsAt_sign {tier : Tier} (p : Phrase tier.below) {sign : Token} {op : Operator}
    (h : tier.table sign.kind = some op) (rest : List Token) : p.StopsAt (sign :: rest) := by
  refine p.stopsAt_of_rank fun t ht other ho => ?_
  obtain rfl : sign = t := by simpa using ht
  have hr := tier.rank_eq
  exact Tier.table_eq_none h (by omega)

theorem stopsAt_cons {level : Level} (p : Phrase level) {t : Token}
    (h : ∀ tier : Tier, tier.table t.kind = none) (rest : List Token) : p.StopsAt (t :: rest) := by
  refine p.stopsAt_of_rank fun s hs tier _ => ?_
  obtain rfl : t = s := by simpa using hs
  exact h tier

theorem stopsAt_closing {level : Level} (p : Phrase level) {t : Token} (h : t.kind = .rightParen)
    (rest : List Token) : p.StopsAt (t :: rest) := by
  apply p.stopsAt_cons
  intro tier
  rw [h]
  cases tier <;> rfl

/-- Two phrases that start the same list of tokens, and both end where they can, are the same. -/
theorem tokens_append_inj {level : Level} (p q : Phrase level) {r s : List Token}
    (hp : p.StopsAt r) (hq : q.StopsAt s) (h : p.tokens ++ r = q.tokens ++ s) : p = q ∧ r = s := by
  -- the first token tells the rules for factors apart, and the operator those of a level above
  induction p generalizing r s with
  | number t ht =>
    cases q with
    | number u hu =>
      obtain ⟨rfl, rfl⟩ := List.cons.inj h
      exact ⟨rfl, rfl⟩
    | identifier u hu | enclosed u inner closing hu hc =>
      obtain ⟨rfl, -⟩ := List.cons.inj h
      simp [ht] at hu
  | identifier t ht =>
    cases q with
    | identifier u hu =>
      obtain ⟨rfl, rfl⟩ := List.cons.inj h
      exact ⟨rfl, rfl⟩
    | number u hu | enclosed u inner closing hu hc =>
      obtain ⟨rfl, -⟩ := List.cons.inj h
      simp [ht] at hu
  | enclosed t inner closing ht hc ih =>
    cases q with
    | number u hu | identifier u hu =>
      obtain ⟨rfl, -⟩ := List.cons.inj h
      simp [ht] at hu
    | enclosed u inner' closing' hu hc' =>
      obtain ⟨rfl, hi⟩ := List.cons.inj h
      obtain ⟨rfl, hrest⟩ := ih inner' (inner.stopsAt_closing hc r) (inner'.stopsAt_closing hc' s)
        (by simpa [tokens] using hi)
      obtain ⟨rfl, rfl⟩ := List.cons.inj hrest
      exact ⟨rfl, rfl⟩
  | @one tier operand ih =>
    cases q with
    | one operand' =>
      obtain ⟨rfl, rfl⟩ := ih operand' hp.1 hq.1 h
      exact ⟨rfl, rfl⟩
    | two left sign right op isSign =>
      -- the longer phrase shows an operator where the shorter one ends
      obtain ⟨-, rfl⟩ := ih left hp.1 (left.stopsAt_sign isSign (right.tokens ++ s))
        (by simpa [tokens] using h)
      have hn := hp.2 sign rfl
      simp [hn] at isSign
  | @two tier left sign right op isSign ihl ihr =>
    cases q with
    | one operand =>
      obtain ⟨-, rfl⟩ := ihl operand (left.stopsAt_sign isSign (right.tokens ++ r)) hq.1
        (by simpa [tokens] using h)
      have hn := hq.2 sign rfl
      simp [hn] at isSign
    | two left' sign' right' op' isSign' =>
      obtain ⟨rfl, hrest⟩ := ihl left' (left.stopsAt_sign isSign (right.tokens ++ r))
        (left'.stopsAt_sign isSign' (right'.tokens ++ s)) (by simpa [tokens] using h)
      obtain ⟨rfl, hright⟩ := List.cons.inj hrest
      obtain ⟨rfl, rfl⟩ := ihr right' hp hq hright
      obtain rfl := Option.some.inj (isSign.symm.trans isSign')
      exact ⟨rfl, rfl⟩

end Phrase

/-- Whether tokens start as an assignment does. -/
def Assigns (ts : List Token) : Prop :=
  ∃ target equals rest, ts = target :: equals :: rest ∧
    target.kind = .identifier ∧ equals.kind = .assign

theorem assigns_append_cons {before : List Token} (hb : before ≠ []) {t : Token}
    {after after' : List Token} (h : Assigns (before ++ t :: after)) :
    Assigns (before ++ t :: after') := by
  obtain ⟨target, equals, rest, he, hk⟩ := h
  match before, hb with
  | [x], _ =>
    obtain ⟨rfl, rfl, -⟩ : x = target ∧ t = equals ∧ after = rest := by simpa using he
    exact ⟨x, t, after', rfl, hk⟩
  | x :: y :: more, _ =>
    obtain ⟨rfl, rfl, -⟩ : x = target ∧ y = equals ∧ more ++ t :: after = rest := by simpa using he
    exact ⟨x, y, more ++ t :: after', rfl, hk⟩

/-- The comparison that consists of one phrase of a lower level. -/
def Phrase.toComparison : {tier : Tier} → Phrase (.tier tier) → Phrase (.tier .comparison)
  | .product, p => @one .comparison (@one .sum p)
  | .sum, p => @one .comparison p
  | .comparison, p => p

theorem Phrase.toComparison_tokens {tier : Tier} (p : Phrase (.tier tier)) :
    p.toComparison.tokens = p.tokens := by cases tier <;> rfl

theorem Phrase.toComparison_depth {tier : Tier} (p : Phrase (.tier tier)) :
    p.toComparison.depth = p.depth := by cases tier <;> rfl

theorem Phrase.toComparison_tree {tier : Tier} (p : Phrase (.tier tier)) :
    p.toComparison.tree = p.tree := by cases tier <;> rfl

def Phrase.ofFactor (p : Phrase .factor) : Phrase (.tier .comparison) :=
  @toComparison .product (@one .product p)

/-- No comparison starts as an assignment does: behind its identifier it would have to end. -/
theorem Phrase.not_assigns (p : Phrase (.tier .comparison)) : ¬ Assigns p.tokens := by
  rintro ⟨target, equals, rest, he, ht, hq⟩
  have hstop : (Phrase.ofFactor (.identifier target ht)).StopsAt (equals :: rest) :=
    Phrase.stopsAt_cons _ (by intro tier; rw [hq]; cases tier <;> rfl) rest
  have h := Phrase.tokens_append_inj (Phrase.ofFactor (.identifier target ht)) p hstop p.stopsAt_nil
    (by simp [he, ofFactor, toComparison_tokens, tokens])
  exact List.cons_ne_nil _ _ h.2

namespace Sentence

def tokens : Sentence → List Token
  | .assignment target equals right _ _ => target :: equals :: right.tokens
  | .comparison phrase => phrase.tokens

def depth : Sentence → Nat
  | .assignment _ _ right _ _ => right.depth
  | .comparison phrase => phrase.depth

def tree : Sentence → Tree
  | .assignment target _ right _ _ => .assignment target.lexeme right.tree target.place
  | .comparison phrase => phrase.tree

/-- A list of tokens has at most one derivation. -/
theorem tokens_inj {s s' : Sentence} (h : s.tokens = s'.tokens) : s = s' := by
  cases s with
  | assignment target equals right ht he =>
    cases s' with
    | assignment target' equals' right' ht' he' =>
      obtain ⟨rfl, rfl, hr⟩ : target = target' ∧ equals = equals' ∧ right.tokens = right'.tokens := by
        simpa [tokens] using h
      obtain ⟨rfl, -⟩ := Phrase.tokens_append_inj right right' right.stopsAt_nil right'.stopsAt_nil
        (by simpa using hr)
      rfl
    | comparison phrase => exact absurd ⟨target, equals, right.tokens, h.symm, ht, he⟩ phrase.not_assigns
  | comparison phrase =>
    cases s' with
    | assignment target equals right ht he =>
      exact absurd ⟨target, equals, right.tokens, h, ht, he⟩ phrase.not_assigns
    | comparison phrase' =>
      obtain ⟨rfl, -⟩ := Phrase.tokens_append_inj phrase phrase' phrase.stopsAt_nil phrase'.stopsAt_nil
        (by simpa [tokens] using h)
      rfl

end Sentence

end Calculator
