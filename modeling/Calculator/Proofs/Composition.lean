import Calculator.Proofs.FirstUnbound
import Calculator.Proofs.Relocation
import Calculator.Proofs.Reprint

/-! Expressions in parentheses. A text that is an expression of its own keeps its tokens when
parentheses are put around it, wherever it then stands, and its tree only moves. So it can be an
operand of any operator, and what it means as an operand is what it means on its own. -/

set_option autoImplicit false

namespace Calculator

section Cut
variable {passed gap rest : Text} {pieces more : List (Text × Token)}

theorem Cut.concat (h : Cut passed pieces (spread more rest))
    (hmore : Cut (passed ++ spread pieces []) more rest) : Cut passed (pieces ++ more) rest := by
  induction pieces generalizing passed with
  | nil => simpa [spread] using hmore
  | cons piece pieces ih =>
    cases h with
    | cons hgap hl hm hb hcut =>
      rw [← spread_append] at hm
      refine .cons hgap hl hm hb (ih hcut ?_)
      simpa [spread] using hmore

theorem Loose.behind_blanks (hgap : Blanks gap) (h : Loose rest) : Loose (gap ++ rest) := by
  intro kind lexeme
  exact .behind_blanks hgap fun _ => h kind lexeme

end Cut

def Token.behind (passed : Text) (kind : TokenKind) (lexeme : Text) : Token :=
  ⟨kind, lexeme, (Location.after passed).line, (Location.after passed).column⟩

/-- A text spells tokens, where it stands behind one text and in front of another. -/
def Spells (passed w rest : Text) (ts : List Token) : Prop :=
  ∃ pieces, Cut passed pieces rest ∧ spread pieces [] = w ∧ pieces.map Prod.snd = ts

namespace Spells

variable {passed gap w w' rest lexeme source last : Text} {ts ts' : List Token} {kind : TokenKind}
  {pieces : List (Text × Token)}

theorem append (h : Spells passed w (w' ++ rest) ts) (h' : Spells (passed ++ w) w' rest ts') :
    Spells passed (w ++ w') rest (ts ++ ts') := by
  obtain ⟨pieces, hcut, rfl, rfl⟩ := h
  obtain ⟨more, hmore, rfl, rfl⟩ := h'
  rw [spread_nil_append] at hcut
  refine ⟨pieces ++ more, hcut.concat hmore, ?_, List.map_append⟩
  rw [spread_append, spread_nil_append]

theorem single (hgap : Blanks gap) (hl : kind.Lexeme lexeme) (hm : kind.Maximal lexeme rest) :
    Spells passed (gap ++ lexeme) rest [.behind (passed ++ gap) kind lexeme] := by
  refine ⟨[(gap, .behind (passed ++ gap) kind lexeme)], ?_, ?_, rfl⟩
  · exact .cons hgap hl hm ⟨rfl, rfl⟩ .nil
  · simp [spread, Token.behind]

theorem scan (h : Spells [] w [] ts) : Token.scan w = .ok ts := by
  obtain ⟨pieces, hcut, rfl, rfl⟩ := h
  exact Spacing.scan ⟨rfl, hcut, blanks_nil⟩

/-- A source spells its tokens anywhere, with their places moved. Its last blanks go to what
follows. -/
theorem of_spacing (h : Spacing source pieces last) (passed : Text) (hrest : Loose rest) :
    Spells passed (spread pieces []) (last ++ rest)
      ((pieces.map Prod.snd).map (Token.shift (Location.after passed))) := by
  have hcut := h.cut.shift passed
  rw [List.append_nil] at hcut
  refine ⟨_, hcut.of_maximal ?_, spread_shiftPieces _ _ _, map_snd_shiftPieces _ _⟩
  intro kind lexeme _
  exact hrest.behind_blanks h.blanks kind lexeme

end Spells

namespace Phrase

/-- The derivation of a source in parentheses that stand behind a text. -/
def enclose (passed source : Text) (p : Phrase (.tier .comparison)) : Phrase .factor :=
  .enclosed (.behind passed .leftParen ['(']) (p.shift (.after (passed ++ ['('])))
    (.behind (passed ++ '(' :: source) .rightParen [')']) rfl rfl

variable {passed gap source last : Text} {pieces : List (Text × Token)}
  {p : Phrase (.tier .comparison)}

theorem enclose_depth : (p.enclose passed source).depth = p.depth + 1 := by
  simp only [enclose, depth, shift_depth]

theorem enclose_tree (hs : ∀ t ∈ p.tokens, t.Sound) :
    (p.enclose passed source).tree = p.tree.shift (.after (passed ++ ['('])) := by
  exact shift_tree _ p hs

/-- Parentheses keep a source apart from what stands around it. -/
theorem spells_enclose (h : Spacing source pieces last) (hp : pieces.map Prod.snd = p.tokens)
    (hgap : Blanks gap) (passed rest : Text) :
    Spells passed (gap ++ '(' :: (source ++ [')'])) rest
      (p.enclose (passed ++ gap) source).tokens := by
  obtain rfl : source = spread pieces [] ++ last := by rw [spread_nil_append, h.source_eq]
  have hopen : Spells passed (gap ++ ['(']) (spread pieces [] ++ (last ++ [')']) ++ rest)
      [.behind (passed ++ gap) .leftParen ['(']] :=
    .single hgap rfl fun _ _ => id
  have hinner : Spells (passed ++ (gap ++ ['('])) (spread pieces []) (last ++ [')'] ++ rest)
      (p.shift (.after (passed ++ gap ++ ['(']))).tokens := by
    rw [shift_tokens, ← hp, List.append_assoc last, List.append_assoc passed]
    exact .of_spacing h _ (loose_cons (by decide) rest)
  have hclose : Spells (passed ++ (gap ++ ['(']) ++ spread pieces []) (last ++ [')']) rest
      [.behind (passed ++ (gap ++ ['(']) ++ spread pieces [] ++ last) .rightParen [')']] :=
    .single h.blanks rfl fun _ _ => id
  simpa [enclose, tokens] using hopen.append (hinner.append hclose)

def operation {tier : Tier} (f : Phrase .factor) (sign : Token) (g : Phrase .factor) (op : Operator)
    (isSign : tier.table sign.kind = some op) : Phrase (.tier .comparison) :=
  (two (lift tier f) sign (lift tier g) op isSign).toComparison

section Operation
variable {tier : Tier} (f : Phrase .factor) (sign : Token) (g : Phrase .factor) (op : Operator)
  (isSign : tier.table sign.kind = some op)

theorem operation_tokens :
    (operation f sign g op isSign).tokens = f.tokens ++ ([sign] ++ g.tokens) := by
  rw [operation, toComparison_tokens, tokens, lift_tokens, lift_tokens]
  rfl

theorem operation_depth : (operation f sign g op isSign).depth = max f.depth g.depth := by
  rw [operation, toComparison_depth, depth, lift_depth, lift_depth]

theorem operation_tree :
    (operation f sign g op isSign).tree = .operation op f.tree g.tree sign.place := by
  rw [operation, toComparison_tree, tree, lift_tree, lift_tree]

end Operation

end Phrase

theorem Operator.exists_sign {op : Operator} (h : op ∈ known) :
    ∃ tier kind, Tier.table tier kind = some op := by
  cases op with
  | sum => exact ⟨.sum, .plus, rfl⟩
  | difference => exact ⟨.sum, .minus, rfl⟩
  | product => exact ⟨.product, .times, rfl⟩
  | quotient => exact ⟨.product, .divide, rfl⟩
  | greater => exact ⟨.comparison, .greater, rfl⟩
  | greaterEqual => exact ⟨.comparison, .greaterEqual, rfl⟩
  | less => exact ⟨.comparison, .less, rfl⟩
  | lessEqual => exact ⟨.comparison, .lessEqual, rfl⟩
  | equal => exact ⟨.comparison, .equal, rfl⟩
  | other spelling => simp [known] at h

namespace Source

/-- A source that is a single statement, no assignment, with parentheses that nest at most `depth`
deep. -/
structure Expression (source : Text) (tree : Tree) (depth : Nat) : Prop where
  parse : parse source = .ok (.program [tree] .origin)
  ne_assignment : ∀ name right l, tree ≠ .assignment name right l
  nested : ∃ ts, Token.scan source = .ok ts ∧ (openWithin depth 0 ts).isSome

variable {a b source before after : Text} {x y tree : Tree} {n : Nat} {op : Operator}

theorem Expression.of_operation {left right : Tree} {l : Location} {ts : List Token}
    (hparse : Source.parse source = .ok (.program [.operation op left right l] .origin))
    (hscan : Token.scan source = .ok ts) (hopen : (openWithin n 0 ts).isSome) :
    Expression source (.operation op left right l) n := by
  refine ⟨hparse, ?_, ts, hscan, hopen⟩
  intro name right l h
  cases h

theorem Expression.exists_phrase (h : Expression source tree n) :
    ∃ (p : Phrase (.tier .comparison)) (pieces : List (Text × Token)) (last : Text),
      Spacing source pieces last ∧ pieces.map Prod.snd = p.tokens ∧ p.depth ≤ n ∧
        p.tree = tree ∧ ∀ t ∈ p.tokens, t.Sound := by
  obtain ⟨ts, hscan, hopen⟩ := h.nested
  obtain ⟨ts', hscan', ⟨-, hprogram⟩ | ⟨s, rfl, -, hprogram⟩⟩ := exists_tokens_of_parse h.parse
  · cases hprogram
  · obtain rfl := Except.ok.inj (hscan.symm.trans hscan')
    obtain ⟨pieces, last, hspacing, hpieces⟩ := Spacing.exists_of_scan hscan
    have hsound := Token.sound_of_scan hscan
    cases s with
    | assignment target equals right ht he =>
      cases hprogram
      exact absurd rfl (h.ne_assignment _ _ _)
    | comparison p =>
      cases hprogram
      have hdepth := p.depth_le_of_openWithin (Nat.zero_le n) hopen
      rw [Nat.zero_add] at hdepth
      exact ⟨p, pieces, last, hspacing, hpieces, hdepth, rfl, hsound⟩

/-- An expression in parentheses is a factor wherever it stands. -/
theorem Expression.exists_factor (h : Expression source tree n) {gap : Text} (hgap : Blanks gap)
    (passed : Text) : ∃ f : Phrase .factor, f.depth ≤ n + 1 ∧
      f.tree = tree.shift (.after (passed ++ gap ++ ['('])) ∧
      ∀ rest, Spells passed (gap ++ '(' :: (source ++ [')'])) rest f.tokens := by
  obtain ⟨p, pieces, last, hspacing, hp, hdepth, rfl, hsound⟩ := h.exists_phrase
  refine ⟨p.enclose (passed ++ gap) source, ?_, Phrase.enclose_tree hsound, ?_⟩
  · rw [Phrase.enclose_depth]
    omega
  · intro rest
    exact Phrase.spells_enclose hspacing hp hgap passed rest

theorem parse_of_spells {p : Phrase (.tier .comparison)} (h : Spells [] source [] p.tokens)
    (hd : p.depth ≤ maxDepth) : parse source = .ok (.program [p.tree] .origin) :=
  parse_of_scan (s := .comparison p) h.scan hd

/-- Parentheses around an expression move its tree by a column, on the first line. -/
theorem Expression.parse_enclosed (h : Expression source tree n) (hn : n < maxDepth) :
    Source.parse ('(' :: (source ++ [')'])) = .ok (.program [tree.shift ⟨0, 1⟩] .origin) := by
  obtain ⟨f, hdepth, htree, hspells⟩ := h.exists_factor blanks_nil []
  have hparse := parse_of_spells (p := .ofFactor f) (hspells []) (Nat.le_trans hdepth hn)
  have hwhole : f.ofFactor.tree = tree.shift ⟨0, 1⟩ := htree
  rw [hwhole] at hparse
  exact hparse

/-- Two sources in parentheses, with an operator and perhaps blanks between them. -/
def compose (a before : Text) (op : Operator) (after b : Text) : Text :=
  '(' :: (a ++ [')']) ++ (before ++ op.spelling ++ (after ++ '(' :: (b ++ [')'])))

theorem Expression.parse_compose (ha : Expression a x n) (hb : Expression b y n)
    (hn : n < maxDepth) (hop : op ∈ Operator.known) (hbefore : Blanks before)
    (hafter : Blanks after) : ∃ base l, Source.parse (compose a before op after b) =
      .ok (.program [.operation op (x.shift ⟨0, 1⟩) (y.shift base) l] .origin) := by
  obtain ⟨tier, kind, htable⟩ := Operator.exists_sign hop
  obtain ⟨f, hfdepth, hftree, hf⟩ := ha.exists_factor blanks_nil []
  obtain ⟨g, hgdepth, hgtree, hg⟩ :=
    hb.exists_factor hafter ('(' :: (a ++ [')']) ++ (before ++ op.spelling))
  -- whatever the sign is, it ends at the parenthesis or at the blanks in front of it
  have hloose : Loose ('(' :: (b ++ [')'])) := loose_cons (by decide) _
  obtain ⟨sign, rfl, hsign⟩ : ∃ sign : Token, sign.kind = kind ∧ Spells ('(' :: (a ++ [')']))
      (before ++ op.spelling) (after ++ '(' :: (b ++ [')']) ++ []) [sign] := by
    rw [List.append_nil]
    exact ⟨_, rfl, .single hbefore (Tier.lexeme_of_table htable) (hloose.behind_blanks hafter _ _)⟩
  have hspells : Spells [] (compose a before op after b) []
      (Phrase.operation f sign g op htable).tokens := by
    rw [Phrase.operation_tokens]
    exact (hf _).append (hsign.append (hg []))
  have hdepth : (Phrase.operation f sign g op htable).depth ≤ maxDepth := by
    rw [Phrase.operation_depth]
    omega
  have hparse := parse_of_spells hspells hdepth
  rw [Phrase.operation_tree, hftree, hgtree] at hparse
  exact ⟨_, _, hparse⟩

/-- What an operation on two sources comes to in a table, which stays as it is. The result is what
the operator gives for their values, or a name is reported that is not bound for the left one, else
for the right one. -/
inductive Applies (op : Operator) (a b source : Text) (symbols : Symbols) : Prop
  | value {u v z : Float} : evaluate a symbols = (.ok [u], symbols) →
      evaluate b symbols = (.ok [v], symbols) → op.Gives u v z →
      evaluate source symbols = (.ok [z], symbols) → Applies op a b source symbols
  | left {name : Text} {l l' : Location} :
      evaluate a symbols = (.error (.eval (.symbolNotFound name l)), symbols) →
      evaluate source symbols = (.error (.eval (.symbolNotFound name l')), symbols) →
      Applies op a b source symbols
  | right {u : Float} {name : Text} {l l' : Location} : evaluate a symbols = (.ok [u], symbols) →
      evaluate b symbols = (.error (.eval (.symbolNotFound name l)), symbols) →
      evaluate source symbols = (.error (.eval (.symbolNotFound name l')), symbols) →
      Applies op a b source symbols

theorem Applies.evaluate_eq {symbols : Symbols} {u v z : Float}
    (h : Applies op a b source symbols) (hu : (evaluate a symbols).1 = .ok [u])
    (hv : (evaluate b symbols).1 = .ok [v]) (hz : op.value u v = .ok z) :
    evaluate source symbols = (.ok [z], symbols) := by
  cases h with
  | value hau hbv hz' hresult =>
    rw [hau] at hu
    rw [hbv] at hv
    cases hu
    cases hv
    obtain rfl := Except.ok.inj (hz.symm.trans hz'.value_eq)
    exact hresult
  | left hae =>
    rw [hae] at hu
    cases hu
  | right _ hbe =>
    rw [hbe] at hv
    cases hv

section Single
variable {symbols symbols' : Symbols} (h : parse source = .ok (.program [tree] .origin))
include h

theorem evaluate_single_ok {value : Float}
    (hv : tree.evaluate Tree.walkLimit symbols = .ok value symbols') :
    evaluate source symbols = (.ok [value], symbols') := by
  rw [evaluate_of_parse h, Tree.run_single_ok _ hv]
  rfl

theorem evaluate_single_error {e : EvalError}
    (he : tree.evaluate Tree.walkLimit symbols = .error (.error e) symbols') :
    evaluate source symbols = (.error (.eval e), symbols') := by
  rw [evaluate_of_parse h, Tree.run_single_error _ he]
  rfl

end Single

/-- An expression has a value or an unbound name, as a source and as a part of a tree alike. -/
theorem Expression.evaluate_cases (h : Expression source tree n) (hn : n ≤ maxDepth) {limit : Nat}
    (hl : 196 ≤ limit) (symbols : Symbols) :
    (∃ value, tree.evaluate limit symbols = .ok value symbols ∧
      evaluate source symbols = (.ok [value], symbols)) ∨
    ∃ name l, tree.evaluate limit symbols = .error (.error (.symbolNotFound name l)) symbols ∧
      evaluate source symbols = (.error (.eval (.symbolNotFound name l)), symbols) := by
  obtain ⟨p, -, -, -, -, hdepth, rfl, -⟩ := h.exists_phrase
  have hheight : p.tree.height ≤ 196 := by
    have hp : p.tree.height ≤ 3 * p.depth + 3 + 1 := p.height_tree_le
    have hmax : maxDepth = 64 := rfl
    omega
  have hsame : p.tree.evaluate Tree.walkLimit = p.tree.evaluate limit :=
    Tree.evaluate_eq_of_height_le _ (Nat.le_trans hheight (by decide)) (Nat.le_trans hheight hl)
  rcases p.evaluate_tree (Nat.le_trans hheight hl) symbols with ⟨value, hv⟩ | ⟨t, -, -, he⟩
  · refine Or.inl ⟨value, hv, evaluate_single_ok h.parse ?_⟩
    rw [hsame, hv]
  · refine Or.inr ⟨t.lexeme, t.place, he, evaluate_single_error h.parse ?_⟩
    rw [hsame, he]

theorem Expression.applies (ha : Expression a x n) (hb : Expression b y n) (hn : n ≤ maxDepth)
    (hop : op ∈ Operator.known) {left right : Tree} {l : Location}
    (hparse : Source.parse source = .ok (.program [.operation op left right l] .origin))
    (hleft : x.unplaced = left.unplaced) (hright : y.unplaced = right.unplaced)
    (symbols : Symbols) : Applies op a b source symbols := by
  -- an operand is walked one level below the operation
  obtain ⟨limit, hwalk, hlimit⟩ : ∃ limit, Tree.walkLimit = limit + 1 ∧ 196 ≤ limit :=
    ⟨Tree.walkLimit - 1, by decide, by decide⟩
  rcases ha.evaluate_cases hn hlimit symbols with ⟨u, hu, hau⟩ | ⟨name, la, he, hae⟩
  · have hu' := Tree.evaluate_ok_of_unplaced hleft hu
    rcases hb.evaluate_cases hn hlimit symbols with ⟨v, hv, hbv⟩ | ⟨name, lb, he, hbe⟩
    · have hv' := Tree.evaluate_ok_of_unplaced hright hv
      obtain ⟨z, hz⟩ := Operator.exists_gives hop u v
      refine .value hau hbv hz (evaluate_single_ok hparse ?_)
      rw [hwalk, Tree.evaluate_operation]
      simp only [hu', hv', hz.value_eq]
    · obtain ⟨l', he'⟩ := Tree.evaluate_unbound_of_unplaced hright he
      apply Applies.right hau hbe (evaluate_single_error (e := .symbolNotFound name l') hparse ?_)
      rw [hwalk, Tree.evaluate_operation]
      simp only [hu', he']
  · obtain ⟨l', he'⟩ := Tree.evaluate_unbound_of_unplaced hleft he
    apply Applies.left hae (evaluate_single_error (e := .symbolNotFound name l') hparse ?_)
    rw [hwalk, Tree.evaluate_operation]
    simp only [he']

/-- Two expressions in parentheses with an operator between them are the operation on their trees
and on their values, and parentheses around one expression only move its tree. -/
theorem composition_applies_operator (a b : Text) (x y : Tree) (op : Operator)
    (ha : Expression a x 63) (hb : Expression b y 63) (hop : op ∈ Operator.known) :
    (∃ left right l,
      parse (['('] ++ a ++ [')'] ++ op.spelling ++ ['('] ++ b ++ [')']) =
        .ok (.program [.operation op left right l] .origin) ∧
      left.unplaced = x.unplaced ∧ right.unplaced = y.unplaced) ∧
    parse (['('] ++ a ++ [')']) = .ok (.program [x.shift ⟨0, 1⟩] .origin) ∧
    ∀ symbols,
      Applies op a b (['('] ++ a ++ [')'] ++ op.spelling ++ ['('] ++ b ++ [')']) symbols := by
  have hroom : 63 < maxDepth := by decide
  have hsource : ['('] ++ a ++ [')'] ++ op.spelling ++ ['('] ++ b ++ [')'] =
      compose a [] op [] b := by simp [compose]
  obtain ⟨base, l, hparse⟩ := ha.parse_compose hb hroom hop blanks_nil blanks_nil
  rw [hsource]
  refine ⟨⟨_, _, l, hparse, x.unplaced_shift _, y.unplaced_shift _⟩, ha.parse_enclosed hroom, ?_⟩
  exact ha.applies hb (Nat.le_of_lt hroom) hop hparse (x.unplaced_shift _).symm
    (y.unplaced_shift _).symm

/-- The left operand goes over two lines, and the right one may be zero. -/
theorem composition_across_lines :
    let a := "x\n + y".toList
    let b := "(y) < x".toList
    let x := Tree.operation .sum (.identifier ['x'] ⟨0, 0⟩) (.identifier ['y'] ⟨1, 3⟩) ⟨1, 1⟩
    let y := Tree.operation .less (.identifier ['y'] ⟨0, 1⟩) (.identifier ['x'] ⟨0, 6⟩) ⟨0, 4⟩
    let source := ['('] ++ a ++ [')'] ++ Operator.quotient.spelling ++ ['('] ++ b ++ [')']
    let positive : Symbols := ⟨[(['x'], 5.0), (['y'], 2.0)]⟩
    let negative : Symbols := ⟨[(['x'], -1.0), (['y'], 0.0)]⟩
    Expression a x 63 ∧ Expression b y 63 ∧ .quotient ∈ Operator.known ∧
    (∃ left right l, parse source = .ok (.program [.operation .quotient left right l] .origin) ∧
      left.unplaced = x.unplaced ∧ right.unplaced = y.unplaced) ∧
    parse (['('] ++ a ++ [')']) = .ok (.program [.operation .sum (.identifier ['x'] ⟨0, 1⟩)
      (.identifier ['y'] ⟨1, 3⟩) ⟨1, 1⟩] .origin) ∧
    (∀ symbols, Applies .quotient a b source symbols) ∧
    evaluate source positive = (.ok [7.0], positive) ∧
    evaluate source negative = (.ok [-Operator.infinity], negative) := by
  obtain ⟨hparse, hscan, hparse', hscan'⟩ :
      parse "x\n + y".toList = .ok (.program [.operation .sum (.identifier ['x'] ⟨0, 0⟩)
        (.identifier ['y'] ⟨1, 3⟩) ⟨1, 1⟩] .origin) ∧
      Token.scan "x\n + y".toList = .ok [⟨.identifier, ['x'], 0, 0⟩, ⟨.plus, ['+'], 1, 1⟩,
        ⟨.identifier, ['y'], 1, 3⟩] ∧
      parse "(y) < x".toList = .ok (.program [.operation .less (.identifier ['y'] ⟨0, 1⟩)
        (.identifier ['x'] ⟨0, 6⟩) ⟨0, 4⟩] .origin) ∧
      Token.scan "(y) < x".toList = .ok [⟨.leftParen, ['('], 0, 0⟩, ⟨.identifier, ['y'], 0, 1⟩,
        ⟨.rightParen, [')'], 0, 2⟩, ⟨.less, ['<'], 0, 4⟩, ⟨.identifier, ['x'], 0, 6⟩] := by
    refine ⟨?_, ?_, ?_, ?_⟩ <;> cbv
  have ha := Expression.of_operation (n := 63) hparse hscan (by decide)
  have hb := Expression.of_operation (n := 63) hparse' hscan' (by decide)
  have hop : Operator.quotient ∈ Operator.known := by decide
  obtain ⟨htree, henclosed, happlies⟩ := composition_applies_operator _ _ _ _ .quotient ha hb hop
  refine ⟨ha, hb, hop, htree, henclosed, happlies, ?_, ?_⟩
  · exact (happlies _).evaluate_eq (u := 7.0) (v := 1.0) (by decide +kernel) (by decide +kernel)
      (by decide +kernel)
  · exact (happlies _).evaluate_eq (u := -1.0) (v := 0.0) (by decide +kernel) (by decide +kernel)
      (by decide +kernel)

end Source

end Calculator
