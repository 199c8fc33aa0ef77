import Calculator.Proofs.Closure
import Calculator.Proofs.EarliestError
import Calculator.Proofs.ReadBack
import Calculator.Proofs.Respacing

/-! Printing and parsing again. The source form of a tree has a derivation with one pair of
parentheses for each operation, and blanks around each operator. It is cut into the tokens of this
derivation, so it is parsed to the same tree unless more than 64 operations are nested. -/

set_option autoImplicit false

namespace Calculator

namespace Tree

mutual

def numbers : Tree → List Float
  | .number value _ => [value]
  | .identifier .. => []
  | .operation _ left right _ => left.numbers ++ right.numbers
  | .assignment _ right _ => right.numbers
  | .program statements _ => numbersAll statements

def numbersAll : List Tree → List Float
  | [] => []
  | t :: rest => t.numbers ++ numbersAll rest

end

/-- At most `n` operations lie on a way down from a node, that node counted. -/
def Within (n : Nat) (t : Tree) : Prop := ∀ path, Path t path → (t :: path).countP isOperation ≤ n

section Within
variable {t : Tree} {n : Nat}

theorem within_iff (h : t.isOperation = false) :
    t.Within n ↔ ∀ child ∈ t.children, child.Within n := by
  have hcount (path : List Tree) : (t :: path).countP isOperation = path.countP isOperation :=
    List.countP_cons_of_neg (by simp [h])
  constructor
  · intro hw child hc path hpath
    rw [← hcount]
    exact hw (child :: path) (.cons hc hpath)
  · intro hw path hpath
    rw [hcount]
    cases hpath with
    | nil => exact Nat.zero_le n
    | cons hc hpath => exact hw _ hc _ hpath

theorem within_succ_iff (h : t.isOperation = true) :
    t.Within (n + 1) ↔ ∀ child ∈ t.children, child.Within n := by
  have hcount (path : List Tree) : (t :: path).countP isOperation = path.countP isOperation + 1 :=
    List.countP_cons_of_pos h
  constructor
  · intro hw child hc path hpath
    have hle := hw (child :: path) (.cons hc hpath)
    rw [hcount] at hle
    omega
  · intro hw path hpath
    rw [hcount]
    cases hpath with
    | nil => exact Nat.succ_le_succ (Nat.zero_le n)
    | cons hc hpath => exact Nat.succ_le_succ (hw _ hc _ hpath)

theorem not_within_zero (h : t.isOperation = true) : ¬ t.Within 0 := by
  intro hw
  have hle := hw [] .nil
  rw [List.countP_cons_of_pos h] at hle
  omega

end Within

end Tree

theorem Tier.lexeme_of_table {tier : Tier} {kind : TokenKind} {op : Operator}
    (h : tier.table kind = some op) : kind.Lexeme op.spelling := by
  cases sign_of_table h <;> rfl

theorem Token.read?_lexeme {t : Token} (hl : NumberLiteral t.lexeme) :
    Numeral.read? t.lexeme = some t.value := by
  obtain ⟨x, hx⟩ := Option.isSome_iff_exists.mp (Numeral.read?_isSome hl)
  rw [value, hx, Option.getD_some]

/-- A finite number is printed as a literal that is read as the same number. -/
theorem Token.write_value {t : Token} (hk : t.kind = .number) (hl : t.kind.Lexeme t.lexeme)
    (hfinite : t.value.isFinite) :
    NumberLiteral (Layout.shown.write t.value) ∧
      Numeral.read? (Layout.shown.write t.value) = some t.value := by
  rw [hk] at hl
  exact write_of_read? Layout.shown hl (Token.read?_lexeme hl) hfinite

namespace Phrase

def lift : (tier : Tier) → Phrase .factor → Phrase tier.below
  | .product, p => p
  | .sum, p => @one .product p
  | .comparison, p => @one .sum (@one .product p)

/-- The derivation of the source form of a tree: parentheses stand around operations only. Its
tokens stand nowhere in particular. -/
def printed : {level : Level} → Phrase level → Phrase .factor
  | _, .number t _ => .number ⟨.number, Layout.shown.write t.value, 0, 0⟩ rfl
  | _, .identifier t _ => .identifier ⟨.identifier, t.lexeme, 0, 0⟩ rfl
  | _, .enclosed _ inner _ _ _ => inner.printed
  | _, .one operand => operand.printed
  | _, @two tier left sign right op isSign =>
    .enclosed ⟨.leftParen, ['('], 0, 0⟩
      (toComparison (.two (lift tier left.printed) ⟨sign.kind, op.spelling, 0, 0⟩
        (lift tier right.printed) op isSign))
      ⟨.rightParen, [')'], 0, 0⟩ rfl rfl

/-- The tokens of a phrase with the gap in front of each: none but the blanks around operators and
the one in front of the phrase. -/
def pieces : {level : Level} → Phrase level → Text → List (Text × Token)
  | _, .number t _, gap => [(gap, t)]
  | _, .identifier t _, gap => [(gap, t)]
  | _, .enclosed opening inner closing _ _, gap =>
    (gap, opening) :: (inner.pieces [] ++ [([], closing)])
  | _, .one operand, gap => operand.pieces gap
  | _, .two left sign right _ _, gap => left.pieces gap ++ ([' '], sign) :: right.pieces [' ']

section Lift
variable (tier : Tier) (p : Phrase .factor)

theorem lift_tokens : (lift tier p).tokens = p.tokens := by cases tier <;> rfl

theorem lift_depth : (lift tier p).depth = p.depth := by cases tier <;> rfl

theorem lift_tree : (lift tier p).tree = p.tree := by cases tier <;> rfl

theorem lift_pieces (gap : Text) : (lift tier p).pieces gap = p.pieces gap := by cases tier <;> rfl

theorem toComparison_pieces {tier : Tier} (p : Phrase (.tier tier)) (gap : Text) :
    p.toComparison.pieces gap = p.pieces gap := by cases tier <;> rfl

end Lift

variable {level : Level}

theorem map_snd_pieces (p : Phrase level) (gap : Text) :
    (p.pieces gap).map Prod.snd = p.tokens := by
  induction p generalizing gap with
  | number | identifier => rfl
  | enclosed opening inner closing ho hc ih => simp [pieces, tokens, ih]
  | one operand ih => exact ih gap
  | two left sign right op isSign ihl ihr => simp [pieces, tokens, ihl, ihr]

theorem spread_pieces (p : Phrase level) (gap rest : Text) :
    spread (p.pieces gap) rest = gap ++ spread (p.pieces []) rest := by
  induction p generalizing rest with
  | number | identifier | enclosed => rfl
  | one operand ih => exact ih rest
  | two left sign right op isSign ihl ihr =>
    rw [pieces, pieces, spread_append, spread_append, ihl]

/-- Blanks, operators and parentheses keep the words of a phrase apart. -/
theorem spaced_pieces (p : Phrase level) {gap rest : Text} (hgap : Blanks gap) (hrest : Loose rest)
    (hl : ∀ t ∈ p.tokens, t.kind.Lexeme t.lexeme) : Spaced (p.pieces gap) rest := by
  induction p generalizing gap rest with
  | number t ht => exact ⟨hgap, hl t (List.mem_singleton_self t), hrest _ _, trivial⟩
  | identifier t ht => exact ⟨hgap, hl t (List.mem_singleton_self t), hrest _ _, trivial⟩
  | enclosed opening inner closing ho hc ih =>
    have hopening := hl opening List.mem_cons_self
    have hclosing := hl closing (by simp [tokens])
    have hinner : ∀ t ∈ inner.tokens, t.kind.Lexeme t.lexeme := fun t ht =>
      hl t (List.mem_cons_of_mem _ (List.mem_append_left _ ht))
    have hclose : spread [([], closing)] rest = ')' :: rest := by
      rw [hc] at hclosing
      obtain h : [')'] = closing.lexeme := Option.some.inj hclosing
      simp [spread, ← h]
    refine ⟨hgap, hopening, ?_, ?_⟩
    · rw [ho]
      exact fun _ _ => id
    · rw [spaced_append, hclose]
      exact ⟨ih blanks_nil (loose_cons (by decide) rest) hinner, blanks_nil, hclosing, hrest _ _,
        trivial⟩
  | one operand ih => exact ih hgap hrest hl
  | two left sign right op isSign ihl ihr =>
    obtain ⟨hleft, hsign, hright⟩ : (∀ t ∈ left.tokens, t.kind.Lexeme t.lexeme) ∧
        sign.kind.Lexeme sign.lexeme ∧ ∀ t ∈ right.tokens, t.kind.Lexeme t.lexeme := by
      simpa only [tokens, List.forall_mem_append, List.forall_mem_cons] using hl
    rw [pieces, spaced_append]
    refine ⟨ihl hgap (loose_cons (by decide) _) hleft, blanks_space, hsign, ?_,
      ihr blanks_space hrest hright⟩
    rw [spread_pieces]
    exact loose_cons (by decide) _ _ _

/-- The source form of a tree is its printed derivation. -/
theorem spread_printed (p : Phrase level) (gap rest : Text) :
    spread (p.printed.pieces gap) rest = gap ++ (p.tree.text ++ rest) := by
  induction p generalizing gap rest with
  | number | identifier => rfl
  | enclosed opening inner closing ho hc ih => exact ih gap rest
  | one operand ih => exact ih gap rest
  | @two tier left sign right op isSign ihl ihr =>
    simp only [printed, pieces, toComparison_pieces, lift_pieces, spread, spread_append, ihl, ihr,
      tree, Tree.text]
    simp

theorem printed_depth_le_iff (p : Phrase level) (n : Nat) :
    p.printed.depth ≤ n ↔ p.tree.Within n := by
  induction p generalizing n with
  | number t ht =>
    rw [Tree.within_iff rfl]
    exact iff_of_true (Nat.zero_le n) (List.forall_mem_nil _)
  | identifier t ht =>
    rw [Tree.within_iff rfl]
    exact iff_of_true (Nat.zero_le n) (List.forall_mem_nil _)
  | enclosed opening inner closing ho hc ih => exact ih n
  | one operand ih => exact ih n
  | @two tier left sign right op isSign ihl ihr =>
    have hdepth : (two left sign right op isSign).printed.depth =
        max left.printed.depth right.printed.depth + 1 := by
      rw [printed, depth, toComparison_depth, depth, lift_depth, lift_depth]
    rw [hdepth]
    cases n with
    | zero => exact iff_of_false (Nat.not_succ_le_zero _) (Tree.not_within_zero rfl)
    | succ n =>
      rw [Nat.succ_le_succ_iff, Nat.max_le, ihl, ihr, tree, Tree.within_succ_iff rfl]
      simp [Tree.children]

/-- Phrases that are printed as they were meant: their words are lexemes, and their numbers are
finite. -/
structure Printable (p : Phrase level) : Prop where
  lexeme : ∀ t ∈ p.tokens, t.kind.Lexeme t.lexeme
  finite : ∀ x ∈ p.tree.numbers, x.isFinite

namespace Printable

theorem inner {opening closing : Token} {inner : Phrase (.tier .comparison)}
    {ho : opening.kind = .leftParen} {hc : closing.kind = .rightParen}
    (h : (enclosed opening inner closing ho hc).Printable) : inner.Printable := by
  refine ⟨?_, h.finite⟩
  intro t ht
  exact h.lexeme t (List.mem_cons_of_mem _ (List.mem_append_left _ ht))

section Two
variable {tier : Tier} {p q : Phrase tier.below} {sign : Token} {op : Operator}
  {isSign : tier.table sign.kind = some op} (h : (two p sign q op isSign).Printable)
include h

theorem left : p.Printable := by
  constructor
  · intro t ht
    exact h.lexeme t (List.mem_append_left _ ht)
  · intro x hx
    exact h.finite x (List.mem_append_left _ hx)

theorem right : q.Printable := by
  constructor
  · intro t ht
    exact h.lexeme t (List.mem_append_right _ (List.mem_cons_of_mem _ ht))
  · intro x hx
    exact h.finite x (List.mem_append_right _ hx)

end Two

theorem write_value {t : Token} {ht : t.kind = .number} (h : (number t ht).Printable) :
    NumberLiteral (Layout.shown.write t.value) ∧
      Numeral.read? (Layout.shown.write t.value) = some t.value :=
  Token.write_value ht (h.lexeme t (List.mem_singleton_self t))
    (h.finite _ (List.mem_singleton_self _))

end Printable

theorem printed_lexeme {p : Phrase level} (h : p.Printable) :
    ∀ t ∈ p.printed.tokens, t.kind.Lexeme t.lexeme := by
  induction p with
  | number t ht => exact List.forall_mem_singleton.mpr h.write_value.1
  | identifier t ht =>
    have hl := h.lexeme t (List.mem_singleton_self t)
    rw [ht] at hl
    exact List.forall_mem_singleton.mpr hl
  | enclosed opening inner closing ho hc ih => exact ih h.inner
  | one operand ih => exact ih ⟨h.lexeme, h.finite⟩
  | @two tier left sign right op isSign ihl ihr =>
    rw [printed, tokens, toComparison_tokens, tokens, lift_tokens, lift_tokens]
    simp only [List.forall_mem_cons, List.forall_mem_append]
    exact ⟨rfl, ⟨ihl h.left, Tier.lexeme_of_table isSign, ihr h.right⟩, rfl, List.forall_mem_nil _⟩

theorem printed_tree {p : Phrase level} (h : p.Printable) :
    p.printed.tree.unplaced = p.tree.unplaced := by
  induction p with
  | number t ht =>
    have hvalue : Token.value ⟨.number, Layout.shown.write t.value, 0, 0⟩ = t.value := by
      rw [Token.value, h.write_value.2, Option.getD_some]
    rw [printed, tree, tree, Tree.unplaced, Tree.unplaced, hvalue]
  | identifier t ht => rfl
  | enclosed opening inner closing ho hc ih => exact ih h.inner
  | one operand ih => exact ih ⟨h.lexeme, h.finite⟩
  | @two tier left sign right op isSign ihl ihr =>
    rw [printed, tree, toComparison_tree, tree, lift_tree, lift_tree, tree, Tree.unplaced,
      Tree.unplaced, ihl h.left, ihr h.right]

end Phrase

namespace Sentence

def printed : Sentence → Sentence
  | .assignment target _ right _ _ =>
    .assignment ⟨.identifier, target.lexeme, 0, 0⟩ ⟨.assign, ['='], 0, 0⟩ (.ofFactor right.printed)
      rfl rfl
  | .comparison phrase => .comparison (.ofFactor phrase.printed)

def pieces : Sentence → List (Text × Token)
  | .assignment target equals right _ _ => ([], target) :: ([' '], equals) :: right.pieces [' ']
  | .comparison phrase => phrase.pieces []

structure Printable (s : Sentence) : Prop where
  lexeme : ∀ t ∈ s.tokens, t.kind.Lexeme t.lexeme
  finite : ∀ x ∈ s.tree.numbers, x.isFinite

theorem Printable.right {target equals : Token} {right : Phrase (.tier .comparison)}
    {ht : target.kind = .identifier} {he : equals.kind = .assign}
    (h : (assignment target equals right ht he).Printable) : right.Printable := by
  refine ⟨?_, h.finite⟩
  intro t hmem
  exact h.lexeme t (List.mem_cons_of_mem _ (List.mem_cons_of_mem _ hmem))

theorem map_snd_pieces (s : Sentence) : s.pieces.map Prod.snd = s.tokens := by
  cases s with
  | assignment target equals right ht he => simp [pieces, tokens, right.map_snd_pieces]
  | comparison phrase => exact phrase.map_snd_pieces []

theorem spread_printed (s : Sentence) : spread s.printed.pieces [] = s.tree.text := by
  cases s with
  | assignment target equals right ht he =>
    have hright : spread ((Phrase.ofFactor right.printed).pieces [' ']) [] =
        ' ' :: right.tree.text := by
      have h := right.spread_printed [' '] []
      rw [List.append_nil] at h
      exact h
    simp [printed, pieces, spread, hright, tree, Tree.text]
  | comparison phrase =>
    have h := phrase.spread_printed [] []
    rw [List.append_nil] at h
    exact h

theorem spaced_printed {s : Sentence} (h : s.Printable) : Spaced s.printed.pieces [] := by
  cases s with
  | assignment target equals right ht he =>
    have hname := h.lexeme target List.mem_cons_self
    rw [ht] at hname
    have hright :=
      right.printed.spaced_pieces blanks_space loose_nil (Phrase.printed_lexeme h.right)
    refine ⟨blanks_nil, hname, loose_cons (by decide) _ _ _, blanks_space, rfl, ?_, hright⟩
    rw [Phrase.spread_pieces]
    exact loose_cons (by decide) _ _ _
  | comparison phrase =>
    exact phrase.printed.spaced_pieces blanks_nil loose_nil
      (Phrase.printed_lexeme ⟨h.lexeme, h.finite⟩)

theorem printed_tree {s : Sentence} (h : s.Printable) :
    s.printed.tree.unplaced = s.tree.unplaced := by
  cases s with
  | assignment target equals right ht he =>
    have hright : (Phrase.ofFactor right.printed).tree.unplaced = right.tree.unplaced :=
      Phrase.printed_tree h.right
    rw [printed, tree, tree, Tree.unplaced, Tree.unplaced, hright]
  | comparison phrase => exact Phrase.printed_tree (p := phrase) ⟨h.lexeme, h.finite⟩

theorem printed_depth_le_iff (s : Sentence) (n : Nat) : s.printed.depth ≤ n ↔ s.tree.Within n := by
  cases s with
  | assignment target equals right ht he =>
    rw [tree, Tree.within_iff rfl]
    exact (right.printed_depth_le_iff n).trans (by simp [Tree.children])
  | comparison phrase => exact phrase.printed_depth_le_iff n

/-- The source form of a statement is cut into the tokens of a statement with the same tree. -/
theorem exists_scan_text {s : Sentence} (h : s.Printable) :
    ∃ r : Sentence, Token.scan s.tree.text = .ok r.tokens ∧ r.tree.unplaced = s.tree.unplaced ∧
      ∀ n, r.depth ≤ n ↔ s.tree.Within n := by
  obtain ⟨pieces, hspacing, hwords⟩ := (spaced_printed h).exists_spacing blanks_nil
  rw [s.printed.map_snd_pieces] at hwords
  obtain ⟨r, hr, hdepth, htree⟩ := s.printed.exists_of_words hwords
  refine ⟨r, ?_, htree.trans (printed_tree h), ?_⟩
  · rw [hr, ← s.spread_printed]
    exact hspacing.scan
  · intro n
    rw [hdepth, printed_depth_le_iff]

end Sentence

theorem Token.lexeme_of_scan {source : Text} {ts : List Token} (h : Token.scan source = .ok ts) :
    ∀ t ∈ ts, t.kind.Lexeme t.lexeme := by
  obtain ⟨pieces, last, hspacing, rfl⟩ := Spacing.exists_of_scan h
  intro t ht
  obtain ⟨⟨gap, t⟩, hp, rfl⟩ := List.mem_map.mp ht
  obtain ⟨lead, more, rfl⟩ := List.append_of_mem hp
  exact hspacing.cut.middle.1

namespace Source

variable {source : Text} {tree : Tree} {s : Sentence}

theorem exists_sentence_of_parse (h : parse source = .ok tree) : tree = .program [] .origin ∨
    ∃ s : Sentence, (∀ t ∈ s.tokens, t.kind.Lexeme t.lexeme) ∧
      tree = .program [s.tree] .origin := by
  obtain ⟨ts, hscan, ⟨-, rfl⟩ | ⟨s, rfl, -, rfl⟩⟩ := exists_tokens_of_parse h
  · exact Or.inl rfl
  · exact Or.inr ⟨s, Token.lexeme_of_scan hscan, rfl⟩

theorem parse_of_scan (hscan : Token.scan source = .ok s.tokens) (hd : s.depth ≤ maxDepth) :
    parse source = .ok (.program [s.tree] .origin) := by
  have hrun := s.run_program hd (Token.sound_of_scan hscan)
  simp only [parse, hscan, ofTokens_of_run hrun]

/-- A statement that nests too deep is refused at an opening parenthesis. -/
theorem parse_of_scan_deep (hscan : Token.scan source = .ok s.tokens) (hd : maxDepth < s.depth) :
    ∃ l, parse source = .error (.parse (.grammar (.unexpectedToken ['('] l))) := by
  obtain ⟨before, t, after, hsplit, hk, -, href⟩ := s.refuses_deep hd (Token.sound_of_scan hscan)
  have hl := Token.lexeme_of_scan hscan t (by simp [hsplit])
  rw [hk] at hl
  obtain hparen : ['('] = t.lexeme := Option.some.inj hl
  obtain ⟨d, hrun⟩ := href.run_program after
  refine ⟨t.place, ?_⟩
  simp only [parse, hscan, hsplit, ofTokens_of_run hrun, hparen]

/-- What becomes of the source form of a program. -/
theorem parse_text_cases (h : parse source = .ok tree) (hfinite : ∀ x ∈ tree.numbers, x.isFinite) :
    (tree.Within maxDepth ∧ ∃ tree', parse tree.text = .ok tree' ∧ tree'.unplaced = tree.unplaced) ∨
    (¬ tree.Within maxDepth ∧
      ∃ l, parse tree.text = .error (.parse (.grammar (.unexpectedToken ['('] l)))) := by
  rcases exists_sentence_of_parse h with rfl | ⟨s, hl, rfl⟩
  · have hscan : Token.scan [] = .ok [] := (scan_eq_nil_iff []).mpr blanks_nil
    have hempty : parse (Tree.program [] .origin).text = .ok (.program [] .origin) := by
      change parse [] = _
      simp only [parse, hscan, ofTokens_nil]
    refine Or.inl ⟨?_, _, hempty, rfl⟩
    rw [Tree.within_iff rfl]
    exact List.forall_mem_nil _
  · have hprintable : s.Printable := by
      refine ⟨hl, fun x hx => hfinite x ?_⟩
      exact List.mem_append_left _ hx
    have hwithin : (Tree.program [s.tree] .origin).Within maxDepth ↔ s.tree.Within maxDepth := by
      rw [Tree.within_iff rfl]
      simp [Tree.children]
    have htext : (Tree.program [s.tree] .origin).text = s.tree.text := by
      simp [Tree.text, Tree.texts, Text.join]
    obtain ⟨r, hscan, htree, hdepth⟩ := Sentence.exists_scan_text hprintable
    rw [hwithin, htext, ← hdepth]
    by_cases hd : r.depth ≤ maxDepth
    · refine Or.inl ⟨hd, _, parse_of_scan hscan hd, ?_⟩
      simp only [Tree.unplaced, Tree.unplacedAll, htree]
    · exact Or.inr ⟨hd, parse_of_scan_deep hscan (Nat.lt_of_not_le hd)⟩

theorem isOperation_of_parse (h : parse source = .ok tree) : tree.isOperation = false := by
  rcases exists_sentence_of_parse h with rfl | ⟨s, -, rfl⟩ <;> rfl

/-- What is printed for a program is parsed again exactly if at most 64 operations are nested in
it, and gives the same tree up to places. -/
theorem parse_text_round_trip (h : parse source = .ok tree)
    (hfinite : ∀ x ∈ tree.numbers, x.isFinite) :
    ((∃ tree', parse tree.text = .ok tree') ↔
      ∀ path, tree.Path path → path.countP Tree.isOperation ≤ 64) ∧
    (∀ tree', parse tree.text = .ok tree' →
      tree'.unplaced = tree.unplaced ∧ tree'.text = tree.text ∧
      ∀ (limit : Nat) (symbols : Symbols),
        (symbols.run (tree'.run limit)).1.mapError EvalError.unplaced =
          (symbols.run (tree.run limit)).1.mapError EvalError.unplaced ∧
        (symbols.run (tree'.run limit)).2 = (symbols.run (tree.run limit)).2) ∧
    (∀ e, parse tree.text = .error e →
      ∃ l, e = .parse (.grammar (.unexpectedToken ['('] l))) := by
  have hwithin : tree.Within maxDepth ↔
      ∀ path, tree.Path path → path.countP Tree.isOperation ≤ 64 := by
    have hroot := isOperation_of_parse h
    simp [Tree.Within, hroot, maxDepth]
  rw [← hwithin]
  rcases parse_text_cases h hfinite with ⟨hw, tree', hok, hsame⟩ | ⟨hw, l, herror⟩
  · refine ⟨iff_of_true ⟨tree', hok⟩ hw, ?_, ?_⟩
    · intro again hagain
      obtain rfl : tree' = again := Except.ok.inj (hok.symm.trans hagain)
      refine ⟨hsame, ?_, Tree.run_eq_of_unplaced hsame⟩
      rw [← tree'.text_unplaced, hsame, tree.text_unplaced]
    · intro e he
      rw [hok] at he
      cases he
  · refine ⟨iff_of_false ?_ hw, ?_, ?_⟩
    · rintro ⟨tree', hok⟩
      rw [herror] at hok
      cases hok
    · intro tree' hok
      rw [herror] at hok
      cases hok
    · intro e he
      rw [herror] at he
      exact ⟨l, (Except.error.inj he).symm⟩

theorem parse_text_scaled_sum :
    ∃ tree, parse "x = (1+y)*2.5e3".toList = .ok tree ∧ (∀ x ∈ tree.numbers, x.isFinite) ∧
      tree.text = "x = ((1.0 + y) * 2500.0)".toList ∧
      ∃ tree', parse tree.text = .ok tree' ∧ tree'.unplaced = tree.unplaced ∧
        tree'.text = tree.text := by
  have hscan : Token.scan "x = (1+y)*2.5e3".toList = .ok [⟨.identifier, ['x'], 0, 0⟩,
      ⟨.assign, ['='], 0, 2⟩, ⟨.leftParen, ['('], 0, 4⟩, ⟨.number, ['1'], 0, 5⟩,
      ⟨.plus, ['+'], 0, 6⟩, ⟨.identifier, ['y'], 0, 7⟩, ⟨.rightParen, [')'], 0, 8⟩, ⟨.times, ['*'], 0, 9⟩,
      ⟨.number, ['2', '.', '5', 'e', '3'], 0, 10⟩] := by cbv
  let right : Phrase (.tier .comparison) := Phrase.toComparison (@Phrase.two .product
    (.enclosed ⟨.leftParen, ['('], 0, 4⟩
      (Phrase.toComparison (@Phrase.two .sum
        (@Phrase.one .product (.number ⟨.number, ['1'], 0, 5⟩ rfl)) ⟨.plus, ['+'], 0, 6⟩
        (@Phrase.one .product (.identifier ⟨.identifier, ['y'], 0, 7⟩ rfl)) .sum rfl))
      ⟨.rightParen, [')'], 0, 8⟩ rfl rfl)
    ⟨.times, ['*'], 0, 9⟩ (.number ⟨.number, ['2', '.', '5', 'e', '3'], 0, 10⟩ rfl) .product rfl)
  let s : Sentence := .assignment ⟨.identifier, ['x'], 0, 0⟩ ⟨.assign, ['='], 0, 2⟩ right rfl rfl
  have hparse : parse "x = (1+y)*2.5e3".toList = .ok (.program [s.tree] .origin) :=
    parse_of_scan hscan (by decide)
  have hfinite : ∀ x ∈ (Tree.program [s.tree] .origin).numbers, x.isFinite := by decide +kernel
  have htext : (Tree.program [s.tree] .origin).text = "x = ((1.0 + y) * 2500.0)".toList := by
    decide +kernel
  obtain ⟨hiff, hsame, -⟩ := parse_text_round_trip hparse hfinite
  have hshallow : ∀ path, (Tree.program [s.tree] .origin).Path path →
      path.countP Tree.isOperation ≤ 64 := by
    intro path hpath
    have hlength := hpath.length_lt
    have hheight : (Tree.program [s.tree] .origin).height = 5 := rfl
    have hcount : path.countP Tree.isOperation ≤ path.length := List.countP_le_length
    omega
  obtain ⟨tree', htree'⟩ := hiff.mpr hshallow
  exact ⟨_, hparse, hfinite, htext, tree', htree', (hsame tree' htree').1, (hsame tree' htree').2.1⟩

end Source

end Calculator
