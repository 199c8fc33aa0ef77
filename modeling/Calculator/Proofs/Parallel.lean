import Calculator.Proofs.Respacing

/-! Two runs of the parser, on tokens that say the same at other places. Both take the same steps:
they end with trees that differ in places only, or they stop at the same index with errors that
differ in places only. So the parser uses places for its reports and for nothing else. -/

set_option autoImplicit false

namespace Calculator

open Cursor (between)
open Calculator.Parser

def GrammarError.unplaced : GrammarError → GrammarError
  | .unexpectedToken lexeme _ => .unexpectedToken lexeme .origin
  | .unexpectedEnd _ => .unexpectedEnd .origin
  | .expectedClose found _ => .expectedClose found .origin

/-- The errors between the tokens passed and those ahead: the next token is blamed for them, or
there is none and something is missed behind the last one. -/
def GrammarError.Between (passed : List Token) : List Token → GrammarError → Prop
  | t :: _, e => t.Blamed e
  | [], e => (lastPlace passed).Missed e

/-- Two tokens that say the same, each at a place of its own. -/
structure Token.Echoes (t u : Token) : Prop where
  word : t.word = u.word
  left : t.Sound
  right : u.Sound

theorem Token.Echoes.kind {t u : Token} (h : t.Echoes u) : u.kind = t.kind :=
  Token.kind_of_word h.word.symm

theorem Token.Echoes.lexeme {t u : Token} (h : t.Echoes u) : u.lexeme = t.lexeme :=
  Token.lexeme_of_word h.word.symm

/-- Two rows of tokens that say the same. -/
abbrev Echo := List.Forall₂ Token.Echoes

namespace Echo

variable {ts us passed passed' : List Token} {t u : Token}

theorem of_words (h : us.map Token.word = ts.map Token.word) (ht : ∀ t ∈ ts, t.Sound)
    (hu : ∀ u ∈ us, u.Sound) : Echo ts us := by
  induction ts generalizing us with
  | nil =>
    obtain rfl := List.map_eq_nil_iff.mp h
    exact .nil
  | cons t ts ih =>
    obtain ⟨u, us, rfl, hword, hwords⟩ := List.map_eq_cons_iff.mp h
    obtain ⟨htSound, htsSound⟩ := List.forall_mem_cons.mp ht
    obtain ⟨huSound, husSound⟩ := List.forall_mem_cons.mp hu
    exact .cons ⟨hword.symm, htSound, huSound⟩ (ih hwords htsSound husSound)

theorem left (h : Echo ts us) : ∀ t ∈ ts, t.Sound := by
  induction h with
  | nil => exact List.forall_mem_nil _
  | cons head _ ih => exact List.forall_mem_cons.mpr ⟨head.left, ih⟩

theorem right (h : Echo ts us) : ∀ u ∈ us, u.Sound := by
  induction h with
  | nil => exact List.forall_mem_nil _
  | cons head _ ih => exact List.forall_mem_cons.mpr ⟨head.right, ih⟩

theorem symm (h : Echo ts us) : Echo us ts :=
  List.Forall₂.flip (h.imp fun _ _ ht => ⟨ht.word.symm, ht.right, ht.left⟩)

theorem concat (h : Echo passed passed') (ht : t.Echoes u) :
    Echo (passed ++ [t]) (passed' ++ [u]) :=
  List.rel_append h (.cons ht .nil)

theorem assigns (h : Echo ts us) (ha : Assigns ts) : Assigns us := by
  obtain ⟨target, equals, rest, rfl, htarget, hequals⟩ := ha
  cases h with
  | cons ht hrest =>
    cases hrest with
    | cons he hrest =>
      exact ⟨_, _, _, rfl, ht.kind.trans htarget, he.kind.trans hequals⟩

end Echo

/-- Two ends of parser runs on the tokens `ts` and `us`. A success leaves `d` parentheses open. -/
inductive Tally (ts us : List Token) (d : Nat) : EStateM.Result ParseFailure Cursor Tree →
    EStateM.Result ParseFailure Cursor Tree → Prop
  | ok {tree tree' : Tree} {passed passed' ahead ahead' : List Token} :
      Echo passed passed' → Echo ahead ahead' → passed ++ ahead = ts → passed' ++ ahead' = us →
      tree.unplaced = tree'.unplaced →
      Tally ts us d (.ok tree (between passed ahead d)) (.ok tree' (between passed' ahead' d))
  | error {e e' : GrammarError} {passed passed' ahead ahead' : List Token} {depth : Nat} :
      Echo passed passed' → passed ++ ahead = ts → passed' ++ ahead' = us →
      e.Between passed ahead → e'.Between passed' ahead' → e.unplaced = e'.unplaced →
      Tally ts us d (.error (.grammar e) (between passed ahead depth))
        (.error (.grammar e') (between passed' ahead' depth))

/-- A parser that does the same on tokens that say the same. -/
def Parallel (parser : Parser Tree) : Prop :=
  ∀ (passed passed' ahead ahead' : List Token) (d : Nat), Echo passed passed' → Echo ahead ahead' →
    Tally (passed ++ ahead) (passed' ++ ahead') d (parser (between passed ahead d))
      (parser (between passed' ahead' d))

namespace Parallel

variable {passed passed' ahead ahead' rest rest' : List Token} {t u : Token} {d : Nat}
variable {operand inner : Parser Tree}

theorem unexpected (hp : Echo passed passed') (ht : t.Echoes u) :
    Tally (passed ++ t :: rest) (passed' ++ u :: rest') d
      (.error (.grammar (.unexpectedToken t.lexeme t.place)) (between passed (t :: rest) d))
      (.error (.grammar (.unexpectedToken u.lexeme u.place)) (between passed' (u :: rest') d)) := by
  refine .error hp rfl rfl .unexpected .unexpected ?_
  rw [GrammarError.unplaced, GrammarError.unplaced, ht.lexeme]

/-- What stands in parentheses is read in parallel, and so is the end of it. -/
theorem enclosed (hinner : Parallel inner) (hp : Echo passed passed') (ht : t.Echoes u)
    (hrest : Echo rest rest') :
    Tally (passed ++ t :: rest) (passed' ++ u :: rest') d
      (Parser.enclosed inner (between passed (t :: rest) d))
      (Parser.enclosed inner (between passed' (u :: rest') d)) := by
  have h := hinner _ _ _ _ (d + 1) (hp.concat ht) hrest
  generalize hx : inner (between (passed ++ [t]) rest (d + 1)) = x at h
  generalize hy : inner (between (passed' ++ [u]) rest' (d + 1)) = y at h
  simp only [List.append_assoc, List.singleton_append] at h
  cases h with
  | error hp' hts hus he he' hsame =>
    rw [enclosed_inner_error hx, enclosed_inner_error hy]
    exact .error hp' hts hus he he' hsame
  | ok hp' ha hts hus htree =>
    cases ha with
    | nil =>
      rw [enclosed_close_error hx (close_nil hp'.left), enclosed_close_error hy (close_nil hp'.right)]
      exact .error hp' hts hus .unclosed .unclosed rfl
    | cons hclosing hrest =>
      rename_i closing closing' rest rest'
      by_cases hk : closing.kind = .rightParen
      · rw [enclosed_ok hx hk, enclosed_ok hy (hclosing.kind.trans hk)]
        refine .ok (hp'.concat hclosing) hrest ?_ ?_ htree
        · rw [← hts, List.append_assoc, List.singleton_append]
        · rw [← hus, List.append_assoc, List.singleton_append]
      · have hk' : closing'.kind ≠ .rightParen := by
          rw [hclosing.kind]
          exact hk
        rw [enclosed_close_error hx (close_refused hclosing.left hk),
          enclosed_close_error hy (close_refused hclosing.right hk')]
        refine .error hp' hts hus .unclosed .unclosed ?_
        rw [GrammarError.unplaced, GrammarError.unplaced, hclosing.lexeme]

theorem factorWith {inner? : Option (Parser Tree)} (hinner : ∀ inner ∈ inner?, Parallel inner) :
    Parallel (Parser.factorWith inner?) := by
  intro passed passed' ahead ahead' d hp ha
  cases ha with
  | nil =>
    rw [factorWith_nil inner? hp.left, factorWith_nil inner? hp.right]
    exact .error hp rfl rfl .operand .operand rfl
  | cons ht hrest =>
    rename_i t u rest rest'
    have hone : passed ++ [t] ++ rest = passed ++ t :: rest := by simp
    have hone' : passed' ++ [u] ++ rest' = passed' ++ u :: rest' := by simp
    by_cases hn : t.kind = .number
    · rw [factorWith_number inner? ht.left hn, factorWith_number inner? ht.right (ht.kind.trans hn)]
      refine .ok (hp.concat ht) hrest hone hone' ?_
      rw [Tree.unplaced, Tree.unplaced, Token.value_of_word ht.word]
    by_cases hi : t.kind = .identifier
    · rw [factorWith_identifier inner? ht.left hi,
        factorWith_identifier inner? ht.right (ht.kind.trans hi)]
      refine .ok (hp.concat ht) hrest hone hone' ?_
      rw [Tree.unplaced, Tree.unplaced, ht.lexeme]
    by_cases ho : t.kind = .leftParen
    · cases inner? with
      | none =>
        rw [factorWith_none_leftParen ht.left ho,
          factorWith_none_leftParen ht.right (ht.kind.trans ho)]
        exact unexpected hp ht
      | some inner =>
        rw [factorWith_leftParen ho, factorWith_leftParen (ht.kind.trans ho)]
        exact (hinner inner rfl).enclosed hp ht hrest
    · rw [← ht.kind] at hn hi ho
      rw [factorWith_other inner? ht.right hn hi ho]
      rw [ht.kind] at hn hi ho
      rw [factorWith_other inner? ht.left hn hi ho]
      exact unexpected hp ht

theorem binary (hoperand : Parallel operand) (table : TokenKind → Option Operator) :
    Parallel (Parser.binary operand table) := by
  intro passed passed' ahead ahead' d hp ha
  have h := hoperand _ _ _ _ d hp ha
  generalize hx : operand (between passed ahead d) = x at h
  generalize hy : operand (between passed' ahead' d) = y at h
  cases h with
  | error hp' hts hus he he' hsame =>
    rw [binary_left_error hx, binary_left_error hy]
    exact .error hp' hts hus he he' hsame
  | @ok left left' front front' _ _ hp' ha' hts hus htree =>
    cases ha' with
    | nil =>
      rw [binary_one hx (by simp), binary_one hy (by simp)]
      exact .ok hp' .nil hts hus htree
    | cons hsign hrest =>
      rename_i sign sign' rest rest'
      cases hop : table sign.kind with
      | none =>
        have hop' : table sign'.kind = none := by rw [hsign.kind, hop]
        rw [binary_one hx (by simpa using hop), binary_one hy (by simpa using hop')]
        exact .ok hp' (.cons hsign hrest) hts hus htree
      | some op =>
        have hop' : table sign'.kind = some op := by rw [hsign.kind, hop]
        have hr := hoperand _ _ _ _ d (hp'.concat hsign) hrest
        generalize hz : operand (between (front ++ [sign]) rest d) = z at hr
        generalize hw : operand (between (front' ++ [sign']) rest' d) = w at hr
        rw [List.append_assoc, List.append_assoc, List.singleton_append, List.singleton_append,
          hts, hus] at hr
        cases hr with
        | error hp'' hts' hus' he he' hsame =>
          rw [binary_right_error hx hop hz, binary_right_error hy hop' hw]
          exact .error hp'' hts' hus' he he' hsame
        | ok hp'' ha'' hts' hus' hright =>
          rw [binary_two hx hsign.left hop hz, binary_two hy hsign.right hop' hw]
          refine .ok hp'' ha'' hts' hus' ?_
          rw [Tree.unplaced, Tree.unplaced, htree, hright]

theorem comparison {factor : Parser Tree} (h : Parallel factor) :
    Parallel (Parser.comparison factor) :=
  ((h.binary _).binary _).binary _

theorem factor (room : Nat) : Parallel (Parser.factor room) := by
  induction room with
  | zero => exact factorWith (by simp)
  | succ room ih =>
    apply factorWith
    intro inner hinner
    obtain rfl := Option.some.inj hinner
    exact ih.comparison

theorem statement {factor : Parser Tree} (h : Parallel factor) :
    Parallel (Parser.statement factor) := by
  intro passed passed' ahead ahead' d hp ha
  by_cases hassigns : Assigns ahead
  · obtain ⟨target, equals, rest, rfl, htarget, hequals⟩ := hassigns
    cases ha with
    | @cons _ target' _ _ ht ha =>
      cases ha with
      | @cons _ equals' _ rest' he hrest =>
        have hlead : Echo (passed ++ [target, equals]) (passed' ++ [target', equals']) :=
          List.rel_append hp (.cons ht (.cons he .nil))
        have hr := h.comparison _ _ _ _ d hlead hrest
        rw [statement_assign htarget hequals,
          statement_assign (ht.kind.trans htarget) (he.kind.trans hequals)]
        generalize hx : Parser.comparison factor (between (passed ++ [target, equals]) rest d) = x at hr
        generalize hy : Parser.comparison factor (between (passed' ++ [target', equals']) rest' d) = y
          at hr
        simp only [List.append_assoc, List.cons_append, List.nil_append] at hr
        cases hr with
        | error hp' hts hus he he' hsame =>
          rw [bind_error hx, bind_error hy]
          exact .error hp' hts hus he he' hsame
        | ok hp' ha' hts hus hright =>
          rw [bind_ok hx, bind_ok (placed_location ht.left _), bind_ok hy,
            bind_ok (placed_location ht.right _)]
          refine .ok hp' ha' hts hus ?_
          rw [Tree.unplaced, Tree.unplaced, hright, ht.lexeme]
  · have hassigns' : ¬ Assigns ahead' := fun h' => hassigns (ha.symm.assigns h')
    rw [statement_comparison hassigns, statement_comparison hassigns']
    exact h.comparison passed passed' ahead ahead' d hp ha

theorem program {factor : Parser Tree} (h : Parallel factor) (ha : Echo ahead ahead')
    (hne : ahead ≠ []) : Tally ahead ahead' d (Parser.program factor (between [] ahead d))
      (Parser.program factor (between [] ahead' d)) := by
  have hwhole : [] ++ ahead ≠ [] := hne
  have hwhole' : [] ++ ahead' ≠ [] := by
    rintro rfl
    cases ha
    exact hne rfl
  have hs := h.statement [] [] ahead ahead' d .nil ha
  generalize hx : Parser.statement factor (between [] ahead d) = x at hs
  generalize hy : Parser.statement factor (between [] ahead' d) = y at hs
  rw [List.nil_append, List.nil_append] at hs
  cases hs with
  | error hp hts hus he he' hsame =>
    rw [program_error hwhole hx, program_error hwhole' hy]
    exact .error hp hts hus he he' hsame
  | ok hp hrest hts hus htree =>
    cases hrest with
    | nil =>
      rw [program_ok hwhole hx, program_ok hwhole' hy]
      refine .ok hp .nil hts hus ?_
      simp only [Tree.unplaced, Tree.unplacedAll, htree]
    | cons ht hrest =>
      rw [program_trailing hwhole ht.left hx, program_trailing hwhole' ht.right hy, ← hts, ← hus]
      exact unexpected hp ht

end Parallel

/-- Tokens that say the same are parsed to trees that differ in places only, or refused at the same
index with errors that differ in places only. -/
theorem Echo.ofTokens {ts us : List Token} (h : Echo ts us) :
    (∃ tree tree', Tree.ofTokens ts = .ok tree ∧ Tree.ofTokens us = .ok tree' ∧
      tree.unplaced = tree'.unplaced) ∨
    ∃ e e' n, Tree.ofTokens ts = .error (.grammar e) ∧ Tree.ofTokens us = .error (.grammar e') ∧
      e.unplaced = e'.unplaced ∧ e.Between (ts.take n) (ts.drop n) ∧
      e'.Between (us.take n) (us.drop n) := by
  by_cases hne : ts = []
  · subst hne
    cases h
    exact Or.inl ⟨_, _, ofTokens_nil, ofTokens_nil, rfl⟩
  · have hrun : Tally ts us 0 (wholeParser (between [] ts 0)) (wholeParser (between [] us 0)) :=
      (Parallel.factor maxDepth).program h hne
    have hts : Tree.ofTokens ts = ((between [] ts 0).run wholeParser).1 := by
      rw [Tree.ofTokens, run_ofTokens]
    have hus : Tree.ofTokens us = ((between [] us 0).run wholeParser).1 := by
      rw [Tree.ofTokens, run_ofTokens]
    generalize hx : wholeParser (between [] ts 0) = x at hrun
    generalize hy : wholeParser (between [] us 0) = y at hrun
    rw [Cursor.run, hx] at hts
    rw [Cursor.run, hy] at hus
    cases hrun with
    | ok _ _ _ _ htree => exact Or.inl ⟨_, _, hts, hus, htree⟩
    | @error e e' passed passed' ahead ahead' _ hp htokens htokens' he he' hsame =>
      refine Or.inr ⟨e, e', passed.length, hts, hus, hsame, ?_, ?_⟩
      · rw [← htokens, List.take_left, List.drop_left]
        exact he
      · rw [← htokens', hp.length_eq, List.take_left, List.drop_left]
        exact he'

end Calculator
