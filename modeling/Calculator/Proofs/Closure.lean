import Calculator.Proofs.Acceptance
import Calculator.Proofs.WalkDepth
import Calculator.Source

/-! What becomes of sources. A source is blank, or one statement, or has an error of its own; its
evaluation gives no result, one result, or an error that a source can have. -/

set_option autoImplicit false

namespace Calculator

open Cursor (between)
open Calculator.Parser

/-- The errors that a source can have. -/
inductive SourceError.Own : SourceError → Prop
  | unrecognized (c : Char) (line column : Nat) : Own (.scan ⟨.unrecognized c, line, column⟩)
  | invalidNumber (line column : Nat) : Own (.scan ⟨.invalidNumber, line, column⟩)
  | unexpectedToken (lexeme : Text) (l : Location) : Own (.parse (.grammar (.unexpectedToken lexeme l)))
  | unexpectedEnd (l : Location) : Own (.parse (.grammar (.unexpectedEnd l)))
  | expectedClose (found : Text) (l : Location) : Own (.parse (.grammar (.expectedClose found l)))
  | symbolNotFound (name : Text) (l : Location) : Own (.eval (.symbolNotFound name l))

theorem SourceError.Own.scan (e : ScanError) : SourceError.Own (.scan e) := by
  obtain ⟨fault, line, column⟩ := e
  cases fault with
  | unrecognized c => exact .unrecognized c line column
  | invalidNumber => exact .invalidNumber line column

theorem SourceError.Own.grammar (e : GrammarError) : SourceError.Own (.parse (.grammar e)) := by
  cases e with
  | unexpectedToken lexeme l => exact .unexpectedToken lexeme l
  | unexpectedEnd l => exact .unexpectedEnd l
  | expectedClose found l => exact .expectedClose found l

theorem scan_eq_nil_iff (source : Text) : Token.scan source = .ok [] ↔ Blanks source := by
  constructor
  · intro h
    obtain ⟨pieces, last, hspacing, hnil⟩ := Spacing.exists_of_scan h
    obtain rfl := List.map_eq_nil_iff.mp hnil
    exact hspacing.source_eq ▸ hspacing.blanks
  · intro h
    have hspacing : Spacing source [] source := ⟨rfl, .nil, h⟩
    exact hspacing.scan

/-- The parser fails on the tokens of a source only by the rules of the grammar. -/
theorem ofTokens_sound {ts : List Token} (hne : ts ≠ []) (hs : ∀ t ∈ ts, t.Sound) :
    (∃ e, Tree.ofTokens ts = .error (.grammar e)) ∨
      ∃ s : Sentence, s.depth ≤ maxDepth ∧ Tree.ofTokens ts = .ok (.program [s.tree] .origin) := by
  cases Judgement.of_sound hne hs with
  | accepted s hd => exact Or.inr ⟨s, hd, ofTokens_of_run (s.run_program hd hs)⟩
  | refused before t after e href =>
    obtain ⟨d, hrun⟩ := href.run_program after
    exact Or.inl ⟨e, ofTokens_of_run hrun⟩
  | exhausted _ hex =>
    obtain ⟨e, d, -, hrun⟩ := hex.run_program
    exact Or.inl ⟨e, ofTokens_of_run hrun⟩

namespace Source

/-- A source has an error of its own, or is blank, or is one statement. -/
theorem parse_cases (source : Text) :
    (∃ e, parse source = .error e ∧ e.Own) ∨
    (Blanks source ∧ parse source = .ok (.program [] .origin)) ∨
    ∃ s : Sentence, s.depth ≤ maxDepth ∧ ¬ Blanks source ∧
      parse source = .ok (.program [s.tree] .origin) := by
  cases hscan : Token.scan source with
  | error e => exact Or.inl ⟨.scan e, by rw [parse, hscan], .scan e⟩
  | ok ts =>
    by_cases hne : ts = []
    · subst hne
      refine Or.inr (Or.inl ⟨(scan_eq_nil_iff source).mp hscan, ?_⟩)
      simp only [parse, hscan, ofTokens_nil]
    · have hblank : ¬ Blanks source := by
        intro h
        rw [(scan_eq_nil_iff source).mpr h] at hscan
        exact hne (Except.ok.inj hscan).symm
      rcases ofTokens_sound hne (Token.sound_of_scan hscan) with ⟨e, he⟩ | ⟨s, hd, hs⟩
      · exact Or.inl ⟨.parse (.grammar e), by simp only [parse, hscan, he], .grammar e⟩
      · exact Or.inr (Or.inr ⟨s, hd, hblank, by simp only [parse, hscan, hs]⟩)

/-- A source that is parsed has tokens: none, or those of the statement. -/
theorem exists_tokens_of_parse {source : Text} {tree : Tree} (h : parse source = .ok tree) :
    ∃ ts, Token.scan source = .ok ts ∧ ((ts = [] ∧ tree = .program [] .origin) ∨
      ∃ s : Sentence, s.tokens = ts ∧ s.depth ≤ maxDepth ∧ tree = .program [s.tree] .origin) := by
  unfold parse at h
  split at h
  · cases h
  · rename_i ts hscan
    split at h
    · cases h
    · rename_i program hprogram
      cases h
      exact ⟨ts, hscan, (ofTokens_eq_ok_iff (Token.sound_of_scan hscan) tree).mp hprogram⟩

/-- The statements of sources are low enough to be walked. -/
theorem height_tree_le {s : Sentence} (hd : s.depth ≤ maxDepth) : s.tree.height ≤ 197 := by
  have h := s.height_tree_le
  have hmax : maxDepth = 64 := rfl
  omega

theorem run_nil (limit : Nat) (symbols : Symbols) :
    symbols.run (Tree.run limit (.program [] .origin)) = (.ok [], symbols) := rfl

/-- One statement gives one value, which its target gets, or has a name that is not bound. -/
theorem run_statement_target {s : Sentence} (hd : s.depth ≤ maxDepth) {limit : Nat}
    (hl : 197 ≤ limit) (symbols : Symbols) :
    (∃ value, symbols.run (Tree.run limit (.program [s.tree] .origin)) =
      (.ok [value], symbols.bindTarget s.target? value)) ∨
    ∃ t ∈ s.tokens, t.Unbound symbols ∧
      symbols.run (Tree.run limit (.program [s.tree] .origin)) =
        (.error (.symbolNotFound t.lexeme t.place), symbols) := by
  have hheight : s.tree.height ≤ limit := Nat.le_trans (height_tree_le hd) hl
  rcases s.evaluate_tree hheight symbols with ⟨value, hv⟩ | ⟨t, hm, ht, he⟩
  · refine Or.inl ⟨value, ?_⟩
    rw [Symbols.run, Tree.run, Tree.evaluateAll, bind_ok hv]
    rfl
  · refine Or.inr ⟨t, hm, ht, ?_⟩
    rw [Symbols.run, Tree.run, Tree.evaluateAll, bind_error he]

theorem run_statement {s : Sentence} (hd : s.depth ≤ maxDepth) {limit : Nat} (hl : 197 ≤ limit)
    (symbols : Symbols) :
    (∃ value symbols', symbols.run (Tree.run limit (.program [s.tree] .origin)) =
      (.ok [value], symbols')) ∨
    ∃ name l, symbols.run (Tree.run limit (.program [s.tree] .origin)) =
      (.error (.symbolNotFound name l), symbols) := by
  rcases run_statement_target hd hl symbols with ⟨value, hv⟩ | ⟨t, -, -, he⟩
  · exact Or.inl ⟨value, _, hv⟩
  · exact Or.inr ⟨t.lexeme, t.place, he⟩

theorem run_eq_of_limit {s : Sentence} (hd : s.depth ≤ maxDepth) {limit limit' : Nat}
    (hl : 197 ≤ limit) (hl' : 197 ≤ limit') :
    Tree.run limit (.program [s.tree] .origin) = Tree.run limit' (.program [s.tree] .origin) := by
  have hheight := height_tree_le hd
  have heval : s.tree.evaluate limit = s.tree.evaluate limit' :=
    s.tree.evaluate_eq_of_height_le (by omega) (by omega)
  have hstatement : s.tree.evaluateStatement limit = s.tree.evaluateStatement limit' := by
    funext symbols
    rw [Tree.evaluateStatement, Tree.evaluateStatement, heval]
  rw [Tree.run, Tree.run, Tree.evaluateAll, Tree.evaluateAll, hstatement]
  rfl

/-- Every source ends in results or in an error of its own, and its tree is walked to the end. -/
theorem evaluate_results_or_own (source : Text) (symbols : Symbols) :
    ((∃ values, (evaluate source symbols).1 = .ok values ∧
        ((Blanks source ∧ values = []) ∨ (¬ Blanks source ∧ values.length = 1))) ∨
      ∃ e, (evaluate source symbols).1 = .error e ∧ e.Own) ∧
    ∀ tree, parse source = .ok tree →
      (∀ path, tree.Path path → path.countP Tree.isOperation ≤ 195 ∧ path.length ≤ 197) ∧
      ∀ limit, 300 ≤ limit → tree.run limit = tree.run Tree.walkLimit := by
  have hlimit : Tree.walkLimit = 1000 := rfl
  rcases parse_cases source with ⟨e, he, hown⟩ | ⟨hblank, hparse⟩ | ⟨s, hd, hblank, hparse⟩
  · refine ⟨Or.inr ⟨e, by rw [evaluate, he], hown⟩, fun tree h => ?_⟩
    rw [he] at h
    cases h
  · refine ⟨Or.inl ⟨[], ?_, Or.inl ⟨hblank, rfl⟩⟩, fun tree h => ?_⟩
    · simp only [evaluate, hparse, run_nil]
    · rw [hparse] at h
      cases h
      refine ⟨fun path hpath => ?_, fun limit _ => rfl⟩
      cases hpath with
      | nil => simp
      | cons hc _ => cases hc
  · refine ⟨?_, fun tree h => ?_⟩
    · rcases run_statement hd (by omega : 197 ≤ Tree.walkLimit) symbols with
        ⟨value, symbols', hv⟩ | ⟨name, l, he⟩
      · exact Or.inl ⟨[value], by simp only [evaluate, hparse, hv], Or.inr ⟨hblank, rfl⟩⟩
      · exact Or.inr ⟨_, by simp only [evaluate, hparse, he], .symbolNotFound name l⟩
    · rw [hparse] at h
      cases h
      refine ⟨fun path hpath => ?_, fun limit hl => run_eq_of_limit hd (by omega) (by omega)⟩
      cases hpath with
      | nil => simp
      | cons hc hpath =>
        obtain rfl := List.mem_singleton.mp hc
        have hcount := s.countP_le hpath
        have hlength := hpath.length_lt
        have hheight := height_tree_le hd
        have hmax : maxDepth = 64 := rfl
        rw [List.length_cons]
        omega

theorem evaluate_assigned_sum :
    ∃ tree path, parse "z = x + y".toList = .ok tree ∧ tree.Path path ∧
      path.countP Tree.isOperation = 1 ∧ path.length = 3 ∧
      path.countP Tree.isOperation ≤ 195 ∧ path.length ≤ 197 ∧
      tree.run 300 = tree.run Tree.walkLimit := by
  have hparse : parse "z = x + y".toList = .ok (.program [.assignment ['z'] (.operation .sum
      (.identifier ['x'] ⟨0, 4⟩) (.identifier ['y'] ⟨0, 8⟩) ⟨0, 6⟩) ⟨0, 0⟩] .origin) := by cbv
  obtain ⟨hpaths, hlimits⟩ := (evaluate_results_or_own "z = x + y".toList .builtin).2 _ hparse
  have hpath : Tree.Path (.program [.assignment ['z'] (.operation .sum
      (.identifier ['x'] ⟨0, 4⟩) (.identifier ['y'] ⟨0, 8⟩) ⟨0, 6⟩) ⟨0, 0⟩] .origin) [_, _, _] :=
    .cons List.mem_cons_self (.cons List.mem_cons_self (.cons List.mem_cons_self .nil))
  exact ⟨_, _, hparse, hpath, rfl, rfl, (hpaths _ hpath).1, (hpaths _ hpath).2,
    hlimits 300 (Nat.le_refl 300)⟩

end Source

end Calculator
