import Calculator.Proofs.Program
import Calculator.Proofs.Spacing

/-! What the parser accepts. A list of sound tokens is accepted if it is empty or has a derivation
whose parentheses do not nest too deep, and then the program holds the tree of the derivation. -/

set_option autoImplicit false

namespace Calculator

open Cursor (between)
open Calculator.Parser

theorem ofTokens_of_run {ts : List Token} {result : Except ParseFailure Tree} {c : Cursor}
    (h : (Cursor.ofTokens ts).run (fromHere program) = (result, c)) : Tree.ofTokens ts = result := by
  rw [Tree.ofTokens, h]

theorem sentence_of_run {ts : List Token} (hs : ∀ t ∈ ts, t.Sound) {tree : Tree} {c : Cursor}
    (h : (Cursor.ofTokens ts).run (fromHere program) = (.ok tree, c)) :
    ((ts = [] ∧ tree = .program [] .origin) ∨
      ∃ s : Sentence, s.tokens = ts ∧ s.depth ≤ maxDepth ∧ tree = .program [s.tree] .origin) ∧
    c = ⟨ts, ts.length, 0⟩ := by
  by_cases hne : ts = []
  · subst hne
    have hnil : (Cursor.ofTokens []).run (fromHere program) =
        (.ok (.program [] .origin), ⟨[], 0, 0⟩) := rfl
    rw [hnil] at h
    cases h
    exact ⟨Or.inl ⟨rfl, rfl⟩, rfl⟩
  · cases Judgement.of_sound hne hs with
    | accepted s hd =>
      rw [s.run_program hd hs] at h
      cases h
      exact ⟨Or.inr ⟨s, rfl, hd, rfl⟩, by simp [between]⟩
    | refused before t after e hr =>
      obtain ⟨d, hrun⟩ := hr.run_program after
      rw [hrun] at h
      cases h
    | exhausted _ he =>
      obtain ⟨e, d, -, hrun⟩ := he.run_program
      rw [hrun] at h
      cases h

theorem ofTokens_eq_ok_iff {ts : List Token} (hs : ∀ t ∈ ts, t.Sound) (tree : Tree) :
    Tree.ofTokens ts = .ok tree ↔ (ts = [] ∧ tree = .program [] .origin) ∨
      ∃ s : Sentence, s.tokens = ts ∧ s.depth ≤ maxDepth ∧ tree = .program [s.tree] .origin := by
  constructor
  · intro h
    exact (sentence_of_run hs (Prod.ext h rfl)).1
  · intro h
    rcases h with ⟨rfl, rfl⟩ | ⟨s, rfl, hd, rfl⟩
    · exact ofTokens_nil
    · exact ofTokens_of_run (s.run_program hd hs)

/-- Two neighbours may each nest as deep as one phrase alone. -/
theorem ofTokens_operation {tier : Tier} (left right : Phrase tier.below) {sign : Token}
    {op : Operator} (isSign : tier.table sign.kind = some op)
    (hs : ∀ t ∈ left.tokens ++ sign :: right.tokens, t.Sound) (hl : left.depth ≤ maxDepth)
    (hr : right.depth ≤ maxDepth) : Tree.ofTokens (left.tokens ++ sign :: right.tokens) =
      .ok (.program [.operation op left.tree right.tree sign.place] .origin) := by
  have hts := (Phrase.two left sign right op isSign).toComparison_tokens
  have hdepth := (Phrase.two left sign right op isSign).toComparison_depth
  have htree := (Phrase.two left sign right op isSign).toComparison_tree
  refine (ofTokens_eq_ok_iff hs _).mpr (Or.inr ⟨.comparison _, hts, ?_, ?_⟩)
  · rw [Sentence.depth, hdepth]
    exact Nat.max_le.mpr ⟨hl, hr⟩
  · rw [Sentence.tree, htree]
    rfl

/-- The parser accepts the grammar and builds its trees. -/
theorem ofTokens_accepts_grammar :
    (∀ source ts, Token.scan source = .ok ts → ∀ t ∈ ts, t.Sound) ∧
    ∀ ts : List Token, (∀ t ∈ ts, t.Sound) →
      (∀ tree, Tree.ofTokens ts = .ok tree ↔ (ts = [] ∧ tree = .program [] .origin) ∨
        ∃ s : Sentence, s.tokens = ts ∧ s.depth ≤ 64 ∧ tree = .program [s.tree] .origin) ∧
      (∀ s s' : Sentence, s.tokens = ts → s'.tokens = ts → s = s') ∧
      (∀ tree c, (Cursor.ofTokens ts).run (fromHere program) = (.ok tree, c) →
        c = ⟨ts, ts.length, 0⟩) ∧
      (∀ (tier : Tier) (left right : Phrase tier.below) (sign : Token) (op : Operator),
        tier.table sign.kind = some op → ts = left.tokens ++ sign :: right.tokens →
        left.depth ≤ 64 → right.depth ≤ 64 →
        Tree.ofTokens ts = .ok (.program [.operation op left.tree right.tree sign.place] .origin)) := by
  refine ⟨fun source ts h => Token.sound_of_scan h, fun ts hs => ⟨?_, ?_, ?_, ?_⟩⟩
  · exact ofTokens_eq_ok_iff hs
  · intro s s' h h'
    exact Sentence.tokens_inj (h.trans h'.symm)
  · intro tree c h
    exact (sentence_of_run hs h).2
  · intro tier left right sign op isSign he hl hr
    subst he
    exact ofTokens_operation left right isSign hs hl hr

theorem ofTokens_sum_times_two :
    ∃ ts, Token.scan "(x+y)*2".toList = .ok ts ∧
      Tree.ofTokens ts = .ok (.program [.operation .product
        (.operation .sum (.identifier ['x'] ⟨0, 1⟩) (.identifier ['y'] ⟨0, 3⟩) ⟨0, 2⟩)
        (.number (Token.value ⟨.number, ['2'], 0, 6⟩) ⟨0, 6⟩) ⟨0, 5⟩] .origin) ∧
      (Cursor.ofTokens ts).run (fromHere program) = (Tree.ofTokens ts, ⟨ts, ts.length, 0⟩) ∧
      ∃ s : Sentence, s.tokens = ts ∧ ∀ s' : Sentence, s'.tokens = ts → s' = s := by
  have hscan : Token.scan "(x+y)*2".toList = .ok [⟨.leftParen, ['('], 0, 0⟩,
      ⟨.identifier, ['x'], 0, 1⟩, ⟨.plus, ['+'], 0, 2⟩, ⟨.identifier, ['y'], 0, 3⟩,
      ⟨.rightParen, [')'], 0, 4⟩, ⟨.times, ['*'], 0, 5⟩, ⟨.number, ['2'], 0, 6⟩] := by cbv
  obtain ⟨hsound, haccepts⟩ := ofTokens_accepts_grammar
  obtain ⟨hiff, hunique, hend, hsiblings⟩ := haccepts _ (hsound _ _ hscan)
  have htree := hsiblings .product
    (.enclosed ⟨.leftParen, ['('], 0, 0⟩
      (@Phrase.one .comparison (@Phrase.two .sum
        (@Phrase.one .product (.identifier ⟨.identifier, ['x'], 0, 1⟩ rfl)) ⟨.plus, ['+'], 0, 2⟩
        (@Phrase.one .product (.identifier ⟨.identifier, ['y'], 0, 3⟩ rfl)) .sum rfl))
      ⟨.rightParen, [')'], 0, 4⟩ rfl rfl)
    (.number ⟨.number, ['2'], 0, 6⟩ rfl) ⟨.times, ['*'], 0, 5⟩ .product rfl rfl (by decide) (by decide)
  refine ⟨_, hscan, htree, ?_, ?_⟩
  · rw [htree, ← hend _ _ (Prod.ext htree rfl)]
    exact Prod.ext htree rfl
  · rcases (hiff _).mp htree with ⟨hnil, -⟩ | ⟨s, hs, -, -⟩
    · cases hnil
    · exact ⟨s, hs, fun s' hs' => hunique s' s hs' hs⟩

end Calculator
