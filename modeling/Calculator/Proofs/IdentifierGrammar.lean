import Calculator.Automaton.Identifier
import Calculator.Proofs.LongestRun
import Calculator.Proofs.ScannerCalls

/-! Identifiers in front of a text. The automaton matches the longest one. A scanner takes the run
of word characters at its cursor, without a rule for the first of them; so it takes what the
automaton matches unless it stands at a digit. -/

set_option autoImplicit false

namespace Calculator

open Automaton

/-- A letter or an underscore, and behind it letters, digits and underscores. -/
def Identifier (w : Text) : Prop :=
  ∃ c rest, w = c :: rest ∧ (Text.isLetter c ∨ c = '_') ∧
    ∀ d ∈ rest, Text.isLetter d ∨ Text.isDigit d ∨ d = '_'

/-- The longest identifier in front of a text. -/
structure LongestIdentifier (t p : Text) : Prop where
  front : p <+: t
  identifier : Identifier p
  longest : ∀ q, q <+: t → Identifier q → q.length ≤ p.length

theorem not_identifier_nil : ¬ Identifier [] := by
  rintro ⟨c, rest, h, -⟩
  cases h

theorem identifier_cons {c : Char} {rest : Text} :
    Identifier (c :: rest) ↔ (Text.isLetter c ∨ c = '_') ∧ ∀ d ∈ rest, Text.isWord d := by
  simp only [Text.isWord_iff]
  constructor
  · rintro ⟨c, rest, h, hc, hrest⟩
    cases h
    exact ⟨hc, hrest⟩
  · rintro ⟨hc, hrest⟩
    exact ⟨c, rest, rfl, hc, hrest⟩

/-- The word characters other than the digits may come first. -/
theorem isLetter_or_underscore_iff {c : Char} :
    (Text.isLetter c ∨ c = '_') ↔ Text.isWord c ∧ ¬ Text.isDigit c := by
  rw [Text.isWord_iff]
  constructor
  · rintro (hletter | rfl)
    · refine ⟨Or.inl hletter, ?_⟩
      intro hdigit
      rw [Token.isLetter_of_isDigit hdigit] at hletter
      cases hletter
    · exact ⟨Or.inr (Or.inr rfl), by decide⟩
  · rintro ⟨hletter | hdigit | hunderscore, hnot⟩
    · exact Or.inl hletter
    · exact absurd hdigit hnot
    · exact Or.inr hunderscore

namespace IdentifierState

variable {c : Char} {w : Text} {s : IdentifierState}

/-- Behind its first character the automaton goes on as long as there are word characters. -/
theorem follow_word : follow next .word w = some s ↔ s = .word ∧ ∀ c ∈ w, Text.isWord c := by
  induction w with
  | nil =>
    constructor
    · intro h
      exact ⟨(Option.some.inj h).symm, List.forall_mem_nil _⟩
    · rintro ⟨rfl, -⟩
      rfl
  | cons c w ih =>
    by_cases hc : Text.isWord c
    · have hstep : next .word c = some .word := if_pos hc
      rw [follow, hstep, Option.bind_some, ih, List.forall_mem_cons]
      simp only [hc, true_and]
    · have hstep : next .word c = none := if_neg hc
      rw [follow, hstep, Option.bind_none, List.forall_mem_cons]
      simp [hc]

theorem next_initial_eq_some_iff :
    next .initial c = some s ↔ s = .word ∧ (Text.isLetter c ∨ c = '_') := by
  rw [isLetter_or_underscore_iff, next, Option.ite_none_right_eq_some, Option.some.injEq,
    Bool.and_eq_true, Bool.not_eq_true', Bool.not_eq_true, and_comm, eq_comm]

/-- The automaton can follow the identifiers, and the empty text. -/
theorem follow_initial :
    follow next .initial w = some s ↔ (w = [] ∧ s = .initial) ∨ (Identifier w ∧ s = .word) := by
  cases w with
  | nil =>
    rw [follow, Option.some.injEq]
    simp [not_identifier_nil, eq_comm]
  | cons c rest =>
    rw [follow, Option.bind_eq_some_iff, identifier_cons]
    constructor
    · rintro ⟨s', hnext, hfollow⟩
      obtain ⟨rfl, hc⟩ := next_initial_eq_some_iff.mp hnext
      obtain ⟨rfl, hrest⟩ := follow_word.mp hfollow
      exact Or.inr ⟨⟨hc, hrest⟩, rfl⟩
    · rintro (⟨h, -⟩ | ⟨⟨hc, hrest⟩, rfl⟩)
      · cases h
      · exact ⟨.word, next_initial_eq_some_iff.mpr ⟨rfl, hc⟩, follow_word.mpr ⟨rfl, hrest⟩⟩

theorem longestRun_word_iff {t p : Text} :
    LongestRun next .initial t p .word ↔ LongestIdentifier t p := by
  constructor
  · rintro ⟨hfront, hreached, hlongest⟩
    rcases follow_initial.mp hreached with ⟨-, h⟩ | ⟨hp, -⟩
    · cases h
    · refine ⟨hfront, hp, ?_⟩
      intro q hq hidentifier
      apply hlongest q hq
      rw [follow_initial.mpr (Or.inr ⟨hidentifier, rfl⟩)]
      rfl
  · rintro ⟨hfront, hp, hlongest⟩
    refine ⟨hfront, follow_initial.mpr (Or.inr ⟨hp, rfl⟩), ?_⟩
    intro q hq hdefined
    obtain ⟨s, hs⟩ := Option.isSome_iff_exists.mp hdefined
    rcases follow_initial.mp hs with ⟨rfl, -⟩ | ⟨hidentifier, -⟩
    · exact Nat.zero_le _
    · exact hlongest q hq hidentifier

end IdentifierState

section Match
variable {t p : Text}

theorem identifierAutomaton_run_eq_some_iff :
    identifierAutomaton.run t = some p ↔ LongestIdentifier t p := by
  rw [run_eq_some_iff_longestRun, ← IdentifierState.longestRun_word_iff]
  constructor
  · rintro ⟨s, hlongest, hacc⟩
    rw [List.mem_singleton.mp hacc] at hlongest
    exact hlongest
  · intro hlongest
    exact ⟨.word, hlongest, List.mem_singleton_self _⟩

theorem identifierAutomaton_run_cons (c : Char) (rest : Text) :
    identifierAutomaton.run (c :: rest) =
      if Text.isLetter c ∨ c = '_' then some (c :: rest.takeWhile Text.isWord) else none := by
  split
  · rename_i hc
    have hword : ∀ d ∈ rest.takeWhile Text.isWord, Text.isWord d :=
      List.all_eq_true.mp List.all_takeWhile
    have hreached : follow identifierAutomaton.next .initial (c :: rest.takeWhile Text.isWord) =
        some .word :=
      IdentifierState.follow_initial.mpr (Or.inr ⟨identifier_cons.mpr ⟨hc, hword⟩, rfl⟩)
    have hstop : ∀ d ∈ (rest.dropWhile Text.isWord).head?,
        identifierAutomaton.next .word d = none := by
      intro d hd
      exact if_neg (Bool.eq_false_iff.mp (Text.eq_false_of_mem_head?_dropWhile hd))
    have hrun := (LongestRun.of_follow hreached hstop).run_eq
    rw [List.cons_append, List.takeWhile_append_dropWhile] at hrun
    exact hrun.trans (if_pos (List.mem_singleton_self _))
  · rename_i hc
    have hstop : ∀ d ∈ (c :: rest).head?, identifierAutomaton.next .initial d = none := by
      rintro d hd
      obtain rfl := Option.some.inj hd
      apply Option.eq_none_iff_forall_ne_some.mpr
      intro s hs
      exact hc (IdentifierState.next_initial_eq_some_iff.mp hs).2
    have hreached : follow identifierAutomaton.next .initial [] = some .initial := rfl
    have hrefused : IdentifierState.initial ∉ identifierAutomaton.accepting := by decide
    exact (LongestRun.of_follow hreached hstop).run_eq.trans (if_neg hrefused)

theorem identifierAutomaton_run_eq_none_iff :
    identifierAutomaton.run t = none ↔ ∀ q, q <+: t → ¬ Identifier q := by
  cases t with
  | nil =>
    refine iff_of_true rfl ?_
    intro q hq
    rw [List.prefix_nil.mp hq]
    exact not_identifier_nil
  | cons c rest =>
    rw [identifierAutomaton_run_cons, ite_eq_right_iff]
    constructor
    · intro hnone q hq hidentifier
      cases q with
      | nil => exact not_identifier_nil hidentifier
      | cons d q =>
        obtain ⟨rfl, -⟩ := List.cons_prefix_cons.mp hq
        cases hnone (identifier_cons.mp hidentifier).1
    · intro hq hc
      have hfirst : Identifier [c] := identifier_cons.mpr ⟨hc, List.forall_mem_nil _⟩
      exact absurd hfirst (hq [c] ⟨rest, rfl⟩)

/-- Word characters make up a match, unless the first of them is a digit. -/
theorem length_takeWhile_isWord_iff :
    (t.takeWhile Text.isWord).length = (identifierAutomaton.run t).elim 0 List.length ↔
      ∀ c ∈ t.head?, ¬ Text.isDigit c := by
  cases t with
  | nil => simp [identifierAutomaton, run, walk]
  | cons c rest =>
    have hhead : (∀ d ∈ (c :: rest).head?, ¬ Text.isDigit d) ↔ ¬ Text.isDigit c := by simp
    rw [hhead, identifierAutomaton_run_cons]
    split
    · rename_i hc
      obtain ⟨hword, hdigit⟩ := isLetter_or_underscore_iff.mp hc
      rw [List.takeWhile_cons_of_pos hword]
      exact iff_of_true rfl hdigit
    · rename_i hc
      by_cases hdigit : Text.isDigit c
      · have hword : Text.isWord c := (Text.isWord_iff c).mpr (Or.inr (Or.inl hdigit))
        rw [List.takeWhile_cons_of_pos hword]
        exact iff_of_false (Nat.succ_ne_zero _) (not_not_intro hdigit)
      · have hword : ¬ Text.isWord c := by
          intro hword
          exact hc (isLetter_or_underscore_iff.mpr ⟨hword, hdigit⟩)
        rw [List.takeWhile_cons_of_neg hword]
        exact iff_of_true rfl hdigit

end Match

/-- At every place of a text a scanner takes as many characters as the automaton matches there, or
none if it matches nothing, exactly if no digit stands at that place. The match is the longest
identifier there, and there is none only if no identifier starts there. -/
theorem identifierLength_agrees_with_automaton (s : Scanner) :
    (s.identifierLength =
        (identifierAutomaton.run (s.text.drop s.offset)).elim 0 List.length ↔
      ∀ c ∈ s.current?, ¬ Text.isDigit c) ∧
    (∀ p, identifierAutomaton.run (s.text.drop s.offset) = some p ↔
      LongestIdentifier (s.text.drop s.offset) p) ∧
    (identifierAutomaton.run (s.text.drop s.offset) = none ↔
      ∀ q, q <+: s.text.drop s.offset → ¬ Identifier q) := by
  rw [Scanner.drop_offset]
  refine ⟨length_takeWhile_isWord_iff, ?_, identifierAutomaton_run_eq_none_iff⟩
  intro p
  exact identifierAutomaton_run_eq_some_iff

example : identifierAutomaton.run "_b2 + 1".toList = some "_b2".toList ∧
    identifierAutomaton.run "2b".toList = none ∧
    (Scanner.ofText "2b".toList).identifierLength = 2 := by
  decide

end Calculator
