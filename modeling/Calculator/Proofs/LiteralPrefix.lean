import Calculator.Proofs.LongestRun
import Calculator.Proofs.NumberGrammar

/-! Number literals in front of a text. Of the prefixes of a text, those with which some literal
starts go up to a longest one, and this is what the automaton reads. It matches exactly if that
prefix is itself a literal; it never falls back to a shorter one. -/

set_option autoImplicit false

namespace Calculator

open Automaton NumberState

/-- The texts with which some literal starts. -/
def StartsLiteral (w : Text) : Prop := ∃ more, NumberLiteral (w ++ more)

/-- The longest prefix of a text with which some literal starts. -/
structure LongestStart (t p : Text) : Prop where
  front : p <+: t
  starts : StartsLiteral p
  longest : ∀ q, q <+: t → StartsLiteral q → q.length ≤ p.length

theorem NumberLiteral.startsLiteral {w : Text} (h : NumberLiteral w) : StartsLiteral w := by
  refine ⟨[], ?_⟩
  rw [List.append_nil]
  exact h

namespace LongestStart

variable {t p q : Text}

/-- The longest start is what the automaton can run along. -/
theorem iff_longestRun : LongestStart t p ↔ ∃ s, LongestRun NumberState.next .initial t p s := by
  constructor
  · rintro ⟨hfront, hstarts, hlongest⟩
    obtain ⟨s, hs⟩ := Option.isSome_iff_exists.mp ((exists_numberLiteral_append_iff p).mp hstarts)
    refine ⟨s, hfront, hs, ?_⟩
    intro q hq hdefined
    exact hlongest q hq ((exists_numberLiteral_append_iff q).mpr hdefined)
  · rintro ⟨s, hfront, hs, hlongest⟩
    have hdefined : (follow NumberState.next .initial p).isSome := by
      rw [hs]
      rfl
    refine ⟨hfront, (exists_numberLiteral_append_iff p).mpr hdefined, ?_⟩
    intro q hq hstarts
    exact hlongest q hq ((exists_numberLiteral_append_iff q).mp hstarts)

theorem walk (t : Text) : LongestStart t (Automaton.walk NumberState.next .initial t).1 :=
  iff_longestRun.mpr ⟨_, .walk NumberState.next .initial t⟩

theorem unique (hp : LongestStart t p) (hq : LongestStart t q) : q = p := by
  obtain ⟨s, hs⟩ := iff_longestRun.mp hp
  obtain ⟨s', hs'⟩ := iff_longestRun.mp hq
  exact (hs.unique hs').1

/-- A literal is the longest start exactly if no longer prefix starts a literal. -/
theorem of_literal_iff : LongestStart t p ∧ NumberLiteral p ↔
    p <+: t ∧ NumberLiteral p ∧ ∀ q, q <+: t → p.length < q.length → ¬ StartsLiteral q := by
  constructor
  · rintro ⟨h, hp⟩
    refine ⟨h.front, hp, ?_⟩
    intro q hq hlt hstarts
    have hle := h.longest q hq hstarts
    omega
  · rintro ⟨hfront, hp, hnone⟩
    refine ⟨⟨hfront, hp.startsLiteral, ?_⟩, hp⟩
    intro q hq hstarts
    by_contra hlt
    exact hnone q hq (by omega) hstarts

end LongestStart

theorem numberLiteral_iff_of_longestRun {t p : Text} {s : NumberState}
    (h : LongestRun NumberState.next .initial t p s) :
    NumberLiteral p ↔ s ∈ numberAutomaton.accepting := by
  constructor
  · intro hp
    obtain ⟨s', hs', hacc⟩ := (completes_iff .initial p).mp hp
    rw [Option.some.inj (h.reached.symm.trans hs')]
    exact hacc
  · intro hacc
    exact (completes_iff .initial p).mpr ⟨s, h.reached, hacc⟩

theorem run_eq_none_iff_of_longestStart {t p : Text} (h : LongestStart t p) :
    numberAutomaton.run t = none ↔ ¬ NumberLiteral p := by
  obtain ⟨s, hs⟩ := LongestStart.iff_longestRun.mp h
  rw [numberLiteral_iff_of_longestRun hs]
  exact LongestRun.run_eq_none_iff hs

theorem run_eq_some_iff_longestStart {t p : Text} :
    numberAutomaton.run t = some p ↔ LongestStart t p ∧ NumberLiteral p := by
  rw [run_eq_some_iff_longestRun, LongestStart.iff_longestRun, ← exists_and_right]
  apply exists_congr
  intro s
  apply and_congr_right
  intro hs
  exact (numberLiteral_iff_of_longestRun hs).symm

/-- The automaton decides the grammar of literals: it matches the longest prefix that starts a
literal if this is one, and no other text. -/
theorem numberAutomaton_decides_literals (t : Text) :
    (∀ p, numberAutomaton.run t = some p ↔ p <+: t ∧ NumberLiteral p ∧
      ∀ q, q <+: t → p.length < q.length → ¬ StartsLiteral q) ∧
    (∃ p, LongestStart t p ∧ (∀ q, LongestStart t q → q = p) ∧
      (numberAutomaton.run t = none ↔ ¬ NumberLiteral p)) ∧
    (numberAutomaton.run t = some t ↔ NumberLiteral t) ∧
    ∀ p, numberAutomaton.run t = some p →
      p <+: t ∧ NumberLiteral p ∧ ∀ q, q <+: t → NumberLiteral q → q.length ≤ p.length := by
  refine ⟨?_, ?_, ?_, ?_⟩
  · intro p
    exact run_eq_some_iff_longestStart.trans LongestStart.of_literal_iff
  · refine ⟨_, LongestStart.walk t, ?_, run_eq_none_iff_of_longestStart (LongestStart.walk t)⟩
    intro q hq
    exact (LongestStart.walk t).unique hq
  · rw [run_eq_some_iff_longestStart, and_iff_right_iff_imp]
    intro ht
    exact ⟨List.prefix_rfl, ht.startsLiteral, fun q hq _ => hq.length_le⟩
  · intro p hrun
    obtain ⟨h, hp⟩ := run_eq_some_iff_longestStart.mp hrun
    exact ⟨h.front, hp, fun q hq hliteral => h.longest q hq hliteral.startsLiteral⟩

/-- A mark of an exponent behind a literal spoils it, a second point does not. -/
theorem numberAutomaton_decides_second_point :
    (∃ p, LongestStart "12.5e+x".toList p ∧ ¬ NumberLiteral p) ∧
    numberAutomaton.run "12.5e3.7".toList = some "12.5e3".toList ∧
    (∀ q, q <+: "12.5e3.7".toList → "12.5e3".toList.length < q.length → ¬ StartsLiteral q) ∧
    ∀ q, q <+: "12.5e3.7".toList → NumberLiteral q → q.length ≤ "12.5e3".toList.length := by
  have hnone : numberAutomaton.run "12.5e+x".toList = none := by decide
  have hsome : numberAutomaton.run "12.5e3.7".toList = some "12.5e3".toList := by decide
  obtain ⟨-, ⟨p, hp, -, hiff⟩, -, -⟩ := numberAutomaton_decides_literals "12.5e+x".toList
  obtain ⟨hmatch, -, -, hlongest⟩ := numberAutomaton_decides_literals "12.5e3.7".toList
  exact ⟨⟨p, hp, hiff.mp hnone⟩, hsome, ((hmatch _).mp hsome).2.2, (hlongest _ hsome).2.2⟩

end Calculator
