import Calculator.Automaton.Number
import Calculator.Proofs.Walk

/-! The grammar of number literals and its automaton. For every state the texts that complete a
literal from it are described, and a transition leads to the description of what is left. Every
state can be completed, so a text starts some literal exactly if the automaton can follow it. -/

set_option autoImplicit false

namespace Calculator

open Automaton NumberState

def Digits (w : Text) : Prop := w ≠ [] ∧ ∀ c ∈ w, Text.isDigit c

/-- A point with digits behind it, or nothing. -/
def FractionPart (w : Text) : Prop := w = [] ∨ ∃ ds, Digits ds ∧ w = '.' :: ds

/-- An exponent mark, a sign that may be missing, and digits; or nothing. -/
def ExponentPart (w : Text) : Prop :=
  w = [] ∨ ∃ mark sign ds, isMark mark ∧ (sign = [] ∨ ∃ c, isSign c ∧ sign = [c]) ∧ Digits ds ∧
    w = mark :: (sign ++ ds)

def NumberLiteral (w : Text) : Prop :=
  ∃ whole fraction exponent, Digits whole ∧ FractionPart fraction ∧ ExponentPart exponent ∧
    w = whole ++ fraction ++ exponent

/-- Any digits, and then a text of the given kind. -/
def DigitsThen (tail : Text → Prop) (w : Text) : Prop :=
  ∃ ds e, (∀ c ∈ ds, Text.isDigit c) ∧ tail e ∧ w = ds ++ e

section DigitsThen
variable {tail : Text → Prop} {c : Char} {w : Text}

theorem digitsThen_nil : DigitsThen tail [] ↔ tail [] := by
  constructor
  · rintro ⟨ds, e, -, he, h⟩
    obtain ⟨rfl, rfl⟩ := List.append_eq_nil_iff.mp h.symm
    exact he
  · intro h
    exact ⟨[], [], by simp, h, rfl⟩

theorem digitsThen_cons : DigitsThen tail (c :: w) ↔
    (Text.isDigit c ∧ DigitsThen tail w) ∨ tail (c :: w) := by
  constructor
  · rintro ⟨ds, e, hds, he, h⟩
    cases ds with
    | nil => exact Or.inr (by simpa [h] using he)
    | cons d ds =>
      obtain ⟨rfl, rfl⟩ := List.cons.inj h
      obtain ⟨hd, hds⟩ := List.forall_mem_cons.mp hds
      exact Or.inl ⟨hd, ds, e, hds, he, rfl⟩
  · rintro (⟨hc, ds, e, hds, he, rfl⟩ | h)
    · exact ⟨c :: ds, e, List.forall_mem_cons.mpr ⟨hc, hds⟩, he, rfl⟩
    · exact ⟨[], c :: w, by simp, h, rfl⟩

theorem digits_cons : Digits (c :: w) ↔ Text.isDigit c ∧ ∀ d ∈ w, Text.isDigit d := by
  simp [Digits]

theorem digits_append_cons :
    (∃ ds e, Digits ds ∧ tail e ∧ c :: w = ds ++ e) ↔ Text.isDigit c ∧ DigitsThen tail w := by
  constructor
  · rintro ⟨ds, e, ⟨hne, hds⟩, he, h⟩
    cases ds with
    | nil => exact absurd rfl hne
    | cons d ds =>
      obtain ⟨rfl, rfl⟩ := List.cons.inj h
      obtain ⟨hd, hds⟩ := List.forall_mem_cons.mp hds
      exact ⟨hd, ds, e, hds, he, rfl⟩
  · rintro ⟨hc, ds, e, hds, he, rfl⟩
    exact ⟨c :: ds, e, digits_cons.mpr ⟨hc, hds⟩, he, rfl⟩

end DigitsThen

namespace NumberState

/-- The fraction, if any, and the exponent, if any. -/
def FractionThenExponent (w : Text) : Prop :=
  ∃ fraction exponent, FractionPart fraction ∧ ExponentPart exponent ∧ w = fraction ++ exponent

/-- The texts that complete a literal from a state. -/
def Completes : NumberState → Text → Prop
  | .initial, w => NumberLiteral w
  | .integer, w => DigitsThen FractionThenExponent w
  | .point, w => ∃ ds e, Digits ds ∧ ExponentPart e ∧ w = ds ++ e
  | .fraction, w => DigitsThen ExponentPart w
  | .exponentMark, w =>
    ∃ sign ds, (sign = [] ∨ ∃ c, isSign c ∧ sign = [c]) ∧ Digits ds ∧ w = sign ++ ds
  | .exponentSign, w => Digits w
  | .exponent, w => ∀ c ∈ w, Text.isDigit c

variable {c : Char} {w : Text}

theorem numberLiteral_iff :
    NumberLiteral w ↔ ∃ ds e, Digits ds ∧ FractionThenExponent e ∧ w = ds ++ e := by
  constructor
  · rintro ⟨whole, fraction, exponent, hw, hf, he, rfl⟩
    exact ⟨whole, fraction ++ exponent, hw, ⟨fraction, exponent, hf, he, rfl⟩, by simp⟩
  · rintro ⟨whole, _, hw, ⟨fraction, exponent, hf, he, rfl⟩, rfl⟩
    exact ⟨whole, fraction, exponent, hw, hf, he, by simp⟩

theorem exponentPart_cons : ExponentPart (c :: w) ↔ isMark c ∧ Completes .exponentMark w := by
  constructor
  · rintro (h | ⟨mark, sign, ds, hm, hs, hd, h⟩)
    · cases h
    · obtain ⟨rfl, rfl⟩ := List.cons.inj h
      exact ⟨hm, sign, ds, hs, hd, rfl⟩
  · rintro ⟨hm, sign, ds, hs, hd, rfl⟩
    exact Or.inr ⟨c, sign, ds, hm, hs, hd, rfl⟩

theorem fractionThenExponent_cons : FractionThenExponent (c :: w) ↔
    (c = '.' ∧ Completes .point w) ∨ (isMark c ∧ Completes .exponentMark w) := by
  rw [← exponentPart_cons]
  constructor
  · rintro ⟨fraction, exponent, rfl | ⟨ds, hd, rfl⟩, he, h⟩
    · exact Or.inr (by simpa [h] using he)
    · obtain ⟨rfl, rfl⟩ := List.cons.inj h
      exact Or.inl ⟨rfl, ds, exponent, hd, he, rfl⟩
  · rintro (⟨rfl, ds, e, hd, he, rfl⟩ | h)
    · exact ⟨'.' :: ds, e, Or.inr ⟨ds, hd, rfl⟩, he, rfl⟩
    · exact ⟨[], c :: w, Or.inl rfl, h, rfl⟩

theorem exponentMark_cons : Completes .exponentMark (c :: w) ↔
    (Text.isDigit c ∧ Completes .exponent w) ∨ (isSign c ∧ Completes .exponentSign w) := by
  constructor
  · rintro ⟨sign, ds, rfl | ⟨d, hd, rfl⟩, hds, h⟩
    · exact Or.inl (digits_cons.mp (by simpa [h] using hds))
    · obtain ⟨rfl, rfl⟩ := List.cons.inj h
      exact Or.inr ⟨hd, hds⟩
  · rintro (h | ⟨hc, hd⟩)
    · exact ⟨[], c :: w, Or.inl rfl, digits_cons.mpr h, rfl⟩
    · exact ⟨[c], w, Or.inr ⟨c, hc, rfl⟩, hd, rfl⟩

theorem isMark_of_isDigit (h : Text.isDigit c) : isMark c = false := by
  cases hm : isMark c with
  | false => rfl
  | true =>
    simp only [isMark, Bool.or_eq_true, beq_iff_eq] at hm
    rcases hm with rfl | rfl <;> exact absurd h (by decide)

theorem isSign_of_isDigit (h : Text.isDigit c) : isSign c = false := by
  cases hs : isSign c with
  | false => rfl
  | true =>
    simp only [isSign, Bool.or_eq_true, beq_iff_eq] at hs
    rcases hs with rfl | rfl <;> exact absurd h (by decide)

theorem ne_point_of_isDigit (h : Text.isDigit c) : c ≠ '.' := by
  rintro rfl
  exact absurd h (by decide)

/-- A transition leads to what is left of a completion. -/
theorem completes_cons (s : NumberState) :
    s.Completes (c :: w) ↔ ∃ s', next s c = some s' ∧ s'.Completes w := by
  cases s with
  | initial =>
    change NumberLiteral (c :: w) ↔ _
    rw [numberLiteral_iff, digits_append_cons]
    by_cases hd : Text.isDigit c <;> simp [next, hd, Completes]
  | integer =>
    change DigitsThen FractionThenExponent (c :: w) ↔ _
    rw [digitsThen_cons, fractionThenExponent_cons]
    by_cases hd : Text.isDigit c
    · simp [next, hd, ne_point_of_isDigit hd, isMark_of_isDigit hd, Completes]
    · by_cases hp : c = '.'
      · subst hp
        simp [next, hd, show isMark '.' = false from rfl]
      · by_cases hm : isMark c <;> simp [next, hd, hp, hm]
  | point =>
    change (∃ ds e, Digits ds ∧ ExponentPart e ∧ c :: w = ds ++ e) ↔ _
    rw [digits_append_cons]
    by_cases hd : Text.isDigit c <;> simp [next, hd, Completes]
  | fraction =>
    change DigitsThen ExponentPart (c :: w) ↔ _
    rw [digitsThen_cons, exponentPart_cons]
    by_cases hd : Text.isDigit c
    · simp [next, hd, isMark_of_isDigit hd, Completes]
    · by_cases hm : isMark c <;> simp [next, hd, hm]
  | exponentMark =>
    rw [exponentMark_cons]
    by_cases hd : Text.isDigit c
    · simp [next, hd, isSign_of_isDigit hd]
    · by_cases hs : isSign c <;> simp [next, hd, hs]
  | exponentSign =>
    change Digits (c :: w) ↔ _
    rw [digits_cons]
    by_cases hd : Text.isDigit c <;> simp [next, hd, Completes]
  | exponent =>
    by_cases hd : Text.isDigit c <;> simp [next, hd, Completes]

theorem completes_nil (s : NumberState) : s.Completes [] ↔ s ∈ numberAutomaton.accepting := by
  cases s with
  | initial =>
    change NumberLiteral [] ↔ _
    simp [numberLiteral_iff, Digits, numberAutomaton]
  | integer =>
    change DigitsThen FractionThenExponent [] ↔ _
    rw [digitsThen_nil]
    simp [FractionThenExponent, FractionPart, ExponentPart, numberAutomaton]
  | point => simp [Completes, Digits, numberAutomaton]
  | fraction =>
    change DigitsThen ExponentPart [] ↔ _
    rw [digitsThen_nil]
    simp [ExponentPart, numberAutomaton]
  | exponentMark => simp [Completes, Digits, numberAutomaton]
  | exponentSign => simp [Completes, Digits, numberAutomaton]
  | exponent => simp [Completes, numberAutomaton]

/-- A text completes a literal exactly if it leads to an accepting state. -/
theorem completes_iff (s : NumberState) (w : Text) :
    s.Completes w ↔ ∃ s', follow next s w = some s' ∧ s' ∈ numberAutomaton.accepting := by
  induction w generalizing s with
  | nil => simp [completes_nil, follow]
  | cons c w ih =>
    rw [completes_cons]
    cases hc : next s c with
    | none => simp [follow, hc]
    | some s' => simp [follow, hc, ih]

theorem exists_completes (s : NumberState) : ∃ w, s.Completes w := by
  cases s with
  | integer | fraction | exponent => exact ⟨[], (completes_nil _).mpr (by simp [numberAutomaton])⟩
  | initial | point | exponentMark | exponentSign =>
    refine ⟨['0'], (completes_cons _).mpr ⟨_, rfl, ?_⟩⟩
    exact (completes_nil _).mpr (by simp [numberAutomaton])

/-- The texts with which some literal starts are those that the automaton can follow. -/
theorem exists_numberLiteral_append_iff (p : Text) :
    (∃ w, NumberLiteral (p ++ w)) ↔ (follow next .initial p).isSome := by
  have h (w : Text) : NumberLiteral (p ++ w) ↔
      ∃ s', follow next .initial (p ++ w) = some s' ∧ s' ∈ numberAutomaton.accepting :=
    completes_iff .initial (p ++ w)
  simp only [h, follow_append]
  cases follow next .initial p with
  | none => simp
  | some s =>
    obtain ⟨w, hw⟩ := exists_completes s
    simpa using ⟨w, (completes_iff s w).mp hw⟩

end NumberState

/-- The automaton matches the literal in front of a text that no further character can extend. -/
theorem numberAutomaton_run_eq_some_iff (t p : Text) : numberAutomaton.run t = some p ↔
    ∃ rest, t = p ++ rest ∧ NumberLiteral p ∧
      ∀ c ∈ rest.head?, ¬ ∃ w, NumberLiteral (p ++ c :: w) := by
  have extend (c : Char) {s : NumberState} (hs : follow next .initial p = some s) :
      (∃ w, NumberLiteral (p ++ c :: w)) ↔ (next s c).isSome := by
    rw [← follow_concat hs c, ← exists_numberLiteral_append_iff]
    simp
  rw [run_eq_some_iff]
  constructor
  · rintro ⟨rest, s, rfl, hs, hacc, hr⟩
    refine ⟨rest, rfl, (completes_iff .initial p).mpr ⟨s, hs, hacc⟩, fun c hc => ?_⟩
    have hn : next s c = none := hr c hc
    simp [extend c hs, hn]
  · rintro ⟨rest, rfl, hp, hr⟩
    obtain ⟨s, hs, hacc⟩ := (completes_iff .initial p).mp hp
    refine ⟨rest, s, rfl, hs, hacc, fun c hc => ?_⟩
    have hn := hr c hc
    rw [extend c hs] at hn
    exact Option.not_isSome_iff_eq_none.mp hn

end Calculator
