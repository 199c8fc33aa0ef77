import Mathlib
import Calculator.Token.Scanner

/-! Places as functions of the text in front of them, and the moves of a scanner in terms of that
text: it is always between a part that is passed and a part that lies ahead. -/

set_option autoImplicit false

namespace Calculator

/-- What follows a run of characters of one class starts with none of them. -/
theorem Text.eq_false_of_mem_head?_dropWhile {p : Char → Bool} {t : Text} {c : Char}
    (h : c ∈ (t.dropWhile p).head?) : p c = false := by
  have hnot := List.head?_dropWhile_not p t
  rw [h] at hnot
  simpa using hnot

/-- The place behind a text: as many lines down as it has line ends, and as far to the right as
it goes on after the last of them. -/
def Location.after (passed : Text) : Location :=
  ⟨passed.count '\n', (passed.reverse.takeWhile (· != '\n')).length⟩

namespace Location

theorem after_concat_newline (passed : Text) :
    after (passed ++ ['\n']) = ⟨(after passed).line + 1, 0⟩ := by
  simp [after]

theorem after_concat {c : Char} (h : c ≠ '\n') (passed : Text) :
    after (passed ++ [c]) = ⟨(after passed).line, (after passed).column + 1⟩ := by
  simp [after, h]

theorem after_append {w : Text} (h : ∀ c ∈ w, c ≠ '\n') (passed : Text) :
    after (passed ++ w) = ⟨(after passed).line, (after passed).column + w.length⟩ := by
  induction w generalizing passed with
  | nil => simp
  | cons c w ih =>
    obtain ⟨hc, hw⟩ := List.forall_mem_cons.mp h
    rw [← List.singleton_append, ← List.append_assoc, ih hw, after_concat hc]
    simp only [List.singleton_append, List.length_cons, Location.mk.injEq, true_and]
    omega

end Location

namespace Scanner

/-- The scanner that has passed one part of a source and has another part ahead. -/
def between (passed ahead : Text) (tokens : List Token) : Scanner :=
  ⟨passed.reverse, ahead, (Location.after passed).line, (Location.after passed).column, tokens⟩

theorem ofText_eq_between (source : Text) : ofText source = between [] source [] := rfl

theorem step_between (passed : Text) (c : Char) (ahead : Text) (tokens : List Token) :
    (between passed (c :: ahead) tokens).step = between (passed ++ [c]) ahead tokens := by
  by_cases h : c = '\n'
  · subst h
    simp [step, between, Location.after_concat_newline]
  · simp [step, between, h, Location.after_concat h]

theorem steps_between (passed w ahead : Text) (tokens : List Token) :
    steps w.length (between passed (w ++ ahead) tokens) = between (passed ++ w) ahead tokens := by
  induction w generalizing passed with
  | nil => simp [steps]
  | cons c w ih =>
    rw [List.length_cons, steps, List.cons_append, step_between, ih]
    simp

theorem skipBlanks_between (passed ahead : Text) {gap : Text} (tokens : List Token)
    (hgap : ∀ c ∈ gap, Text.isBlank c) (hahead : ∀ c ∈ ahead.head?, Text.isBlank c = false) :
    (between passed (gap ++ ahead) tokens).skipBlanks = between (passed ++ gap) ahead tokens := by
  have htake := (Text.span_append hgap hahead).1
  have hskip := steps_between passed gap ahead tokens
  unfold skipBlanks
  exact (congrArg (steps ·.length _) htake).trans hskip

theorem emit_between (passed lexeme ahead : Text) (tokens : List Token) (kind : TokenKind) :
    (between passed (lexeme ++ ahead) tokens).emit kind lexeme.length =
      between (passed ++ lexeme) ahead (tokens ++
        [⟨kind, lexeme, (Location.after passed).line, (Location.after passed).column⟩]) := by
  have hslice : (between passed (lexeme ++ ahead) tokens).slice lexeme.length = lexeme := by
    rw [slice, if_neg (by omega)]
    simp [between]
  have hmin : min (lexeme.length : Int).toNat (lexeme ++ ahead).length = lexeme.length := by
    simp
  rw [emit, hslice]
  exact (congrArg (steps · _) hmin).trans (steps_between passed lexeme ahead _)

end Scanner

end Calculator
