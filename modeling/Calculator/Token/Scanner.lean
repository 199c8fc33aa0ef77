import Calculator.Automaton.Number
import Calculator.SignedIndex
import Calculator.Token

/-! The scanner: a cursor in a source that cuts tokens off it. The text is kept in two parts,
what lies behind the cursor and what lies ahead; line and column move only when the cursor
does. -/

set_option autoImplicit false

namespace Calculator

inductive ScanFault
  | unrecognized (character : Char)
  | invalidNumber
  deriving DecidableEq, Repr

structure ScanError where
  fault : ScanFault
  line : Nat
  column : Nat
  deriving DecidableEq, Repr

namespace Token

def numberLength (t : Text) : Except ScanFault Nat :=
  match numberAutomaton.run t with
  | some literal => .ok literal.length
  | none => .error .invalidNumber

/-- Kind and length of the token at the front of a text that starts with no blank. -/
def front (c : Char) (rest : Text) : Except ScanFault (TokenKind × Nat) :=
  if Text.isLetter c then .ok (.identifier, ((c :: rest).takeWhile Text.isWord).length)
  else match TokenKind.ofSingle? c with
    | some kind => .ok (kind, 1)
    | none => match TokenKind.ofExtensible? c with
      | some (alone, extended) =>
        if rest.head? = some '=' then .ok (extended, 2) else .ok (alone, 1)
      | none =>
        if Text.isDigit c then (numberLength (c :: rest)).map (Prod.mk .number)
        else .error (.unrecognized c)

theorem isWord_of_isLetter {c : Char} (h : Text.isLetter c = true) : Text.isWord c = true := by
  simp_all [Text.isLetter, Text.isWord, Char.isAlphanum]

theorem numberAutomaton_run_cons_pos {c : Char} {rest literal : Text}
    (h : numberAutomaton.run (c :: rest) = some literal) : 0 < literal.length := by
  unfold Automaton.run Automaton.walk at h
  split at h
  · simp [numberAutomaton] at h
  · simp only [Option.ite_none_right_eq_some, Option.some.injEq] at h
    simp [← h.2]

theorem numberLength_pos {c : Char} {rest : Text} {length : Nat}
    (h : numberLength (c :: rest) = .ok length) : 0 < length := by
  unfold numberLength at h
  split at h
  · rename_i literal hl
    simp only [Except.ok.injEq] at h
    exact h ▸ numberAutomaton_run_cons_pos hl
  · simp at h

theorem front_pos {c : Char} {rest : Text} {kind : TokenKind} {length : Nat}
    (h : front c rest = .ok (kind, length)) : 0 < length := by
  unfold front at h
  split at h
  · rename_i hc
    simp only [Except.ok.injEq, Prod.mk.injEq,
      List.takeWhile_cons_of_pos (isWord_of_isLetter hc), List.length_cons] at h
    omega
  · split at h
    · simp only [Except.ok.injEq, Prod.mk.injEq] at h; omega
    · split at h
      · split at h <;> simp only [Except.ok.injEq, Prod.mk.injEq] at h <;> omega
      · split at h
        · cases hn : numberLength (c :: rest) with
          | error e => simp [hn, Except.map] at h
          | ok n =>
            simp only [hn, Except.map, Except.ok.injEq, Prod.mk.injEq] at h
            exact h.2 ▸ numberLength_pos hn
        · simp at h

end Token

/-- A cursor in a source. `behind` holds the characters passed, the latest first. -/
structure Scanner where
  behind : Text
  ahead : Text
  line : Nat
  column : Nat
  tokens : List Token
  deriving DecidableEq, Repr

namespace Scanner

def ofText (source : Text) : Scanner := ⟨[], source, 0, 0, []⟩

def text (s : Scanner) : Text := s.behind.reverse ++ s.ahead

def offset (s : Scanner) : Nat := s.behind.length

def current? (s : Scanner) : Option Char := s.ahead.head?

def peek (s : Scanner) (distance : Int) : Except OutOfRange (Option Char) :=
  signedLookup s.text (s.offset + distance)

/-- One step forward. A line end starts the next line; at the end of the source nothing moves. -/
def step (s : Scanner) : Scanner :=
  match s.ahead with
  | [] => s
  | c :: rest =>
    if c = '\n' then
      { s with behind := c :: s.behind, ahead := rest, line := s.line + 1, column := 0 }
    else { s with behind := c :: s.behind, ahead := rest, column := s.column + 1 }

def steps : Nat → Scanner → Scanner
  | 0, s => s
  | n + 1, s => steps n s.step

/-- Moves forward by a signed count, but not past the end; a count below one moves nothing. -/
def advance (s : Scanner) (count : Int) : Scanner := steps (min count.toNat s.ahead.length) s

def skipBlanks (s : Scanner) : Scanner := steps (s.ahead.takeWhile Text.isBlank).length s

/-- The text from the cursor up to a signed distance. An end before the start of the source
counts from the end of the source. -/
def slice (s : Scanner) (length : Int) : Text :=
  if s.offset + length < 0 then s.ahead.take (length + s.text.length).toNat
  else s.ahead.take length.toNat

def emit (s : Scanner) (kind : TokenKind) (length : Int) : Scanner :=
  advance { s with tokens := s.tokens ++ [⟨kind, s.slice length, s.line, s.column⟩] } length

def identifierLength (s : Scanner) : Nat := (s.ahead.takeWhile Text.isWord).length

def errorAt (s : Scanner) (fault : ScanFault) : ScanError := ⟨fault, s.line, s.column⟩

def numberLength (s : Scanner) : Except ScanError Nat :=
  (Token.numberLength s.ahead).mapError s.errorAt

@[simp] theorem text_step (s : Scanner) : s.step.text = s.text := by
  unfold step
  split
  · rfl
  · split <;> simp_all [text]

@[simp] theorem text_steps (n : Nat) (s : Scanner) : (steps n s).text = s.text := by
  induction n generalizing s with
  | zero => rfl
  | succ n ih => rw [steps, ih, text_step]

@[simp] theorem text_advance (s : Scanner) (count : Int) : (s.advance count).text = s.text :=
  text_steps _ _

@[simp] theorem text_skipBlanks (s : Scanner) : s.skipBlanks.text = s.text := text_steps _ _

@[simp] theorem text_emit (s : Scanner) (kind : TokenKind) (length : Int) :
    (s.emit kind length).text = s.text := by
  rw [emit, text_advance]
  rfl

theorem length_ahead_step (s : Scanner) : s.step.ahead.length = s.ahead.length - 1 := by
  unfold step
  split
  · simp_all
  · split <;> simp_all

theorem length_ahead_steps (n : Nat) (s : Scanner) :
    (steps n s).ahead.length = s.ahead.length - n := by
  induction n generalizing s with
  | zero => simp [steps]
  | succ n ih => rw [steps, ih, length_ahead_step]; omega

@[simp] theorem length_ahead_advance (s : Scanner) (count : Int) :
    (s.advance count).ahead.length = s.ahead.length - count.toNat := by
  rw [advance, length_ahead_steps]
  omega

@[simp] theorem length_ahead_skipBlanks (s : Scanner) :
    s.skipBlanks.ahead.length = s.ahead.length - (s.ahead.takeWhile Text.isBlank).length :=
  length_ahead_steps _ _

@[simp] theorem length_ahead_emit (s : Scanner) (kind : TokenKind) (length : Int) :
    (s.emit kind length).ahead.length = s.ahead.length - length.toNat := by
  simp [emit]

theorem length_ahead_lt {s : Scanner} {c : Char} {rest : Text} {kind : TokenKind} {length : Nat}
    (hs : s.skipBlanks.ahead = c :: rest) (h : Token.front c rest = .ok (kind, length)) :
    (s.skipBlanks.emit kind length).ahead.length < s.ahead.length := by
  have hp := Token.front_pos h
  have hl : s.skipBlanks.ahead.length = rest.length + 1 := by rw [hs, List.length_cons]
  rw [length_ahead_emit, Int.toNat_natCast]
  rw [length_ahead_skipBlanks] at hl ⊢
  omega

/-- Cuts the rest of the source into tokens and stores them. At the first place where no token
can be cut off the cursor stays there. -/
def tokenize (s : Scanner) : Except ScanError (List Token) × Scanner :=
  match hs : s.skipBlanks.ahead with
  | [] => (.ok s.skipBlanks.tokens, s.skipBlanks)
  | c :: rest =>
    match h : Token.front c rest with
    | .error fault => (.error (s.skipBlanks.errorAt fault), s.skipBlanks)
    | .ok (kind, length) =>
      have := length_ahead_lt hs h
      tokenize (s.skipBlanks.emit kind length)
termination_by s.ahead.length
decreasing_by assumption

end Scanner

def Token.scan (source : Text) : Except ScanError (List Token) :=
  (Scanner.ofText source).tokenize.1

end Calculator
