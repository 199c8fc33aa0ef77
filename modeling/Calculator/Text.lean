/-! Text as a list of characters. Offsets, lengths and columns count characters, so
every position of the calculator is a plain natural number. -/

set_option autoImplicit false

namespace Calculator

/-- A text is the list of its characters. -/
abbrev Text := List Char

namespace Text

def ofNat (n : Nat) : Text := Nat.toDigits 10 n

def ofInt : Int → Text
  | .ofNat n => ofNat n
  | .negSucc n => '-' :: ofNat (n + 1)

/-- The lines of a text. A text with `n` line ends has `n + 1` lines. -/
def lines (t : Text) : List Text := t.splitOn '\n'

def join (separator : Text) (parts : List Text) : Text := separator.intercalate parts

def alignRight (width : Nat) (t : Text) : Text := List.replicate (width - t.length) ' ' ++ t

def zeroPad (width : Nat) (t : Text) : Text := List.replicate (width - t.length) '0' ++ t

def hex (width n : Nat) : Text := zeroPad width (Nat.toDigits 16 n)

def byteLength (t : Text) : Nat := t.foldl (fun n c => n + c.utf8Size) 0

def isLetter (c : Char) : Bool := c.isAlpha

def isDigit (c : Char) : Bool := c.isDigit

def isWord (c : Char) : Bool := c.isAlphanum || c == '_'

/-- One of the six characters that separate the tokens of a source. -/
def isBlank (c : Char) : Bool :=
  c == ' ' || c == '\t' || c == '\r' || c == '\n' || c == '\x0c' || c == '\x0b'

theorem join_cons (separator first : Text) (rest : List Text) :
    join separator (first :: rest) = first ++ rest.flatMap (separator ++ ·) := by
  induction rest generalizing first with
  | nil => rw [join, List.intercalate_singleton, List.flatMap_nil, List.append_nil]
  | cons next rest ih =>
    rw [join, List.intercalate_cons_cons, ← join, ih, List.flatMap_cons, List.append_assoc,
      List.append_assoc]

theorem isDigit_iff (c : Char) : isDigit c ↔ 48 ≤ c.toNat ∧ c.toNat ≤ 57 := by
  simp only [isDigit, Char.isDigit, Bool.and_eq_true, decide_eq_true_eq, UInt32.le_iff_toNat_le,
    ge_iff_le]
  rfl

theorem isLetter_iff (c : Char) : isLetter c ↔
    (65 ≤ c.toNat ∧ c.toNat ≤ 90) ∨ (97 ≤ c.toNat ∧ c.toNat ≤ 122) := by
  change (c.isUpper || c.isLower) = true ↔ _
  rw [Bool.or_eq_true]
  apply or_congr
  · exact decide_eq_true_iff
  · exact Bool.and_eq_true_iff.trans (and_congr decide_eq_true_iff decide_eq_true_iff)

theorem isWord_iff (c : Char) : isWord c ↔ isLetter c ∨ isDigit c ∨ c = '_' := by
  simp only [isWord, isLetter, isDigit, Char.isAlphanum, Bool.or_eq_true, beq_iff_eq, or_assoc]

theorem isBlank_eq_false {c : Char} (h : 32 < c.toNat) : isBlank c = false := by
  cases hc : isBlank c with
  | false => rfl
  | true =>
    simp only [isBlank, Bool.or_eq_true, beq_iff_eq] at hc
    rcases hc with ((((rfl | rfl) | rfl) | rfl) | rfl) | rfl <;> exact absurd h (by decide)

theorem span_append {p : Char → Bool} {w rest : Text} (hw : ∀ c ∈ w, p c)
    (hrest : ∀ c ∈ rest.head?, p c = false) :
    (w ++ rest).takeWhile p = w ∧ (w ++ rest).dropWhile p = rest := by
  rw [List.takeWhile_append_of_pos hw, List.dropWhile_append_of_pos hw]
  cases rest with
  | nil => simp
  | cons c rest => simp [hrest c rfl]

end Text

end Calculator
