import Calculator.Decimal

/-! Numerals: which texts are read as a float. Around a numeral blanks are allowed, its digits
may be those of any script, and a single underscore may stand between two digits. The words
for infinity and for what is no number are read in any case of their letters. -/

set_option autoImplicit false

namespace Calculator.Numeral

/-- Code points of the digit zero beyond ASCII. The other nine digits follow each of them. -/
def zeroDigits : List Nat :=
  [0x660, 0x6f0, 0x7c0, 0x966, 0x9e6, 0xa66, 0xae6, 0xb66, 0xbe6, 0xc66, 0xce6, 0xd66, 0xde6,
   0xe50, 0xed0, 0xf20, 0x1040, 0x1090, 0x17e0, 0x1810, 0x1946, 0x19d0, 0x1a80, 0x1a90, 0x1b50,
   0x1bb0, 0x1c40, 0x1c50, 0xa620, 0xa8d0, 0xa900, 0xa9d0, 0xa9f0, 0xaa50, 0xabf0, 0xff10,
   0x104a0, 0x10d30, 0x11066, 0x110f0, 0x11136, 0x111d0, 0x112f0, 0x11450, 0x114d0, 0x11650,
   0x116c0, 0x11730, 0x118e0, 0x11950, 0x11c50, 0x11d50, 0x11da0, 0x16a60, 0x16ac0, 0x16b50,
   0x1d7ce, 0x1d7d8, 0x1d7e2, 0x1d7ec, 0x1d7f6, 0x1e140, 0x1e2f0, 0x1e950, 0x1fbf0]

def isWideBlank (c : Char) : Bool :=
  [0x85, 0xa0, 0x1680, 0x2028, 0x2029, 0x202f, 0x205f, 0x3000].contains c.toNat ||
    (0x2000 ≤ c.toNat && c.toNat ≤ 0x200a)

def plain (c : Char) : Char :=
  if c.toNat < 0x7f then c
  else if isWideBlank c then ' '
  else match zeroDigits.find? (fun z => z ≤ c.toNat && c.toNat < z + 10) with
    | some z => Char.ofNat ('0'.toNat + (c.toNat - z))
    | none => c

def strip (t : Text) : Text :=
  ((t.dropWhile Text.isBlank).reverse.dropWhile Text.isBlank).reverse

/-- A text without its underscores, each of which has to stand between two digits. The first
argument says whether a digit came just before. -/
def joined : Bool → Text → Option Text
  | _, [] => some []
  | afterDigit, '_' :: rest =>
    if afterDigit && (rest.head?.any Text.isDigit) then joined false rest else none
  | _, c :: rest => (joined (Text.isDigit c) rest).map (c :: ·)

def value (digits : Text) : Nat :=
  digits.foldl (fun n c => 10 * n + (c.toNat - '0'.toNat)) 0

def splitSign : Text → Bool × Text
  | '-' :: rest => (true, rest)
  | '+' :: rest => (false, rest)
  | rest => (false, rest)

def exponent? : Text → Option Int
  | [] => some 0
  | mark :: rest =>
    let (negative, digits) := splitSign rest
    if (mark == 'e' || mark == 'E') && !digits.isEmpty && digits.all Text.isDigit then
      some (if negative then -(value digits : Int) else value digits)
    else none

/-- Digits with a point among them or on either side, and an exponent. -/
def decimal? (t : Text) : Option Decimal :=
  let whole := t.takeWhile Text.isDigit
  let rest := t.dropWhile Text.isDigit
  let (fraction, tail) := match rest with
    | '.' :: behind => (behind.takeWhile Text.isDigit, behind.dropWhile Text.isDigit)
    | _ => ([], rest)
  if whole.isEmpty && fraction.isEmpty then none
  else (exponent? tail).map fun e => ⟨value (whole ++ fraction), e - fraction.length⟩

def magnitude? (t : Text) : Option Float :=
  let word := t.map Char.toLower
  if word = "inf".toList || word = "infinity".toList then
    some (Float.ofBits infinityBits.toUInt64)
  else if word = "nan".toList then some (0.0 / 0.0)
  else (decimal? t).map Decimal.toFloat

def read? (t : Text) : Option Float := do
  let body ← joined false (strip (t.map plain))
  let (negative, rest) := splitSign body
  let size ← magnitude? rest
  return if negative then -size else size

end Calculator.Numeral
