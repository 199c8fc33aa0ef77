import Calculator.Automaton.Identifier
import Calculator.Decimal.Fixed
import Calculator.Document.Reader
import Calculator.Folder
import Calculator.Report

/-! Settings: named constants and the number of decimal places of results. They are read from a
document with a table of constants and a table on output; a missing file means that nothing is
set. -/

set_option autoImplicit false

namespace Calculator

inductive FormatError
  | missingPrecision
  | precisionTooBig
  | tooManyDigits
  | longPrecision
  deriving DecidableEq, Repr

def digitLimitMessage : Text :=
  "Exceeds the limit (".toList ++ Text.ofNat Value.digitLimit ++
    " digits) for integer string conversion".toList

def digitLimitHint : Text :=
  "; use sys.set_int_max_str_digits() to increase the limit".toList

def FormatError.message : FormatError → Text
  | .missingPrecision => "Format specifier missing precision".toList
  | .precisionTooBig => "precision too big".toList
  | .tooManyDigits => "Too many decimal digits in format string".toList
  | .longPrecision => digitLimitMessage ++ digitLimitHint

/-- A number with the given precision: so many decimal places, or the shortest form. A precision
has to fit into a signed word of 32 bits, and to be read into one of 64 bits. -/
def formatNumber (precision : Option Int) (x : Float) : Except FormatError Text :=
  match precision with
  | none => .ok (Layout.shown.write x)
  | some p =>
    if Value.isLong p then .error .longPrecision
    else if p < 0 then .error .missingPrecision
    else if wordBound ≤ p then .error .tooManyDigits
    else if 0x80000000 ≤ p then .error .precisionTooBig
    else .ok (fixedPlaces p.toNat x)

structure Settings where
  constants : List (Text × Float)
  precision : Option Nat
  deriving DecidableEq

inductive SettingsError
  | notToml (path : Text)
  | constantsNoTable (value : Value)
  | badName (name : Text)
  | noNumber (name : Text) (value : Value)
  | outputNoTable (value : Value)
  | badPrecision (value : Value)

namespace SettingsError

def message : SettingsError → Text
  | .notToml path => "Invalid TOML in ".toList ++ path
  | .constantsNoTable v => "[constants] must be a table, got ".toList ++ v.shown
  | .badName name => "Constant name ".toList ++ Text.quoted name ++ " is not a valid identifier".toList
  | .noNumber name v =>
    "Constant ".toList ++ Text.quoted name ++ " must be a number, got ".toList ++ v.shown
  | .outputNoTable v => "[output] must be a table, got ".toList ++ v.shown
  | .badPrecision v => "output.precision must be a non-negative integer, got ".toList ++ v.shown

def report (e : SettingsError) : Report := ⟨.plain .settings e.message, none⟩

def subject? : SettingsError → Option Value
  | .notToml _ => none
  | .constantsNoTable v => some v
  | .badName _ => none
  | .noNumber _ v => some v
  | .outputNoTable v => some v
  | .badPrecision v => some v

end SettingsError

/-- Why settings cannot be loaded: they are wrong, or they cannot be read or held at all. A long
integer is one that cannot be read, with its number of digits, or one that cannot be shown; too
deep is what nests too deep to be read or to be shown. -/
inductive LoadFailure
  | invalid (error : SettingsError)
  | integerOverflow
  | longInteger (digits : Option Nat)
  | tooDeep
  | notUtf8
  | isDirectory
  | unreachable

def LoadFailure.message? : LoadFailure → Option Text
  | .integerOverflow => some "int too large to convert to float".toList
  | .longInteger none => some (digitLimitMessage ++ digitLimitHint)
  | .longInteger (some digits) =>
    some (digitLimitMessage ++ ": value has ".toList ++ Text.ofNat digits ++ " digits".toList ++
      digitLimitHint)
  | _ => none

namespace Settings

def default : Settings := ⟨[], none⟩

def symbols (s : Settings) : Symbols := Symbols.withConstants s.constants

def format (s : Settings) (x : Float) : Except FormatError Text :=
  formatNumber (s.precision.map Int.ofNat) x

/-- Refuses a document, provided that the value to blame can be shown. -/
def refuse {α : Type} (e : SettingsError) : Except LoadFailure α :=
  match e.subject?.bind (Value.obstacle? Value.showLimit) with
  | none => .error (.invalid e)
  | some .longInteger => .error (.longInteger none)
  | some .tooDeep => .error .tooDeep

/-- Whether a source can name a constant: an identifier that starts with a letter. -/
def isName (name : Text) : Bool :=
  identifierAutomaton.run name == some name && name.head?.any Text.isLetter

def floatOfInt? (n : Int) : Option Float :=
  let bits := nearestBits n.natAbs 1
  if bits = infinityBits then none
  else
    let size := Float.ofBits bits.toUInt64
    some (if n < 0 then -size else size)

def number (name : Text) : Value → Except LoadFailure Float
  | .integer n =>
    match floatOfInt? n with
    | some x => .ok x
    | none => .error .integerOverflow
  | .float x => .ok x
  | v => refuse (.noNumber name v)

/-- The constants of a table. Each name is checked before its value. -/
def constantsOf : Table → Except LoadFailure (List (Text × Float))
  | [] => .ok []
  | (name, v) :: rest =>
    if isName name then do
      let x ← number name v
      let others ← constantsOf rest
      return (name, x) :: others
    else refuse (.badName name)

def precisionOf (t : Table) : Except LoadFailure (Option Nat) :=
  match Table.find? t "precision".toList with
  | none => .ok none
  | some (.integer n) => if 0 ≤ n then .ok (some n.toNat) else refuse (.badPrecision (.integer n))
  | some v => refuse (.badPrecision v)

/-- The settings of a document. Constants are checked before the output. -/
def ofDocument (document : Table) : Except LoadFailure Settings := do
  let constants ← match Table.find? document "constants".toList with
    | none => pure []
    | some (.table t) => constantsOf t
    | some v => refuse (.constantsNoTable v)
  let precision ← match Table.find? document "output".toList with
    | none => pure none
    | some (.table t) => precisionOf t
    | some v => refuse (.outputNoTable v)
  return ⟨constants, precision⟩

end Settings

namespace FileContent

def unifyLineEnds : Text → Text
  | '\r' :: '\n' :: rest => '\n' :: unifyLineEnds rest
  | '\r' :: rest => '\n' :: unifyLineEnds rest
  | c :: rest => c :: unifyLineEnds rest
  | [] => []

def settings (path : Text) : FileContent → Except LoadFailure Settings
  | .missing => .ok .default
  | .directory => .error .isDirectory
  | .unreachable => .error .unreachable
  | .bytes content =>
    match String.fromUTF8? content with
    | none => .error .notUtf8
    | some source =>
      match Table.read (unifyLineEnds source.toList) with
      | .ok document => Settings.ofDocument document
      | .error .malformed => .error (.invalid (.notToml path))
      | .error (.longInteger digits) => .error (.longInteger (some digits))
      | .error .tooDeep => .error .tooDeep

end FileContent

end Calculator
