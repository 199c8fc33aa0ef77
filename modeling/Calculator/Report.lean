import Calculator.Evaluation
import Calculator.Token.Scanner
import Calculator.Tree.Parser

/-! Reports of faults. A report names the kind of the fault and says what is wrong; if the fault
has a place, the source line can be shown with a mark below the offending column. -/

set_option autoImplicit false

namespace Calculator

inductive Stage
  | general
  | lexical
  | grammatical
  | evaluation
  | settings
  deriving DecidableEq, Repr

inductive Fault
  | plain (stage : Stage) (message : Text)
  | unrecognizedCharacter (character : Text)
  | invalidNumber
  | unexpectedToken (lexeme : Text)
  | unexpectedEnd
  | expectedClose (found : Text)
  | symbolNotFound (name : Text)
  | nestingTooDeep
  | unimplemented (description : Text)
  deriving DecidableEq, Repr

namespace Fault

def stage : Fault → Stage
  | .plain stage _ => stage
  | .unrecognizedCharacter _ => .lexical
  | .invalidNumber => .lexical
  | .unexpectedToken _ => .grammatical
  | .unexpectedEnd => .grammatical
  | .expectedClose _ => .grammatical
  | .symbolNotFound _ => .evaluation
  | .nestingTooDeep => .evaluation
  | .unimplemented _ => .evaluation

def kind : Fault → Text
  | .plain .settings _ => "ConfigError".toList
  | .plain _ _ => "Error".toList
  | .unrecognizedCharacter _ => "UnrecognizedCharacter".toList
  | .invalidNumber => "InvalidNumber".toList
  | .unexpectedToken _ => "UnexpectedToken".toList
  | .unexpectedEnd => "UnexpectedEndOfLine".toList
  | .expectedClose _ => "ExpectedCloseParen".toList
  | .symbolNotFound _ => "SymbolNotFound".toList
  | .nestingTooDeep => "NestingTooDeep".toList
  | .unimplemented _ => "Unimplemented".toList

def message : Fault → Text
  | .plain _ message => message
  | .unrecognizedCharacter c => "unrecognized character ".toList ++ Text.quoted c
  | .invalidNumber => "invalid number literal".toList
  | .unexpectedToken lexeme => "unexpected token ".toList ++ Text.quoted lexeme
  | .unexpectedEnd => "unexpected end of line".toList
  | .expectedClose found => "expected ')', found ".toList ++ Text.quoted found
  | .symbolNotFound name => "symbol ".toList ++ Text.quoted name ++ " not found".toList
  | .nestingTooDeep => "expression nested too deeply".toList
  | .unimplemented description => description

end Fault

/-- Why a mark cannot be drawn: the number of blanks in front of it is no signed word of 64 bits,
or there is no room for so many. -/
inductive MarkFault
  | noWord
  | noRoom
  deriving DecidableEq, Repr

def MarkFault.message? : MarkFault → Option Text
  | .noWord => some noWordMessage
  | .noRoom => none

structure Context where
  line : Int
  column : Int
  snippet : Option Text
  deriving DecidableEq, Repr

namespace Context

def ofLocation (l : Location) : Context := ⟨l.line, l.column, none⟩

def location? (c : Context) : Option Location := Location.ofInts? c.line c.column

/-- What stands in front of a shown source line: its number, four characters wide or more. -/
def margin (c : Context) : Text := Text.alignRight 4 (Text.ofInt c.line) ++ " | ".toList

def marked (c : Context) (snippet : Text) : Text :=
  c.margin ++ snippet ++
    '\n' :: List.replicate (c.margin.length + c.column).toNat ' ' ++ "^^^".toList

/-- How many blanks a line can have at most. Beyond that, no memory holds it. -/
def blankLimit : Nat := 0x1000000000

def markFault? (c : Context) : Option MarkFault :=
  let blanks := c.margin.length + c.column
  if blanks < -wordBound ∨ wordBound ≤ blanks then some .noWord
  else if (blankLimit : Int) < blanks then some .noRoom
  else none

def lineIn? (c : Context) (source : Text) : Option Text :=
  if c.line < 0 then none else (Text.lines source)[c.line.toNat]?

def text (c : Context) : Text :=
  let place := "line ".toList ++ Text.ofInt c.line ++ ", column ".toList ++ Text.ofInt c.column
  match c.snippet with
  | none => place
  | some snippet => place ++ '\n' :: c.marked snippet

end Context

structure Report where
  fault : Fault
  context : Option Context
  deriving DecidableEq, Repr

namespace Report

def headline (r : Report) : Text := r.fault.kind ++ ": ".toList ++ r.fault.message

def summary (r : Report) : Text :=
  match r.context with
  | none => r.headline
  | some c =>
    r.headline ++ " at (".toList ++ Text.ofInt c.line ++ ", ".toList ++ Text.ofInt c.column ++ [')']

def rendered (r : Report) : Text :=
  match r.context with
  | some ⟨line, column, some snippet⟩ =>
    r.headline ++ '\n' :: (Context.mk line column (some snippet)).text
  | _ => r.summary

/-- The report with the line of the given source that the fault is on. A fault on no line of the
source is rendered as it is. -/
def inSource (r : Report) (source : Text) : Text :=
  match r.context with
  | none => r.summary
  | some c =>
    match c.lineIn? source with
    | none => r.rendered
    | some line => r.headline ++ '\n' :: { c with snippet := some line }.text

/-- Why the report cannot be drawn with a mark, be it in the line that it brings along or in the
line of the source. Places that a source has itself can always be marked. -/
def markFault? (r : Report) (source : Text) : Option MarkFault :=
  match r.context with
  | none => none
  | some c =>
    if c.snippet.isSome || (c.lineIn? source).isSome then c.markFault? else none

end Report

def Fault.reportAt (fault : Fault) (l : Location) : Report := ⟨fault, some (.ofLocation l)⟩

def ScanFault.fault : ScanFault → Fault
  | .unrecognized c => .unrecognizedCharacter [c]
  | .invalidNumber => .invalidNumber

def ScanError.report (e : ScanError) : Report := e.fault.fault.reportAt ⟨e.line, e.column⟩

def GrammarError.report : GrammarError → Report
  | .unexpectedToken lexeme l => (Fault.unexpectedToken lexeme).reportAt l
  | .unexpectedEnd l => Fault.unexpectedEnd.reportAt l
  | .expectedClose found l => (Fault.expectedClose found).reportAt l

/-- The report of a program without a result. A fault of the runtime has none. -/
def EvalError.report? : EvalError → Option Report
  | .symbolNotFound name l => some ((Fault.symbolNotFound name).reportAt l)
  | .nestingTooDeep l => some (Fault.nestingTooDeep.reportAt l)
  | .unimplemented gap => some ⟨.unimplemented gap.description, none⟩
  | .zeroDivision => none

end Calculator
