import Calculator.Report

/-! Sources: a text is cut into tokens, parsed to a program and evaluated. The first fault ends
the work. -/

set_option autoImplicit false

namespace Calculator

inductive SourceError
  | scan (error : ScanError)
  | parse (failure : ParseFailure)
  | eval (error : EvalError)
  deriving DecidableEq, Repr

/-- The report of a source without a result. Failures that no source can cause have none. -/
def SourceError.report? : SourceError → Option Report
  | .scan e => some e.report
  | .parse (.grammar e) => some e.report
  | .parse _ => none
  | .eval e => e.report?

namespace Source

def parse (source : Text) : Except SourceError Tree :=
  match Token.scan source with
  | .error e => .error (.scan e)
  | .ok tokens =>
    match Tree.ofTokens tokens with
    | .error failure => .error (.parse failure)
    | .ok program => .ok program

/-- The results of a source, and the symbol table after it. -/
def evaluate (source : Text) (symbols : Symbols) : Except SourceError (List Float) × Symbols :=
  match parse source with
  | .error e => (.error e, symbols)
  | .ok program =>
    match symbols.run (program.run Tree.walkLimit) with
    | (.error e, symbols') => (.error (.eval e), symbols')
    | (.ok values, symbols') => (.ok values, symbols')

end Source

end Calculator
