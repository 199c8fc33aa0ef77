import Calculator.Decimal.Numeral
import Calculator.SignedIndex
import Calculator.Tree

/-! The parser: recursive descent over a list of tokens.

* `statement`: an identifier, an equals sign and a comparison, or a comparison alone;
* `comparison`: one sum, or two with a relational operator between them;
* `sum`: one product, or two with a plus or minus between them;
* `product`: one factor, or two with a times or division sign between them;
* `factor`: a number, an identifier, or a comparison in parentheses.

Each level takes at most one operator, and parentheses nest at most `maxDepth` deep. A failed
parse leaves the cursor where it was when the fault was found. -/

set_option autoImplicit false

namespace Calculator

inductive GrammarError
  | unexpectedToken (lexeme : Text) (location : Location)
  | unexpectedEnd (location : Location)
  | expectedClose (found : Text) (location : Location)
  deriving DecidableEq, Repr

/-- Why a parser stops. Only the first cause can arise from the tokens of a source: a number
whose lexeme is no numeral and a token without a place are made by hand, and no token is
missing where one was seen. -/
inductive ParseFailure
  | grammar (error : GrammarError)
  | badNumeral (lexeme : Text)
  | badPlace
  | noToken
  deriving DecidableEq, Repr

def ParseFailure.message? : ParseFailure → Option Text
  | .badNumeral lexeme => some ("could not convert string to float: ".toList ++ Text.quoted lexeme)
  | .noToken => some (OutOfRange.beforeStart.message "list".toList)
  | _ => none

/-- A position in a list of tokens, and the number of parentheses open there. -/
structure Cursor where
  tokens : List Token
  position : Nat
  depth : Nat
  deriving DecidableEq, Repr

namespace Cursor

def ofTokens (tokens : List Token) : Cursor := ⟨tokens, 0, 0⟩

def peek (c : Cursor) (distance : Int) : Except OutOfRange (Option Token) :=
  signedLookup c.tokens (c.position + distance)

end Cursor

def maxDepth : Nat := 64

def endOfLine : Text := "EOL".toList

abbrev Parser := EStateM ParseFailure Cursor

namespace Parser

def current? : Parser (Option Token) := do
  let c ← get
  return c.tokens[c.position]?

def advance : Parser Token := do
  match ← current? with
  | none => throw .noToken
  | some t =>
    modify fun c => { c with position := c.position + 1 }
    return t

def operator? (table : TokenKind → Option Operator) : Parser (Option (Token × Operator)) := do
  match ← current? with
  | none => return none
  | some t =>
    match table t.kind with
    | none => return none
    | some op =>
      let _ ← advance
      return some (t, op)

def placed : Option Location → Parser Location
  | none => throw .badPlace
  | some l => return l

/-- Where the last character passed stands; the start of the source if none was passed. -/
def endLocation : Parser Location := do
  let c ← get
  if c.position = 0 then return .origin
  else match c.tokens[c.position - 1]? with
    | none => throw .noToken
    | some t => placed t.endLocation?

def unexpected {α : Type} (t : Token) : Parser α := do
  let l ← placed t.location?
  throw (.grammar (.unexpectedToken t.lexeme l))

def close : Parser Unit := do
  match ← current? with
  | none =>
    let l ← endLocation
    throw (.grammar (.expectedClose endOfLine l))
  | some t =>
    if t.kind = .rightParen then
      let _ ← advance
    else
      let l ← placed t.location?
      throw (.grammar (.expectedClose t.lexeme l))

def binary (operand : Parser Tree) (table : TokenKind → Option Operator) : Parser Tree := do
  let left ← operand
  match ← operator? table with
  | none => return left
  | some (t, op) =>
    let right ← operand
    let l ← placed t.location?
    return .operation op left right l

def product (factor : Parser Tree) : Parser Tree := binary factor Operator.multiplicative?

def sum (factor : Parser Tree) : Parser Tree := binary (product factor) Operator.additive?

def comparison (factor : Parser Tree) : Parser Tree := binary (sum factor) Operator.relational?

def enclosed (inner : Parser Tree) : Parser Tree := do
  let _ ← advance
  modify fun c => { c with depth := c.depth + 1 }
  let t ← inner
  close
  modify fun c => { c with depth := c.depth - 1 }
  return t

/-- A factor, given the parser of what stands in parentheses, if they may nest any deeper. -/
def factorWith (inner : Option (Parser Tree)) : Parser Tree := do
  match ← current? with
  | none =>
    let l ← endLocation
    throw (.grammar (.unexpectedEnd l))
  | some t =>
    match t.kind with
    | .number =>
      let _ ← advance
      match Numeral.read? t.lexeme with
      | none => throw (.badNumeral t.lexeme)
      | some value =>
        let l ← placed t.location?
        return .number value l
    | .identifier =>
      let _ ← advance
      let l ← placed t.location?
      return .identifier t.lexeme l
    | .leftParen =>
      match inner with
      | none => unexpected t
      | some inner => enclosed inner
    | _ => unexpected t

def factor : Nat → Parser Tree
  | 0 => factorWith none
  | room + 1 => factorWith (some (comparison (factor room)))

def statement (factor : Parser Tree) : Parser Tree := do
  let c ← get
  match c.tokens[c.position]?, c.tokens[c.position + 1]? with
  | some target, some next =>
    if target.kind = .identifier ∧ next.kind = .assign then
      let _ ← advance
      let _ ← advance
      let right ← comparison factor
      let l ← placed target.location?
      return .assignment target.lexeme right l
    else comparison factor
  | _, _ => comparison factor

/-- The program of all tokens: nothing, or one statement up to the last token. -/
def program (factor : Parser Tree) : Parser Tree := do
  let c ← get
  if c.tokens.isEmpty then return .program [] .origin
  else
    let t ← statement factor
    match ← current? with
    | some trailing => unexpected trailing
    | none => return .program [t] .origin

/-- Runs a parser whose factors may nest as deep as the cursor allows. -/
def fromHere (parser : Parser Tree → Parser Tree) : Parser Tree := do
  let c ← get
  parser (factor (maxDepth - c.depth))

end Parser

def Cursor.run {α : Type} (c : Cursor) (parser : Parser α) : Except ParseFailure α × Cursor :=
  match parser c with
  | .ok value c' => (.ok value, c')
  | .error failure c' => (.error failure, c')

def Tree.ofTokens (tokens : List Token) : Except ParseFailure Tree :=
  ((Cursor.ofTokens tokens).run (Parser.fromHere Parser.program)).1

end Calculator
