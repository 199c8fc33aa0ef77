import Calculator.Decimal.Numeral
import Calculator.Document.Table

/-! Reading documents in the TOML format, version 1.0: comments, bare, quoted and dotted keys,
tables and arrays of tables, texts in four forms, integers in four bases, floats, truth values,
dates and times, arrays and inline tables. -/

set_option autoImplicit false

namespace Calculator

inductive ReadError
  | malformed
  | longInteger (digits : Nat)
  | tooDeep
  deriving DecidableEq, Repr

abbrev Reader := StateT Text (Except ReadError)

namespace Reader

def fail {α : Type} : Reader α := throw .malformed

def need {α : Type} : Option α → Reader α
  | none => fail
  | some a => return a

def next? : Reader (Option Char) := return (← get).head?

def pass (n : Nat) : Reader Unit := modify (List.drop n)

def skip (p : Char → Bool) : Reader Unit := modify (List.dropWhile p)

def accept (expected : Text) : Reader Bool := do
  let t ← get
  if expected.isPrefixOf t then
    pass expected.length
    return true
  else return false

def expect (expected : Text) : Reader Unit := do
  if !(← accept expected) then fail

/-- Repeats a step until it says that it was the last one. Each step passes a character, so the
length of the text bounds their number. -/
def loop {β : Type} (step : β → Reader (β × Bool)) : Nat → β → Reader β
  | 0, _ => fail
  | n + 1, b => do
    let (b, more) ← step b
    if more then loop step n b else return b

def repeatSteps {β : Type} (step : β → Reader (β × Bool)) (start : β) : Reader β := do
  loop step ((← get).length + 1) start

def isSpace (c : Char) : Bool := c == ' ' || c == '\t'

def isGap (c : Char) : Bool := isSpace c || c == '\n'

/-- Control characters, which stand in no text and in no comment, the tab excepted. -/
def isControl (c : Char) : Bool := (c.toNat < 0x20 && c != '\t') || c.toNat == 0x7f

def isLineControl (c : Char) : Bool := isControl c && c != '\n'

def isBare (c : Char) : Bool := c.isAlphanum || c == '-' || c == '_'

def comment : Reader Unit := do
  if (← next?) == some '#' then
    let body := (← get).takeWhile (· != '\n')
    if (body.drop 1).any isControl then fail
    skip (· != '\n')

def gaps : Reader Unit :=
  repeatSteps (fun _ => do
    skip isGap
    comment
    return ((), (← next?).any isGap)) ()

def splitAt? (delimiter : Text) : Text → Option (Text × Text)
  | [] => if delimiter.isEmpty then some ([], []) else none
  | c :: rest =>
    if delimiter.isPrefixOf (c :: rest) then some ([], (c :: rest).drop delimiter.length)
    else (splitAt? delimiter rest).map fun (front, behind) => (c :: front, behind)

def upTo (delimiter : Text) (refused : Char → Bool) : Reader Text := do
  let (front, behind) ← need (splitAt? delimiter (← get))
  if front.any refused then fail
  set behind
  return front

def hexDigit? (c : Char) : Option Nat :=
  if c.isDigit then some (c.toNat - '0'.toNat)
  else if 'a' ≤ c && c ≤ 'f' then some (c.toNat - 'a'.toNat + 10)
  else if 'A' ≤ c && c ≤ 'F' then some (c.toNat - 'A'.toNat + 10)
  else none

def baseValue (base : Nat) (digits : Text) : Nat :=
  digits.foldl (fun n c => base * n + (hexDigit? c).getD 0) 0

def codeChar (width : Nat) : Reader Text := do
  let digits := (← get).take width
  if digits.length != width || !digits.all (hexDigit? · |>.isSome) then fail
  pass width
  let code := baseValue 16 digits
  if code.isValidChar then return [Char.ofNat code] else fail

/-- What an escape stands for. In texts of several lines a backslash at the end of a line passes
all blanks up to the next character. -/
def escaped (multiline : Bool) : Reader Text := do
  pass 1
  let c ← need (← next?)
  if multiline && isGap c then
    skip isSpace
    match ← next? with
    | none => return []
    | some c =>
      if c != '\n' then fail
      skip isGap
      return []
  else
    pass 1
    match c with
    | 'u' => codeChar 4
    | 'U' => codeChar 8
    | 'b' => return ['\x08']
    | 't' => return ['\t']
    | 'n' => return ['\n']
    | 'f' => return ['\x0c']
    | 'r' => return ['\r']
    | '"' => return ['"']
    | '\\' => return ['\\']
    | _ => fail

def basicBody (multiline : Bool) : Reader Text := do
  let refused := if multiline then isLineControl else isControl
  let parts ← repeatSteps (fun parts : List Text => do
    match ← get with
    | [] => fail
    | '"' :: rest =>
      if !multiline then
        set rest
        return (parts, false)
      else if ['"', '"'].isPrefixOf rest then
        pass 3
        return (parts, false)
      else
        set rest
        return (['"'] :: parts, true)
    | '\\' :: _ =>
      let part ← escaped multiline
      return (part :: parts, true)
    | c :: rest =>
      if refused c then fail
      set rest
      return ([c] :: parts, true)) []
  return parts.reverse.flatten

/-- Up to two quotes that directly follow the closing quotes of a text of several lines. -/
def extraQuotes (quote : Char) : Reader Text := do
  if !(← accept [quote]) then return []
  if !(← accept [quote]) then return [quote]
  return [quote, quote]

def basicText : Reader Text := do
  pass 1
  basicBody false

def literalText : Reader Text := do
  pass 1
  upTo ['\''] isControl

/-- A text of several lines. A line end directly behind the opening quotes is not part of it. -/
def multilineText (quote : Char) : Reader Text := do
  pass 3
  let _ ← accept ['\n']
  let body ← if quote == '"' then basicBody true else upTo [quote, quote, quote] isLineControl
  return body ++ (← extraQuotes quote)

def keyPart : Reader Text := do
  match ← next? with
  | some '\'' => literalText
  | some '"' => basicText
  | some c =>
    if !isBare c then fail
    let part := (← get).takeWhile isBare
    skip isBare
    return part
  | none => fail

def key : Reader Path := do
  let parts ← repeatSteps (fun parts : List Text => do
    let part ← keyPart
    skip isSpace
    if ← accept ['.'] then
      skip isSpace
      return (part :: parts, true)
    else return (part :: parts, false)) []
  return parts.reverse

/-- A run of digits with single underscores between them: the digits, and what follows. -/
def digitRun (p : Char → Bool) : Text → Option (Text × Text)
  | [] => none
  | c :: rest => if p c then some (go [c] rest) else none
where
  go (read : Text) : Text → Text × Text
    | '_' :: c :: rest => if p c then go (c :: read) rest else (read.reverse, '_' :: c :: rest)
    | c :: rest => if p c then go (c :: read) rest else (read.reverse, c :: rest)
    | [] => (read.reverse, [])

def twoDigits (least most : Nat) : Text → Option (Nat × Text)
  | c :: d :: rest =>
    let n := Numeral.value [c, d]
    if c.isDigit && d.isDigit && least ≤ n && n ≤ most then some (n, rest) else none
  | _ => none

def mark (p : Char → Bool) : Text → Option Text
  | c :: rest => if p c then some rest else none
  | [] => none

def date? (t : Text) : Option (Date × Text) := do
  let year := t.take 4
  if year.length = 4 && year.all Char.isDigit then
    let rest ← mark (· == '-') (t.drop 4)
    let (month, rest) ← twoDigits 1 12 rest
    let rest ← mark (· == '-') rest
    let (day, rest) ← twoDigits 1 31 rest
    return (⟨Numeral.value year, month, day⟩, rest)
  else none

/-- A fraction of a second in microseconds, and what follows. Further digits are dropped. -/
def fraction (t : Text) : Nat × Text :=
  match t with
  | '.' :: rest =>
    let digits := rest.takeWhile Char.isDigit
    if digits.isEmpty then (0, t)
    else
      let kept := digits.take 6
      (Numeral.value (kept ++ List.replicate (6 - kept.length) '0'), rest.dropWhile Char.isDigit)
  | _ => (0, t)

def clock? (t : Text) : Option (Clock × Text) := do
  let (hour, rest) ← twoDigits 0 23 t
  let rest ← mark (· == ':') rest
  let (minute, rest) ← twoDigits 0 59 rest
  let rest ← mark (· == ':') rest
  let (second, rest) ← twoDigits 0 59 rest
  let (microsecond, rest) := fraction rest
  return (⟨hour, minute, second, microsecond⟩, rest)

def offset? (t : Text) : Option (Int × Text) :=
  match t with
  | 'Z' :: rest => some (0, rest)
  | 'z' :: rest => some (0, rest)
  | sign :: rest => do
    if sign == '+' || sign == '-' then
      let (hours, rest) ← twoDigits 0 23 rest
      let rest ← mark (· == ':') rest
      let (minutes, rest) ← twoDigits 0 59 rest
      let size : Int := 60 * hours + minutes
      return (if sign == '-' then -size else size, rest)
    else none
  | [] => none

def moment? (t : Text) : Option (Value × Date × Text) := do
  let (date, rest) ← date? t
  let timed := do
    let rest ← mark (fun c => c == 'T' || c == 't' || c == ' ') rest
    clock? rest
  match timed with
  | none => return (.date date, date, rest)
  | some (clock, rest) =>
    match offset? rest with
    | some (offset, rest) => return (.moment date clock (some offset), date, rest)
    | none => return (.moment date clock none, date, rest)

def prefixed? (t : Text) : Option (Int × Text) :=
  let ofBase (base : Nat) (rest : Text) : Option (Int × Text) :=
    (digitRun (fun c => (hexDigit? c).any (· < base)) rest).map fun (digits, rest) =>
      ((baseValue base digits : Int), rest)
  match t with
  | '0' :: 'x' :: rest => ofBase 16 rest
  | '0' :: 'b' :: rest => ofBase 2 rest
  | '0' :: 'o' :: rest => ofBase 8 rest
  | _ => none

/-- The digits of a decimal integer, which has no leading zero, and what follows. -/
def wholeDigits? : Text → Option (Text × Text)
  | '0' :: rest => some (['0'], rest)
  | t => digitRun Char.isDigit t

def fractionPart (t : Text) : Text × Text :=
  match t with
  | '.' :: rest =>
    match digitRun Char.isDigit rest with
    | some (digits, rest) => ('.' :: digits, rest)
    | none => ([], t)
  | _ => ([], t)

def exponentPart (t : Text) : Text × Text :=
  match t with
  | letter :: rest =>
    if letter == 'e' || letter == 'E' then
      let (sign, digits) := match rest with
        | '+' :: digits => (['+'], digits)
        | '-' :: digits => (['-'], digits)
        | _ => ([], rest)
      match digitRun Char.isDigit digits with
      | some (digits, rest) => ('e' :: sign ++ digits, rest)
      | none => ([], t)
    else ([], t)
  | [] => ([], t)

def decimal : Reader Value := do
  let (negative, body) := Numeral.splitSign (← get)
  let (whole, rest) ← need (wholeDigits? body)
  let (fraction, rest) := fractionPart rest
  let (exponent, rest) := exponentPart rest
  set rest
  if fraction.isEmpty && exponent.isEmpty then
    if Value.digitLimit < whole.length then throw (.longInteger whole.length)
    let n : Int := Numeral.value whole
    return .integer (if negative then -n else n)
  else
    let size ← need (Numeral.magnitude? (whole ++ fraction ++ exponent))
    return .float (if negative then -size else size)

def wordFloat : Reader Value := do
  let (negative, body) := Numeral.splitSign (← get)
  let word := body.take 3
  if word == "inf".toList || word == "nan".toList then
    set (body.drop 3)
    let size ← need (Numeral.magnitude? word)
    return .float (if negative then -size else size)
  else fail

def scalar : Reader Value := do
  let t ← get
  match moment? t with
  | some (value, date, rest) =>
    if !date.isValid then fail
    set rest
    return value
  | none =>
    match clock? t with
    | some (clock, rest) =>
      set rest
      return .clock clock
    | none =>
      match prefixed? t with
      | some (n, rest) =>
        set rest
        return .integer n
      | none =>
        if (wholeDigits? (Numeral.splitSign t).2).isSome then decimal else wordFloat

def array (item : Reader Value) : Reader Value := do
  pass 1
  gaps
  if ← accept [']'] then return .array []
  let items ← repeatSteps (fun items : List Value => do
    let v ← item
    gaps
    if ← accept [']'] then return (v :: items, false)
    expect [',']
    gaps
    if ← accept [']'] then return (v :: items, false)
    return (v :: items, true)) []
  return .array items.reverse

def pair (value : Reader Value) : Reader (Path × Value) := do
  let path ← key
  expect ['=']
  skip isSpace
  let v ← value
  return (path, v)

def inlineTable (value : Reader Value) : Reader Value := do
  pass 1
  skip isSpace
  if ← accept ['\x7d'] then return .table []
  let table ← repeatSteps (fun table : InlineTable => do
    let (path, v) ← pair value
    let table ← need (table.store path v)
    skip isSpace
    if ← accept ['\x7d'] then return (table, false)
    expect [',']
    skip isSpace
    return (table, true)) ⟨[], []⟩
  return .table table.data

def nestingRoom : Nat := 963

/-- A value. It needs a room of three; an array takes two of it from its items and an inline
table three from its values. -/
def value : Nat → Reader Value
  | 0 | 1 | 2 => throw .tooDeep
  | room + 3 => do
    let t ← get
    match t with
    | '"' :: _ =>
      if ['"', '"', '"'].isPrefixOf t then return .text (← multilineText '"')
      else return .text (← basicText)
    | '\'' :: _ =>
      if ['\'', '\'', '\''].isPrefixOf t then return .text (← multilineText '\'')
      else return .text (← literalText)
    | '[' :: _ => array (value (room + 1))
    | '\x7b' :: _ => inlineTable (value room)
    | _ =>
      if ← accept "true".toList then return .boolean true
      else if ← accept "false".toList then return .boolean false
      else scalar

def heading (board : TableBuilder) : Reader TableBuilder := do
  let board := board.settle
  if ← accept ['[', '['] then
    skip isSpace
    let path ← key
    let board ← need (board.openElement path)
    expect [']', ']']
    return board
  else
    pass 1
    skip isSpace
    let path ← key
    let board ← need (board.openTable path)
    expect [']']
    return board

/-- One line of a document: a key with its value, a heading, or nothing, and then a comment. -/
def line (board : TableBuilder) : Reader (TableBuilder × Bool) := do
  skip isSpace
  let board ← match ← next? with
    | some '[' => heading board
    | some c =>
      if isBare c || c == '"' || c == '\'' then
        let (path, v) ← pair (value nestingRoom)
        need (board.store path v)
      else if c == '#' || c == '\n' then pure board
      else fail
    | none => pure board
  skip isSpace
  comment
  if ← accept ['\n'] then return (board, true)
  if (← get).isEmpty then return (board, false) else fail

end Reader

def Table.read (source : Text) : Except ReadError Table :=
  match (Reader.repeatSteps Reader.line TableBuilder.empty).run source with
  | .ok (board, _) => .ok board.data
  | .error e => .error e

end Calculator
