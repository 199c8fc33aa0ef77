import Calculator.Location
import Calculator.Text.Quoted

/-! Tokens: a kind, the lexeme it was cut from, and where the lexeme starts. -/

set_option autoImplicit false

namespace Calculator

/-- The kinds of tokens. The end of input has a kind of its own, which no source produces. -/
inductive TokenKind
  | identifier
  | number
  | plus
  | minus
  | times
  | divide
  | greater
  | greaterEqual
  | less
  | lessEqual
  | equal
  | assign
  | leftParen
  | rightParen
  | endOfInput
  deriving DecidableEq, Repr

namespace TokenKind

def name : TokenKind → Text
  | .identifier => "IDENTIFIER".toList
  | .number => "NUMBER".toList
  | .plus => "PLUS".toList
  | .minus => "MINUS".toList
  | .times => "TIMES".toList
  | .divide => "DIV".toList
  | .greater => "GREATER_THAN".toList
  | .greaterEqual => "GREATER_THAN_OR_EQUAL".toList
  | .less => "LESS_THAN".toList
  | .lessEqual => "LESS_THAN_OR_EQUAL".toList
  | .equal => "EQUAL".toList
  | .assign => "ASSIGN".toList
  | .leftParen => "LEFT_PAREN".toList
  | .rightParen => "RIGHT_PAREN".toList
  | .endOfInput => "END_OF_INPUT".toList

def all : List TokenKind :=
  [.identifier, .number, .plus, .minus, .times, .divide, .greater, .greaterEqual, .less,
   .lessEqual, .equal, .assign, .leftParen, .rightParen, .endOfInput]

def ofName? (name : Text) : Option TokenKind := all.find? fun kind => kind.name == name

def ofSingle? : Char → Option TokenKind
  | '(' => some .leftParen
  | ')' => some .rightParen
  | '+' => some .plus
  | '-' => some .minus
  | '*' => some .times
  | '/' => some .divide
  | _ => none

/-- The kinds of a character that may be followed by an equals sign: alone, and with it. -/
def ofExtensible? : Char → Option (TokenKind × TokenKind)
  | '=' => some (.assign, .equal)
  | '<' => some (.less, .lessEqual)
  | '>' => some (.greater, .greaterEqual)
  | _ => none

end TokenKind

/-- A token. Tokens cut from a source have coordinates from zero on; tokens made by hand may
have any. -/
structure Token where
  kind : TokenKind
  lexeme : Text
  line : Int
  column : Int
  deriving DecidableEq, Repr

namespace Token

def location? (t : Token) : Option Location := Location.ofInts? t.line t.column

/-- Where the token's last character stands. An empty lexeme ends where it starts. -/
def endLocation? (t : Token) : Option Location :=
  Location.ofInts? t.line (t.column + (t.lexeme.length - 1 : Nat))

def text (t : Token) : Text :=
  "Token(".toList ++ t.kind.name ++ ", ".toList ++ Text.quoted t.lexeme ++ ", ".toList ++
    Text.ofInt t.line ++ ':' :: Text.ofInt t.column ++ [')']

end Token

end Calculator
