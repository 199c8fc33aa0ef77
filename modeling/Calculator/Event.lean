import Calculator.Settings
import Calculator.Source

/-! Events: what is told about a run while it happens. -/

set_option autoImplicit false

namespace Calculator

inductive Event
  | settingsMissing (path : Text)
  | settingsLoaded (constants : Nat) (path : Text)
  | tokenized (characters tokens : Nat)
  | parsed (statement : Tree)
  | assigned (name : Text) (value : Float)
  | evaluated (statements : Nat)

namespace Event

def origin : Event → Text
  | .settingsMissing _ => "config".toList
  | .settingsLoaded .. => "config".toList
  | .tokenized .. => "lexer".toList
  | .parsed _ => "parser".toList
  | .assigned .. => "evaluator".toList
  | .evaluated _ => "evaluator".toList

def message : Event → Text
  | .settingsMissing path => "No config at ".toList ++ path ++ ", using defaults".toList
  | .settingsLoaded constants path =>
    "Loaded ".toList ++ Text.ofNat constants ++ " constant(s) from ".toList ++ path
  | .tokenized characters tokens =>
    "Tokenized ".toList ++ Text.ofNat characters ++ " characters into ".toList ++
      Text.ofNat tokens ++ " tokens".toList
  | .parsed statement => "Parsed statement ".toList ++ statement.text
  | .assigned name value => "Assigned ".toList ++ name ++ " = ".toList ++ Layout.shown.write value
  | .evaluated statements => "Evaluated ".toList ++ Text.ofNat statements ++ " statement(s)".toList

def line (e : Event) : Text :=
  "DEBUG minicalc.core.".toList ++ e.origin ++ ": ".toList ++ e.message ++ ['\n']

def ofSettings (path : Text) (content : FileContent) (settings : Settings) : List Event :=
  match content with
  | .missing => [.settingsMissing path]
  | _ => [.settingsLoaded settings.constants.length path]

def ofScan (source : Text) : List Event :=
  match Token.scan source with
  | .ok tokens => [.tokenized source.length tokens.length]
  | .error _ => []

def ofParse (source : Text) : List Event :=
  ofScan source ++
    match Source.parse source with
    | .ok (.program statements _) => statements.map .parsed
    | _ => []

/-- What happens when a source is evaluated. The only assignment of a source is its statement. -/
def ofEvaluate (source : Text) (symbols : Symbols) : List Event :=
  ofParse source ++
    match Source.parse source, (Source.evaluate source symbols).1 with
    | .ok (.program statements _), .ok values =>
      (statements.zip values).filterMap (fun
        | (.assignment name _ _, value) => some (.assigned name value)
        | _ => none) ++ [.evaluated values.length]
    | _, _ => []

end Event

end Calculator
