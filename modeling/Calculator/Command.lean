import Calculator.Command.Options
import Calculator.Event
import Calculator.Text.Controls
import Calculator.Tree.Dump

/-! The command line. Words are joined with blanks to one source, which is evaluated, listed as
tokens or shown as a tree. -/

set_option autoImplicit false

namespace Calculator

inductive Command
  | eval (settings : Option Text) (words : List Text)
  | tokens (words : List Text)
  | tree (json : Bool) (words : List Text)
  deriving DecidableEq, Repr

inductive Request
  | version
  | help
  | perform (verbose : Bool) (command : Command)
  | misuse
  deriving DecidableEq, Repr

namespace Request

def helpOption : OptionRule := ⟨"--help".toList, none, false⟩

def completionOptions : List OptionRule :=
  [⟨"--install-completion".toList, none, false⟩, ⟨"--show-completion".toList, none, false⟩]

def programOptions : List OptionRule :=
  [⟨"--version".toList, none, false⟩, ⟨"--verbose".toList, some 'v', false⟩, helpOption] ++
    completionOptions

def evalOptions : List OptionRule := [⟨"--config".toList, some 'c', true⟩, helpOption]

def tokenOptions : List OptionRule := [helpOption]

def treeOptions : List OptionRule := [⟨"--json".toList, none, false⟩, helpOption]

def isGiven (given : List (Text × Text)) (long : String) : Bool :=
  given.any fun (name, _) => name == long.toList

def lastValue? (given : List (Text × Text)) (long : String) : Option Text :=
  (given.reverse.find? fun (name, _) => name == long.toList).map (·.2)

/-- Whether a file can have the path. No name holds a null character. -/
def isPath (path : Text) : Bool := !path.contains '\x00'

/-- The request for the command of a given name. Help comes first; else the command needs at least
one word, and settings at a path that a file can have. -/
def command? (verbose : Bool) (name : Text) (arguments : List Text) : Option Request :=
  let build (rules : List OptionRule) (make : List (Text × Text) → List Text → Command) :=
    match splitArguments rules false arguments with
    | none => none
    | some (given, words) =>
      if isGiven given "--help" then some .help
      else if words.isEmpty || (lastValue? given "--config").any (!isPath ·) then none
      else some (.perform verbose (make given words))
  if name == "eval".toList then
    build evalOptions fun given words => .eval (lastValue? given "--config") words
  else if name == "tokens".toList then build tokenOptions fun _ words => .tokens words
  else if name == "ast".toList then
    build treeOptions fun given words => .tree (isGiven given "--json") words
  else none

def notice? (given : List (Text × Text)) : Option Request :=
  given.findSome? fun (name, _) =>
    if name == "--version".toList then some .version
    else if name == "--help".toList then some .help
    else none

def noticeOf? (arguments : List Text) : Option Request :=
  (splitArguments programOptions true arguments).bind fun (given, _) => notice? given

/-- What the arguments ask for. Version and help are shown whatever the command, also if they are
asked for where the command should stand. Nothing is done about completion. -/
def ofArguments (arguments : List Text) : Request :=
  match splitArguments programOptions true arguments with
  | none => .misuse
  | some (given, words) =>
    match notice? given, words with
    | some notice, _ => notice
    | none, [] => .misuse
    | none, name :: rest =>
      if completionOptions.any fun rule => given.any fun (name, _) => name == rule.long then .misuse
      else match command? (isGiven given "--verbose") name rest with
        | some request => request
        | none => (noticeOf? words).getD .misuse

end Request

inductive Escape
  | source (error : SourceError)
  | load (failure : LoadFailure)
  | format (error : FormatError)

structure Outcome where
  exitCode : Nat
  output : Text
  errors : Text
  escape : Option Escape

namespace Outcome

def success (log output : Text) : Outcome := ⟨0, output, log, none⟩

/-- A run that ends with a message, which is written without control sequences. The log is
written as it is. -/
def failure (log message : Text) : Outcome :=
  ⟨1, [], log ++ Text.withoutControls message ++ ['\n'], none⟩

def broken (log : Text) (escape : Escape) : Outcome := ⟨1, [], log, some escape⟩

def ofSourceError (log source : Text) (e : SourceError) : Outcome :=
  match e.report? with
  | some r => failure log (r.inSource source)
  | none => broken log (.source e)

end Outcome

def settingsName : Text := "minicalc.toml".toList

/-- Where settings are looked for: the given path, or the settings file of the directory. -/
def settingsPath (directory : Text) : Option Text → Text
  | some path => plainPath path
  | none => directory ++ '/' :: settingsName

def Folder.findSettings (folder : Folder) : Option Text → FileContent
  | some path => folder.find (plainPath path)
  | none => folder.walk (some []) [settingsName]

namespace Command

def sourceOf (words : List Text) : Text := Text.join [' '] words

def logOf (verbose : Bool) (events : List Event) : Text :=
  if verbose then events.flatMap Event.line else []

def resultLines (settings : Settings) : List Float → Except FormatError Text
  | [] => .ok []
  | x :: rest => do
    let first ← settings.format x
    let others ← resultLines settings rest
    return first ++ '\n' :: others

def evaluate (verbose : Bool) (path : Text) (content : FileContent) (source : Text) : Outcome :=
  match content.settings path with
  | .error (.invalid e) => .failure [] e.report.summary
  | .error f => .broken [] (.load f)
  | .ok settings =>
    let log := logOf verbose
      (Event.ofSettings path content settings ++ Event.ofEvaluate source settings.symbols)
    match (Source.evaluate source settings.symbols).1 with
    | .error e => .ofSourceError log source e
    | .ok values =>
      match resultLines settings values with
      | .error e => .broken log (.format e)
      | .ok output => .success log output

def listTokens (verbose : Bool) (source : Text) : Outcome :=
  let log := logOf verbose (Event.ofScan source)
  match Token.scan source with
  | .error e => .ofSourceError log source (.scan e)
  | .ok found =>
    .success log <| found.flatMap fun t =>
      Text.ofInt t.line ++ ':' :: Text.ofInt t.column ++ '\t' :: t.kind.name ++ '\t' :: t.lexeme ++
        ['\n']

def showTree (verbose json : Bool) (source : Text) : Outcome :=
  let log := logOf verbose (Event.ofParse source)
  match Source.parse source with
  | .error e => .ofSourceError log source e
  | .ok program =>
    let text := if json then program.toJson.indented 0 else program.text
    .success log (text ++ ['\n'])

def run (verbose : Bool) (directory : Text) (found : Option Text → FileContent) :
    Command → Outcome
  | .eval settings words =>
    evaluate verbose (settingsPath directory settings) (found settings) (sourceOf words)
  | .tokens words => listTokens verbose (sourceOf words)
  | .tree json words => showTree verbose json (sourceOf words)

end Command

namespace Request

def versionLine : Text := "minicalc version 0.1.0\n".toList

def usageLine : Text :=
  "usage: [--help] [--version] [-v] (eval [-c PATH] | tokens | ast [--json]) WORD...\n".toList

def run (directory : Text) (found : Option Text → FileContent) : Request → Outcome
  | .version => .success [] versionLine
  | .help => .success [] usageLine
  | .misuse => ⟨2, [], usageLine, none⟩
  | .perform verbose command => command.run verbose directory found

def runIn (folder : Folder) (request : Request) : Outcome :=
  request.run folder.place folder.findSettings

def settingsPath? (directory : Text) : Request → Option Text
  | .perform _ (.eval settings _) => some (settingsPath directory settings)
  | _ => none

end Request

end Calculator
