import Calculator.Text

/-! Work directories: the files below a directory, and what a path leads to. A path is walked
step by step; two dots lead to the parent. Nothing is known of what lies beside the directory. -/

set_option autoImplicit false

namespace Calculator

/-- What is found at a path. A path is unreachable if it, or a name on the way, is too long. -/
inductive FileContent
  | missing
  | directory
  | unreachable
  | bytes (content : ByteArray)

def pathSteps (path : Text) : List Text :=
  (path.splitOn '/').filter fun step => step != [] && step != ['.']

def plainPath (path : Text) : Text :=
  let root : Text := match path with
    | '/' :: '/' :: '/' :: _ => ['/']
    | '/' :: '/' :: _ => ['/', '/']
    | '/' :: _ => ['/']
    | _ => []
  match root ++ Text.join ['/'] (pathSteps path) with
  | [] => ['.']
  | plain => plain

def nameLimit : Nat := 255

def pathLimit : Nat := 4095

structure Folder where
  place : Text
  files : List (List Text × FileContent)

namespace Folder

def content (folder : Folder) (steps : List Text) : FileContent :=
  match folder.files.lookup steps with
  | some found => found
  | none =>
    if steps.isEmpty || folder.files.any (fun (file, _) => steps.isPrefixOf file) then .directory
    else .missing

/-- Walks on from a directory: the given place below the work directory, or one beside it, of
which only parents are known. Only a directory can be walked through. -/
def walk (folder : Folder) : Option (List Text) → List Text → FileContent
  | none, [] => .directory
  | some here, [] => folder.content here
  | here, step :: rest =>
    if step = ['.', '.'] then
      walk folder (here.bind fun steps => if steps.isEmpty then none else some steps.dropLast) rest
    else if nameLimit < Text.byteLength step then .unreachable
    else match here with
      | none => .missing
      | some steps =>
        match folder.content (steps ++ [step]) with
        | .directory => walk folder (some (steps ++ [step])) rest
        | found => if rest.isEmpty then found else .missing

/-- What a path leads to. A path that starts with a slash does not start from the work directory,
but it may lead there. No file has a name with a null character. -/
def find (folder : Folder) (path : Text) : FileContent :=
  let inside := folder.place ++ ['/']
  if path.contains '\x00' then .missing
  else if pathLimit < Text.byteLength path then .unreachable
  else if path.head? ≠ some '/' then folder.walk (some []) (pathSteps path)
  else if inside.isPrefixOf path then folder.walk (some []) (pathSteps (path.drop inside.length))
  else folder.walk none (pathSteps path)

end Folder

end Calculator
