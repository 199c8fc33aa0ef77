import Calculator.Command

/-! The program: it reads the settings file, runs the request and writes the outcome. -/

set_option autoImplicit false

namespace Calculator

/-- The code with which the system says that a directory was read. A path that leads through a
file fails in the same manner, but with another code. -/
def directoryCode : UInt32 := 21

def readContent (path : String) : IO FileContent := do
  try
    return .bytes (← IO.FS.readBinFile path)
  catch
    | .noFileOrDirectory .. => return .missing
    | .inappropriateType _ code _ =>
      return if code = directoryCode then .directory else .missing
    | _ => return .unreachable

end Calculator

open Calculator in
def main (arguments : List String) : IO UInt32 := do
  let request := Request.ofArguments (arguments.map String.toList)
  let directory := (← IO.currentDir).toString.toList
  let content ← match request.settingsPath? directory with
    | some path => readContent (String.ofList path)
    | none => pure .missing
  let outcome := request.run directory fun _ => content
  IO.print (String.ofList outcome.output)
  IO.eprint (String.ofList outcome.errors)
  return outcome.exitCode.toUInt32
