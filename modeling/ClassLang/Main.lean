import ClassLang.CommandLine

/-!
# The program

Reads the arguments, does what they ask for with real files, and exits.
-/

namespace ClassLang

/-- The cause of a failed file operation. -/
def FileError.ofSystem : IO.Error → FileError
  | .noFileOrDirectory .. => .notFound
  | .inappropriateType .. => .isDirectory
  | other => .described (toString other)

/-- The text of a file. -/
def readSource (path : String) : IO (Except FileError String) := do
  if let some fault := FilePath.fault? path then return .error fault
  try
    match String.fromUTF8? (← IO.FS.readBinFile path) with
    | some text => return .ok text
    | none => return .error .notText
  catch error => return .error (.ofSystem error)

/-- Prints what a report says and gives its exit code. -/
def Report.print (report : Report) : IO UInt32 := do
  IO.print report.stdout
  IO.eprint report.stderr
  return report.exitCode.toUInt32

/-- Does what a report asks for. -/
def Report.carryOut (report : Report) : IO UInt32 := do
  match report.file with
  | none => report.print
  | some (path, text) =>
    if let some fault := FilePath.fault? path then
      return ← (Report.ofFailure (.file path fault)).print
    try
      IO.FS.writeFile path text
      report.print
    catch error => (Report.ofFailure (.file path (.ofSystem error))).print

end ClassLang

open ClassLang in
/-- Compiles the file named by the arguments. -/
def main (args : List String) : IO UInt32 := do
  match Request.ofArgs args with
  | none =>
    IO.eprintln Request.usage
    return 2
  | some request =>
    let source ← readSource request.input
    (Report.ofInput request.input source request.options).carryOut
