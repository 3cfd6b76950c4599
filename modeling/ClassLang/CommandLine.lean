import ClassLang.Compile
import ClassLang.FileTree

/-!
# The command line

A run reads one source file, compiles it, and writes the code to a file or to standard
output.  It ends with exit code `0` if there is code, with `1` if the source has errors,
which are printed, and with `2` if a file cannot be read or written or a rule of the
compiler is broken.

Runs are described over a file tree that is a value.
-/

namespace ClassLang

/-- What is asked of a run. -/
structure Options where
  target : Target := .llvm
  /-- The file to write to; standard output if there is none. -/
  output : Option String := none
  deriving DecidableEq, Repr, Inhabited

/-- What a compilation wants done: the exit code, texts for the two output streams, and
a text for a file. -/
structure Report where
  exitCode : Nat
  stdout : String := ""
  stderr : String := ""
  /-- The file to write, and its text. -/
  file : Option (String × String) := none
  deriving DecidableEq, Repr, Inhabited

namespace Report

/-- The report of a failure. -/
def ofFailure (failure : Failure) : Report :=
  { exitCode := 2, stderr := "error: " ++ failure.message ++ "\n" }

/-- The report on a source. -/
def ofSource (source : String) (options : Options) : Report :=
  match compile source with
  | .ok compiled =>
    let text := options.target.render compiled.unit
    match options.output with
    | some path => { exitCode := 0, file := some (path, text) }
    | none => { exitCode := 0, stdout := text }
  | .error (.diagnostics _ ds) => { exitCode := 1, stdout := ds.text }
  | .error (.internal error) => ofFailure (.internal error)

/-- The report on a file that was read, or could not be read. -/
def ofInput (path : String) (source : Except FileError String) (options : Options) : Report :=
  match source with
  | .ok text => ofSource text options
  | .error error => ofFailure (.file path error)

end Report

/-- How a run has ended. -/
structure Ended where
  exitCode : Nat
  stdout : String
  stderr : String
  tree : FileTree
  deriving Inhabited

/-- Does what a report asks for in a file tree. -/
def Report.apply (report : Report) (tree : FileTree) : Ended :=
  match report.file with
  | none => ⟨report.exitCode, report.stdout, report.stderr, tree⟩
  | some (path, text) =>
    match tree.write path text with
    | .ok tree => ⟨report.exitCode, report.stdout, report.stderr, tree⟩
    | .error error =>
      let failed := Report.ofFailure (.file path error)
      ⟨failed.exitCode, failed.stdout, failed.stderr, tree⟩

/-- Compiles a file of a file tree. -/
def FileTree.run (tree : FileTree) (input : String) (options : Options) : Ended :=
  (Report.ofInput input (tree.read input) options).apply tree

/-- What the arguments of a run ask for. -/
structure Request where
  input : String
  options : Options := {}
  deriving DecidableEq, Repr, Inhabited

namespace Request

/-- How the program is used. -/
def usage : String := "usage: <input> [-o FILE] [--emit llvm|c]"

/-- Reads arguments after the options so far; `input` is the file named so far. -/
def ofArgsFrom (input : Option String) (options : Options) : List String → Option Request
  | [] => input.map fun path => ⟨path, options⟩
  | "-o" :: path :: rest | "--output" :: path :: rest =>
    ofArgsFrom input { options with output := some path } rest
  | "--emit" :: "llvm" :: rest => ofArgsFrom input { options with target := .llvm } rest
  | "--emit" :: "c" :: rest => ofArgsFrom input { options with target := .c } rest
  | arg :: rest =>
    if arg.toList.head? = some '-' || input.isSome then none
    else ofArgsFrom (some arg) options rest

/-- Reads the arguments of a run. -/
def ofArgs (args : List String) : Option Request := ofArgsFrom none {} args

end Request

end ClassLang
