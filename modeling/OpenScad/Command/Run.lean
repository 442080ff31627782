/-
# Runs of the program

A whole run is a function: from arguments, standard input and the files of the
system to an exit code, the output, the messages, and the files afterwards. The
settings are read before the source, so that settings from standard input leave
nothing for a source from there.

Not covered: the log of a run and the report of a crash, which go where the
messages go, and what is said about the use of the program.

Key definitions: `Command.Outcome`, `Command.deliver`, `Command.run`.
-/
import OpenScad.Command.Conversion
import OpenScad.Command.FileSystem

namespace OpenScad
namespace Command

/-- The text at a path, or the reason why there is none. -/
def FileSystem.readText (files : FileSystem) (stdin : ByteArray) (path : String) :
    Except String String :=
  match files.read stdin path with
  | .ok bytes => decodeText bytes
  | .error reason => .error reason.message

/-- What a run leaves behind. -/
structure Outcome where
  code : Nat
  stdout : String := ""
  /-- What stands on standard error, but for the log and the report of a crash. -/
  messages : String := ""
  files : FileSystem

/-- The outcome of a failure. -/
def Outcome.failed (files : FileSystem) (failure : Failure) : Outcome :=
  { code := failure.code
    messages := if failure.isCrash then "" else "Error: " ++ failure.message ++ "\n"
    files }

/-- Writes the text of a conversion to where it goes. -/
def FileSystem.receive (files : FileSystem) (text : String) : FileSystem.Sink → Outcome
  | .output => { code := 0, stdout := text, files }
  | .messages => { code := 0, messages := text, files }
  | .file place => { code := 0, files := files.write place text.toUTF8 }
  | .void => { code := 0, files }

/-- Writes the text of a conversion to the file that the options name, or to standard
output. -/
def deliver (options : Options) (files : FileSystem) (text : String) : Outcome :=
  match options.output with
  | none => files.receive text .output
  | some path =>
    match files.sink path with
    | .ok sink => files.receive text sink
    | .error reason => .failed files (.unwritableFile path reason.message)

/-- A run with options. -/
def runOptions (options : Options) (stdin : ByteArray) (files : FileSystem) : Outcome :=
  if options.listGrammars then { code := 0, stdout := grammarList, files }
  else
    let config := files.readText stdin (options.config.getD "")
    let left := if options.config.any files.readsInput then ByteArray.empty else stdin
    let source := match options.sourcePath with
      | none => decodeText left
      | some path => files.readText left path
    match options.conversion config source with
    | .ok text => deliver options files text
    | .error failure => .failed files failure

/-- A run of the program; where the arguments are not read to their end, it does nothing else. -/
def run (arguments : List String) (stdin : ByteArray) (files : FileSystem) :
    Except Stop Outcome := do
  return runOptions (← Options.ofArguments arguments) stdin files

end Command
end OpenScad
