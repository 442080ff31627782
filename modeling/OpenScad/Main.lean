/-
# The program

Reads the arguments, the files they name and standard input, and writes the
tree or says what is wrong. Failures end the program with the code 1, a crash
with the code 101, and arguments that are not well formed with the code 2. What
is written is decided by `Options.settings` and `Options.converted`; here it only
meets the system.

Key definitions: `Command.perform`, `main`.
-/
import OpenScad.Command.Conversion

namespace OpenScad
namespace Command

/-- The words of the operating system for a fault, and its number. -/
def reason : IO.Error → String
  | .alreadyExists _ code details | .otherError code details | .resourceBusy code details
  | .resourceVanished code details | .unsupportedOperation code details
  | .hardwareFault code details | .unsatisfiedConstraints code details
  | .illegalOperation code details | .protocolError code details | .timeExpired code details
  | .interrupted _ code details | .noFileOrDirectory _ code details
  | .invalidArgument _ code details | .permissionDenied _ code details
  | .resourceExhausted _ code details | .inappropriateType _ code details
  | .noSuchThing _ code details => details ++ " (os error " ++ toString code ++ ")"
  | .unexpectedEof => "unexpected end of file"
  | .userError text => text

/-- The bytes of a file. -/
def readFile (path : String) : IO ByteArray := do
  (← IO.FS.Handle.mk path .read).readBinToEnd

/-- Everything that a stream gives, behind the bytes that it has given so far. -/
partial def readAll (stream : IO.FS.Stream) (bytes : ByteArray) : IO ByteArray := do
  let more ← stream.read 65536
  if more.isEmpty then return bytes else readAll stream (bytes ++ more)

/-- The text that reading gives, or the reason why there is none. -/
def readText (read : IO ByteArray) : IO (Except String String) := do
  match ← read.toBaseIO with
  | .ok bytes => return decodeText bytes
  | .error fault => return .error (reason fault)

/-- Says what is wrong. -/
def fail (failure : Failure) : IO UInt32 := do
  unless failure.isCrash do IO.eprintln ("Error: " ++ failure.message)
  return failure.code.toUInt32

/-- Writes a text to the file that the options name, or to standard output. -/
def write (options : Options) (text : String) : IO UInt32 := do
  match options.output with
  | none =>
    IO.print text
    return 0
  | some path =>
    match ← (IO.FS.writeBinFile path text.toUTF8).toBaseIO with
    | .ok () => return 0
    | .error fault => fail (.unwritableFile path (reason fault))

/-- Reads the source and writes its tree. -/
def convert (options : Options) (settings : Settings) : IO UInt32 := do
  let source ← match options.sourcePath with
    | none => readText (do readAll (← IO.getStdin) ByteArray.empty)
    | some path => readText (readFile path)
  match options.converted settings source with
  | .ok text => write options text
  | .error failure => fail failure

/-- A run with options. -/
def perform (options : Options) : IO UInt32 := do
  if options.listGrammars then
    IO.print grammarList
    return 0
  let config ← match options.config with
    | none => pure (.ok "")
    | some path => readText (readFile path)
  match options.settings config with
  | .ok settings => convert options settings
  | .error cause => fail (.conversion cause)

end Command
end OpenScad

/-- The program: its exit code is that of the run. -/
def main (arguments : List String) : IO UInt32 := do
  match OpenScad.Command.Options.ofArguments arguments with
  | .ok options => OpenScad.Command.perform options
  | .error stop =>
    if stop = .version then IO.print OpenScad.Command.versionText
    return stop.code.toUInt32
