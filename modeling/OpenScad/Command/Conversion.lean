/-
# One conversion

What a run of the program writes, given what reading its configuration and its
source gave. The configuration comes first, then the source, then the parsing
and the writing; the first of them that fails gives the error, and then nothing
is written. The text that is written ends with a line break.

Key definitions: `Command.Failure`, `Failure.code`, `Options.settings`, `Options.converted`,
`Options.conversion`, `Command.grammarList`.
-/
import OpenScad.Command.Options
import OpenScad.Export

namespace OpenScad
namespace Command

/-- Why a run fails. Reasons are given in the words of the operating system. -/
inductive Failure where
  | unreadableStandardInput (reason : String)
  | unreadableFile (path : String) (reason : String)
  | unwritableFile (path : String) (reason : String)
  | conversion (cause : ExportError)
  deriving DecidableEq, Repr

/-- The message of a failure. -/
def Failure.message : Failure → String
  | unreadableStandardInput reason => "Error reading standard input: " ++ reason
  | unreadableFile path reason => "Error reading file " ++ path ++ ": " ++ reason
  | unwritableFile path reason => "Error writing file " ++ path ++ ": " ++ reason
  | conversion cause => cause.message

/-- Whether the run ends by itself, without a message of the program. -/
def Failure.isCrash (failure : Failure) : Bool := failure = .conversion (.format .overflow)

/-- The code with which a run ends that fails. -/
def Failure.code (failure : Failure) : Nat := if failure.isCrash then 101 else 1

/-- The text of bytes in UTF-8, or why they are none. -/
def decodeText (bytes : ByteArray) : Except String String :=
  match String.fromUTF8? bytes with
  | some text => .ok text
  | none => .error "stream did not contain valid UTF-8"

namespace Options

/-- The path of the source; standard input has none. -/
def sourcePath (options : Options) : Option String := options.input.filter (· ≠ "-")

/-- The name of the grammar. -/
def grammarName (options : Options) : String := options.grammar.getD "openscad"

/-- The settings of the configuration file, overridden by the options. `config` is what
reading the file that the options name gave. -/
def settings (options : Options) (config : Except String String) :
    Except ExportError Settings := do
  let base ← match options.config with
    | none => pure {}
    | some path =>
      match config with
      | .ok text => Export.settingsOf text
      | .error reason => throw (.settings (path ++ ": " ++ reason))
  return { base with
    format := options.format.getD base.format
    pretty := base.pretty || options.pretty }

/-- The source, or the failure to read it. -/
def sourceText (options : Options) (source : Except String String) : Except Failure String :=
  match source, options.sourcePath with
  | .ok text, _ => .ok text
  | .error reason, none => .error (.unreadableStandardInput reason)
  | .error reason, some path => .error (.unreadableFile path reason)

/-- A text with a line break at its end. -/
def endLine (text : String) : String :=
  if text.toList.getLast? = some '\n' then text else text ++ "\n"

/-- The text that a run writes under settings, given what reading the source gave. -/
def converted (options : Options) (settings : Settings) (source : Except String String) :
    Except Failure String := do
  let source ← options.sourceText source
  let text ← (Export.text options.grammarName source settings).mapError .conversion
  return endLine text

/-- The text that a run writes, given what reading the configuration and the source gave. -/
def conversion (options : Options) (config source : Except String String) :
    Except Failure String := do
  let settings ← (options.settings config).mapError .conversion
  options.converted settings source

end Options

/-- The list of the grammars that can be asked for. -/
def grammarList : String :=
  "Available grammars:\n\n" ++
    String.join (Export.grammars.values.map fun entry =>
      "  " ++ entry.name ++ "\n    " ++ entry.description ++ "\n")

/-- The answer to a question for the version. -/
def versionText : String := "scad-ast 0.1.0\n"

end Command
end OpenScad
