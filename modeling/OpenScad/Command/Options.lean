/-
# Command-line options

Options have a long name and most also a letter. A switch stands alone and its
letter may be followed by others; a setting takes the next argument, or what
stands behind its letter or behind an equals sign. A value that starts with a
dash must be attached, except for the lone dash. Everything else is the input,
of which there may be one; behind "--" everything is.

A switch or setting that is given twice is refused, except for the switch that
asks for a log of the run, which changes nothing else. Asking for the version or
for help ends the reading at once.

Key definitions: `Options`, `Stop`, `Options.ofArguments`.
-/

namespace OpenScad
namespace Command

/-- An option that stands alone. -/
inductive Switch where
  | pretty
  | listGrammars
  | verbose
  | version
  | help
  deriving DecidableEq, Repr

/-- An option with a value. -/
inductive Setting where
  | grammar
  | output
  | format
  | config
  deriving DecidableEq, Repr

/-- An option. -/
inductive Flag where
  | switch (switch : Switch)
  | setting (setting : Setting)
  deriving DecidableEq, Repr

/-- The option with a long name. -/
def Flag.ofName? (name : List Char) : Option Flag :=
  [("pretty", Flag.switch .pretty), ("list-grammars", .switch .listGrammars),
   ("verbose", .switch .verbose), ("version", .switch .version), ("help", .switch .help),
   ("grammar", .setting .grammar), ("output", .setting .output), ("format", .setting .format),
   ("config", .setting .config)].lookup (String.ofList name)

/-- The option with a letter. -/
def Flag.ofLetter? (letter : Char) : Option Flag :=
  match letter with
  | 'p' => some (.switch .pretty)
  | 'v' => some (.switch .verbose)
  | 'V' => some (.switch .version)
  | 'h' => some (.switch .help)
  | 'g' => some (.setting .grammar)
  | 'o' => some (.setting .output)
  | 'f' => some (.setting .format)
  | _ => none

/-- What the arguments ask for. -/
structure Options where
  input : Option String := none
  grammar : Option String := none
  output : Option String := none
  format : Option String := none
  config : Option String := none
  pretty : Bool := false
  listGrammars : Bool := false
  deriving DecidableEq, Repr

/-- Why the arguments are not read to their end. -/
inductive Stop where
  /-- The arguments are not well formed. -/
  | misuse
  | version
  | help
  deriving DecidableEq, Repr

/-- The code with which a run ends then. -/
def Stop.code : Stop → Nat
  | misuse => 2
  | version | help => 0

namespace Options

/-- The options with a switch turned on. -/
def switchOn (options : Options) : Switch → Except Stop Options
  | .pretty => if options.pretty then .error .misuse else .ok { options with pretty := true }
  | .listGrammars =>
    if options.listGrammars then .error .misuse else .ok { options with listGrammars := true }
  | .verbose => .ok options
  | .version => .error .version
  | .help => .error .help

/-- A value where there is none yet. -/
def once (value : String) : Option String → Except Stop (Option String)
  | none => .ok (some value)
  | some _ => .error .misuse

/-- The options with a setting given. -/
def set (options : Options) (value : String) : Setting → Except Stop Options
  | .grammar => do return { options with grammar := ← once value options.grammar }
  | .output => do return { options with output := ← once value options.output }
  | .format => do return { options with format := ← once value options.format }
  | .config => do return { options with config := ← once value options.config }

/-- The options with an input given. -/
def setInput (options : Options) (value : String) : Except Stop Options := do
  return { options with input := ← once value options.input }

/-- Reads an option by its long name; the setting that still needs a value is returned. -/
def readLong (options : Options) (argument : List Char) :
    Except Stop (Options × Option Setting) := do
  let name := argument.takeWhile (· ≠ '=')
  let attached := argument.drop name.length
  match Flag.ofName? name, attached with
  | some (.switch s), [] => return (← options.switchOn s, none)
  | some (.setting s), [] => return (options, some s)
  | some (.setting s), _ :: value => return (← options.set (String.ofList value) s, none)
  | _, _ => throw .misuse

/-- Reads options by their letters; the setting that still needs a value is returned. -/
def readLetters (options : Options) : List Char → Except Stop (Options × Option Setting)
  | [] => .ok (options, none)
  | c :: rest =>
    match Flag.ofLetter? c, rest with
    | some (.switch s), rest => do
      let options ← options.switchOn s
      readLetters options rest
    | some (.setting s), [] => .ok (options, some s)
    | some (.setting s), '=' :: value => do return (← options.set (String.ofList value) s, none)
    | some (.setting s), value => do return (← options.set (String.ofList value) s, none)
    | none, _ => .error .misuse

/-- Reads arguments of which every one is the input. -/
def readInputs (options : Options) : List String → Except Stop Options
  | [] => .ok options
  | argument :: arguments => do
    let options ← options.setInput argument
    readInputs options arguments

/-- Reads arguments, the first of which may be the value of a setting before it. -/
def readFrom (options : Options) (pending : Option Setting) : List String → Except Stop Options
  | [] => if pending.isSome then .error .misuse else .ok options
  | argument :: arguments =>
    match argument.toList, pending with
    | ['-', '-'], some _ => .error .misuse
    | ['-', '-'], none => readInputs options arguments
    | '-' :: _ :: _, some _ => .error .misuse
    | '-' :: '-' :: name, none => do
      let (options, pending) ← options.readLong name
      readFrom options pending arguments
    | '-' :: c :: letters, none => do
      let (options, pending) ← options.readLetters (c :: letters)
      readFrom options pending arguments
    | _, some s => do
      let options ← options.set argument s
      readFrom options none arguments
    | _, none => do
      let options ← options.setInput argument
      readFrom options none arguments

/-- The options that arguments give. -/
def ofArguments (arguments : List String) : Except Stop Options := readFrom {} none arguments

end Options
end Command
end OpenScad
