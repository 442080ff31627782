/-
# From a source to its written tree

A source is parsed with the grammar of a name, and its tree is written as the
settings say. Grammars are registered under their names; one is built in.

Key definitions: `GrammarEntry`, `ExportError`, `Export.tree`,
`Export.text`.
-/
import OpenScad.Format
import OpenScad.Parse

namespace OpenScad

/-- A grammar that can be asked for by name. -/
structure GrammarEntry where
  name : String
  description : String
  deriving DecidableEq, Repr

/-- Why a run gives no text. -/
inductive ExportError where
  | unknownGrammar (name : String)
  /-- The settings cannot be read. -/
  | settings (reason : String)
  | parsing (cause : ParseError)
  | format (cause : FormatError)
  deriving DecidableEq, Repr

namespace ExportError

/-- The message of an error. -/
def message : ExportError → String
  | unknownGrammar name => "Grammar '" ++ name ++ "' not found"
  | settings reason => "Invalid configuration: " ++ reason
  | parsing cause => cause.message
  | format cause => cause.message

/-- The message of the error that caused this one. -/
def cause? : ExportError → Option String
  | parsing cause => some cause.message
  | format cause => some cause.message
  | _ => none

/-- A token error as an error of a run. -/
def ofLex (cause : LexError) : ExportError := parsing (.lexical cause)

/-- A node error as an error of a run. -/
def ofNode (cause : NodeError) : ExportError := parsing (.building cause)

end ExportError

namespace Export

/-- The built-in grammars. -/
def grammars : Registry GrammarEntry :=
  .ofList
    [("openscad",
      { name := "openscad"
        description := "OpenSCAD subset: assignments, use/include, blocks, comments" })]

/-- The settings that a YAML text gives. -/
def settingsOf (yaml : String) : Except ExportError Settings :=
  match Settings.ofYaml? yaml with
  | some settings => .ok settings
  | none => .error (.settings "not a mapping of known settings")

/-- The tree of a source in the grammar of a name. -/
def tree (grammar : String) (source : String) : Except ExportError Node :=
  if grammars.contains grammar then (parse source).mapError .parsing
  else .error (.unknownGrammar grammar)

/-- The written tree of a source in the grammar of a name. -/
def text (grammar : String) (source : String) (settings : Settings) :
    Except ExportError String := do
  let node ← tree grammar source
  (Format.serialize Format.registry node settings).mapError .format

end Export
end OpenScad
