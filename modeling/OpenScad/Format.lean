/-
# Output formats

A format writes a tree as a text by the output settings. Formats are registered
under their names; two are built in.

The blanks of one level of a JSON text with line breaks are made beforehand, so
the indentation must be one that a text can have. Otherwise nothing is written,
and no error reported: the run ends there.

Key definitions: `Format`, `FormatError`, `Settings.IndentFits`, `Format.json`,
`Format.yaml`, `Format.registry`, `Format.serialize`.
-/
import OpenScad.Json
import OpenScad.Registry
import OpenScad.Settings
import OpenScad.Yaml.Printer

namespace OpenScad

/-- Why a tree cannot be written. -/
inductive FormatError where
  /-- No format is registered under the name. -/
  | unknown (name : String)
  /-- The format refuses the tree or the settings. -/
  | refused (reason : String)
  /-- The blanks of one level are more than a text can have. The run ends here. -/
  | overflow
  deriving DecidableEq, Repr

/-- The message of an error. -/
def FormatError.message : FormatError → String
  | unknown name => "Format '" ++ name ++ "' not found"
  | refused reason => "Serialization error: " ++ reason
  | overflow => "capacity overflow"

/-- The blanks of one level are a text, where there are levels. -/
def Settings.IndentFits (settings : Settings) : Prop :=
  settings.pretty = true → settings.indent < lengthLimit

instance (settings : Settings) : Decidable settings.IndentFits :=
  inferInstanceAs (Decidable (_ → _))

/-- A way of writing trees. -/
structure Format where
  name : String
  description : String := ""
  write : Node → Settings → Except FormatError String

namespace Format

/-- How JSON is laid out under the settings. -/
def layout (settings : Settings) : Json.Layout :=
  if settings.pretty then .pretty settings.indent else .compact

/-- JSON, compact or with line breaks. -/
def json : Format where
  name := "json"
  description := "Canonical JSON tree"
  write node settings :=
    if settings.IndentFits then .ok (node.toDocument.jsonText (layout settings))
    else .error .overflow

theorem json_write_of_fits {node : Node} {settings : Settings} (h : settings.IndentFits) :
    json.write node settings = .ok (node.toDocument.jsonText (layout settings)) := if_pos h

theorem json_write_of_unfit {node : Node} {settings : Settings} (h : ¬ settings.IndentFits) :
    json.write node settings = .error .overflow := if_neg h

/-- YAML, which has one layout only. -/
def yaml : Format where
  name := "yaml"
  description := "Canonical tree as YAML"
  write node _ := .ok node.toDocument.yamlText

/-- The built-in formats. -/
def registry : Registry Format := .ofList [(json.name, json), (yaml.name, yaml)]

/-- The tree in the format that the settings name. -/
def serialize (registry : Registry Format) (node : Node) (settings : Settings) :
    Except FormatError String :=
  match registry.get? settings.format with
  | some format => format.write node settings
  | none => .error (.unknown settings.format)

end Format
end OpenScad
