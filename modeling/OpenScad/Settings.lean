/-
# Output settings

Which format a tree is written in, whether with line breaks, and how far each
level is set in. Settings are read from a YAML mapping; what it leaves out
keeps its default, and a key that is unknown or repeated is refused.

The format is any scalar as it stands. Truth values and numbers must be plain,
or literal blocks with the tag of their kind: "true" between quotes is a text.

Key definitions: `Settings`, `Settings.ofYaml?`.
-/
import OpenScad.Word
import OpenScad.Yaml.Mapping
import OpenScad.Yaml.Plain

namespace OpenScad

/-- How a tree is written. -/
structure Settings where
  /-- The name of a registered format. -/
  format : String := "json"
  /-- Whether every part has a line of its own, in formats that offer the choice. -/
  pretty : Bool := false
  /-- How many spaces a level is set in by. -/
  indent : Nat := 4
  deriving DecidableEq, Repr

namespace Settings

/-- Whether a scalar may stand for something else than a text: if it is plain, or a
literal block with the tag given. -/
def isOpen (tag : String) (scalar : Yaml.Scalar) : Bool :=
  match scalar.form with
  | .plain => true
  | .literal => scalar.tag = some tag.toList
  | .quoted | .folded => false

/-- The truth value of a scalar. -/
def truth? (scalar : Yaml.Scalar) : Option Bool :=
  if isOpen "tag:yaml.org,2002:bool" scalar then Yaml.boolean? scalar.text else none

/-- The number of a scalar, a word of 64 bits. -/
def count? (scalar : Yaml.Scalar) : Option Nat :=
  if isOpen "tag:yaml.org,2002:int" scalar then Yaml.unsigned? wordLimit scalar.text else none

/-- The settings with one entry of a mapping put in. -/
def set? (settings : Settings) (key value : Yaml.Scalar) : Option Settings :=
  if key.text = "format".toList then some { settings with format := String.ofList value.text }
  else if key.text = "pretty".toList then
    (truth? value).map fun pretty => { settings with pretty }
  else if key.text = "indent".toList then
    (count? value).map fun indent => { settings with indent }
  else none

/-- The settings that entries give, no two of which may have the same key. -/
def ofEntries? (settings : Settings) (seen : List (List Char)) : Yaml.Entries → Option Settings
  | [] => some settings
  | (key, value) :: entries =>
    if seen.contains key.text then none
    else do
      let settings ← settings.set? key value
      ofEntries? settings (key.text :: seen) entries

/-- The settings that a YAML text gives. -/
def ofYaml? (text : String) : Option Settings := do
  ofEntries? {} [] (← Yaml.readMapping text.toList)

end Settings
end OpenScad
