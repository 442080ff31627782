/-
# Files and paths

What is in the system stands under its whole path, name by name from the folder
that holds everything. A folder is there as long as something lies in it, or the
program runs in it.

A path starts at the folder that holds everything, or where the program runs, and
is walked name by name: what it goes through must be a folder, also where it goes
up again.

Not covered: links.

Key definitions: `FileSystem`, `FileSystem.at?`, `FileSystem.walk`,
`FileSystem.target`, `FileSystem.read`, `FileSystem.sink`, `FileSystem.write`.
-/

namespace OpenScad
namespace Command

/-- Why nothing can be read or written at a path. -/
inductive Reason where
  | notFound
  | denied
  | notAFolder
  | isAFolder
  | noSpace
  | nameTooLong
  deriving DecidableEq, Repr

/-- The words of the system for a reason. -/
def Reason.message : Reason → String
  | notFound => "No such file or directory (os error 2)"
  | denied => "Permission denied (os error 13)"
  | notAFolder => "Not a directory (os error 20)"
  | isAFolder => "Is a directory (os error 21)"
  | noSpace => "No space left on device (os error 28)"
  | nameTooLong => "File name too long (os error 36)"

/-! ### Places -/

/-- A name in a path. -/
abbrev Name := List Char

/-- A place, by the names that lead to it from the folder that holds everything. -/
abbrev Place := List Name

namespace Place

/-- The most octets that a name may have. -/
def maxName : Nat := 255

/-- The most octets that a path may have. -/
def maxPath : Nat := 4095

/-- Where a name leads from a place. -/
def enter (place : Place) (name : Name) : Except Reason Place :=
  if name = ['.'] then .ok place
  else if name = ['.', '.'] then .ok place.dropLast
  else if maxName < (String.ofList name).utf8ByteSize then .error .nameTooLong
  else .ok (place ++ [name])

end Place

/-- The parts of a path between slashes. -/
def parts (path : List Char) : List Name :=
  path.foldr
    (fun c ps => match ps with
      | p :: more => if c = '/' then [] :: p :: more else (c :: p) :: more
      | [] => [[c]])
    [[]]

/-- The names in a path. -/
def namesOf (path : String) : List Name := (parts path.toList).filter (!·.isEmpty)

/-- Whether a path ends with a slash, which only a folder bears. -/
def endsWithSlash (path : String) : Bool := path.toList.getLast? = some '/'

/-! ### What is at a place -/

/-- What is no file but can be opened like one. -/
inductive Device where
  /-- Always empty, whatever is written to it. -/
  | void
  /-- Never takes anything. -/
  | full
  | input
  | output
  | messages
  deriving DecidableEq, Repr

/-- What is at a place. -/
inductive Entry where
  | folder
  | file (bytes : ByteArray)
  | device (device : Device)
  /-- Something that the program may not use. -/
  | barred

/-- What is in the system, and where the program runs. -/
structure FileSystem where
  entries : List (Place × Entry)
  here : Place := []

/-- A list with a value put in under a key or replaced. -/
def put {α β : Type} [DecidableEq α] (key : α) (value : β) : List (α × β) → List (α × β)
  | [] => [(key, value)]
  | entry :: rest =>
    if entry.1 = key then (key, value) :: rest else entry :: put key value rest

namespace FileSystem

/-- Whether a place is there because something lies in it. -/
def holds (files : FileSystem) (place : Place) : Bool :=
  place.isPrefixOf files.here || files.entries.any fun entry => place.isPrefixOf entry.1

/-- What is at a place. -/
def at? (files : FileSystem) (place : Place) : Option Entry :=
  match files.entries.lookup place with
  | some entry => some entry
  | none => if files.holds place then some .folder else none

/-- Where a path starts. -/
def startOf (files : FileSystem) (path : String) : Place :=
  if path.toList.head? = some '/' then [] else files.here

/-- The place, if a folder is there. -/
def folderAt (files : FileSystem) (place : Place) : Except Reason Place :=
  match files.at? place with
  | some .folder => .ok place
  | some .barred => .error .denied
  | some (.file _) | some (.device _) => .error .notAFolder
  | none => .error .notFound

/-- The folder that names lead to, each of them from a folder. -/
def walk (files : FileSystem) (place : Place) : List Name → Except Reason Place
  | [] => files.folderAt place
  | name :: names => do
    let folder ← files.folderAt place
    let next ← folder.enter name
    files.walk next names

/-- The folder in which the last name of a path is looked for. -/
def lastFolder (files : FileSystem) (path : String) : Except Reason Place :=
  if path.isEmpty then .error .notFound
  else if Place.maxPath < path.utf8ByteSize then .error .nameTooLong
  else files.walk (files.startOf path) (namesOf path).dropLast

/-- The place that a path leads to. -/
def target (files : FileSystem) (path : String) : Except Reason Place := do
  let folder ← files.lastFolder path
  match (namesOf path).getLast? with
  | none => return folder
  | some name => folder.enter name

/-! ### Reading and writing -/

/-- The bytes at a path, or the reason why there are none. `stdin` is what the input still
holds. -/
def read (files : FileSystem) (stdin : ByteArray) (path : String) : Except Reason ByteArray := do
  match files.at? (← files.target path) with
  | none => .error .notFound
  | some .folder => .error .isAFolder
  | some .barred => .error .denied
  | some (.file bytes) => if endsWithSlash path then .error .notAFolder else .ok bytes
  | some (.device device) =>
    if endsWithSlash path then .error .notAFolder
    else .ok (if device = .input then stdin else ByteArray.empty)

/-- Whether reading a path uses up the input. -/
def readsInput (files : FileSystem) (path : String) : Bool :=
  match files.target path with
  | .ok place =>
    match files.at? place with
    | some (.device .input) => !endsWithSlash path
    | _ => false
  | .error _ => false

/-- Where a written text goes. -/
inductive Sink where
  | output
  | messages
  | file (place : Place)
  /-- A device that keeps nothing. -/
  | void
  deriving DecidableEq, Repr

/-- Where a text goes that is written to a path, or the reason why it cannot. -/
def sink (files : FileSystem) (path : String) : Except Reason Sink := do
  let _ ← files.lastFolder path
  if endsWithSlash path then throw .isAFolder
  let place ← files.target path
  match files.at? place with
  | some .folder => .error .isAFolder
  | some .barred => .error .denied
  | some (.device .full) => .error .noSpace
  | some (.device .output) => .ok .output
  | some (.device .messages) => .ok .messages
  | some (.device .void) | some (.device .input) => .ok .void
  | some (.file _) | none => .ok (.file place)

/-- The system with bytes written to the file at a place. -/
def write (files : FileSystem) (place : Place) (bytes : ByteArray) : FileSystem :=
  { files with entries := put place (.file bytes) files.entries }

end FileSystem
end Command
end OpenScad
