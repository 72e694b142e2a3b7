/-!
# Folders

The files that a command can read, by their paths.

* `ReadError`: why a file cannot be read.
* `Folder`: the files of the working folder and of the folders in it.  Of the folders around it
  nothing is known but that they are there.
* **`Folder.read`**: follows a path, name by name.
-/

namespace StackCircuit.Command

/-- Why a file cannot be read; it is `notFolder` if a name stands behind a file as if that were a
folder. -/
inductive ReadError where
  | missing | notFolder | folder | tooLong | denied
deriving DecidableEq, Repr

/-- The wording of a failure to read a path. -/
def ReadError.text (path : String) : ReadError → String
  | missing => s!"open {path}: no such file or directory"
  | notFolder => s!"open {path}: not a directory"
  | folder => s!"read {path}: is a directory"
  | tooLong => s!"open {path}: file name too long"
  | denied => s!"open {path}: permission denied"

/-! ## Paths -/

/-- The stretches of a path between its slashes. -/
def segments : List Char → List (List Char)
  | [] => [[]]
  | c :: cs =>
    if c = '/' then [] :: segments cs
    else
      match segments cs with
      | [] => [[c]]
      | s :: rest => (c :: s) :: rest

/-- The names of a path, in order.  A slash at the end counts as a name for the folder itself, and
other empty names do not count. -/
def pathNames (path : List Char) : List (List Char) :=
  (segments path).filter (· ≠ []) ++ if path.getLast? = some '/' then [['.']] else []

/-- The number of bytes of a text. -/
def byteCount (text : List Char) : Nat :=
  (String.ofList text).utf8ByteSize

/-- The greatest number of bytes of a name. -/
def nameLimit : Nat :=
  255

/-- The greatest number of bytes of a path. -/
def pathLimit : Nat :=
  4095

/-! ## Folders -/

/-- The files of the working folder, each by the names that lead to it. -/
structure Folder where
  files : List (List (List Char) × List Char)
deriving DecidableEq, Repr

/-- Where the names of a path lead: to a file, to a folder within the working folder, by the names that
lead to it, the innermost first, or out of the working folder. -/
inductive Place where
  | file (contents : List Char)
  | inside (names : List (List Char))
  | outside
deriving DecidableEq, Repr

namespace Folder

/-- The folder with files of given paths. -/
def ofFiles (files : List (String × List Char)) : Folder :=
  ⟨files.map fun (path, contents) => (pathNames path.toList, contents)⟩

/-- What the working folder holds under given names, the innermost first. -/
def lookup (f : Folder) (names : List (List Char)) : Except ReadError Place :=
  let path := names.reverse
  match f.files.find? (·.1 = path) with
  | some (_, contents) => .ok (.file contents)
  | none => if f.files.any (path.isPrefixOf ·.1) then .ok (.inside names) else .error .missing

/-- Where one more name leads. -/
def enter (f : Folder) (place : Place) (name : List Char) : Except ReadError Place :=
  match place with
  | .file _ => .error .notFolder
  | place =>
    if name = ['.'] then .ok place
    else if name = ['.', '.'] then
      match place with
      | .inside (_ :: names) => .ok (.inside names)
      | _ => .ok .outside
    else if nameLimit < byteCount name then .error .tooLong
    else
      match place with
      | .inside names => f.lookup (name :: names)
      | _ => .error .missing

/-- The contents of the file that a path leads to. -/
def read (f : Folder) (path : String) : Except ReadError (List Char) := do
  let path := path.toList
  if pathLimit < byteCount path then throw .tooLong
  if path = [] then throw .missing
  let start := if path.head? = some '/' then Place.outside else .inside []
  match ← (pathNames path).foldlM f.enter start with
  | .file contents => return contents
  | _ => throw .folder

end Folder

end StackCircuit.Command
