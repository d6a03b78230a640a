/-!
# Folders

A folder of plain files, in which paths are looked up. Beside its files a folder knows only itself
and, as a folder without known files, what lies above it.
-/

namespace ReductionStepper.CommandLine

/-- Why a file cannot be opened. -/
inductive FileError where
  | notFound
  | isFolder
  | notFolder
  | nameTooLong
  | other (reason : String)
  deriving DecidableEq

/-- The text of an error. -/
def FileError.message : FileError → String
  | .notFound => "No such file or directory (os error 2)"
  | .isFolder => "Is a directory (os error 21)"
  | .notFolder => "Not a directory (os error 20)"
  | .nameTooLong => "File name too long (os error 36)"
  | .other reason => reason

/-- A folder: the names and texts of its files. -/
structure Folder where
  files : List (String × String)
  deriving DecidableEq

/-- What a path leads to. -/
inductive Target where
  /-- The folder itself. -/
  | here
  /-- A folder above or elsewhere. -/
  | elsewhere
  | file (name text : String)
  /-- A name that the folder does not have yet. -/
  | fresh (name : String)
  deriving DecidableEq

namespace Folder

/-- The longest name that a file may have, in bytes. -/
def nameLimit : Nat := 255

/-- Goes from one place to the next by a part of a path. -/
def step (folder : Folder) (place : Target) (part : String) : Except FileError Target :=
  match place with
  | .file .. => .error .notFolder
  | .fresh _ => .error .notFound
  | .here =>
    if part = "" ∨ part = "." then .ok .here
    else if part = ".." then .ok .elsewhere
    else if nameLimit < part.utf8ByteSize then .error .nameTooLong
    else
      match folder.files.lookup part with
      | some text => .ok (.file part text)
      | none => .ok (.fresh part)
  | .elsewhere => if part = "" ∨ part = "." ∨ part = ".." then .ok .elsewhere else .error .notFound

/-- What a path leads to. -/
def find (folder : Folder) (path : String) : Except FileError Target :=
  match path.splitOn "/" with
  | [""] => .error .notFound
  | "" :: parts => parts.foldlM folder.step .elsewhere
  | parts => parts.foldlM folder.step .here

/-- The text of the file that a path leads to. -/
def read (folder : Folder) (path : String) : Except FileError String :=
  match folder.find path with
  | .error error => .error error
  | .ok (.file _ text) => .ok text
  | .ok (.fresh _) => .error .notFound
  | .ok _ => .error .isFolder

/-- Opens the file that a path leads to for appending; a file that is not there is created. -/
def openToAppend (folder : Folder) (path : String) : Except FileError Unit × Folder :=
  match folder.find path with
  | .error error => (.error error, folder)
  | .ok (.file ..) => (.ok (), folder)
  | .ok (.fresh name) => (.ok (), ⟨folder.files ++ [(name, "")]⟩)
  | .ok _ => (.error .isFolder, folder)

end Folder

end ReductionStepper.CommandLine
