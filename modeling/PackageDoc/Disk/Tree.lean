/-
  File trees.

  A tree holds files and directories, without links.  Paths are resolved as a
  Unix system does: every directory on the way must be there, a slash at the end
  asks for a directory, names have at most 255 bytes and paths less than 4096.
  The top of the tree is where relative paths start, and it has no parent but
  itself.
-/
import PackageDoc.Disk.Path

namespace PackageDoc

/-! ## Errors -/

/-- Why an operation on files fails. -/
inductive DiskError where
  | noSuchEntry
  | alreadyExists
  | notDirectory
  | isDirectory
  | nameTooLong
  /-- a path with a null character in it -/
  | invalidPath
  /-- any other error of the system, with its number -/
  | system (code : Nat) (text : String)
  deriving DecidableEq, Repr

/-- The wording of an error. -/
def DiskError.message : DiskError → String
  | noSuchEntry => "No such file or directory (os error 2)"
  | alreadyExists => "File exists (os error 17)"
  | notDirectory => "Not a directory (os error 20)"
  | isDirectory => "Is a directory (os error 21)"
  | nameTooLong => "File name too long (os error 36)"
  | invalidPath => "file name contained an unexpected NUL byte"
  | system code text => text ++ " (os error " ++ toString code ++ ")"

/-! ## Trees -/

/-- A file with its content, or a directory with its entries. -/
inductive FileTree (α : Type) where
  | file (content : α)
  | directory (entries : List (String × FileTree α))

namespace FileTree

variable {α : Type}

instance : Inhabited (FileTree α) := ⟨.directory []⟩

/-- Whether the tree is a directory. -/
def isDirectory : FileTree α → Bool
  | directory _ => true
  | file _ => false

/-- The entry of a tree with the given name. -/
def entry? (t : FileTree α) (name : String) : Option (FileTree α) :=
  match t with
  | directory entries => entries.lookup name
  | file _ => none

/-- What stands at a place, which is given by the names on the way to it. -/
def find? (t : FileTree α) : List String → Option (FileTree α)
  | [] => some t
  | name :: names => (t.entry? name).bind (·.find? names)

/-- Replaces the entry of a name in a list of entries, or adds it. -/
def setEntry (name : String) (new : FileTree α) :
    List (String × FileTree α) → List (String × FileTree α)
  | [] => [(name, new)]
  | (n, t) :: rest => if n = name then (n, new) :: rest else (n, t) :: setEntry name new rest

/-- Puts `new` at a place; directories on the way that are missing are added. -/
def put (t : FileTree α) (new : FileTree α) : List String → FileTree α
  | [] => new
  | name :: names =>
    let entries := match t with
      | directory entries => entries
      | file _ => []
    directory (setEntry name (((t.entry? name).getD (directory [])).put new names) entries)

mutual

/-- The files of a tree, each with the names on the way to it. -/
def files : FileTree α → List (List String × α)
  | file content => [([], content)]
  | directory entries => filesIn entries

/-- The files of some entries. -/
def filesIn : List (String × FileTree α) → List (List String × α)
  | [] => []
  | (name, t) :: rest => t.files.map (fun (names, c) => (name :: names, c)) ++ filesIn rest

end

/-! ## Resolving paths -/

/-- The greatest number of bytes of a name. -/
def maxNameLength : Nat := 255

/-- The number of bytes that a path must stay below. -/
def pathLimit : Nat := 4096

/-- Goes from a place to what `piece`, a piece of a path, names there. -/
def step (t : FileTree α) (place : List String) (piece : String) : Except DiskError (List String) :=
  match t.find? place with
  | none => .error .noSuchEntry
  | some (file _) => .error .notDirectory
  | some (directory entries) =>
    if piece = "." then .ok place
    else if piece = ".." then .ok place.dropLast
    else if maxNameLength < piece.utf8ByteSize then .error .nameTooLong
    else if (entries.lookup piece).isSome then .ok (place ++ [piece])
    else .error .noSuchEntry

/-- The pieces of a path that is not at fault as a text. -/
def pieces (p : Path) : Except DiskError (List String) :=
  if p.text.toList.contains '\x00' then .error .invalidPath
  else if p.text.isEmpty then .error .noSuchEntry
  else if pathLimit ≤ p.text.utf8ByteSize then .error .nameTooLong
  else .ok (((p.text.toList.splitOn '/').filter (!·.isEmpty)).map String.ofList)

/-- What a path names. -/
def stat (t : FileTree α) (p : Path) : Except DiskError (FileTree α) := do
  let place ← (← pieces p).foldlM t.step []
  match t.find? place with
  | none => .error .noSuchEntry
  | some (file content) =>
    if p.text.toList.getLast? = some '/' then .error .notDirectory else .ok (file content)
  | some (directory entries) => .ok (directory entries)

/-- The directory that is to hold what a path names, as a place, and the last
    piece of the path; no piece for the top. -/
def target (t : FileTree α) (p : Path) : Except DiskError (List String × Option String) := do
  let pieces ← pieces p
  let dir ← pieces.dropLast.foldlM t.step []
  match t.find? dir with
  | some (directory _) => .ok (dir, pieces.getLast?)
  | some (file _) => .error .notDirectory
  | none => .error .noSuchEntry

/-! ## Reading and writing -/

/-- The content of a file. -/
def read (t : FileTree α) (p : Path) : Except DiskError α := do
  match ← t.stat p with
  | file content => .ok content
  | directory _ => .error .isDirectory

/-- Makes a directory. -/
def makeDirectory (t : FileTree α) (p : Path) : Except DiskError (FileTree α) := do
  match ← t.target p with
  | (_, none) => .error .alreadyExists
  | (dir, some name) =>
    if name = "." ∨ name = ".." then .error .alreadyExists
    else if maxNameLength < name.utf8ByteSize then .error .nameTooLong
    else if (t.find? (dir ++ [name])).isSome then .error .alreadyExists
    else .ok (t.put (directory []) (dir ++ [name]))

/-- Whether a path names a directory. -/
def hasDirectory (t : FileTree α) (p : Path) : Bool :=
  match t.stat p with
  | .ok d => d.isDirectory
  | .error _ => false

/-- Writes a file, in place of the one that is there. -/
def write (t : FileTree α) (p : Path) (content : α) : Except DiskError (FileTree α) := do
  match ← t.target p with
  | (_, none) => .error .isDirectory
  | (dir, some name) =>
    if name = "." ∨ name = ".." ∨ p.text.toList.getLast? = some '/' then .error .isDirectory
    else if maxNameLength < name.utf8ByteSize then .error .nameTooLong
    else
      match t.find? (dir ++ [name]) with
      | some (directory _) => .error .isDirectory
      | _ => .ok (t.put (file content) (dir ++ [name]))

end FileTree

end PackageDoc
