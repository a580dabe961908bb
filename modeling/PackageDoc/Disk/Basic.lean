/-
  What a run does with files.

  A `Disk` gives the operations on files, in whatever monad they live.
  `FileTree.disk` are those of a tree, which change the tree that they work on.
-/
import PackageDoc.Disk.Tree

namespace PackageDoc

/-! ## Operations -/

/-- Operations on files. -/
structure Disk (m : Type → Type) where
  /-- the shape of the tree that a path names -/
  look : Path → m (Except DiskError (FileTree Unit))
  /-- the content of a file -/
  read : Path → m (Except DiskError ByteArray)
  /-- makes a directory -/
  makeDirectory : Path → m (Except DiskError Unit)
  /-- whether a path names a directory -/
  hasDirectory : Path → m Bool
  /-- writes a file -/
  write : Path → String → m (Except DiskError Unit)

namespace Disk

variable {m : Type → Type} [Monad m]

/-- Makes a directory that may be there already. -/
def ensureDirectory (d : Disk m) (p : Path) : m (Except DiskError Unit) := do
  match ← d.makeDirectory p with
  | .ok () => return .ok ()
  | .error e => if ← d.hasDirectory p then return .ok () else return .error e

/-- Makes the directory `p`; if one that it lies in is missing, `parents` makes
    them first. -/
def ensureWith (d : Disk m) (parents : m (Except DiskError Unit)) (p : Path) :
    m (Except DiskError Unit) := do
  match ← d.ensureDirectory p with
  | .error .noSuchEntry =>
    match ← parents with
    | .ok () => d.ensureDirectory p
    | .error e => return .error e
  | result => return result

/-- Makes the directory with the given components, latest first, and all that it
    lies in. -/
def makeParents (d : Disk m) : List Path.Component → m (Except DiskError Unit)
  | [] => return .ok ()
  | c :: cs => d.ensureWith (d.makeParents cs) (.ofComponents (c :: cs).reverse)

/-- Makes a directory and all that it lies in, as far as they are missing. -/
def makeDirectories (d : Disk m) (p : Path) : m (Except DiskError Unit) :=
  if p.text.isEmpty then return .ok ()
  else d.ensureWith (d.makeParents p.components.dropLast.reverse) p

end Disk

/-! ## Trees -/

mutual

/-- A tree without the content of its files. -/
def FileTree.shape {α : Type} : FileTree α → FileTree Unit
  | .file _ => .file ()
  | .directory entries => .directory (shapes entries)

/-- Entries without the content of their files. -/
def shapes {α : Type} : List (String × FileTree α) → List (String × FileTree Unit)
  | [] => []
  | (name, t) :: rest => (name, t.shape) :: shapes rest

end

/-- Changes the state if the change succeeds. -/
def tryModify {σ ε : Type} (f : σ → Except ε σ) : StateM σ (Except ε Unit) := fun s =>
  match f s with
  | .ok s' => (.ok (), s')
  | .error e => (.error e, s)

/-- The operations on a tree. -/
def FileTree.disk : Disk (StateM (FileTree ByteArray)) where
  look p := return ((← get).stat p).map (·.shape)
  read p := return (← get).read p
  makeDirectory p := tryModify (·.makeDirectory p)
  hasDirectory p := return (← get).hasDirectory p
  write p content := tryModify (·.write p content.toUTF8)

end PackageDoc
