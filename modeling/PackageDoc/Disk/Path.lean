/-
  Paths.

  A path is kept as it was given, and two paths that are written differently can
  be the same: what counts are the components.  Repeated slashes and dots inside
  a path say nothing; a dot at its start does.  Paths are ordered component by
  component.
-/
namespace PackageDoc

/-- A path as it was given. -/
structure Path where
  text : String
  deriving DecidableEq, Repr

namespace Path

/-- A part of a path. -/
inductive Component where
  /-- the slash at the start of an absolute path -/
  | root
  /-- a dot at the start of a path -/
  | here
  /-- two dots -/
  | up
  | name (s : String)
  deriving DecidableEq, Repr

/-- The order of components: names come last, in the order of their
    characters. -/
def Component.le : Component → Component → Bool
  | root, _ => true
  | here, root => false
  | here, _ => true
  | up, root | up, here => false
  | up, _ => true
  | name s, name t => s ≤ t
  | name _, _ => false

/-- The order of paths, on their components. -/
def componentsLe : List Component → List Component → Bool
  | [], _ => true
  | _ :: _, [] => false
  | c :: cs, d :: ds => if c = d then componentsLe cs ds else c.le d

/-- The component of a piece between slashes inside a path. -/
def innerComponent? (piece : List Char) : Option Component :=
  if piece = [] ∨ piece = ['.'] then none
  else if piece = ['.', '.'] then some .up
  else some (.name (String.ofList piece))

/-- The components of a path. -/
def components (p : Path) : List Component :=
  match p.text.toList.splitOn '/' with
  | [] | [[]] => []
  | [] :: pieces => .root :: pieces.filterMap innerComponent?
  | ['.'] :: pieces => .here :: pieces.filterMap innerComponent?
  | piece :: pieces => (piece :: pieces).filterMap innerComponent?

/-- Whether a path comes before another one or is the same. -/
def le (p q : Path) : Bool := componentsLe p.components q.components

/-- Whether two paths are the same. -/
def same (p q : Path) : Bool := p.components = q.components

/-- The path of an entry of a directory. -/
def join (dir : Path) (name : String) : Path :=
  if dir.text.isEmpty || dir.text.toList.getLast? = some '/' then ⟨dir.text ++ name⟩
  else ⟨dir.text ++ "/" ++ name⟩

/-- The last component of a path, if it is a name. -/
def fileName? (p : Path) : Option String :=
  match p.components.getLast? with
  | some (.name s) => some s
  | _ => none

/-- A path with the given components. -/
def ofComponents (cs : List Component) : Path :=
  let text : Component → String
    | .root => ""
    | .here => "."
    | .up => ".."
    | .name s => s
  if cs = [.root] then ⟨"/"⟩ else ⟨String.intercalate "/" (cs.map text)⟩

end Path

end PackageDoc
