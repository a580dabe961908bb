/-
  Finding source files.

  The files below a root are those whose name ends with the extension; files and
  directories whose name starts with a dot are passed over.  A root that is a
  file is taken by the same rule, with or without a dot.  A directory below a
  root whose path is too long for the system cannot be entered, and counts as a
  file.  What is found is sorted, and a file that is found twice by the same path
  is taken once.

  Names are texts here.  A system may have names that are not UTF-8; of such a name
  the program compares the text with a replacement character for what is ill-formed,
  and trees with such names are left out.
-/
import PackageDoc.Disk.Tree

namespace PackageDoc

/-- Whether a text ends with another one. -/
def endsWith (s suffix : String) : Bool := suffix.toList.isSuffixOf s.toList

/-- Whether an entry is passed over. -/
def isHidden (name : String) : Bool := name.toList.head? = some '.'

/-- Whether the name of a file is that of a source with the given extension. -/
def hasExtension (extension name : String) : Bool := endsWith name ("." ++ extension)

/-- The path of a file, if it is a source with the given extension. -/
def sourceAt (extension : String) (p : Path) : List Path :=
  if (p.fileName?.map (hasExtension extension)).getD false then [p] else []

variable {α : Type}

mutual

/-- The source files of a tree that `p` is the path of. -/
def FileTree.sources (extension : String) (p : Path) : FileTree α → List Path
  | .file _ => sourceAt extension p
  | .directory entries =>
    if p.text.utf8ByteSize < FileTree.pathLimit then sourcesIn extension p entries
    else sourceAt extension p

/-- The source files of the entries of the directory with the path `p`. -/
def sourcesIn (extension : String) (p : Path) : List (String × FileTree α) → List Path
  | [] => []
  | (name, t) :: rest =>
    (if isHidden name then [] else t.sources extension (p.join name)) ++ sourcesIn extension p rest

end

/-- Drops each path that is the same as the one before it. -/
def dropRepeated : List Path → List Path
  | [] => []
  | [p] => [p]
  | p :: q :: rest =>
    if p.same q then dropRepeated (p :: rest) else p :: dropRepeated (q :: rest)
termination_by ps => ps.length

/-- Paths in order, each once. -/
def sortedPaths (ps : List Path) : List Path := dropRepeated (ps.mergeSort Path.le)

/-- The source files of some roots, each a path and the tree that it names. -/
def sourcePaths (extension : String) (roots : List (Path × FileTree α)) : List Path :=
  sortedPaths (roots.flatMap fun (p, t) => t.sources extension p)

end PackageDoc
