/-
  A run of the program.

  A run finds the sources, parses all of them and writes the site.  It reads and
  writes through a `Disk`; on a file tree (`FileTree.disk`) a run is a function
  from a tree to a tree.  Which events are shown is up to a `LogFilter`, which the
  logging library reads from a setting.
-/
import PackageDoc.Discovery
import PackageDoc.Disk.Basic
import PackageDoc.Event
import PackageDoc.Options
import PackageDoc.Parser.Package
import PackageDoc.Site

namespace PackageDoc

/-! ## Results -/

/-- Why a run fails. -/
inductive RunError where
  | look (path : Path) (error : DiskError)
  | read (path : Path) (error : DiskError)
  | parse (error : ParseError)
  | makeDirectory (path : Path) (error : DiskError)
  | write (path : Path) (error : DiskError)
  deriving DecidableEq

/-- The wording of an error. -/
def RunError.message : RunError → String
  | look p e | read p e => "cannot read " ++ p.text ++ ": " ++ e.message
  | parse e => e.message
  | makeDirectory p e => "cannot create output directory " ++ p.text ++ ": " ++ e.message
  | write p e => "cannot write " ++ p.text ++ ": " ++ e.message

/-- What a run has produced. -/
structure Report where
  files : Nat
  packages : Nat
  pages : List Path
  output : Path
  deriving DecidableEq

/-- A report in one line. -/
def Report.text (r : Report) : String :=
  "documented " ++ toString r.packages ++ " package(s) from " ++ toString r.files ++
    " file(s) in " ++ r.output.text

/-! ## Steps -/

/-- Steps of a run: they may fail, and log what they do. -/
abbrev RunM (m : Type → Type) := ExceptT RunError (StateT (List Event) m)

namespace RunM

variable {m : Type → Type} [Monad m]

/-- Logs events. -/
def log (events : List Event) : RunM m Unit := modify (· ++ events)

/-- An operation on files, whose error is reported as `f` says. -/
def disk {α : Type} (f : DiskError → RunError) (x : m (Except DiskError α)) : RunM m α := do
  match ← x with
  | .ok a => return a
  | .error e => throw (f e)

end RunM

open RunM

variable {m : Type → Type} [Monad m]

/-- The source files of some roots. -/
def findSources (d : Disk m) (roots : List Path) (extension : String) : RunM m (List Path) := do
  let trees ← roots.mapM fun p => return (p, ← disk (.look p) (d.look p))
  return sourcePaths extension trees

/-- Reads and parses a file, which is named by its path. -/
def parseFile (d : Disk m) (p : Path) : RunM m SourceFile := do
  let source ← disk (.read p) (d.read p)
  let logged := parse p.text source
  log logged.events
  match logged.result with
  | .ok file =>
    log [.parsedFile p.text file.packages.length]
    return file
  | .error e => throw (.parse e)

/-- Writes a file of a site; gives its path if it is a page. -/
def writeFile (d : Disk m) (dir : Path) (f : Site.SiteFile) : RunM m (List Path) := do
  let p := dir.join f.name
  disk (.write p) (d.write p f.content)
  match f.package? with
  | some package =>
    log [.wrotePage package p.text]
    return [p]
  | none => return []

/-- Writes the site of a catalog into a directory; gives the paths of the
    pages. -/
def writeSite (d : Disk m) (dir : Path) (c : Catalog) : RunM m (List Path) := do
  disk (.makeDirectory dir) (d.makeDirectories dir)
  let pages ← (Site.files c).mapM (writeFile d dir)
  return pages.flatten

/-- The description of every catalog. -/
def description : String := "Documentation"

/-- Documents the sources of the roots. -/
def document (d : Disk m) (o : Options) : RunM m Report := do
  let paths ← findSources d o.roots o.extension
  log [.foundFiles paths.length o.extension]
  let files ← paths.mapM (parseFile d)
  let catalog : Catalog := ⟨some description, files⟩
  let packages := catalog.packages.length
  log [.parsedPackages packages]
  let pages ← writeSite d o.output catalog
  log [.wroteSite pages.length o.output.text]
  return ⟨paths.length, packages, pages, o.output⟩

/-- Runs steps, and gives the events that they log with their result. -/
def RunM.logged {α : Type} (x : RunM m α) : m (Logged (Except RunError α)) := do
  let (result, events) ← x.run.run []
  return ⟨events, result⟩

/-! ## The command line -/

/-- What the logging library makes of a setting. -/
structure LogFilter where
  /-- whether the program can go on with the setting -/
  usable : Bool := true
  /-- what is said about the parts of the setting that are at fault -/
  complaints : String := ""
  shows : Event → Bool

/-- What a command leaves behind: its exit status and what it prints.  The
    complaints about the log setting come before all else on standard error. -/
structure Outcome where
  status : UInt32
  stdout : String := ""
  complaints : String := ""
  error : String := ""
  deriving DecidableEq

/-- What is printed on standard error, log lines apart. -/
def Outcome.stderr (o : Outcome) : String := o.complaints ++ o.error

/-- What a refused command line gives. -/
def UsageError.outcome (e : UsageError) : Outcome :=
  { status := 1, error := "error: " ++ e.message ++ "\n\n" ++ usage }

/-- What a run gives. -/
def runOutcome (filter : LogFilter) : Except RunError Report → Outcome
  | .ok r => { status := 0, stdout := r.text ++ "\n", complaints := filter.complaints }
  | .error e =>
    { status := 1, complaints := filter.complaints, error := "error: " ++ e.message ++ "\n" }

/-- The setting that shows what matters most. -/
def verboseSetting : String := "pldoc=info,pldoc_parse=info,pldoc_html=info"

/-- The log setting of a run: the one that is given, or else the verbose one, if
    the options ask for it. -/
def Options.logSetting? (o : Options) (given : Option String) : Option String :=
  given.or (if o.verbose then some verboseSetting else none)

/-- The log filter of a run.  Without a setting nothing is shown. -/
def Options.logFilter (o : Options) (filter : String → LogFilter) (given : Option String) :
    LogFilter :=
  match o.logSetting? given with
  | some setting => filter setting
  | none => { shows := fun _ => false }

/-- What a setting gives that the program cannot go on with. -/
def LogFilter.outcome (filter : LogFilter) : Outcome :=
  { status := 101, complaints := filter.complaints }

/-- Executes a command line under a log setting, of which the library makes a
    `filter`; gives its outcome and the events that are shown. -/
def execute (d : Disk m) (filter : String → LogFilter) (given : Option String)
    (args : List String) : m (Logged Outcome) := do
  match Command.ofArgs args with
  | .error e => return ⟨[], e.outcome⟩
  | .ok .help => return ⟨[], { status := 0, stdout := usage }⟩
  | .ok (.run o) =>
    let filter := o.logFilter filter given
    if !filter.usable then return ⟨[], filter.outcome⟩
    let logged ← (document d o).logged
    return ⟨logged.events.filter filter.shows, runOutcome filter logged.result⟩

end PackageDoc
