/-
  The program: the command line on the files of the system.
-/
import PackageDoc.Run

namespace PackageDoc

/-- The number and the wording of an error of the system. -/
def systemError : IO.Error → Nat × String
  | .alreadyExists _ code details | .otherError code details | .resourceBusy code details
  | .resourceVanished code details | .unsupportedOperation code details
  | .hardwareFault code details | .unsatisfiedConstraints code details
  | .illegalOperation code details | .protocolError code details | .timeExpired code details
  | .interrupted _ code details | .noFileOrDirectory _ code details
  | .invalidArgument _ code details | .permissionDenied _ code details
  | .resourceExhausted _ code details | .inappropriateType _ code details
  | .noSuchThing _ code details => (code.toNat, details)
  | .unexpectedEof => (0, "end of file")
  | .userError details => (0, details)

/-- An error of the system as an error of an operation on files.  The number may
    come with a minus sign, as a word. -/
def DiskError.ofSystem (e : IO.Error) : DiskError :=
  let (code, text) := systemError e
  match if code < 0x80000000 then code else 0x100000000 - code, text with
  | 2, _ => .noSuchEntry
  | 17, _ => .alreadyExists
  | 20, _ => .notDirectory
  | 21, _ => .isDirectory
  | 36, _ => .nameTooLong
  | code, text => .system code text

/-- Runs an operation of the system on a path that is not empty. -/
def onDisk {α : Type} (p : Path) (x : IO α) : IO (Except DiskError α) := do
  if p.text.isEmpty then return .error .noSuchEntry
  try
    return .ok (← x)
  catch e => return .error (.ofSystem e)

/-- What a path names. -/
def lookUp (p : Path) : IO IO.FS.FileType :=
  return (← ((← IO.currentDir) / p.text).metadata).type

/-- The shape of what a path names, without hidden entries. -/
partial def lookAt (p : Path) : IO (FileTree Unit) := do
  if (← lookUp p) == .dir then
    let entries := (← ((← IO.currentDir) / p.text).readDir).toList.filter (!isHidden ·.fileName)
    return .directory (← entries.mapM fun e => do
      let shape ← try lookAt (p.join e.fileName) catch _ => pure (.file ())
      return (e.fileName, shape))
  else return .file ()

/-- The operations on the files of the system. -/
def systemDisk : Disk IO where
  look p := onDisk p (lookAt p)
  read p := onDisk p (IO.FS.readBinFile p.text)
  makeDirectory p := onDisk p (IO.FS.createDir p.text)
  hasDirectory p := return (← onDisk p (lookUp p)).toOption == some .dir
  write p content := onDisk p (IO.FS.writeFile p.text content)

/-- The filter that stands in for the logging library: it knows the verbose setting,
    and with any other one shows nothing. -/
def systemFilter (setting : String) : LogFilter where
  shows e := setting == verboseSetting && e.level == .info

end PackageDoc

open PackageDoc in
/-- Executes the command line. -/
def main (args : List String) : IO UInt32 := do
  let logged ← execute systemDisk systemFilter (← IO.getEnv "RUST_LOG") args
  IO.eprint logged.result.complaints
  for e in logged.events do
    IO.eprintln e.text
  IO.print logged.result.stdout
  IO.eprint logged.result.error
  return logged.result.status
