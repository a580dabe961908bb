/-
  The command line.

  An option is written with one dash or two, and its value follows it, or stands
  behind an equals sign.  Everything else is a root to look for sources in.
-/
import PackageDoc.Disk.Path

namespace PackageDoc

/-- What is documented, and where to. -/
structure Options where
  extension : String := "pks"
  output : Path := ⟨"."⟩
  roots : List Path := []
  verbose : Bool := false
  deriving DecidableEq, Repr

/-- What the command line asks for. -/
inductive Command where
  | run (options : Options)
  | help
  deriving DecidableEq, Repr

/-- Why a command line is refused. -/
inductive UsageError where
  | missingValue (flag : String)
  | unknownOption (flag : String)
  | noInput
  deriving DecidableEq, Repr

/-- The wording of an error. -/
def UsageError.message : UsageError → String
  | missingValue flag => "missing value for " ++ flag
  | unknownOption flag => "unknown option: " ++ flag
  | noInput => "no input directories or files"

/-- An option of the command line. -/
inductive Flag where
  | extension | output | verbose | help
  deriving DecidableEq, Repr

/-- The option that is written `s`. -/
def Flag.ofString? (s : String) : Option Flag :=
  if s = "-ext" ∨ s = "--ext" then some .extension
  else if s = "-output" ∨ s = "--output" ∨ s = "-o" then some .output
  else if s = "-v" ∨ s = "--verbose" then some .verbose
  else if s = "-h" ∨ s = "-help" ∨ s = "--help" then some .help
  else none

/-- Whether an argument is an option. -/
def isOption (arg : String) : Bool := arg.toList.head? = some '-' && arg != "-"

/-- Splits an argument at its first equals sign. -/
def splitValue (arg : String) : String × Option String :=
  let flag := arg.toList.takeWhile (· != '=')
  match arg.toList.dropWhile (· != '=') with
  | [] => (arg, none)
  | _ :: value => (String.ofList flag, some (String.ofList value))

/-- Sets the value of an option. -/
def Options.set (o : Options) (flag : Flag) (value : String) : Options :=
  match flag with
  | .extension => { o with extension := String.ofList (value.toList.dropWhile (· == '.')) }
  | .output => { o with output := ⟨value⟩ }
  | .verbose | .help => o

/-- Adds a root. -/
def Options.addRoot (o : Options) (root : Path) : Options := { o with roots := o.roots ++ [root] }

/-- Reads arguments on top of the options `o`. -/
def Options.withArgs (o : Options) : List String → Except UsageError Command
  | [] => if o.roots.isEmpty then .error .noInput else .ok (.run o)
  | arg :: args =>
    if !isOption arg then (o.addRoot ⟨arg⟩).withArgs args
    else
      let (flag, value?) := splitValue arg
      match Flag.ofString? flag with
      | none => .error (.unknownOption flag)
      | some .help => .ok .help
      | some .verbose => Options.withArgs { o with verbose := true } args
      | some f =>
        match value?, args with
        | some value, args => (o.set f value).withArgs args
        | none, value :: args => (o.set f value).withArgs args
        | none, [] => .error (.missingValue flag)

/-- Reads the arguments of the command line. -/
def Command.ofArgs (args : List String) : Except UsageError Command := Options.withArgs {} args

/-- How the program is used. -/
def usage : String := String.join [
  "Usage: pldoc [options] <dir-or-file>...\n",
  "\n",
  "Generate HTML documentation for PL/SQL package specifications.\n",
  "\n",
  "Options:\n",
  "  -ext <ext>        Extension of specification files (default: pks)\n",
  "  -output <dir>     Output directory (default: .)\n",
  "  -o <dir>          Same as -output\n",
  "  -v, --verbose     Log progress to stderr\n",
  "  -h, --help        Show this help\n",
  "\n",
  "Set RUST_LOG (for example RUST_LOG=pldoc_parse=trace) for detailed logs.\n"]

end PackageDoc
