import ColumnDecl.Column.Export
import ColumnDecl.Column.Outline
import ColumnDecl.CommandLine.Arguments
import ColumnDecl.Declaration.Remark
import ColumnDecl.Value.Json
import ColumnDecl.WireFormat

/-! The command line: declarations are printed as lines or as JSON, or a format is described. A
run either prints all of its result and succeeds, or prints one line on what is wrong and
fails. -/
namespace ColumnDecl.CommandLine

structure Output where
  status : Nat
  stdout : String
  stderr : String
  deriving DecidableEq, Repr

def lines (ls : List String) : String := String.join (ls.map fun l => s!"{l}\n")

def usage : String := "usage: typed-columns [-h] [-n NAME] [-j] [-f FORMAT] [-v] [declaration]"

def help : List String := [
  usage,
  "",
  "Parse column type declarations and describe their structure",
  "",
  "positional arguments:",
  "  declaration           Column declarations, e.g. \"a Nullable(UInt8), b",
  "                        Array(String)\"",
  "",
  "options:",
  "  -h, --help            show this help message and exit",
  "  -n NAME, --name NAME  Treat the declaration as a single type and give the",
  "                        column this name",
  "  -j, --json            Print the descriptors as JSON",
  "  -f FORMAT, --format FORMAT",
  "                        Describe the capabilities of a data format instead",
  "  -v, --verbose         Enable debug logging"]

def failed (log : List String) (message : String) : Output :=
  ⟨1, "", lines (log ++ [s!"Error: {message}"])⟩

def declarationRequired : String := "A declaration is required unless -f/--format is given"

def remark (r : Remark) : String :=
  s!"Unknown aggregate function '{r.function.asString}' in {r.typeText.spelled.asString}"

def parsed (count : Nat) (text : Text) : String :=
  s!"Parsed {count} column(s) from {text.spelled.asString}"

/-- The columns of a declaration, of one type if a name is given. -/
def columnsOf (name : Option Text) (declaration : Text) : Except Failure (List Column) :=
  match name with
  | some name => (Dialect.standard.columnOf name declaration).map fun c => [c]
  | none => Dialect.standard.parse declaration

/-- What is worth saying about the reading of a declaration; `count` is given when it succeeded. -/
def debug (name : Option Text) (declaration : Text) (count : Option Nat) : List String :=
  match name with
  | some _ => (Dialect.standard.typeRemarks declaration).map remark
  | none =>
    (Dialect.standard.remarks declaration).map remark ++
      (count.map fun n => parsed n declaration).toList

def printed (json : Bool) (columns : List Column) : String :=
  if json then lines [Text.asString ((Value.list (Column.toValues columns)).json 0)]
  else lines (Column.outlines 0 columns)

def describe (name : String) : Output :=
  match WireFormat.ofName? name with
  | some f => ⟨0, lines f.outline, ""⟩
  | none => failed [] (WireFormat.unknown name)

/-- Reads a declaration and prints it; each line of the log begins with `stamp`. A number that
cannot be written ends the run without any output. -/
def report (stamp : String) (r : Request) (declaration : Text) : Except Failure Output :=
  let log (count : Option Nat) : List String :=
    if r.verbose then
      (debug r.name declaration count).map fun message => s!"{stamp} [DEBUG] {message}"
    else []
  match columnsOf r.name declaration with
  | .ok columns => .ok ⟨0, printed r.json columns, lines (log (some columns.length))⟩
  | .error (.rejected fault) => .ok (failed (log none) fault.message)
  | .error failure => .error failure

def answer (stamp : String) (r : Request) : Except Failure Output :=
  match r.format.filter (· ≠ []), r.declaration with
  | some format, _ => .ok (describe (Text.asString format))
  | none, none => .ok (failed [] declarationRequired)
  | none, some declaration => report stamp r declaration

def run (stamp : String) (arguments : List Text) : Except Failure Output :=
  match read arguments with
  | .error misuse => .ok ⟨2, "", lines [usage, s!"typed-columns: error: {misuse.message}"]⟩
  | .ok .help => .ok ⟨0, lines help, ""⟩
  | .ok (.run r) => answer stamp r

end ColumnDecl.CommandLine
