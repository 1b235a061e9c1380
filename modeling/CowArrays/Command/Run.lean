import CowArrays.Command.Arguments
import CowArrays.Compression.Settings
import CowArrays.Pattern.Text
import CowArrays.Text.Quoted
import CowArrays.Triplet.Load

/-!
The command: it reads a triplet file, compresses the pattern of its entries against the matrix that
they make up, and prints the result.
-/

namespace CowArrays.Command

/-- Why a run ends without a result. -/
inductive Stopped
  | failed (failure : Failure)
  /-- An entry outside the matrix. -/
  | outside (row col rows cols : Nat)
  /-- A size that is too large for an index. -/
  | overflow
  deriving DecidableEq

def failureText : Failure → String
  | .refused reason => reason.debug
  | .parse line reason =>
    s!"Parse \x7b line: {line}, reason: " ++ Text.quoted reason ++ " \x7d"
  | .stream .missing =>
    "Os \x7b code: 2, kind: NotFound, message: \"No such file or directory\" \x7d"
  | .stream fault =>
    "Io(Error \x7b kind: InvalidData, message: " ++ Text.quoted fault.message ++ " \x7d)"
  | failure => Text.quoted failure.message

def Stopped.text : Stopped → String
  | failed failure => "Error: " ++ failureText failure
  | outside row col rows cols =>
    "Error: " ++ Text.quoted s!"entry ({row}, {col}) outside a {rows}x{cols} matrix"
  | overflow => "attempt to add with overflow"

/-- An overflow breaks a run off, all else is reported by it. -/
def Stopped.exitCode : Stopped → Nat
  | overflow => 101
  | _ => 1

/-- One more than an index. Indices have 64 bits, and the largest has no successor. -/
def indexSucc (i : Nat) : Except Stopped Nat :=
  if i + 1 < indexLimit then .ok (i + 1) else .error .overflow

/-- The least size that covers some indices, zero if there are none. -/
def coveringSize (indices : List Nat) : Except Stopped Nat := do
  return (← indices.mapM indexSucc).foldl max 0

def sizeFor (given : Option Nat) (indices : List Nat) : Except Stopped Nat :=
  match given with
  | some size => .ok size
  | none => coveringSize indices

/-- The entries of a file in the matrix that they make up, and the pattern of their positions. -/
structure Collected where
  matrix : Grid .double
  pattern : Pattern

/-- Puts the triplets in one after the other; the first that lies outside decides. -/
def collect (rows cols : Nat) (ts : List Triplet) : Except Stopped Collected :=
  ts.foldlM (fun c t =>
    if t.row < rows ∧ t.col < cols then
      match Triplet.accumulate c.matrix c.pattern t with
      | .ok (matrix, pattern) => .ok ⟨matrix, pattern⟩
      | .error failure => .error (.failed failure)
    else .error (.outside t.row t.col rows cols))
    ⟨.filled rows cols .zero, .empty rows⟩

structure Result where
  rows : Nat
  cols : Nat
  before : Pattern
  after : Pattern

def process (schedule : Schedule) (o : Options) (text : Octets) : Except Stopped Result := do
  let ts ← (Triplet.readAll text).mapError .failed
  let rows ← sizeFor o.rows (ts.map Triplet.row)
  let cols ← sizeFor o.cols (ts.map Triplet.col)
  let c ← collect rows cols ts
  let settings : Settings := ⟨o.threshold.getD .zero, o.parallel, 1⟩
  let after ← (settings.compress schedule c.pattern c.matrix).mapError .failed
  return ⟨rows, cols, c.pattern, after⟩

def Result.report (r : Result) (json : Bool) : String :=
  if json then r.after.toJson.pretty 0 ++ "\n"
  else
    s!"Pattern: {r.rows} x {r.cols}\n" ++ s!"  Entries before: {r.before.count}\n" ++
      s!"  Entries after: {r.after.count}\n" ++ r.after.display

structure Ending where
  exitCode : Nat
  stdout : String
  stderr : String

def helpText : String :=
  "Compress the sparsity pattern of a triplet matrix file by entry magnitude\n\n" ++
  "Usage: compress_pattern [OPTIONS] <INPUT>\n\n" ++
  "Arguments:\n" ++
  "  <INPUT>  Triplet file with one `row,col,value` entry per line\n\n" ++
  "Options:\n" ++
  "  -t, --threshold <THRESHOLD>  Entries with magnitude at or below this value are dropped " ++
  "[default: 0]\n" ++
  "      --rows <ROWS>            Row count (defaults to the largest row index + 1)\n" ++
  "      --cols <COLS>            Column count (defaults to the largest column index + 1)\n" ++
  "      --parallel               Compress rows in parallel\n" ++
  "      --json                   Print the compressed pattern as JSON\n" ++
  "  -h, --help                   Print help\n" ++
  "  -V, --version                Print version\n"

def versionText : String := "lacon 0.1.0\n"

/-- Runs the command on the contents of its input file, or on nothing where there is no file. -/
def execute (schedule : Schedule) (o : Options) (contents : Option Octets) : Ending :=
  match contents with
  | none => ⟨1, "", (Stopped.failed (.stream .missing)).text ++ "\n"⟩
  | some text =>
    match process schedule o text with
    | .ok r => ⟨0, r.report o.json, ""⟩
    | .error stopped => ⟨stopped.exitCode, "", stopped.text ++ "\n"⟩

def Stop.ending : Stop → Ending
  | help => ⟨0, helpText, ""⟩
  | version => ⟨0, versionText, ""⟩
  | badUsage => ⟨2, "", "bad usage; --help lists the options\n"⟩

/-- The whole command, where `files` holds the contents of the files there are. -/
def run (schedule : Schedule) (files : String → Option Octets) (args : List String) : Ending :=
  match parseArguments args with
  | .ok (input, o) => execute schedule o (files input)
  | .error stop => stop.ending

end CowArrays.Command
