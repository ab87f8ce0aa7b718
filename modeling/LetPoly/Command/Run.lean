import LetPoly.Command.Batch
import LetPoly.Command.Flags
import LetPoly.Command.Repl
import LetPoly.Prelude.Document

/-!
# Running the command

The command infers the type of one expression that is given with a flag, of the expressions that
are entered at a terminal, or of the expressions on the lines of its input. A run is a function of
what it is given; `Invocation` lists that, and `Outcome` lists all that comes of it.
-/

namespace LetPoly

namespace Command

/-- Why a file could not be read. -/
inductive FileError where
  | notFound
  | isDirectory
  /-- Any other reason, in words. -/
  | other (text : String)
deriving DecidableEq, Repr

/-- The wording of a file error. -/
def FileError.message (path : String) : FileError → String
  | notFound => "open " ++ path ++ ": no such file or directory"
  | isDirectory => "read " ++ path ++ ": is a directory"
  | other text => "open " ++ path ++ ": " ++ text

/-- What a run is given. -/
structure Invocation where
  args : List String
  stdin : Source := []
  /-- The contents of a file. -/
  file : String → Except FileError Source := fun _ => .error .notFound
  stdinIsTerminal : Bool := false
  stdoutIsTerminal : Bool := false
  /-- The kind of terminal. -/
  term : String := ""
  /-- Whether colours are unwanted: any text but the empty one. -/
  noColor : String := ""
  /-- Whether there is a home directory to keep the history in. -/
  hasHome : Bool := true
  /-- The contents of the history file, if there is one. -/
  history : Option Source := none

/-- What comes of a run. -/
structure Outcome where
  stdout : String := ""
  stderr : String := ""
  exit : Nat := 0
  /-- The contents of the history file afterwards. -/
  history : Option Source

/-- An error message of the command. -/
def logged (message : String) : String := "algj: " ++ message ++ "\n"

/-- Whether output is coloured. -/
def Invocation.color (inv : Invocation) : Bool :=
  inv.stdoutIsTerminal && inv.term != "dumb" && inv.noColor == ""

/-- The environment that the flags ask for, or an error message. -/
def loadEnv (file : String → Except FileError Source) (o : Options) : Except String Env :=
  if o.prelude = "" then .ok (if o.noPrelude then ∅ else Prelude.builtinEnv)
  else if o.noPrelude then .error "-prelude and -no-prelude are mutually exclusive"
  else
    match file o.prelude with
    | .error e => .error ("reading prelude: " ++ e.message o.prelude)
    | .ok src => (Prelude.ofDocument src).mapError fun e => o.prelude ++ ": " ++ e.message

/-- Runs on one expression. -/
def runExpr (inv : Invocation) (env : Env) (expr : String) : Outcome :=
  let (_, r) := report inv.color env {} (.ofString expr)
  { stdout := r.text, exit := if r.error?.isSome then 1 else 0, history := inv.history }

/-- Runs at a terminal. -/
def runRepl (inv : Invocation) (env : Env) : Outcome :=
  let known := if inv.hasHome then inv.history else none
  let start := History.ofFile (known.getD [])
  let (output, history) := Repl.loop inv.color env {} start inv.stdin.lines
  { stdout := Repl.banner ++ output
    history := if inv.hasHome then some history.toFile else inv.history }

/-- Runs on the lines of the input. -/
def runBatch (inv : Invocation) (env : Env) : Outcome :=
  let r := batch inv.color env {} inv.stdin
  { stdout := r.output
    stderr := if r.error? = some .tooLong then logged "bufio.Scanner: token too long" else ""
    exit := if r.error?.isSome then 1 else 0
    history := inv.history }

/-- Runs the command. -/
def run (inv : Invocation) : Outcome :=
  match Options.parse inv.args with
  | .error e =>
    { stderr := (e.message?.map (· ++ "\n")).getD "" ++ usage, exit := e.exit
      history := inv.history }
  | .ok o =>
    match loadEnv inv.file o with
    | .error message => { stderr := logged message, exit := 1, history := inv.history }
    | .ok env =>
      if o.expr ≠ "" then runExpr inv env o.expr
      else if inv.stdinIsTerminal then runRepl inv env
      else runBatch inv env

end Command

end LetPoly
