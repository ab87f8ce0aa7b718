import LetPoly.Command.Run

/-!
# The command

Reads what the run is given, and writes what comes of it. At a terminal the answer to a line is
written before the next one is read.
-/

namespace LetPoly

namespace Command

/-- The bytes of a stream up to its end. -/
partial def readAll (stream : IO.FS.Stream) (bytes : ByteArray) : IO ByteArray := do
  let chunk ← stream.read 65536
  if chunk.isEmpty then return bytes else readAll stream (bytes ++ chunk)

/-- The contents of a file. -/
def readFile (path : String) : IO (Except FileError Source) := do
  try
    let bytes ← IO.FS.readBinFile path
    return .ok (.ofBytes bytes.toList)
  catch
    | .noFileOrDirectory .. => return .error .notFound
    | e => return .error (.other (toString e))

/-- Reads and answers lines until one asks to quit or none is left, and returns the history. -/
partial def converse (color : Bool) (env : Env) (session : Session) (history : History) :
    IO History := do
  let stdout ← IO.getStdout
  stdout.putStr Repl.prompt
  stdout.flush
  let line ← (← IO.getStdin).getLine
  if line.isEmpty then
    stdout.putStr "\n"
    return history
  let r := Repl.react color env session history (.ofString line)
  stdout.putStr r.output
  if r.quit then return r.history else converse color env r.session r.history

/-- Runs at a terminal. The history is kept in the home directory, if there is one. -/
def interact (inv : Invocation) (env : Env) (home : Option String) : IO UInt32 := do
  let path := home.map (· ++ "/.algj_history")
  let file ← path.mapM readFile
  IO.print Repl.banner
  let start := History.ofFile ((file.bind (·.toOption)).getD [])
  let history ← converse inv.color env {} start
  if let some path := path then
    IO.FS.writeBinFile path ⟨history.toFile.bytes.toArray⟩
  return 0

/-- Writes what came of a run. -/
def finish (outcome : Outcome) : IO UInt32 := do
  IO.print outcome.stdout
  IO.eprint outcome.stderr
  return outcome.exit.toUInt32

/-- Runs the command on its arguments. -/
def main (args : List String) : IO UInt32 := do
  let stdin ← IO.getStdin
  let inv : Invocation := {
    args
    stdinIsTerminal := ← stdin.isTty
    stdoutIsTerminal := ← (← IO.getStdout).isTty
    term := (← IO.getEnv "TERM").getD ""
    noColor := (← IO.getEnv "NO_COLOR").getD "" }
  match Options.parse args with
  | .error _ => finish (run inv)
  | .ok o =>
    let contents ← if o.prelude = "" then pure (.error .notFound) else readFile o.prelude
    let inv := { inv with file := fun _ => contents }
    match loadEnv inv.file o with
    | .error _ => finish (run inv)
    | .ok env =>
      if o.expr ≠ "" then finish (run inv)
      else if inv.stdinIsTerminal then
        interact inv env ((← IO.getEnv "HOME").filter (· ≠ ""))
      else
        let bytes ← readAll stdin .empty
        finish (run { inv with stdin := .ofBytes bytes.toList })

end Command

end LetPoly

/-- The entry point of the command. -/
def main (args : List String) : IO UInt32 := LetPoly.Command.main args
