import LetPoly.Command.History
import LetPoly.Command.Report
import LetPoly.Text.CharClass

/-!
# Interactive mode

Lines are read one after the other, each after a prompt. A line is a command if it starts with a
colon, and an expression otherwise. Every line that is not blank goes into the history. All
expressions share one session.
-/

namespace LetPoly

namespace Command

namespace Repl

/-- What is printed before the first prompt. -/
def banner : String := "Type :help for help, :quit or Ctrl+D to exit.\n"

/-- What is printed before a line is read. -/
def prompt : String := "algj> "

/-- What `:help` prints. -/
def help : String :=
  "Commands:\n" ++
  "  :env     Print the typing context\n" ++
  "  :help    Print this message\n" ++
  "  :quit    Exit\n" ++
  "Expressions:\n" ++
  "  x    e0 e1    lambda x . e    let x = e0 in e1    (e)\n"

/-- The reaction to a line. -/
structure Reaction where
  output : String := ""
  session : Session
  history : History
  quit : Bool := false

/-- What `:env` prints. -/
def listing (env : Env) : String :=
  String.join (env.bindings.map fun b => "  " ++ b.text ++ "\n")

/-- Reacts to a line. -/
def react (color : Bool) (env : Env) (session : Session) (history : History) (line : Source) :
    Reaction :=
  let line := line.trim Text.isBlank
  if line.isEmpty then { session, history }
  else
    let history := history.enter line
    if line = .ofString ":quit" ∨ line = .ofString ":q" then { session, history, quit := true }
    else if line = .ofString ":help" ∨ line = .ofString ":h" then
      { output := help, session, history }
    else if line = .ofString ":env" then { output := listing env, session, history }
    else if line.head? = some (.char ':') then
      { output := "unknown command; type :help for help\n", session, history }
    else
      let (session, r) := report color env session line
      { output := r.text, session, history }

/-- Reads lines until one asks to quit or none is left, and returns what was printed and the
history. -/
def loop (color : Bool) (env : Env) (session : Session) (history : History) :
    List Line → String × History
  | [] => (prompt ++ "\n", history)
  | l :: ls =>
    let r := react color env session history l.text
    if r.quit then (prompt ++ r.output, r.history)
    else
      let (output, history) := loop color env r.session r.history ls
      (prompt ++ r.output ++ output, history)

end Repl

end Command

end LetPoly
