import LetPoly.Command.Report
import LetPoly.Text.CharClass
import LetPoly.Text.Glyph

/-!
# Batch mode

One expression per line. Blank lines and comments are skipped, every other line is reported on, and
the first error is what the run ends with. A line that is too long ends the reading. All lines share
one session.
-/

namespace LetPoly

namespace Command

/-- The number of bytes from which on a line is too long. -/
def lineLimit : Nat := 65536

/-- The lines before the first one that is too long, and whether there is such a line. -/
def readLines (limit : Nat) : List Line → List Line × Bool
  | [] => ([], false)
  | l :: ls =>
    if limit ≤ l.text.width then ([], true)
    else
      let (ls, tooLong) := readLines limit ls
      (l :: ls, tooLong)

/-- The expression on a line, if it is neither blank nor a comment. -/
def lineExpr? (l : Line) : Option Source :=
  let text := l.text.trim Text.isBlank
  if text.isEmpty ∨ text.head? = some (.char '#') then none else some text

/-- How a batch ended. -/
inductive BatchError where
  | expr (e : ExprError)
  | tooLong
deriving DecidableEq, Repr

/-- What a batch printed, and how it failed. -/
structure BatchResult where
  output : String
  error? : Option BatchError

/-- The state of a batch between two lines. -/
structure Progress where
  session : Session
  output : String := ""
  /-- The first error so far. -/
  first? : Option ExprError := none

/-- Reports on the expression on a line, if there is one. -/
def Progress.step (color : Bool) (env : Env) (p : Progress) (l : Line) : Progress :=
  match lineExpr? l with
  | none => p
  | some src =>
    let (session, r) := report color env p.session src
    { session, output := p.output ++ r.text, first? := p.first?.or r.error? }

/-- Reports on all expressions of the input. -/
def batch (color : Bool) (env : Env) (s : Session) (input : Source) : BatchResult :=
  let (ls, tooLong) := readLines lineLimit input.lines
  let p := ls.foldl (Progress.step color env) { session := s }
  { output := p.output
    error? := if tooLong then some .tooLong else p.first?.map .expr }

end Command

end LetPoly
