import LetPoly.Expr.Parser
import LetPoly.Session

/-!
# Reports

The answer to one expression: its written form with its scheme, or a diagnostic. A diagnostic of
failed inference names the subterm at fault if it is not the whole term; which one that is has been
recorded by the session that the inference was made in.
-/

namespace LetPoly

namespace Command

/-- Why an expression has no scheme to report. -/
inductive ExprError where
  | parse (e : ParseError)
  | infer (f : Failure)
deriving DecidableEq, Repr

/-- The lines to print for an expression, and what was wrong with it. -/
structure Report where
  text : String
  error? : Option ExprError := none

/-- A text in a colour, if output is coloured. -/
def paint (color : Bool) (code text : String) : String :=
  if color then "\x1b[" ++ code ++ "m" ++ text ++ "\x1b[0m" else text

/-- The diagnostic for a term that has no type, in the session that found this out. -/
def diagnostic (s : Session) (e : Expr) (f : Failure) : String :=
  let message := "type inference failed: " ++ f.error.message
  match s.culprit? with
  | some culprit => if culprit = e then message else message ++ "\n  in: " ++ culprit.text
  | none => message

/-- The report on the expression in a source. -/
def report (color : Bool) (env : Env) (s : Session) (src : Source) : Session × Report :=
  match Expr.parse src with
  | .error err =>
    (s, ⟨paint color "31" ("parsing failed: " ++ err.message) ++ "\n", some (.parse err)⟩)
  | .ok e =>
    match s.infer env e with
    | (s, .error f) => (s, ⟨paint color "31" (diagnostic s e f) ++ "\n", some (.infer f)⟩)
    | (s, .ok scheme) =>
      (s, ⟨e.text ++ " : " ++ paint color "32" scheme.text ++ "\n", none⟩)

end Command

end LetPoly
