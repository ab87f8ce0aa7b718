import LetPoly.Ty.Subst

/-!
# Written types

`->` is written between its two sides and associates to the right; every other constructor is
written in front of its arguments. Parentheses stand where the grammar needs them: around an arrow
on the left of an arrow, and around an application with arguments that is itself an argument.
-/

namespace LetPoly

namespace Ty

/-- Puts parentheses around a text when asked to. -/
def enclose (parens : Bool) (s : String) : String := if parens then "(" ++ s ++ ")" else s

mutual
/-- The written form of a type, with `name` to write its variables and parentheses around it if
`parens` is set and it is not an atom. -/
def textWith (name : TyVar → String) (parens : Bool) : Ty → String
  | .var v => name v
  | .app con args =>
    if con = arrowName ∧ args.length = 2 then enclose parens (sidesText name args)
    else if args.isEmpty then con
    else enclose parens (con ++ argsText name args)
  | .alien a => a.text
/-- The sides of an arrow, from left to right. -/
def sidesText (name : TyVar → String) : List Ty → String
  | [] => ""
  | t :: ts =>
    if ts.isEmpty then textWith name false t
    else textWith name t.isArrow t ++ " -> " ++ sidesText name ts
/-- The arguments of a constructor, each after a blank. -/
def argsText (name : TyVar → String) : List Ty → String
  | [] => ""
  | t :: ts => " " ++ textWith name (t.arity?.any (0 < ·)) t ++ argsText name ts
end

/-- The written form of a type, in which variables stand by number. -/
def text (t : Ty) : String := t.textWith TyVar.text false

end Ty

end LetPoly
