import LetPoly.Expr.Basic

/-!
# Written expressions

Abstractions and bindings extend as far to the right as possible, so they stand in parentheses
where a term follows them. An argument stands in parentheses unless it is a variable.
-/

namespace LetPoly

namespace Expr

/-- Whether the written form of a term would swallow what follows it. -/
def extendsRight : Expr → Bool
  | .func .. | .letIn .. => true
  | _ => false

/-- Whether a term is a variable. -/
def isVar : Expr → Bool
  | .var _ => true
  | _ => false

/-- The written form of a term. -/
def text : Expr → String
  | .var x => x
  | .call f a =>
    (if f.extendsRight then "(" ++ f.text ++ ")" else f.text) ++ " " ++
      (if a.isVar then a.text else "(" ++ a.text ++ ")")
  | .func x b => "lambda " ++ x ++ " . " ++ b.text
  | .letIn x v b => "let " ++ x ++ " = " ++ v.text ++ " in " ++ b.text
  | .alien a => a.text

end Expr

end LetPoly
