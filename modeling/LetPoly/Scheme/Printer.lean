import LetPoly.Scheme.Basic
import LetPoly.Ty.Printer

/-!
# Written schemes

A scheme that quantifies nothing is written as its body. Otherwise the quantified variables are
named in the order of their first occurrence in the body, those that do not occur in it last and in
ascending order, and the names stand between `forall` and a full stop.
-/

namespace LetPoly

namespace Scheme

/-- The quantified variables in the order in which they are named. -/
def order (s : Scheme) : List TyVar :=
  (s.body.occurrences.filter (· ∈ s.vars) ++ s.vars.toList).eraseDups

/-- The written form of a variable under a list of named variables. -/
def nameIn (order : List TyVar) (v : TyVar) : String :=
  match order.idxOf? v with
  | some i => TyVar.name i
  | none => v.text

/-- The names of the first `n` quantified variables, each after a blank. -/
def namesText (n : Nat) : String := String.join ((List.range n).map fun i => " " ++ TyVar.name i)

/-- The written form of a scheme. -/
def text (s : Scheme) : String :=
  if s.isMono then s.body.text
  else "forall" ++ namesText s.order.length ++ ". " ++ s.body.textWith (nameIn s.order) false

end Scheme

end LetPoly
