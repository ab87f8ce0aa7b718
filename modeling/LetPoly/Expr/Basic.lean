import LetPoly.Ty.Basic

/-!
# Expressions

The terms of the lambda calculus with `let`. Like types, trees may hold aliens; a term without them
is `WellFormed`. A position in a term is the list of branches that lead to it from the root.
-/

namespace LetPoly

/-- Terms. -/
inductive Expr where
  /-- A variable. -/
  | var (name : String)
  /-- An application: `callee argument`. -/
  | call (callee argument : Expr)
  /-- An abstraction: `lambda param . body`. -/
  | func (param : String) (body : Expr)
  /-- A binding: `let name = value in body`. -/
  | letIn (name : String) (value body : Expr)
  /-- Something that is no term of the language. -/
  | alien (a : Alien)
deriving DecidableEq, Repr

namespace Expr

instance : Inhabited Expr := ⟨.alien .absent⟩

/-- A term applied to several arguments, one after the other. -/
def calls (callee : Expr) (arguments : List Expr) : Expr := arguments.foldl .call callee

/-- An abstraction over several parameters, the first outermost. -/
def funcs (params : List String) (body : Expr) : Expr := params.foldr .func body

/-- The name of the kind of node at the root. -/
def kind? : Expr → Option String
  | .var _ => some "Var"
  | .call .. => some "Call"
  | .func .. => some "Func"
  | .letIn .. => some "Let"
  | .alien a => a.name?

/-- Built from variables, applications, abstractions and bindings only. -/
def WellFormed : Expr → Prop
  | .var _ => True
  | .call f a => f.WellFormed ∧ a.WellFormed
  | .func _ b => b.WellFormed
  | .letIn _ v b => v.WellFormed ∧ b.WellFormed
  | .alien _ => False

/-! ### Positions -/

/-- A way from a term to an immediate subterm. -/
inductive Branch where
  | callee
  | argument
  | value
  | body
deriving DecidableEq, Repr

/-- The immediate subterm along a branch. -/
def child? : Expr → Branch → Option Expr
  | .call f _, .callee => some f
  | .call _ a, .argument => some a
  | .func _ b, .body => some b
  | .letIn _ v _, .value => some v
  | .letIn _ _ b, .body => some b
  | _, _ => none

/-- The subterm at a position. -/
def subterm? (e : Expr) : List Branch → Option Expr
  | [] => some e
  | b :: path => (e.child? b).bind (subterm? · path)

end Expr

end LetPoly
