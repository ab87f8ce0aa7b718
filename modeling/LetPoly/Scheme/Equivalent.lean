import LetPoly.Scheme.Basic

/-!
# Equivalent schemes

Two schemes are equivalent if a renaming of quantified variables takes the one to the other.
`Scheme.equivalent` finds the renaming in one walk over both bodies: the first time that two
quantified variables face each other they are paired, and from then on each may only face the
other. Variables that are not quantified must be the same.
-/

namespace LetPoly

/-- Pairs of quantified variables that have faced each other. -/
abbrev Pairing := List (TyVar × TyVar)

namespace Pairing

/-- Lets `x` and `y` face each other: they are paired already, or neither has a partner yet. -/
def meet (p : Pairing) (x y : TyVar) : Option Pairing :=
  if (x, y) ∈ p then some p
  else if x ∈ p.map Prod.fst ∨ y ∈ p.map Prod.snd then none
  else some ((x, y) :: p)

end Pairing

namespace Scheme

mutual
/-- Walks over two bodies, of which the variables in `a` and `b` are quantified. An alien is
equivalent to nothing. -/
def faceOff (a b : VarSet) : Ty → Ty → Pairing → Option Pairing
  | .var x, .var y, p =>
    if x ∈ a ∧ y ∈ b then p.meet x y
    else if x ∉ a ∧ y ∉ b ∧ x = y then some p
    else none
  | .app c ts, .app d us, p => if c = d then faceOffAll a b ts us p else none
  | _, _, _ => none
/-- Walks over two argument lists. -/
def faceOffAll (a b : VarSet) : List Ty → List Ty → Pairing → Option Pairing
  | [], [], p => some p
  | t :: ts, u :: us, p => (faceOff a b t u p).bind (faceOffAll a b ts us)
  | _, _, _ => none
end

/-- Whether two schemes quantify equally many variables and their bodies are equal up to a renaming
of quantified variables. -/
def equivalent (a b : Scheme) : Bool :=
  a.vars.size == b.vars.size && (faceOff a.vars b.vars a.body b.body []).isSome

end Scheme

end LetPoly
