import LetPoly.Ty.Subst

/-!
# Type schemes

A scheme is a type together with the set of variables it quantifies. The set need not match the
variables of the body: a scheme may quantify a variable that its body does not mention, and leaves
free the variables that it does not quantify.
-/

namespace LetPoly

/-- A type quantified over a set of variables. -/
structure Scheme where
  vars : VarSet
  body : Ty
deriving DecidableEq

namespace Scheme

instance : Inhabited Scheme := ⟨⟨∅, default⟩⟩

/-- The scheme that quantifies nothing. -/
def mono (t : Ty) : Scheme := ⟨∅, t⟩

/-- The scheme that quantifies the listed variables. -/
def forAll (vs : List TyVar) (t : Ty) : Scheme := ⟨.ofList vs, t⟩

/-- Whether a scheme quantifies nothing. -/
def isMono (s : Scheme) : Bool := s.vars.toList.isEmpty

/-- The variables of the body that are not quantified. -/
def free (s : Scheme) : VarSet := s.body.vars \ s.vars

/-- Quantifies the variables of a type, except for those that are free in its surroundings. -/
def generalize (t : Ty) (fixed : VarSet) : Scheme := ⟨t.vars \ fixed, t⟩

/-- A copy of the body in which the quantified variables, in ascending order, have become the given
ones. All are renamed at once, so a new variable that happens to equal a quantified one is not
renamed again. -/
def instantiateWith (s : Scheme) (fresh : List TyVar) : Ty :=
  s.body.substitute (s.vars.toList.zip (fresh.map .var))

/-- A copy of the body in which every quantified variable has become a fresh one. -/
def instantiate (s : Scheme) (supply : Supply) : Ty × Supply :=
  let (fresh, supply) := supply.take s.vars.size
  (s.instantiateWith fresh, supply)

/-- A copy of the body as by `instantiate`, or the leftmost alien of the body. A scheme that
quantifies nothing has nothing to rename, and its body is taken as it is. The supply moves on in
either case. -/
def instantiate? (s : Scheme) (supply : Supply) : Except Alien Ty × Supply :=
  let (t, supply) := s.instantiate supply
  (if s.isMono then .ok t else t.checked, supply)

end Scheme

end LetPoly
