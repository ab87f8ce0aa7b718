import LetPoly.Scheme.Basic
import LetPoly.Unify

/-!
# Inference contexts

A context is what a run of type inference carries along: the aliases recorded so far and the supply
of fresh variables. Every operation on it says what becomes of the context, also when it fails.
-/

namespace LetPoly

/-- The state of a run of type inference. -/
structure Context where
  aliases : Aliases := ∅
  supply : Supply := {}

namespace Context

/-- A context without aliases whose fresh variables start at `first`. -/
def init (first : TyVar) : Context := ⟨∅, ⟨first, 0⟩⟩

/-- The next fresh variable. -/
def fresh (ctx : Context) : TyVar × Context :=
  (ctx.supply.next, { ctx with supply := ctx.supply.advance })

/-- The canonical form of a type under the aliases recorded so far. -/
def canonicalize? (ctx : Context) (t : Ty) : Except Alien Ty := ctx.aliases.canonicalize? t

/-- Makes two types equal. -/
def unify (ctx : Context) (a b : Ty) : Context × Option TypeError :=
  let (A, error) := ctx.aliases.unify? a b
  ({ ctx with aliases := A }, error)

/-- The variables that the given ones have come to stand for. -/
def freeVars (ctx : Context) (free : VarSet) : VarSet :=
  .ofList (free.toList.flatMap fun v => (ctx.aliases.canonicalize (.var v)).occurrences)

/-- Quantifies the variables of a canonical form, except for those that the variables in `fixed`
have come to stand for. -/
def generalize? (ctx : Context) (t : Ty) (fixed : VarSet) : Except Alien Scheme := do
  let t ← ctx.canonicalize? t
  return .generalize t (ctx.freeVars fixed)

/-- A copy of a scheme's body with fresh variables for the quantified ones. -/
def instantiate? (ctx : Context) (s : Scheme) : Except Alien Ty × Context :=
  let (t, supply) := s.instantiate? ctx.supply
  (t, { ctx with supply })

end Context

end LetPoly
