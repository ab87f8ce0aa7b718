import Std.Data.TreeMap
import LetPoly.Ty.Subst

/-!
# Aliases

Unification records what it finds out about variables as aliases: a finite map from variables to
types. A target may mention variables that are aliased themselves, so the map stands for the
substitution that follows aliases until nothing is left to follow; `Aliases.canonicalize` applies
it.

Following aliases ends because no variable is reached from itself. On such a map a chain of aliases
passes through each aliased variable at most once, so `size` hops are enough from any variable;
`canonicalize` and `resolve` take that many and no more.
-/

namespace LetPoly

/-- A finite map from type variables to the types they stand for. -/
structure Aliases where
  entries : Std.TreeMap TyVar Ty

namespace Aliases

instance : EmptyCollection Aliases := ⟨⟨∅⟩⟩

instance : Inhabited Aliases := ⟨∅⟩

/-- The number of aliased variables. -/
def size (A : Aliases) : Nat := A.entries.size

/-- The type that `v` was recorded to stand for. -/
def lookup (A : Aliases) (v : TyVar) : Option Ty := A.entries[v]?

/-- Records that `v` stands for `t`; an earlier record for `v` is overwritten. -/
def record (A : Aliases) (v : TyVar) (t : Ty) : Aliases := ⟨A.entries.insert v t⟩

/-- Records entries from first to last. -/
def ofEntries (entries : List (TyVar × Ty)) : Aliases :=
  entries.foldl (fun A e => A.record e.1 e.2) ∅

@[simp] theorem lookup_empty (v : TyVar) : (∅ : Aliases).lookup v = none := by
  change (∅ : Std.TreeMap TyVar Ty)[v]? = none
  simp

theorem lookup_record (A : Aliases) (v w : TyVar) (t : Ty) :
    (A.record v t).lookup w = if v = w then some t else A.lookup w := by
  change (A.entries.insert v t)[w]? = _
  rw [Std.TreeMap.getElem?_insert]
  simp [lookup]

@[simp] theorem lookup_record_self (A : Aliases) (v : TyVar) (t : Ty) :
    (A.record v t).lookup v = some t := by
  simp [lookup_record]

/-- What `v` stands for once its aliases, and those of the variables in their targets, have been
followed for the given number of hops. -/
def expand (A : Aliases) : Nat → TyVar → Ty
  | 0, v => .var v
  | hops + 1, v =>
    match A.lookup v with
    | none => .var v
    | some t => t.subst (A.expand hops)

/-- The type with every aliased variable replaced by what it stands for. -/
def canonicalize (A : Aliases) (t : Ty) : Ty := t.subst (A.expand A.size)

/-- The canonical form, or its leftmost alien. -/
def canonicalize? (A : Aliases) (t : Ty) : Except Alien Ty := (A.canonicalize t).checked

/-- The end of the chain of aliases from `v` after at most the given number of hops. -/
def chase (A : Aliases) : Nat → TyVar → Ty
  | 0, v => .var v
  | hops + 1, v =>
    match A.lookup v with
    | none => .var v
    | some (.var w) => A.chase hops w
    | some t => t

/-- Follows aliases from `v` until a variable without an alias or another type is reached. -/
def resolve (A : Aliases) (v : TyVar) : Ty := A.chase A.size v

end Aliases

end LetPoly
