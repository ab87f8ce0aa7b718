import Std.Data.TreeMap
import LetPoly.Scheme.Printer

/-!
# Typing environments

An environment is a sequence of bindings of names to schemes. A later binding shadows an earlier
one of the same name without removing it. Along with the bindings an environment keeps an index by
which names are looked up, the variables that are free in any binding, shadowed ones included, and
the variable from which a run of inference takes its fresh ones.
-/

namespace LetPoly

/-- A name and its scheme. -/
structure Binding where
  name : String
  scheme : Scheme
deriving DecidableEq

/-- The written form of a binding. -/
def Binding.text (b : Binding) : String := b.name ++ " : " ++ b.scheme.text

/-- A sequence of bindings. -/
structure Env where
  /-- The bindings, most recent first. -/
  recent : List Binding := []
  /-- The most recent binding of each name. -/
  index : Std.TreeMap String Binding := ∅
  /-- The variables that are free in some binding. -/
  free : VarSet := ∅
  /-- The variable after every one that is quantified or occurs in a binding. -/
  next : TyVar := 0
  index_eq : ∀ x, index[x]? = recent.find? (·.name == x) := by simp

namespace Env

instance : EmptyCollection Env := ⟨{}⟩

instance : Inhabited Env := ⟨∅⟩

/-- The bindings from oldest to most recent. -/
def bindings (env : Env) : List Binding := env.recent.reverse

/-- The number of bindings, shadowed ones included. -/
def size (env : Env) : Nat := env.recent.length

/-- The variable to start from after `next`, so that `v` is left behind. -/
def skip (next v : TyVar) : TyVar := if next ≤ v then v.next else next

/-- A new binding shadows the earlier ones of its name, in the index as in the sequence. -/
theorem getElem?_insert_binding (env : Env) (b : Binding) (x : String) :
    (env.index.insert b.name b)[x]? = (b :: env.recent).find? (·.name == x) := by
  rw [Std.TreeMap.getElem?_insert, List.find?_cons, env.index_eq]
  by_cases h : b.name = x
  · simp [h]
  · rw [beq_false_of_ne h, if_neg]
    simpa using h

/-- The environment with one more binding. -/
def extend (env : Env) (name : String) (s : Scheme) : Env where
  recent := ⟨name, s⟩ :: env.recent
  index := env.index.insert name ⟨name, s⟩
  free := env.free ∪ s.free
  next := (s.body.vars ∪ s.vars).toList.foldl skip env.next
  index_eq := env.getElem?_insert_binding ⟨name, s⟩

/-- Binds a name to a type that is quantified over all variables not free in the environment. -/
def declare (env : Env) (name : String) (t : Ty) : Env :=
  env.extend name (.generalize t env.free)

/-- The scheme of the most recent binding of a name. -/
def lookup (env : Env) (name : String) : Option Scheme := env.index[name]?.map (·.scheme)

theorem lookup_eq (env : Env) (name : String) :
    env.lookup name = (env.recent.find? (·.name == name)).map (·.scheme) := by
  rw [lookup, env.index_eq]

/-- The environment with the given bindings, oldest first. -/
def ofBindings (bs : List Binding) : Env := bs.foldl (fun env b => env.extend b.name b.scheme) ∅

/-- The written form of an environment. -/
def text (env : Env) : String := ", ".intercalate (env.bindings.map Binding.text)

end Env

end LetPoly
