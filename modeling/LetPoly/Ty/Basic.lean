import LetPoly.VarSet

/-!
# Types

A type is a variable or a constructor applied to arguments; a constant is a constructor without
arguments, and `a -> b` is the constructor `->` applied to two. Nothing ties a constructor's name
to an arity.

A syntax tree may hold something that is no node of the language: nothing at all, or a node of a kind
that this library does not know and only carries along under its name. Both are leaves, called aliens.
They have no variables, and the operations that must take every node apart report the first one they
meet. A type without aliens is `WellFormed`.

The functions on types are defined by structural recursion together with their counterparts on
argument lists; `Ty.ind` is the induction principle that hides the lists again.
-/

namespace LetPoly

/-- What stands in a syntax tree where a node of the language should be. -/
inductive Alien where
  /-- Nothing. -/
  | absent
  /-- A node of an unknown kind with this name. -/
  | named (name : String)
deriving DecidableEq, Repr

namespace Alien

/-- How an error message refers to it. -/
def label : Alien → String
  | absent => "<nil>"
  | named name => name

/-- How it is printed inside a tree: an unknown kind has no written form. -/
def text : Alien → String
  | absent => "<nil>"
  | named _ => ""

/-- The name of its kind. -/
def name? : Alien → Option String
  | absent => none
  | named name => some name

end Alien

/-- Monotypes. -/
inductive Ty where
  /-- A type variable. -/
  | var (v : TyVar)
  /-- A constructor applied to arguments. -/
  | app (con : String) (args : List Ty)
  /-- Something that is no type of the language. -/
  | alien (a : Alien)
deriving Repr

namespace Ty

instance : Inhabited Ty := ⟨.app "" []⟩

/-! ### Induction -/

mutual
theorem indOne {motive : Ty → Prop} (var : ∀ v, motive (.var v))
    (app : ∀ con args, (∀ t ∈ args, motive t) → motive (.app con args))
    (alien : ∀ a, motive (.alien a)) : ∀ t, motive t
  | .var v => var v
  | .app con args => app con args (indAll var app alien args)
  | .alien a => alien a
theorem indAll {motive : Ty → Prop} (var : ∀ v, motive (.var v))
    (app : ∀ con args, (∀ t ∈ args, motive t) → motive (.app con args))
    (alien : ∀ a, motive (.alien a)) : ∀ (ts : List Ty), ∀ t ∈ ts, motive t
  | [], _, h => absurd h List.not_mem_nil
  | u :: us, t, h =>
    (List.mem_cons.mp h).elim (fun e => e ▸ indOne var app alien u)
      (fun h => indAll var app alien us t h)
end

/-- To prove something of every type, prove it of an application from its arguments. -/
@[induction_eliminator]
theorem ind {motive : Ty → Prop} (var : ∀ v, motive (.var v))
    (app : ∀ con args, (∀ t ∈ args, motive t) → motive (.app con args))
    (alien : ∀ a, motive (.alien a)) (t : Ty) : motive t :=
  indOne var app alien t

/-! ### Equality -/

mutual
/-- Syntactic equality. -/
def decEq : (t u : Ty) → Decidable (t = u)
  | .var v, .var w => decidable_of_iff (v = w) ⟨congrArg var, Ty.var.inj⟩
  | .app c ts, .app d us =>
    if hc : c = d then
      match decEqAll ts us with
      | isTrue hs => isTrue (by rw [hc, hs])
      | isFalse hs => isFalse fun h => hs (Ty.app.inj h).2
    else isFalse fun h => hc (Ty.app.inj h).1
  | .alien a, .alien b => decidable_of_iff (a = b) ⟨congrArg alien, Ty.alien.inj⟩
  | .var _, .app .. => isFalse nofun
  | .var _, .alien _ => isFalse nofun
  | .app .., .var _ => isFalse nofun
  | .app .., .alien _ => isFalse nofun
  | .alien _, .var _ => isFalse nofun
  | .alien _, .app .. => isFalse nofun
/-- Syntactic equality of argument lists. -/
def decEqAll : (ts us : List Ty) → Decidable (ts = us)
  | [], [] => isTrue rfl
  | t :: ts, u :: us =>
    match decEq t u with
    | isTrue h =>
      match decEqAll ts us with
      | isTrue hs => isTrue (by rw [h, hs])
      | isFalse hs => isFalse fun e => hs (List.cons.inj e).2
    | isFalse h => isFalse fun e => h (List.cons.inj e).1
  | [], _ :: _ => isFalse nofun
  | _ :: _, [] => isFalse nofun
end

instance : DecidableEq Ty := decEq

/-! ### Constants and arrows -/

/-- The name of the function-type constructor. -/
def arrowName : String := "->"

/-- A constructor without arguments. -/
def const (con : String) : Ty := .app con []

/-- The type of functions from `a` to `b`. -/
def arrow (a b : Ty) : Ty := .app arrowName [a, b]

/-- The type of curried functions: `arrows a [b, c]` is `a -> b -> c`. -/
def arrows (first : Ty) : List Ty → Ty
  | [] => first
  | t :: ts => arrow first (arrows t ts)

/-- Whether `t` is the function-type constructor applied to exactly two types. -/
def isArrow : Ty → Bool
  | .app con [_, _] => con == arrowName
  | _ => false

/-- The number of arguments of an application. -/
def arity? : Ty → Option Nat
  | .app _ args => some args.length
  | _ => none

/-- The name of the kind of node at the root. -/
def kind? : Ty → Option String
  | .var _ => some "Var"
  | .app .. => some "App"
  | .alien a => a.name?

/-! ### Size -/

mutual
/-- The number of nodes. -/
def size : Ty → Nat
  | .var _ => 1
  | .app _ args => 1 + sizeAll args
  | .alien _ => 1
/-- The number of nodes in an argument list. -/
def sizeAll : List Ty → Nat
  | [] => 0
  | t :: ts => size t + sizeAll ts
end

theorem size_pos (t : Ty) : 0 < t.size := by
  cases t <;> simp only [size] <;> omega

/-! ### Variables -/

mutual
/-- The variables of a type from left to right, each as often as it occurs. -/
def occurrences : Ty → List TyVar
  | .var v => [v]
  | .app _ args => occurrencesAll args
  | .alien _ => []
/-- The variables of an argument list from left to right. -/
def occurrencesAll : List Ty → List TyVar
  | [] => []
  | t :: ts => occurrences t ++ occurrencesAll ts
end

mutual
/-- Adds the variables of a type to a set. -/
def collect (s : VarSet) : Ty → VarSet
  | .var v => s.insert v
  | .app _ args => collectAll s args
  | .alien _ => s
/-- Adds the variables of an argument list to a set. -/
def collectAll (s : VarSet) : List Ty → VarSet
  | [] => s
  | t :: ts => collectAll (collect s t) ts
end

/-- The set of the variables of a type. -/
def vars (t : Ty) : VarSet := collect ∅ t

mutual
/-- Whether `v` is a variable of the type. -/
def occurs (v : TyVar) : Ty → Bool
  | .var w => w == v
  | .app _ args => occursAny v args
  | .alien _ => false
/-- Whether `v` is a variable of one of the types. -/
def occursAny (v : TyVar) : List Ty → Bool
  | [] => false
  | t :: ts => occurs v t || occursAny v ts
end

theorem mem_occurrencesAll {v : TyVar} {ts : List Ty} :
    v ∈ occurrencesAll ts ↔ ∃ t ∈ ts, v ∈ t.occurrences := by
  induction ts with
  | nil => simp [occurrencesAll]
  | cons t ts ih => simp [occurrencesAll, ih]

theorem occursAny_eq_true {v : TyVar} {ts : List Ty} :
    occursAny v ts = true ↔ ∃ t ∈ ts, t.occurs v = true := by
  induction ts with
  | nil => simp [occursAny]
  | cons t ts ih => simp [occursAny, ih]

theorem occurs_iff_mem_occurrences {v : TyVar} {t : Ty} :
    t.occurs v = true ↔ v ∈ t.occurrences := by
  induction t with
  | var w => simp only [occurs, occurrences, List.mem_singleton, beq_iff_eq]; exact eq_comm
  | alien a => simp [occurs, occurrences]
  | app con args ih =>
    simp only [occurs, occurrences, occursAny_eq_true, mem_occurrencesAll]
    exact ⟨fun ⟨t, ht, h⟩ => ⟨t, ht, (ih t ht).mp h⟩, fun ⟨t, ht, h⟩ => ⟨t, ht, (ih t ht).mpr h⟩⟩

theorem mem_collectAll {v : TyVar} {ts : List Ty} {s : VarSet}
    (h : ∀ t ∈ ts, ∀ s, v ∈ collect s t ↔ v ∈ s ∨ v ∈ t.occurrences) :
    v ∈ collectAll s ts ↔ v ∈ s ∨ v ∈ occurrencesAll ts := by
  induction ts generalizing s with
  | nil => simp [collectAll, occurrencesAll]
  | cons t ts ih =>
    rw [collectAll, ih fun t ht => h t (List.mem_cons_of_mem _ ht), h t List.mem_cons_self,
      occurrencesAll, List.mem_append, or_assoc]

theorem mem_collect {v : TyVar} {t : Ty} (s : VarSet) :
    v ∈ collect s t ↔ v ∈ s ∨ v ∈ t.occurrences := by
  induction t generalizing s with
  | var w => simp only [collect, occurrences, VarSet.mem_insert, List.mem_singleton, or_comm]
  | alien a => simp [collect, occurrences]
  | app con args ih => exact mem_collectAll ih

theorem mem_vars {v : TyVar} {t : Ty} : v ∈ t.vars ↔ v ∈ t.occurrences := by
  simp [vars, mem_collect]

/-! ### Aliens -/

mutual
/-- The leftmost alien of a type. -/
def alien? : Ty → Option Alien
  | .var _ => none
  | .app _ args => alienAmong? args
  | .alien a => some a
/-- The leftmost alien of an argument list. -/
def alienAmong? : List Ty → Option Alien
  | [] => none
  | t :: ts => t.alien? <|> alienAmong? ts
end

/-- Built from variables and applications only. -/
def WellFormed (t : Ty) : Prop := t.alien? = none

instance (t : Ty) : Decidable t.WellFormed := inferInstanceAs (Decidable (t.alien? = none))

/-- The type itself, or its leftmost alien. -/
def checked (t : Ty) : Except Alien Ty :=
  match t.alien? with
  | none => .ok t
  | some a => .error a

end Ty

end LetPoly
