import LetPoly.Proofs.Unification

/-!
# Contexts in use

A context may be used in any way: types are unified, with or without success, fresh variables are
taken, schemes are instantiated, canonical forms and free variables are asked for, everything is
discarded and begun anew. A unification that fails leaves the aliases it has recorded, and the context
goes on being used.

`Context.Sound` holds of all contexts that come about so (`Sound.run`). Only unification records
aliases, and it does so one by one under an occurs check on canonical types (`Aliases.Grows`), so the
aliases stay acyclic whether it succeeds or fails. On acyclic aliases canonical forms have no aliased
variable, so that no variable is ever bound a second time.
-/

namespace LetPoly

namespace Context
variable {ctx : Context} {a b : Ty} {e : TypeError}

/-- What can be done with a context. -/
inductive Op where
  | unify (a b : Ty)
  | canonicalize (t : Ty)
  | freeVars (free : VarSet)
  | generalize (t : Ty) (fixed : VarSet)
  | instantiate (s : Scheme)
  | fresh
  | reset (first : TyVar)

/-- The context after an operation. -/
def perform (ctx : Context) : Op → Context
  | .unify a b => (ctx.unify a b).1
  | .canonicalize _ => ctx
  | .freeVars _ => ctx
  | .generalize .. => ctx
  | .instantiate s => (ctx.instantiate? s).2
  | .fresh => ctx.fresh.2
  | .reset first => .init first

/-- The context after several operations. -/
def run (ctx : Context) (ops : List Op) : Context := ops.foldl perform ctx

/-- A context to begin with: one that nobody has set up, or one whose fresh variables start at a given
one. -/
def begin : Option TyVar → Context
  | none => {}
  | some first => .init first

/-- The aliases are acyclic, and their targets are well-formed. -/
structure Sound (ctx : Context) : Prop where
  acyclic : ctx.aliases.Acyclic
  wellFormed : ∀ v t, ctx.aliases.lookup v = some t → t.WellFormed

namespace Sound

theorem of_empty (h : ctx.aliases = ∅) : ctx.Sound where
  acyclic := h ▸ Aliases.acyclic_empty
  wellFormed v t hv := by
    rw [h, Aliases.lookup_empty] at hv
    cases hv

theorem of_begin (first : Option TyVar) : (begin first).Sound := by
  cases first with
  | none => exact of_empty rfl
  | some first => exact of_empty rfl

theorem of_eq {ctx' : Context} (h : ctx.Sound) (ha : ctx'.aliases = ctx.aliases) : ctx'.Sound where
  acyclic := ha ▸ h.acyclic
  wellFormed := ha ▸ h.wellFormed

/-- Unification keeps the invariant, whatever its result and whatever it is given. -/
theorem unify (h : ctx.Sound) (a b : Ty) : (ctx.unify a b).1.Sound := by
  have hg : Aliases.Grows (fun _ => True) ctx.aliases (ctx.unify a b).1.aliases :=
    Aliases.unify?_grows h.acyclic (fun _ _ => trivial) fun _ _ => trivial
  exact ⟨hg.acyclic h.acyclic, hg.forall_lookup h.wellFormed fun _ _ _ _ ht => ht⟩

theorem perform (h : ctx.Sound) (op : Op) : (ctx.perform op).Sound := by
  cases op with
  | unify a b => exact h.unify a b
  | canonicalize t => exact h
  | freeVars free => exact h
  | generalize t fixed => exact h
  | instantiate s => exact h.of_eq rfl
  | fresh => exact h.of_eq rfl
  | reset first => exact of_empty rfl

theorem run (h : ctx.Sound) (ops : List Op) : (ctx.run ops).Sound := by
  induction ops generalizing ctx with
  | nil => exact h
  | cons op ops ih => exact ih (h.perform op)

/-- Apart from an alien in the way, unification fails at a clash only. -/
theorem clash_of_unify (h : ctx.Sound) (he : (ctx.unify a b).2 = some e)
    (hx : ∀ x, e ≠ .unexpected x) : e.Clash :=
  (Aliases.unify?_error (R := .ofSubst .var) h.acyclic he hx).1

theorem unify_ne_unexpected (h : ctx.Sound) (ha : a.WellFormed) (hb : b.WellFormed) (x : Alien) :
    (ctx.unify a b).2 ≠ some (.unexpected x) :=
  Aliases.unify?_ne_unexpected h.acyclic h.wellFormed ha hb x

end Sound

/-- However a context has been used, its aliases are acyclic, and no unification ever comes to bind a
variable that has an alias. On well-formed types unification then fails in no other way than by two
applications that clash or a variable that would stand for a type it occurs in. -/
theorem run_acyclic (first : Option TyVar) (ops : List Op) :
    ((begin first).run ops).aliases.Acyclic ∧
    (∀ a b v, (((begin first).run ops).unify a b).2 ≠ some (.rebound v)) ∧
    ∀ a b e, a.WellFormed → b.WellFormed →
      (((begin first).run ops).unify a b).2 = some e → e.Clash := by
  have h : ((begin first).run ops).Sound := (Sound.of_begin first).run ops
  refine ⟨h.acyclic, fun a b v he => ?_, fun a b e ha hb he => h.clash_of_unify he ?_⟩
  · exact h.clash_of_unify he nofun
  · rintro x rfl
    exact h.unify_ne_unexpected ha hb x he

/-- Unifying `Pair t1 Int` and `Pair String String` fails after it has recorded an alias for `t1`. The
aliases are acyclic all the same, and `t1` is not bound again. -/
theorem run_acyclic_after_failure :
    ((begin (some 100)).run [.unify (.app "Pair" [.var 1, .const "Int"])
      (.app "Pair" [.const "String", .const "String"])]).aliases.Acyclic ∧
    (((begin (some 100)).run [.unify (.app "Pair" [.var 1, .const "Int"])
      (.app "Pair" [.const "String", .const "String"])]).unify (.var 1) (.const "Int")).2 =
        some (.impossible (.const "String") (.const "Int")) ∧
    (TypeError.impossible (.const "String") (.const "Int")).Clash := by
  have h := run_acyclic (some 100) [.unify (.app "Pair" [.var 1, .const "Int"])
    (.app "Pair" [.const "String", .const "String"])]
  have he : (((begin (some 100)).run [.unify (.app "Pair" [.var 1, .const "Int"])
      (.app "Pair" [.const "String", .const "String"])]).unify (.var 1) (.const "Int")).2 =
        some (.impossible (.const "String") (.const "Int")) := by cbv
  exact ⟨h.1, he, h.2.2 (.var 1) (.const "Int") _ rfl rfl he⟩

end Context

end LetPoly
