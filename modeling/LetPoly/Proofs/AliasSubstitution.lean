import LetPoly.Proofs.Unification

/-!
# The substitution of the aliases

Acyclic aliases stand for one substitution, and canonical forms are what it makes of types
(`Acyclic.canonicalize_substitution`). It is idempotent, whatever the chains of aliases look like, and one
more alias composes it with the replacement of a variable; the target of the alias need not be canonical.

Unification composes it with such replacements only, each within the variables of the two canonical forms
that it was given. So these variables bound what a run can change, also one that fails half-way
(`Context.unify_frame`).
-/

namespace LetPoly

namespace Aliases
variable {A A' : Aliases} {X : TyVar → Prop} {σ : TyVar → Ty} {a b t u : Ty} {v : TyVar}

/-- `σ` leaves the variables without an alias alone, and takes the others to what it makes of their
targets. -/
structure ReplacedBy (A : Aliases) (σ : TyVar → Ty) : Prop where
  unaliased : ∀ v, A.lookup v = none → σ v = .var v
  aliased : ∀ v t, A.lookup v = some t → σ v = t.subst σ

theorem Acyclic.replacedBy_iff (hA : A.Acyclic) : A.ReplacedBy σ ↔ σ = A.value := by
  constructor
  · intro h
    exact hA.value_unique h.unaliased h.aliased
  · rintro rfl
    exact ⟨fun v => value_of_none, fun v t => hA.value_of_some⟩

theorem Acyclic.subst_value (hA : A.Acyclic) (v : TyVar) : (A.value v).subst A.value = A.value v :=
  hA.canonicalize_idem (.var v)

/-- Canonical forms are what the idempotent substitution of the aliases makes of types: no aliased
variable is left in them, they are their own canonical forms, and an aliased variable has that of its
target. Recording one more alias composes the substitution with the replacement of one variable. On
well-formed types there is no alien to stop at. -/
theorem Acyclic.canonicalize_substitution (hA : A.Acyclic) :
    (∃ σ, (∀ τ, A.ReplacedBy τ ↔ τ = σ) ∧ (∀ v, (σ v).subst σ = σ v) ∧
      ∀ t, A.canonicalize t = t.subst σ) ∧
    (∀ t, ∀ v ∈ (A.canonicalize t).occurrences, A.lookup v = none) ∧
    (∀ t, A.canonicalize (A.canonicalize t) = A.canonicalize t) ∧
    (∀ v u, A.lookup v = some u → A.canonicalize (.var v) = A.canonicalize u) ∧
    (∀ con args, A.canonicalize (.app con args) = .app con (args.map A.canonicalize)) ∧
    (∀ v u, A.lookup v = none → v ∉ (A.canonicalize u).occurrences →
      (A.record v u).Acyclic ∧
      ∀ t, (A.record v u).canonicalize t = (A.canonicalize t).replace v (A.canonicalize u)) ∧
    ((∀ v u, A.lookup v = some u → u.WellFormed) →
      ∀ t : Ty, t.WellFormed → A.canonicalize? t = .ok (A.canonicalize t)) := by
  refine ⟨⟨A.value, fun τ => hA.replacedBy_iff, hA.subst_value, A.canonicalize_eq_subst⟩,
    hA.canonical_canonicalize, hA.canonicalize_idem, ?_, A.canonicalize_app, ?_, ?_⟩
  · intro v u hv
    exact hA.value_of_some hv
  · intro v u hv hu
    exact ⟨hA.record hv hu, hA.canonicalize_record hv hu⟩
  · intro hwf t ht
    exact Ty.checked_eq_ok.2 ⟨wellFormed_canonicalize hA hwf ht, rfl⟩

/-- With `t0` aliased to `t1 -> t2` and `t1` to `t2`, recording `List t0` for `t3` puts
`List (t2 -> t2)` in its place. -/
theorem Acyclic.canonicalize_substitution_chained :
    (((∅ : Aliases).record 0 (.arrow (.var 1) (.var 2))).record 1 (.var 2)).Acyclic ∧
    ∀ t, ((((∅ : Aliases).record 0 (.arrow (.var 1) (.var 2))).record 1 (.var 2)).record 3
        (.app "List" [.var 0])).canonicalize t =
      ((((∅ : Aliases).record 0 (.arrow (.var 1) (.var 2))).record 1 (.var 2)).canonicalize t).replace 3
        (.app "List" [.arrow (.var 2) (.var 2)]) := by
  have hA₀ : ((∅ : Aliases).record 0 (.arrow (.var 1) (.var 2))).Acyclic :=
    acyclic_empty.record (lookup_empty 0) (by decide)
  have hA : (((∅ : Aliases).record 0 (.arrow (.var 1) (.var 2))).record 1 (.var 2)).Acyclic :=
    hA₀.record (by decide) (by decide)
  exact ⟨hA, (hA.canonicalize_substitution.2.2.2.2.2.1 3 (.app "List" [.var 0]) (by decide)
    (by decide)).2⟩

/-! ### What unification leaves alone -/

namespace Grows

theorem lookup_new (h : Grows X A A') (hv : A'.lookup v = some t) (hne : A.lookup v ≠ some t) :
    A.lookup v = none ∧ X v ∧ ∀ w ∈ t.occurrences, X w := by
  constructor
  · cases hold : A.lookup v with
    | none => rfl
    | some u =>
      rw [h.lookup_of_some hold] at hv
      exact absurd (hold.trans hv) hne
  · have hall : ∀ v t, A'.lookup v = some t →
        A.lookup v = some t ∨ (X v ∧ ∀ w ∈ t.occurrences, X w) :=
      h.forall_lookup (fun v t => .inl) fun v t hv ht _ => .inr ⟨hv, ht⟩
    exact (hall v t hv).resolve_left hne

theorem canonicalize_of_not (h : Grows X A A') (hA : A.Acyclic)
    (ht : ∀ w ∈ (A.canonicalize t).occurrences, ¬ X w) : A'.canonicalize t = A.canonicalize t := by
  have hcan : A'.Canonical (A.canonicalize t) := by
    intro w hw
    rw [h.lookup_of_not (ht w hw)]
    exact hA.canonical_canonicalize t w hw
  rw [← h.canonicalize_canonicalize hA, hcan.canonicalize_eq]

end Grows

/-- `v` is a variable of what `a` or `b` stands for. -/
def Concerns (A : Aliases) (a b : Ty) (v : TyVar) : Prop :=
  v ∈ (A.canonicalize a).occurrences ∨ v ∈ (A.canonicalize b).occurrences

end Aliases

/-- Whether it succeeds or fails, unification hands out no variables and only adds aliases, for variables
of the two canonical forms and with targets over these. So a type whose canonical form shares no variable
with them keeps it. -/
theorem Context.unify_frame (ctx : Context) (a b : Ty) (hA : ctx.aliases.Acyclic) :
    (ctx.unify a b).1.supply = ctx.supply ∧
    (∀ v t, ctx.aliases.lookup v = some t → (ctx.unify a b).1.aliases.lookup v = some t) ∧
    (∀ v t, (ctx.unify a b).1.aliases.lookup v = some t → ctx.aliases.lookup v ≠ some t →
      ctx.aliases.lookup v = none ∧ ctx.aliases.Concerns a b v ∧
        ∀ w ∈ t.occurrences, ctx.aliases.Concerns a b w) ∧
    (∀ t, (∀ w ∈ (ctx.aliases.canonicalize t).occurrences, ¬ ctx.aliases.Concerns a b w) →
      (ctx.unify a b).1.aliases.canonicalize t = ctx.aliases.canonicalize t) := by
  have hgrows : Aliases.Grows (ctx.aliases.Concerns a b) ctx.aliases (ctx.unify a b).1.aliases :=
    Aliases.unify?_grows hA (fun x => .inl) fun x => .inr
  refine ⟨rfl, fun v t => hgrows.lookup_of_some, fun v t => hgrows.lookup_new, fun t ht => ?_⟩
  exact hgrows.canonicalize_of_not hA ht

/-- `Pair t1 Int` and `Pair String String` do not fit, but `t1` has become `String` by then. What `t0`
stands for has no part in this and stays. -/
theorem Context.unify_frame_failed :
    ((∅ : Aliases).record 0 (.app "List" [.var 2])).Acyclic ∧
    unify ⟨(∅ : Aliases).record 0 (.app "List" [.var 2]), {}⟩ (.app "Pair" [.var 1, .const "Int"])
      (.app "Pair" [.const "String", .const "String"]) =
      (⟨((∅ : Aliases).record 0 (.app "List" [.var 2])).record 1 (.const "String"), {}⟩,
        some (.impossible (.const "Int") (.const "String"))) ∧
    ((∅ : Aliases).record 0 (.app "List" [.var 2])).Concerns (.app "Pair" [.var 1, .const "Int"])
      (.app "Pair" [.const "String", .const "String"]) 1 ∧
    (((∅ : Aliases).record 0 (.app "List" [.var 2])).record 1 (.const "String")).canonicalize (.var 0) =
      ((∅ : Aliases).record 0 (.app "List" [.var 2])).canonicalize (.var 0) := by
  have hA : ((∅ : Aliases).record 0 (.app "List" [.var 2])).Acyclic :=
    Aliases.acyclic_empty.record (Aliases.lookup_empty 0) (by decide)
  have hrun : unify ⟨(∅ : Aliases).record 0 (.app "List" [.var 2]), {}⟩
      (.app "Pair" [.var 1, .const "Int"]) (.app "Pair" [.const "String", .const "String"]) =
      (⟨((∅ : Aliases).record 0 (.app "List" [.var 2])).record 1 (.const "String"), {}⟩,
        some (.impossible (.const "Int") (.const "String"))) := by cbv
  obtain ⟨-, -, hnew, hkeep⟩ := unify_frame ⟨(∅ : Aliases).record 0 (.app "List" [.var 2]), {}⟩
    (.app "Pair" [.var 1, .const "Int"]) (.app "Pair" [.const "String", .const "String"]) hA
  rw [hrun] at hnew hkeep
  refine ⟨hA, hrun, (hnew 1 _ (Aliases.lookup_record_self ..) (by decide)).2.1, hkeep (.var 0) ?_⟩
  intro w hw
  obtain rfl : w = 2 := List.mem_singleton.1 hw
  show ¬ (_ ∨ _)
  decide

end LetPoly
