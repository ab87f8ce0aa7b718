import LetPoly.Proofs.Independence

/-!
# More general bindings

A scheme lies within another one if all of its instances are instances of the other. Putting a scheme
into an environment in place of one within it breaks no term that mentions it, and what is inferred for
such a term becomes more general, never less (`infer_monotone_iff`).

There is no step of one run that matches a step of the other: the more general scheme takes more fresh
variables and makes fewer of them equal. So the proof goes through the types of the term. Each type that
it has under the first schemes it has under the second ones, and inference finds them all, given that
no free variable of the environment is handed out as fresh.
-/

namespace LetPoly

variable {env env' : Env} {bs : List Binding} {e : Expr} {s s' : Scheme} {t : Ty} {τ : Mono Int}
  {f : TyVar → Ty} {w : TyVar}

/-! ### Instances -/

namespace Scheme

/-- `t` is the body of the scheme with types put in place of exactly the quantified variables. -/
def HasInstance (s : Scheme) (t : Ty) : Prop :=
  ∃ m : Subst, m.map Prod.fst = s.vars.toList ∧ t = s.body.substitute m

/-- Every instance of `s` is an instance of `s'`. -/
def Within (s s' : Scheme) : Prop := ∀ t, s.HasInstance t → s'.HasInstance t

theorem hasInstance_subst (hs : ∀ v ∈ s.free, f v = .var v) : s.HasInstance (s.body.subst f) := by
  refine ⟨s.vars.toList.map fun v => (v, f v), by simp [Function.comp_def], ?_⟩
  rw [Ty.substitute_eq_subst]
  refine Ty.subst_congr fun v hv => ?_
  rw [Subst.apply_map]
  split
  · rfl
  · rename_i hq
    exact hs v (mem_free.2 ⟨hv, hq⟩)

theorem hasInstance_body (s : Scheme) : s.HasInstance s.body := by
  have h := hasInstance_subst (s := s) (f := .var) fun _ _ => rfl
  rwa [Ty.subst_var] at h

/-- Instances in terms of functions on variables. -/
theorem hasInstance_iff :
    s.HasInstance t ↔ ∃ f : TyVar → Ty, (∀ v, v ∉ s.vars → f v = .var v) ∧ t = s.body.subst f := by
  constructor
  · rintro ⟨m, hm, rfl⟩
    refine ⟨m.apply, fun v hv => ?_, Ty.substitute_eq_subst _ m⟩
    have hnone : m.lookup v = none := by
      rw [List.lookup_eq_none_iff]
      intro p hp
      refine bne_iff_ne.2 ?_
      rintro rfl
      exact hv (VarSet.mem_def.2 (hm ▸ List.mem_map_of_mem hp))
    simp [Subst.apply, hnone]
  · rintro ⟨f, hf, rfl⟩
    exact hasInstance_subst fun v hv => hf v (mem_free.1 hv).2

theorem HasInstance.mem_occurrences (h : s.HasInstance t) (hw : w ∈ s.free) : w ∈ t.occurrences := by
  obtain ⟨f, hf, rfl⟩ := hasInstance_iff.1 h
  obtain ⟨hbody, hq⟩ := mem_free.1 hw
  refine Ty.mem_occurrences_subst.2 ⟨w, hbody, ?_⟩
  rw [hf w hq]
  exact Ty.mem_occurrences_var.2 rfl

theorem within_of_hasInstance_body (hs' : s'.free = ∅) (h : s'.HasInstance s.body) : s.Within s' := by
  rintro t ⟨m, -, rfl⟩
  obtain ⟨m', -, hbody⟩ := h
  -- one substitution after the other; as `s'` has no free variables, only the quantified ones count
  rw [hbody, Ty.substitute_eq_subst, Ty.substitute_eq_subst, Ty.subst_subst]
  refine hasInstance_subst fun v hv => ?_
  rw [hs'] at hv
  exact absurd hv (VarSet.not_mem_empty v)

theorem Within.instance (h : s.Within s') (hs' : s'.free = ∅) (hτ : s.Instance τ) : s'.Instance τ := by
  obtain ⟨m, -, hbody⟩ := h s.body s.hasInstance_body
  obtain ⟨g, rfl⟩ := instance_eval.1 hτ
  set θ : TyVar → Mono Int := fun v => if v ∈ s.vars then g v else assigned v
  rw [hbody, Ty.substitute_eq_subst, Ty.eval_subst]
  refine instance_eval.2 ⟨fun v => (m.apply v).eval θ, Ty.eval_congr fun v hv => ?_⟩
  rw [if_pos (mem_vars_of_closed hs' hv)]

theorem within_of_instances (hwf : s.body.WellFormed) (hwf' : s'.body.WellFormed) (hs' : s'.free = ∅)
    (h : ∀ τ, s.Instance τ → s'.Instance τ) : s.Within s' :=
  within_of_hasInstance_body hs' (instance_embed hwf' hwf (h _ s.instance_body))

/-- There is always an instance in which no variables are left but the free ones. -/
theorem exists_instance_free (s : Scheme) :
    ∃ t, s.HasInstance t ∧ (s.body.WellFormed → t.WellFormed) ∧ ∀ v ∈ t.occurrences, v ∈ s.free := by
  refine ⟨_, hasInstance_iff.2 ⟨fun v => if v ∈ s.vars then .app "" [] else .var v,
    fun v hv => if_neg hv, rfl⟩, fun hs => ?_, fun w hw => ?_⟩
  · refine Ty.wellFormed_subst_iff.2 ⟨hs, fun v _ => ?_⟩
    split <;> rfl
  · obtain ⟨v, hv, hw⟩ := Ty.mem_occurrences_subst.1 hw
    split at hw
    · simp [Ty.mem_occurrences_app] at hw
    · rename_i hq
      rw [Ty.mem_occurrences_var.1 hw]
      exact mem_free.2 ⟨hv, hq⟩

theorem exists_ground_instance (hs : s.free = ∅) : ∃ t, s.HasInstance t ∧ t.occurrences = [] := by
  obtain ⟨t, ht, -, hfree⟩ := s.exists_instance_free
  refine ⟨t, ht, List.eq_nil_iff_forall_not_mem.2 fun v hv => ?_⟩
  have hmem := hfree v hv
  rw [hs] at hmem
  exact VarSet.not_mem_empty v hmem

end Scheme

/-! ### Environments -/

/-- Each free name of `e` that `env` binds is bound in `env'`, too, both times to a well-formed scheme
without free variables, and the first scheme lies within the second. -/
def Env.WithinFor (env env' : Env) (e : Expr) : Prop :=
  ∀ x s, e.HasFree x → env.lookup x = some s → (s.body.WellFormed ∧ s.free = ∅) ∧
    ∃ s', env'.lookup x = some s' ∧ (s'.body.WellFormed ∧ s'.free = ∅) ∧ s.Within s'

theorem Env.WithinFor.closedFor_left (h : env.WithinFor env' e) : env.ClosedFor e :=
  fun x s hx hs => (h x s hx hs).1

theorem Env.WithinFor.atMost (h : env.WithinFor env' e) : env.assumptions.AtMost env' assigned e := by
  intro x p hx hp
  rw [Env.assumptions, Env.lookup_eval] at hp
  obtain ⟨s, hs, rfl⟩ := Option.map_eq_some_iff.1 hp
  obtain ⟨-, s', hs', ⟨-, hclosed⟩, hwithin⟩ := h x s hx hs
  refine ⟨s', hs', fun τ hτ => hwithin.instance hclosed hτ, fun i hi => ?_⟩
  obtain ⟨v, hv, -⟩ := Scheme.free_eval.1 hi
  rw [hclosed] at hv
  exact absurd hv (VarSet.not_mem_empty v)

theorem Env.WithinFor.closedFor_right (h : env.WithinFor env' e) (hτ : Typing env.assumptions e τ) :
    env'.ClosedFor e := by
  intro x s₁ hx hs₁
  -- the first environment has a binding for every free name, or the term had no type
  obtain ⟨p, hp⟩ := hτ.exists_lookup hx
  rw [Env.assumptions, Env.lookup_eval] at hp
  obtain ⟨s, hs, -⟩ := Option.map_eq_some_iff.1 hp
  obtain ⟨-, s', hs', hgood, -⟩ := h x s hx hs
  obtain rfl := Option.some.inj (hs₁.symm.trans hs')
  exact hgood

/-- Whatever is inferred from schemes within those of the environment is inferred from it as well, up to
generality. -/
def Env.Monotone (env : Env) : Prop :=
  ∀ bs e S, (ofBindings bs).WithinFor env e → env.HasRoom e → infer (ofBindings bs) e = .ok S →
    ∃ S', infer env e = .ok S' ∧ S.Within S'

theorem Env.Clear.monotone (hclear : (ofBindings bs).Clear) : (ofBindings bs).Monotone := by
  intro bs₁ e S h hroom hS
  have htyping : ∀ τ, S.Instance τ → Typing (ofBindings bs₁).assumptions e τ := fun τ hτ =>
    typing_of_infer (covers_ofBindings bs₁) h.closedFor_left agrees_assumptions hS hτ
  have hclosed := h.closedFor_right (htyping _ S.instance_body)
  have hr := hclear.ready hclosed hroom
  obtain ⟨u, hu, hwf, -⟩ := (htyping _ S.instance_body).infer_of_atMost h.atMost hr hclosed
  refine ⟨_, hu, ?_⟩
  have hwfS : S.body.WellFormed := by
    obtain ⟨t, ctx, -, hgen⟩ := infer_eq_ok hS
    obtain ⟨hwf, rfl⟩ := Context.generalize?_eq_ok.1 hgen
    exact hwf
  refine Scheme.within_of_instances hwfS hwf (Scheme.free_generalize_empty u) fun τ hτ => ?_
  obtain ⟨u', hu', -, hinst⟩ := (htyping τ hτ).infer_of_atMost h.atMost hr hclosed
  rw [Except.ok.inj (hu.symm.trans hu')]
  exact hinst

theorem Env.clear_of_monotone (h : env.Monotone) : env.Clear := by
  by_contra hclear
  obtain ⟨e, S, S', hnone, hroom, -, hS, hfree, hS', hfree'⟩ := exists_free_of_not_clear hclear
  obtain ⟨S₁, hS₁, hwithin⟩ := h lowest e S' (fun x s hx => absurd hx (hnone x)) hroom hS'
  obtain rfl := Except.ok.inj (hS.symm.trans hS₁)
  obtain ⟨t, ht, hground⟩ := Scheme.exists_ground_instance hfree'
  refine hfree (VarSet.ext fun w => iff_of_false (fun hw => ?_) (VarSet.not_mem_empty w))
  have hmem := (hwithin t ht).mem_occurrences hw
  rw [hground] at hmem
  exact List.not_mem_nil hmem

/-- Making the schemes of an environment more general neither breaks a term that mentions them nor makes
what is inferred for it more special, exactly if every free variable of the new environment is below the
variables that are handed out, or the greatest number of all. -/
theorem infer_monotone_iff (bs : List Binding) :
    (Env.ofBindings bs).Monotone ↔ (Env.ofBindings bs).Clear :=
  ⟨Env.clear_of_monotone, Env.Clear.monotone⟩

/-- Two bindings, the second one of `k` to an integer. -/
def Env.pinned : List Binding := [⟨"y", .mono (.var Int64.minValue)⟩, ⟨"k", .mono (.app "Int" [])⟩]

/-- The same names, and `k` bound to the most general scheme there is. -/
def Env.loosened : List Binding :=
  [⟨"y", .mono (.var Int64.minValue)⟩, ⟨"k", .generalize (.var Int64.maxValue) ∅⟩]

theorem Env.withinFor_loosened :
    (ofBindings pinned).WithinFor (ofBindings loosened) (.func "x" (.var "k")) := by
  rintro y s ⟨-, rfl⟩ hs
  obtain rfl : Scheme.mono (.app "Int" []) = s := Option.some.inj hs
  refine ⟨⟨rfl, by decide⟩, _, rfl, ⟨rfl, by decide⟩, fun t _ => ?_⟩
  refine ⟨[(Int64.maxValue, t)], rfl, ?_⟩
  simp [Ty.substitute_eq_subst, Ty.subst, Subst.apply, Scheme.generalize]

/-- The more general binding of `k` makes the count start over at the least number, which is free in the
binding of `y`. So the parameter of `λx. k` gets this number for its type, and it is not generalized. -/
theorem infer_specializes_of_wrapped_next :
    infer (.ofBindings Env.pinned) (.func "x" (.var "k")) =
      .ok (.generalize (.arrow (.var 0) (.app "Int" [])) ∅) ∧
    infer (.ofBindings Env.loosened) (.func "x" (.var "k")) =
      .ok (.generalize (.arrow (.var Int64.minValue) (.var (Int64.minValue + 1)))
        (.ofList [Int64.minValue])) ∧
    (Env.ofBindings Env.pinned).HasRoom (.func "x" (.var "k")) ∧
    (Env.ofBindings Env.loosened).HasRoom (.func "x" (.var "k")) ∧
    ¬ (Env.ofBindings Env.loosened).Monotone := by
  have hok : infer (.ofBindings Env.pinned) (.func "x" (.var "k")) =
      .ok (.generalize (.arrow (.var 0) (.app "Int" [])) ∅) := rfl
  have hok' : infer (.ofBindings Env.loosened) (.func "x" (.var "k")) =
      .ok (.generalize (.arrow (.var Int64.minValue) (.var (Int64.minValue + 1)))
        (.ofList [Int64.minValue])) := rfl
  have hroom : (Env.ofBindings Env.loosened).HasRoom (.func "x" (.var "k")) := by decide
  refine ⟨hok, hok', by decide, hroom, fun h => ?_⟩
  obtain ⟨S', hS', hwithin⟩ := h _ _ _ Env.withinFor_loosened hroom hok
  obtain rfl := Except.ok.inj (hok'.symm.trans hS')
  -- the free variable is in every instance of the second scheme
  obtain ⟨t, ht, hground⟩ := Scheme.exists_ground_instance
    (show (Scheme.generalize (.arrow (.var 0) (.app "Int" [])) ∅).free = ∅ by decide)
  have hmem := (hwithin t ht).mem_occurrences (w := Int64.minValue) (by decide)
  rw [hground] at hmem
  exact List.not_mem_nil hmem

end LetPoly
