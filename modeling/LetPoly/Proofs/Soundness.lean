import LetPoly.Proofs.Assignment
import LetPoly.Proofs.Inference

/-!
# Soundness of inference

Every solution of the aliases that a run leaves behind turns the type it found into a type of the
term (`Infers.typing`), under any assumptions that are at least as general as the environment on the
free names of the term. Stated for all solutions, the induction needs nothing about which aliases
come later: a solution of the final aliases is one of all the earlier ones.

The one rule with work in it is `let`. A solution fixes the variables that the environment reaches;
the quantified ones may be chosen anew when the value is typed, and are chosen to be free in none of
the assumptions.
-/

namespace LetPoly

/-- Every variable that is free in a visible scheme is among the free variables of the
environment. -/
def Env.Covers (env : Env) : Prop := ∀ x s, env.lookup x = some s → ∀ v ∈ s.free, v ∈ env.free

theorem Env.covers_ofBindings (bs : List Binding) : (Env.ofBindings bs).Covers := by
  intro x s hx v hv
  obtain ⟨b, hb, rfl⟩ := exists_binding hx
  exact mem_free_ofBindings.2 ⟨b, hb, hv⟩

theorem Env.Covers.extend {env : Env} (h : env.Covers) (x : String) (s : Scheme) :
    (env.extend x s).Covers :=
  forall_lookup_extend (fun _ hv => mem_free_extend.2 (.inr hv))
    fun y s' _ hy v hv => mem_free_extend.2 (.inl (h y s' hy v hv))

/-- On the free names of `e`, what `Γ` assumes has all instances of the environment's schemes. -/
def Assumptions.AtLeast (Γ : Assumptions) (env : Env) (θ : TyVar → Mono Int) (e : Expr) : Prop :=
  ∀ x s, e.HasFree x → env.lookup x = some s →
    ∃ p, Γ.lookup x = some p ∧ ∀ τ, (s.eval θ).Instance τ → p.Instance τ

theorem Assumptions.AtLeast.cons {Γ : Assumptions} {env : Env} {θ : TyVar → Mono Int} {b : Expr}
    {x : String} {s : Scheme} {p : Poly}
    (h : ∀ y s', y ≠ x → b.HasFree y → env.lookup y = some s' →
      ∃ p', Γ.lookup y = some p' ∧ ∀ τ, (s'.eval θ).Instance τ → p'.Instance τ)
    (hp : ∀ τ, (s.eval θ).Instance τ → p.Instance τ) :
    Assumptions.AtLeast ((x, p) :: Γ) (env.extend x s) θ b := by
  intro y s' hy hs'
  by_cases hxy : y = x
  · subst hxy
    rw [Env.lookup_extend_self] at hs'
    obtain rfl := Option.some.inj hs'
    exact ⟨p, lookup_cons_self, hp⟩
  · rw [Env.lookup_extend_of_ne hxy] at hs'
    rw [lookup_cons_of_ne hxy]
    exact h y s' hxy hy hs'

/-! ### Choosing the quantified variables anew -/

section Refresh
variable {ctx : Context} {θ θ' : TyVar → Mono Int} {t : Ty} {F : VarSet} {k : Int} {v : TyVar}

/-- `θ`, with each variable of `s` moved up to a number from `k` on. -/
def refresh (k : Int) (s : VarSet) (θ : TyVar → Mono Int) (v : TyVar) : Mono Int :=
  if v ∈ s then .var (k + 2 ^ 63 + v.toInt) else θ v

/-- The numbers that `refresh` uses. -/
def refreshed (k : Int) (s : VarSet) : Finset Int :=
  s.toList.toFinset.image fun v => k + 2 ^ 63 + v.toInt

theorem mem_refreshed {s : VarSet} (h : v ∈ s) : k + 2 ^ 63 + v.toInt ∈ refreshed k s :=
  Finset.mem_image.2 ⟨v, List.mem_toFinset.2 (VarSet.mem_def.1 h), rfl⟩

theorem le_of_mem_refreshed {s : VarSet} {i : Int} (h : i ∈ refreshed k s) : k ≤ i := by
  obtain ⟨v, -, rfl⟩ := Finset.mem_image.1 h
  have := v.le_toInt
  omega

/-- The variables that the environment reaches do not depend on the quantified ones. -/
theorem compose_congr (hv : v ∈ F) (h : ∀ w ∉ t.vars \ ctx.freeVars F, θ w = θ' w) :
    ctx.aliases.compose θ v = ctx.aliases.compose θ' v := by
  refine Ty.eval_congr fun w hw => h w ?_
  rw [VarSet.mem_sdiff]
  exact fun h => h.2 (Context.mem_freeVars.2 ⟨v, hv, hw⟩)

theorem instance_refresh {s : VarSet} {τ : Mono Int}
    (hk : ∀ v ∈ t.occurrences, ∀ i, (θ v).Occurs i → i < k)
    (h : (Scheme.eval θ ⟨s, t⟩).Instance τ) :
    Poly.Instance ((t.eval (refresh k s θ)).generalize (refreshed k s)) τ := by
  obtain ⟨m, rfl⟩ := Scheme.instance_eval.1 h
  refine Poly.instance_generalize.2 ⟨fun i => m (.ofInt (i - (k + 2 ^ 63))), ?_⟩
  rw [Ty.bind_eval]
  refine Ty.eval_congr fun v hv => ?_
  by_cases hs : v ∈ s
  · rw [refresh, if_pos hs, if_pos hs, Mono.bind, if_pos (mem_refreshed hs)]
    have hi : k + 2 ^ 63 + v.toInt - (k + 2 ^ 63) = v.toInt := by omega
    show m v = m (.ofInt (k + 2 ^ 63 + v.toInt - (k + 2 ^ 63)))
    rw [hi, Int64.ofInt_toInt]
  · rw [refresh, if_neg hs, if_neg hs]
    refine ((Mono.bind_congr fun i hi => if_neg fun hmem => ?_).trans (Mono.bind_var (θ v))).symm
    have := hk v hv i hi
    have := le_of_mem_refreshed hmem
    omega

end Refresh

theorem Ty.exists_bound_eval (θ : TyVar → Mono Int) (t : Ty) :
    ∃ k, ∀ v ∈ t.occurrences, ∀ i, (θ v).Occurs i → i < k := by
  obtain ⟨k, hk⟩ := (t.eval θ).exists_bound
  exact ⟨k, fun v hv i hi => hk i (occurs_eval.2 ⟨v, hv, hi⟩)⟩

/-! ### Runs are sound -/

variable {env : Env} {e : Expr} {ctx ctx' : Context} {t : Ty} {θ : TyVar → Mono Int}
  {Γ : Assumptions}

theorem Infers.typing (h : Infers env e ctx t ctx') (hA : ctx.aliases.Acyclic) (henv : env.Covers)
    (hθ : Aliases.Solves θ ctx'.aliases) (hΓ : Γ.AtLeast env θ e) : Typing Γ e (t.eval θ) := by
  induction h generalizing Γ θ with
  | @var env x s ctx ctx' t hx ht =>
    obtain ⟨rfl, -⟩ := Context.instantiate?_eq_ok ht
    obtain ⟨p, hp, hinst⟩ := hΓ x s rfl hx
    refine .var hp (hinst _ (Scheme.instance_eval.2 ⟨fun v => (ctx.rename s v).eval θ, ?_⟩))
    rw [Ty.eval_subst]
    refine Ty.eval_congr fun v _ => ?_
    split
    · rfl
    · rename_i hs
      rw [Context.rename, if_neg hs, Ty.eval]
  | @call env f a ctx ctx₁ ctx₂ ctx' tf ta hf ha hu ihf iha =>
    obtain ⟨hnone, rfl⟩ := Context.unify_eq_none.1 hu
    obtain ⟨hθ₂, heq⟩ := (Aliases.unify?_solvedBy hnone).1 hθ
    have hA₁ := hf.acyclic hA
    have hθ₁ : Aliases.Solves θ ctx₁.aliases := (ha.grows hA₁).solvedBy hθ₂
    have htf : tf.eval θ = .arrow (ta.eval θ) (θ ctx₂.supply.next) :=
      heq.trans (Ty.eval_arrow θ ta (.var ctx₂.supply.next))
    have hcallee := ihf hA henv hθ₁ fun x s hx => hΓ x s (.inl hx)
    rw [htf] at hcallee
    exact .call hcallee (iha hA₁ henv hθ₂ fun x s hx => hΓ x s (.inr hx))
  | @func env x b ctx ctx' t hb ih =>
    rw [Ty.eval_arrow]
    refine .func (ih hA (henv.extend _ _) hθ (.cons (fun y s' hxy hy => hΓ y s' ⟨hxy, hy⟩) ?_))
    intro τ hτ
    rw [Scheme.eval_mono] at hτ
    exact hτ
  | @letIn env x v b ctx ctx₁ ctx' tv t s hv hs hb ihv ihb =>
    have hA₁ := hv.acyclic hA
    have hθ₁ : Aliases.Solves θ ctx₁.aliases := (hb.grows hA₁).solvedBy hθ
    obtain ⟨-, rfl⟩ := Context.generalize?_eq_ok.1 hs
    set u := ctx₁.aliases.canonicalize tv with hu
    -- a number from which on neither the assumptions nor the values of `θ` go
    obtain ⟨k, hk⟩ := Γ.exists_bound
    obtain ⟨l, hl⟩ := Ty.exists_bound_eval θ u
    set θ' := refresh (max k l) (u.vars \ ctx₁.freeVars env.free) θ
    have hvalue : Typing Γ v (u.eval θ') := by
      rw [hu, ← Aliases.eval_compose]
      refine ihv hA henv (hA₁.solves_compose θ') fun y s' hy hs' => ?_
      obtain ⟨p, hp, hinst⟩ := hΓ y s' (.inl hy) hs'
      refine ⟨p, hp, fun τ hτ => hinst τ ?_⟩
      have hsame : ∀ w ∉ u.vars \ ctx₁.freeVars env.free, θ' w = θ w := fun w hw => if_neg hw
      have hold : ∀ w ∈ s'.free, ctx₁.aliases.compose θ' w = θ w := fun w hw =>
        (compose_congr (henv y s' hs' w hw) hsame).trans (hθ₁.eval_value w)
      rw [Scheme.eval_congr hold] at hτ
      exact hτ
    refine .letIn (refreshed (max k l) (u.vars \ ctx₁.freeVars env.free)) hvalue ?_
      (ihb hA₁ (henv.extend _ _) hθ (.cons (fun y s' hxy hy => hΓ y s' (.inr ⟨hxy, hy⟩)) ?_))
    · intro i hi hfree
      have := hk i hfree
      have := le_of_mem_refreshed hi
      omega
    · refine fun τ hτ => instance_refresh (fun w hw i hi => ?_) hτ
      have := hl w hw i hi
      omega

/-! ### Soundness -/

theorem infer_eq_ok {S : Scheme} (h : infer env e = .ok S) :
    ∃ t ctx, Infers env e (.init env.next) t ctx ∧ ctx.generalize? t env.free = .ok S := by
  unfold infer at h
  split at h
  · cases h
  · obtain ⟨⟨t, ctx⟩, hrun, h⟩ := except_bind_ok h
    refine ⟨t, ctx, infers_of_eq hrun, ?_⟩
    dsimp only at h
    split at h
    · cases h
    · rename_i s hs
      cases h
      exact hs

theorem infer_of_infers {S : Scheme} (h : Infers env e (.init env.next) t ctx)
    (hS : ctx.generalize? t env.free = .ok S) : infer env e = .ok S := by
  unfold infer
  split
  · cases h
  · rw [h.inferType_eq]
    simp only [bind, Except.bind, hS]
    rfl

/-- Every instance of the generalized type is a type of the term, if the assumptions are the
environment with each variable replaced by what it stands for at the end of the run. -/
theorem Infers.typing_of_instance (h : Infers env e ctx t ctx') (τ : Mono Int)
    (hA : ctx.aliases.Acyclic) (henv : env.Covers)
    (hτ : Scheme.Instance
      (.generalize (ctx'.aliases.canonicalize t) (ctx'.freeVars env.free)) τ) :
    Typing (env.eval (ctx'.aliases.compose assigned)) e τ := by
  set u := ctx'.aliases.canonicalize t with hu
  obtain ⟨m, rfl⟩ := Scheme.instance_eval.1 hτ
  set θ : TyVar → Mono Int := fun v => if v ∈ u.vars \ ctx'.freeVars env.free then m v else assigned v
  have hθ : ∀ v ∉ u.vars \ ctx'.freeVars env.free, θ v = assigned v := fun v hv => if_neg hv
  show Typing _ e (u.eval θ)
  rw [hu, ← Aliases.eval_compose]
  refine h.typing hA henv ((h.acyclic hA).solves_compose θ) fun x s _ hx => ?_
  refine ⟨s.eval (ctx'.aliases.compose assigned), by rw [Env.lookup_eval, hx]; rfl, fun τ hτ => ?_⟩
  rw [Scheme.eval_congr fun v hv => compose_congr (henv x s hx v hv) hθ] at hτ
  exact hτ

theorem Env.eval_of_closed (h : ∀ b ∈ env.recent, b.scheme.free = ∅) (θ : TyVar → Mono Int) :
    env.eval θ = env.assumptions := by
  refine List.map_congr_left fun b hb => ?_
  rw [Scheme.eval_of_closed (h b hb) θ assigned]

theorem Scheme.free_generalize_of_closed {bound : VarSet} (t : Ty) (h : ∀ v, v ∉ bound) :
    (Scheme.generalize t bound).free = ∅ := by
  rw [generalize_eq fun v _ => h v, free_generalize_empty]

/-- A found scheme has only types of the term as instances. Let `σ` take every variable to what it
stands for at the end of the run: each instance of the scheme is a type of the term under the
environment with `σ` applied to its free variables. If no scheme of the environment has free
variables, it is a type of the term under the environment itself, and the scheme has none either. -/
theorem infer_sound (bs : List Binding) (e : Expr) (S : Scheme)
    (h : infer (.ofBindings bs) e = .ok S) :
    ∃ t ctx, inferType (.ofBindings bs) e (.init (Env.ofBindings bs).next) = .ok (t, ctx) ∧
      (∀ τ, S.Instance τ →
        Typing ((Env.ofBindings bs).eval fun v => (ctx.aliases.canonicalize (.var v)).embed) e τ) ∧
      ((∀ b ∈ bs, b.scheme.free = ∅) →
        (∀ τ, S.Instance τ → Typing (Env.ofBindings bs).assumptions e τ) ∧ S.free = ∅) := by
  obtain ⟨t, ctx, hrun, hS⟩ := infer_eq_ok h
  obtain ⟨-, rfl⟩ := Context.generalize?_eq_ok.1 hS
  have htyping := fun τ =>
    hrun.typing_of_instance τ Aliases.acyclic_empty (Env.covers_ofBindings bs)
  refine ⟨t, ctx, hrun.inferType_eq, htyping, fun hclosed => ?_⟩
  have hfree : ∀ b ∈ (Env.ofBindings bs).recent, b.scheme.free = ∅ :=
    fun b hb => hclosed b (Env.mem_of_mem_recent hb)
  refine ⟨fun τ hτ => ?_, Scheme.free_generalize_of_closed _ fun v hv => ?_⟩
  · rw [← Env.eval_of_closed hfree (ctx.aliases.compose assigned)]
    exact htyping τ hτ
  · obtain ⟨w, hw, -⟩ := Context.mem_freeVars.1 hv
    obtain ⟨b, hb, hw⟩ := Env.mem_free_ofBindings.1 hw
    rw [hfree b hb] at hw
    exact VarSet.not_mem_empty w hw

/-- In `k one`, the free variable of `k` comes to stand for the type of a function on `Int`. The
result is a type of the term for a `k` of that type. -/
theorem infer_sound_of_free :
    infer (.ofBindings [⟨"k", .mono (.var 0)⟩, ⟨"one", .mono (.app "Int" [])⟩])
      (.call (.var "k") (.var "one")) = .ok (.mono (.var 1)) ∧
    Typing [("one", .app "Int" []), ("k", Mono.toPoly (.arrow (.app "Int" []) (.var 1)))]
      (.call (.var "k") (.var "one")) (.var 1) := by
  set env := Env.ofBindings [⟨"k", .mono (.var 0)⟩, ⟨"one", .mono (.app "Int" [])⟩]
  have hk : Infers env (.var "k") (.init 1) (.var 0) (.init 1) := .var rfl rfl
  have hone : Infers env (.var "one") (.init 1) (.app "Int" []) (.init 1) := .var rfl rfl
  have hunify : (Context.init 1).fresh.2.unify (.var 0) (.arrow (.app "Int" []) (.var 1)) =
      (⟨(∅ : Aliases).record 0 (.arrow (.app "Int" []) (.var 1)), ⟨2, 1⟩⟩, none) := by
    show Context.unify ⟨∅, ⟨2, 1⟩⟩ _ _ = _
    cbv
  have hrun := Infers.call hk hone hunify
  have h : infer env (.call (.var "k") (.var "one")) = .ok (.mono (.var 1)) :=
    infer_of_infers hrun rfl
  obtain ⟨t, ctx, hrun', htyping, -⟩ := infer_sound _ _ _ h
  obtain ⟨rfl, rfl⟩ := Prod.mk.inj (Except.ok.inj (hrun.inferType_eq.symm.trans hrun'))
  exact ⟨h, htyping (.var 1) ⟨.var, rfl⟩⟩

end LetPoly
