import LetPoly.Proofs.Independence

/-!
# Inlining the value of a `let`

A `let` has the types that its body has with the value put in place of the name, provided that the
value has a type at all: the polytype of the name gives each occurrence the types of the value, no
less and no more (`typing_inline_iff`). Since inference finds the most general scheme on both sides,
it finds equivalent ones (`infer_letIn_agrees_inline`).
-/

namespace LetPoly

variable {env : Env} {e v b : Expr} {x y : String} {Γ Γ' Γ₁ Γ₂ : Assumptions} {p q : Poly}
  {τ : Mono Int} {t u : Ty} {S : Scheme} {i : Int}

namespace Expr

/-- The term with `r` in place of the free occurrences of `x`. -/
def inline (e : Expr) (x : String) (r : Expr) : Expr :=
  match e with
  | .var y => if y = x then r else .var y
  | .call f a => .call (f.inline x r) (a.inline x r)
  | .func y b => .func y (if y = x then b else b.inline x r)
  | .letIn y v b => .letIn y (v.inline x r) (if y = x then b else b.inline x r)
  | .alien a => .alien a

/-- A binder of the term binds `y`. -/
def Binds (y : String) : Expr → Prop
  | .var _ => False
  | .call f a => f.Binds y ∨ a.Binds y
  | .func x b => y = x ∨ b.Binds y
  | .letIn x v b => y = x ∨ v.Binds y ∨ b.Binds y
  | .alien _ => False

theorem HasFree.of_inline (h : (b.inline x v).HasFree y) : v.HasFree y ∨ (y ≠ x ∧ b.HasFree y) := by
  induction b with
  | alien a => exact h.elim
  | var z =>
    rw [inline] at h
    split at h
    · exact .inl h
    · rename_i hz
      obtain rfl : y = z := h
      exact .inr ⟨hz, rfl⟩
  | call f a ihf iha =>
    rcases h with h | h
    · exact (ihf h).imp_right fun h => ⟨h.1, .inl h.2⟩
    · exact (iha h).imp_right fun h => ⟨h.1, .inr h.2⟩
  | func z c ih =>
    obtain ⟨hyz, h⟩ := h
    split at h
    · rename_i hz
      exact .inr ⟨hz ▸ hyz, hyz, h⟩
    · exact (ih h).imp_right fun h => ⟨h.1, hyz, h.2⟩
  | letIn z w c ihw ihc =>
    rcases h with h | ⟨hyz, h⟩
    · exact (ihw h).imp_right fun h => ⟨h.1, .inl h.2⟩
    · split at h
      · rename_i hz
        exact .inr ⟨hz ▸ hyz, .inr ⟨hyz, h⟩⟩
      · exact (ihc h).imp_right fun h => ⟨h.1, .inr ⟨hyz, h.2⟩⟩

end Expr

/-! ### Typing rules read backwards -/

theorem typing_var_iff : Typing Γ (.var x) τ ↔ ∃ p, Γ.lookup x = some p ∧ p.Instance τ := by
  constructor
  · rintro ⟨hp, hτ⟩
    exact ⟨_, hp, hτ⟩
  · rintro ⟨p, hp, hτ⟩
    exact .var hp hτ

theorem typing_call_iff {f a : Expr} :
    Typing Γ (.call f a) τ ↔ ∃ σ, Typing Γ f (.arrow σ τ) ∧ Typing Γ a σ := by
  constructor
  · rintro (_ | ⟨hf, ha⟩)
    exact ⟨_, hf, ha⟩
  · rintro ⟨σ, hf, ha⟩
    exact .call hf ha

theorem typing_func_iff :
    Typing Γ (.func x b) τ ↔ ∃ σ ρ, τ = .arrow σ ρ ∧ Typing ((x, σ.toPoly) :: Γ) b ρ := by
  constructor
  · rintro (_ | _ | hb)
    exact ⟨_, _, rfl, hb⟩
  · rintro ⟨σ, ρ, rfl, hb⟩
    exact .func hb

theorem typing_letIn_iff : Typing Γ (.letIn x v b) τ ↔ ∃ σ, Typing Γ v σ ∧
    ∃ Q : Finset Int, (∀ i ∈ Q, ¬ Γ.Free i) ∧ Typing ((x, σ.generalize Q) :: Γ) b τ := by
  constructor
  · rintro (_ | _ | _ | ⟨Q, hv, hQ, hb⟩)
    exact ⟨_, hv, Q, hQ, hb⟩
  · rintro ⟨σ, hv, Q, hQ, hb⟩
    exact .letIn Q hv hQ hb

/-! ### More general assumptions -/

namespace Assumptions

/-- `Γ'` assumes of the same names polytypes with more instances and fewer free variables. -/
def Refines (Γ Γ' : Assumptions) : Prop :=
  ∀ x, Option.Rel (fun p q : Poly => (∀ τ, p.Instance τ → q.Instance τ) ∧ ∀ i, q.Free i → p.Free i)
    (Γ.lookup x) (Γ'.lookup x)

theorem Refines.free (h : Γ.Refines Γ') (hi : Γ'.Free i) : Γ.Free i := by
  obtain ⟨x, q, hq, hi⟩ := hi
  obtain ⟨p, hp, -, hfree⟩ := exists_of_optionRel_right (h x) hq
  exact ⟨x, p, hp, hfree i hi⟩

theorem Refines.cons (h : Γ.Refines Γ') (hinst : ∀ τ, p.Instance τ → q.Instance τ)
    (hfree : ∀ i, q.Free i → p.Free i) (x : String) :
    Refines ((x, p) :: Γ) ((x, q) :: Γ') := by
  intro y
  by_cases hxy : y = x
  · subst hxy
    rw [lookup_cons_self, lookup_cons_self]
    exact .some ⟨hinst, hfree⟩
  · rw [lookup_cons_of_ne hxy, lookup_cons_of_ne hxy]
    exact h y

theorem refines_of_eq (h : ∀ x, Γ'.lookup x = Γ.lookup x) : Γ.Refines Γ' := by
  intro x
  rw [h x]
  cases Γ.lookup x with
  | none => exact .none
  | some p => exact .some ⟨fun _ h => h, fun _ h => h⟩

end Assumptions

theorem Typing.refine (h : Typing Γ e τ) (hΓ : Γ.Refines Γ') : Typing Γ' e τ := by
  induction h generalizing Γ' with
  | @var Γ x p τ hp hτ =>
    obtain ⟨q, hq, hinst, -⟩ := exists_of_optionRel_left (hΓ x) hp
    exact .var hq (hinst τ hτ)
  | call _ _ ihf iha => exact .call (ihf hΓ) (iha hΓ)
  | func _ ih => exact .func (ih (hΓ.cons (fun _ h => h) (fun _ h => h) _))
  | letIn Q _ hQ _ ihv ihb =>
    refine .letIn Q (ihv hΓ) (fun i hi hfree => hQ i hi (hΓ.free hfree)) ?_
    exact ihb (hΓ.cons (fun _ h => h) (fun _ h => h) _)

theorem typing_congr (h : ∀ x, Γ'.lookup x = Γ.lookup x) : Typing Γ' e τ ↔ Typing Γ e τ :=
  ⟨fun ht => ht.refine (Assumptions.refines_of_eq fun x => (h x).symm),
    fun ht => ht.refine (Assumptions.refines_of_eq h)⟩

/-! ### Types of the inlined term -/

/-- `Γ₁` assumes `p` of the name `x`. `Γ₂` leaves `x` as it is outside of the `let`, and has for the
value `v` what the environment says. -/
structure Assumptions.Inlines (x : String) (p : Poly) (v : Expr) (env : Env) (Γ₁ Γ₂ : Assumptions) :
    Prop where
  bound : Γ₁.lookup x = some p
  same : ∀ y, y ≠ x → Γ₂.lookup y = Γ₁.lookup y
  closed : ∀ q, Γ₂.lookup x = some q → ∀ i, ¬ q.Free i
  value : Γ₂.Agrees env v

theorem Assumptions.lookup_cons_congr (q : Poly) (h : y ≠ x → Γ₂.lookup y = Γ₁.lookup y) :
    List.lookup y ((x, q) :: Γ₂) = List.lookup y ((x, q) :: Γ₁) := by
  by_cases hyx : y = x
  · subst hyx
    rw [lookup_cons_self, lookup_cons_self]
  · rw [lookup_cons_of_ne hyx, lookup_cons_of_ne hyx, h hyx]

namespace Assumptions.Inlines

theorem cons (h : Inlines x p v env Γ₁ Γ₂) (hyx : y ≠ x) (hy : ¬ v.HasFree y) (q : Poly) :
    Inlines x p v env ((y, q) :: Γ₁) ((y, q) :: Γ₂) where
  bound := by rw [lookup_cons_of_ne hyx.symm, h.bound]
  same z hz := lookup_cons_congr q fun _ => h.same z hz
  closed := by
    rw [lookup_cons_of_ne hyx.symm]
    exact h.closed
  value z hz := by
    have hzy : z ≠ y := fun h => hy (h ▸ hz)
    rw [lookup_cons_of_ne hzy, h.value z hz]

theorem free_iff (h : Inlines x p v env Γ₁ Γ₂) (hp : ∀ i, ¬ p.Free i) : Γ₂.Free i ↔ Γ₁.Free i := by
  constructor
  · rintro ⟨y, q, hq, hi⟩
    have hyx : y ≠ x := fun he => h.closed q (he ▸ hq) i hi
    exact ⟨y, q, h.same y hyx ▸ hq, hi⟩
  · rintro ⟨y, q, hq, hi⟩
    have hyx : y ≠ x := by
      rintro rfl
      obtain rfl := Option.some.inj (h.bound.symm.trans hq)
      exact hp i hi
    exact ⟨y, q, (h.same y hyx).trans hq, hi⟩

end Assumptions.Inlines

/-- If the instances of `p` are the types of the value, it makes no difference whether a name stands for
the value or is assumed to have the polytype `p`. -/
theorem typing_inline_iff (h : Assumptions.Inlines x p v env Γ₁ Γ₂) (hp : ∀ i, ¬ p.Free i)
    (hv : ∀ Γ : Assumptions, Γ.Agrees env v → ∀ τ, Typing Γ v τ ↔ p.Instance τ)
    (hb : ∀ y, v.HasFree y → ¬ b.Binds y) : Typing Γ₂ (b.inline x v) τ ↔ Typing Γ₁ b τ := by
  induction b generalizing Γ₁ Γ₂ τ with
  | alien a => exact ⟨nofun, nofun⟩
  | var y =>
    rw [Expr.inline]
    split
    · rename_i hyx
      rw [hv Γ₂ h.value, typing_var_iff, hyx, h.bound]
      simp
    · rename_i hyx
      rw [typing_var_iff, typing_var_iff, h.same y hyx]
  | call f a ihf iha =>
    rw [Expr.inline, typing_call_iff, typing_call_iff]
    refine exists_congr fun σ => and_congr (ihf h fun y hy hf => ?_) (iha h fun y hy ha => ?_)
    · exact hb y hy (.inl hf)
    · exact hb y hy (.inr ha)
  | func y c ih =>
    rw [Expr.inline, typing_func_iff, typing_func_iff]
    refine exists_congr fun σ => exists_congr fun ρ => and_congr_right' ?_
    split
    · -- the parameter hides the difference
      rename_i hyx
      subst hyx
      exact typing_congr fun z => Assumptions.lookup_cons_congr _ (h.same z)
    · rename_i hyx
      exact ih (h.cons hyx (fun hy => hb y hy (.inl rfl)) _) fun z hz hc => hb z hz (.inr hc)
  | letIn y w c ihw ihc =>
    rw [Expr.inline, typing_letIn_iff, typing_letIn_iff]
    refine exists_congr fun σ => and_congr (ihw h fun z hz hw => hb z hz (.inr (.inl hw))) ?_
    refine exists_congr fun Q => and_congr ?_ ?_
    · exact forall₂_congr fun i _ => not_congr (h.free_iff hp)
    · split
      · rename_i hyx
        subst hyx
        exact typing_congr fun z => Assumptions.lookup_cons_congr _ (h.same z)
      · rename_i hyx
        exact ihc (h.cons hyx (fun hy => hb y hy (.inl rfl)) _) fun z hz hc => hb z hz (.inr (.inr hc))

/-! ### Principal schemes -/

theorem Scheme.Instance.bind (h : (Scheme.generalize t ∅).Instance τ) (f : Int → Mono Int) :
    (Scheme.generalize t ∅).Instance (τ.bind f) := by
  obtain ⟨m, rfl⟩ := Scheme.instance_generalize.1 h
  exact Scheme.instance_generalize.2 ⟨_, Ty.bind_eval m f t⟩

/-- The polytype of a scheme is one that a `let` can give. -/
theorem Scheme.exists_eval_eq_generalize (s : Scheme) :
    ∃ Q, s.eval assigned = s.body.embed.generalize Q := by
  refine ⟨(s.vars.toList.map Int64.toInt).toFinset, ?_⟩
  rw [Mono.generalize, Ty.embed, Ty.bind_eval]
  refine Ty.eval_congr fun v _ => ?_
  have hmem : v.toInt ∈ (s.vars.toList.map Int64.toInt).toFinset ↔ v ∈ s.vars := by
    simp [VarSet.mem_def, Int64.toInt_inj]
  simp only [assigned, Mono.toPoly, Mono.generalize, Mono.bind, hmem, Finset.notMem_empty, if_false]
  split <;> rfl

/-- A `let` over a value whose types are the instances of one scheme has the types of the inlined term,
if no assumption has a free variable. -/
theorem typing_letIn_iff_inline (hΓ : ∀ i, ¬ Γ.Free i) (hagrees : Γ.Agrees env v)
    (hv : ∀ Γ : Assumptions, Γ.Agrees env v → ∀ τ, Typing Γ v τ ↔ (Scheme.generalize t ∅).Instance τ)
    (hb : ∀ y, v.HasFree y → ¬ b.Binds y) :
    Typing Γ (.letIn x v b) τ ↔ Typing Γ (b.inline x v) τ := by
  set p : Poly := (Scheme.generalize t ∅).eval assigned with hpdef
  have hp : ∀ i, ¬ p.Free i := by
    intro i hi
    obtain ⟨w, hw, -⟩ := Scheme.free_eval.1 hi
    rw [Scheme.free_generalize_empty] at hw
    exact VarSet.not_mem_empty w hw
  have hinlines : Assumptions.Inlines x p v env ((x, p) :: Γ) Γ :=
    { bound := Assumptions.lookup_cons_self
      same := fun y hy => (Assumptions.lookup_cons_of_ne hy).symm
      closed := fun q hq i hi => hΓ i ⟨x, q, hq, hi⟩
      value := hagrees }
  rw [typing_inline_iff hinlines hp hv hb, typing_letIn_iff]
  constructor
  · rintro ⟨σ, hσ, Q, -, hbody⟩
    refine hbody.refine (.cons (Assumptions.refines_of_eq fun _ => rfl) (fun ρ hρ => ?_) ?_ x)
    · obtain ⟨m, rfl⟩ := Poly.instance_generalize.1 hρ
      exact ((hv Γ hagrees σ).1 hσ).bind _
    · exact fun i hi => absurd hi (hp i)
  · intro hbody
    obtain ⟨Q, hQ⟩ := (Scheme.generalize t ∅).exists_eval_eq_generalize
    refine ⟨t.embed, (hv Γ hagrees _).2 (Scheme.generalize t ∅).instance_body, Q, fun i _ => hΓ i, ?_⟩
    rw [hpdef, hQ] at hbody
    exact hbody

theorem assigned_inj {v w : TyVar} (h : assigned v = assigned w) : v = w :=
  Int64.toInt_inj.1 (Mono.var.inj h)

/-- Types that arise from each other by putting types for variables differ in the names of variables
only. -/
theorem Ty.corresponds_of_eval {m m' : TyVar → Mono Int} (ht : t.WellFormed) (hu : u.WellFormed)
    (h : u.embed = t.eval m) (h' : t.embed = u.eval m') :
    t.Corresponds (fun v w => assigned w = m v ∧ assigned v = m' w) u := by
  induction t generalizing u with
  | alien a => exact absurd ht (not_wellFormed_alien a)
  | var v =>
    cases u with
    | var w => exact .var ⟨h, h'⟩
    | app d us => rw [eval_app] at h'; cases h'
    | alien a => exact absurd hu (not_wellFormed_alien a)
  | app c ts ih =>
    cases u with
    | var w => rw [eval_app] at h; cases h
    | alien a => exact absurd hu (not_wellFormed_alien a)
    | app d us =>
      rw [embed, eval_app, eval_app, Mono.app.injEq] at h h'
      obtain ⟨rfl, h⟩ := h
      obtain ⟨-, h'⟩ := h'
      rw [← List.forall₂_eq_eq_eq, List.forall₂_map_left_iff, List.forall₂_map_right_iff] at h h'
      obtain ⟨hlen, hzip⟩ := List.forall₂_iff_zip.1 h'
      obtain ⟨-, hzip'⟩ := List.forall₂_iff_zip.1 h.flip
      refine .app (List.forall₂_iff_zip.2 ⟨hlen, fun {t u} htu => ?_⟩)
      obtain ⟨hmem, hmem'⟩ := List.of_mem_zip htu
      exact ih t hmem (wellFormed_app.1 ht t hmem) (wellFormed_app.1 hu u hmem') (hzip' htu) (hzip htu)

theorem Scheme.equivalent_of_instances (ht : t.WellFormed) (hu : u.WellFormed)
    (h : ∀ τ, (generalize t ∅).Instance τ ↔ (generalize u ∅).Instance τ) :
    (generalize t ∅).equivalent (generalize u ∅) = true := by
  obtain ⟨m, hm⟩ := instance_generalize.1 ((h _).2 (generalize u ∅).instance_body)
  obtain ⟨m', hm'⟩ := instance_generalize.1 ((h _).1 (generalize t ∅).instance_body)
  refine equivalent_generalize ⟨fun v w w' hv hw => ?_, fun v w w' hv hw => ?_⟩
    (Ty.corresponds_of_eval ht hu hm hm')
  · exact assigned_inj (hv.2.trans hw.2.symm)
  · exact assigned_inj (hv.1.trans hw.1.symm)

/-- What inference finds has the types of the term as instances, and no others. -/
theorem Ready.principal (hr : Ready env.next.toInt env e (.init env.next)) (hclosed : env.ClosedFor e)
    (hS : infer env e = .ok S) : ∃ t, S = .generalize t ∅ ∧ t.WellFormed ∧
      ∀ Γ : Assumptions, Γ.Agrees env e → ∀ τ, Typing Γ e τ ↔ S.Instance τ := by
  obtain ⟨t, ctx, hrun, hgen⟩ := infer_eq_ok hS
  obtain ⟨hwf, hgen'⟩ := hr.generalize?_eq hclosed hrun
  refine ⟨_, Except.ok.inj (hgen.symm.trans hgen'), hwf, fun Γ hΓ τ => ⟨fun hτ => ?_, ?_⟩⟩
  · obtain ⟨S', hS', -, hinst⟩ := hτ.infer hΓ hr hclosed
    obtain rfl := Except.ok.inj (hS.symm.trans hS')
    exact hinst
  · exact typing_of_infer hr.covers hclosed hΓ hS

theorem Ready.exists_infer_iff (hr : Ready env.next.toInt env e (.init env.next))
    (hclosed : env.ClosedFor e) (hΓ : Γ.Agrees env e) :
    (∃ S, infer env e = .ok S) ↔ ∃ τ, Typing Γ e τ := by
  constructor
  · rintro ⟨S, hS⟩
    exact ⟨_, typing_of_infer hr.covers hclosed hΓ hS S.instance_body⟩
  · rintro ⟨τ, hτ⟩
    obtain ⟨S, hS, -⟩ := hτ.infer hΓ hr hclosed
    exact ⟨S, hS⟩

/-! ### Inference on the inlined term -/

/-- The assumptions of an environment whose free variables are taken as a constant. -/
def Env.ground (env : Env) : Assumptions := env.eval fun _ => .app "" []

theorem Env.not_free_ground : ¬ env.ground.Free i := by
  rintro ⟨x, p, hp, hi⟩
  rw [ground, lookup_eval] at hp
  obtain ⟨s, -, rfl⟩ := Option.map_eq_some_iff.1 hp
  obtain ⟨w, -, hw⟩ := Scheme.free_eval.1 hi
  simp [Mono.occurs_app] at hw

theorem Env.ClosedFor.agrees_ground (h : env.ClosedFor e) : env.ground.Agrees env e := by
  intro x hx
  rw [ground, lookup_eval]
  cases hs : env.lookup x with
  | none => rfl
  | some s => exact congrArg some (Scheme.eval_of_closed (h x s hx hs).2 _ assigned)

theorem Env.ClosedFor.inline (h : env.ClosedFor (.letIn x v b)) : env.ClosedFor (b.inline x v) :=
  fun y s hy => h y s hy.of_inline

/-- Inference succeeds on a `let` exactly if it succeeds on the value and on the body with the value in
place of the name, and the schemes of the `let` and of this term are equivalent. -/
theorem infer_letIn_agrees_inline (bs : List Binding) (x : String) (v b : Expr)
    (hclear : (Env.ofBindings bs).Clear) (hclosed : (Env.ofBindings bs).ClosedFor (.letIn x v b))
    (hbinds : ∀ y, v.HasFree y → ¬ b.Binds y) (hroom : (Env.ofBindings bs).HasRoom (.letIn x v b))
    (hroom' : (Env.ofBindings bs).HasRoom (b.inline x v)) :
    ((∃ S, infer (.ofBindings bs) (.letIn x v b) = .ok S) ↔
      (∃ S, infer (.ofBindings bs) v = .ok S) ∧ ∃ S, infer (.ofBindings bs) (b.inline x v) = .ok S) ∧
    ∀ S S', infer (.ofBindings bs) (.letIn x v b) = .ok S →
      infer (.ofBindings bs) (b.inline x v) = .ok S' → S.equivalent S' = true := by
  have hr := hclear.ready hclosed hroom
  have hr' := hclear.ready hclosed.inline hroom'
  set env := Env.ofBindings bs
  have hvalue : env.ClosedFor v := fun y s hy => hclosed y s (.inl hy)
  have hiff : (∃ S, infer env v = .ok S) →
      ∀ τ, Typing env.ground (.letIn x v b) τ ↔ Typing env.ground (b.inline x v) τ := by
    rintro ⟨S, hS⟩ τ
    obtain ⟨t, rfl, -, hv⟩ := hr.value.principal hvalue hS
    exact typing_letIn_iff_inline (fun _ => Env.not_free_ground) hvalue.agrees_ground hv hbinds
  have hlet := hr.exists_infer_iff hclosed hclosed.agrees_ground
  have hof : (∃ S, infer env (.letIn x v b) = .ok S) → ∃ S, infer env v = .ok S := by
    intro h
    obtain ⟨τ, hτ⟩ := hlet.1 h
    obtain ⟨σ, hσ, -⟩ := typing_letIn_iff.1 hτ
    exact (hr.value.exists_infer_iff hvalue hvalue.agrees_ground).2 ⟨σ, hσ⟩
  have hinline := hr'.exists_infer_iff hclosed.inline hclosed.inline.agrees_ground
  refine ⟨⟨fun h => ⟨hof h, ?_⟩, fun ⟨hv, h⟩ => ?_⟩, fun S S' hS hS' => ?_⟩
  · rw [hinline, ← exists_congr (hiff (hof h))]
    exact hlet.1 h
  · rw [hlet, exists_congr (hiff hv)]
    exact hinline.1 h
  · have hiff := hiff (hof ⟨S, hS⟩)
    obtain ⟨t, rfl, ht, hprincipal⟩ := hr.principal hclosed hS
    obtain ⟨u, rfl, hu, hprincipal'⟩ := hr'.principal hclosed.inline hS'
    refine Scheme.equivalent_of_instances ht hu fun τ => ?_
    rw [← hprincipal _ hclosed.agrees_ground, ← hprincipal' _ hclosed.inline.agrees_ground, hiff τ]

/-- The inlined term is `λw. let h = λu. f in λu. f`. -/
theorem infer_letIn_agrees_inline_twice :
    (∃ S, infer (.ofBindings Env.sample) (.letIn "g" (.func "u" (.var "f"))
      (.func "w" (.letIn "h" (.var "g") (.var "g")))) = .ok S) ∧
    ∀ S S', infer (.ofBindings Env.sample) (.letIn "g" (.func "u" (.var "f"))
        (.func "w" (.letIn "h" (.var "g") (.var "g")))) = .ok S →
      infer (.ofBindings Env.sample) (.func "w" (.letIn "h" (.func "u" (.var "f"))
        (.func "u" (.var "f")))) = .ok S' →
      S.equivalent S' = true := by
  have hclosed : (Env.ofBindings Env.sample).ClosedFor (.letIn "g" (.func "u" (.var "f"))
      (.func "w" (.letIn "h" (.var "g") (.var "g")))) := by
    intro y s hy hs
    obtain rfl : y = "f" := by grind [Expr.HasFree]
    cases hs
    exact ⟨rfl, by decide⟩
  have h := infer_letIn_agrees_inline Env.sample _ _ _ (by decide) hclosed
    (by grind [Expr.HasFree, Expr.Binds]) (by decide) (by decide)
  exact ⟨h.1.2 ⟨⟨_, rfl⟩, _, rfl⟩, h.2⟩

/-- The value takes a variable and leaves none in its scheme. So the parameter of `λw. w` gets a variable
of its own after the value, and the one of `y` where the value is left out. -/
theorem infer_letIn_disagrees_inline_of_wrapped_next :
    infer (.ofBindings Env.wrapped)
        (.letIn "x" (.letIn "q" (.func "u" (.var "u")) (.var "k")) (.func "w" (.var "w"))) =
      .ok (.generalize (.arrow (.var (Int64.minValue + 1)) (.var (Int64.minValue + 1))) ∅) ∧
    infer (.ofBindings Env.wrapped) ((Expr.func "w" (.var "w")).inline "x"
        (.letIn "q" (.func "u" (.var "u")) (.var "k"))) =
      .ok (.mono (.arrow (.var Int64.minValue) (.var Int64.minValue))) ∧
    (Scheme.generalize (.arrow (.var (Int64.minValue + 1)) (.var (Int64.minValue + 1))) ∅).equivalent
      (.mono (.arrow (.var Int64.minValue) (.var Int64.minValue))) = false ∧
    (Env.ofBindings Env.wrapped).ClosedFor
      (.letIn "x" (.letIn "q" (.func "u" (.var "u")) (.var "k")) (.func "w" (.var "w"))) ∧
    (∀ y, (Expr.letIn "q" (.func "u" (.var "u")) (.var "k")).HasFree y →
      ¬ (Expr.func "w" (.var "w")).Binds y) ∧
    (Env.ofBindings Env.wrapped).HasRoom
      (.letIn "x" (.letIn "q" (.func "u" (.var "u")) (.var "k")) (.func "w" (.var "w"))) ∧
    (Env.ofBindings Env.wrapped).HasRoom ((Expr.func "w" (.var "w")).inline "x"
      (.letIn "q" (.func "u" (.var "u")) (.var "k"))) := by
  refine ⟨rfl, rfl, by decide, fun y s hy hs => ?_, by grind [Expr.HasFree, Expr.Binds], by decide,
    by decide⟩
  obtain rfl : y = "k" := by grind [Expr.HasFree]
  cases hs
  exact ⟨rfl, by decide⟩

end LetPoly
