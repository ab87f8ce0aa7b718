import LetPoly.Proofs.Canonical
import LetPoly.Proofs.Environment
import LetPoly.Proofs.Typing

/-!
# Assignments

An assignment gives the type variables of inference types of the declarative system. It carries over
to types (`Ty.eval`), and to schemes and environments, where it reaches the free variables only. An
assignment under which the aliases hold is a solution of them; `Aliases.compose` makes one out of
values for the unaliased variables.

`assigned` takes every variable to itself. Under it the instances of a scheme are what
`substitute` makes of its body (`Scheme.instance_embed`).
-/

namespace LetPoly

namespace Ty
variable {V W : Type} {θ θ' : TyVar → Mono V} {t : Ty}

mutual
/-- The type with each variable `v` taken as `θ v`. Aliens have no meaning and are taken as a
constant. -/
def eval (θ : TyVar → Mono V) : Ty → Mono V
  | .var v => θ v
  | .app con args => .app con (evalAll θ args)
  | .alien _ => .app "" []
def evalAll (θ : TyVar → Mono V) : List Ty → List (Mono V)
  | [] => []
  | t :: ts => eval θ t :: evalAll θ ts
end

@[simp] theorem evalAll_eq_map (θ : TyVar → Mono V) (ts : List Ty) :
    evalAll θ ts = ts.map (eval θ) := by
  induction ts with
  | nil => rfl
  | cons t ts ih => rw [evalAll, ih, List.map_cons]

@[simp] theorem eval_app (θ : TyVar → Mono V) (con : String) (args : List Ty) :
    (app con args).eval θ = .app con (args.map (eval θ)) := by
  rw [eval, evalAll_eq_map]

theorem eval_arrow (θ : TyVar → Mono V) (a b : Ty) :
    (arrow a b).eval θ = .arrow (a.eval θ) (b.eval θ) :=
  eval_app θ _ _

theorem eval_congr (h : ∀ v ∈ t.occurrences, θ v = θ' v) : t.eval θ = t.eval θ' := by
  induction t with
  | var v => exact h v (mem_occurrences_var.2 rfl)
  | alien a => rfl
  | app con args ih =>
    rw [eval_app, eval_app]
    exact congrArg (Mono.app con) (List.map_congr_left fun t ht =>
      ih t ht fun v hv => h v (mem_occurrences_app.2 ⟨t, ht, hv⟩))

theorem eval_subst (θ : TyVar → Mono V) (f : TyVar → Ty) (t : Ty) :
    (t.subst f).eval θ = t.eval fun v => (f v).eval θ := by
  induction t with
  | var v => rfl
  | alien a => rfl
  | app con args ih =>
    rw [subst_app, eval_app, eval_app, List.map_map]
    exact congrArg (Mono.app con) (List.map_congr_left ih)

theorem bind_eval (θ : TyVar → Mono V) (f : V → Mono W) (t : Ty) :
    (t.eval θ).bind f = t.eval fun v => (θ v).bind f := by
  induction t with
  | var v => rfl
  | alien a => simp [eval]
  | app con args ih =>
    rw [eval_app, eval_app, Mono.bind_app, List.map_map]
    exact congrArg (Mono.app con) (List.map_congr_left ih)

theorem occurs_eval {w : V} : (t.eval θ).Occurs w ↔ ∃ v ∈ t.occurrences, (θ v).Occurs w := by
  induction t with
  | var v => simp [eval]
  | alien a => simp [eval, occurrences, Mono.occurs_app]
  | app con args ih =>
    simp only [eval_app, Mono.occurs_app, List.mem_map, mem_occurrences_app]
    constructor
    · rintro ⟨_, ⟨t, ht, rfl⟩, hw⟩
      obtain ⟨v, hv, hw⟩ := (ih t ht).1 hw
      exact ⟨v, ⟨t, ht, hv⟩, hw⟩
    · rintro ⟨v, ⟨t, ht, hv⟩, hw⟩
      exact ⟨_, ⟨t, ht, rfl⟩, (ih t ht).2 ⟨v, hv, hw⟩⟩

end Ty

/-- The reading by an assignment. -/
noncomputable def Reading.ofAssignment {V : Type} (θ : TyVar → Mono V) : Reading (Mono V) where
  read := Ty.eval θ
  weight := sizeOf
  app_inj := by simp
  weight_lt {c ts t} h := by
    have := List.sizeOf_lt_of_mem (List.mem_map_of_mem (f := Ty.eval θ) h)
    rw [Ty.eval_app, Mono.app.sizeOf_spec]
    omega

/-! ### Solutions -/

namespace Aliases
variable {A : Aliases} {θ θ' : TyVar → Mono Int} {v : TyVar} {t : Ty}

/-- The assignments under which all aliases hold. -/
abbrev Solves (θ : TyVar → Mono Int) (A : Aliases) : Prop := A.SolvedBy (.ofAssignment θ)

theorem Solves.eval_canonicalize (h : Solves θ A) (t : Ty) :
    (A.canonicalize t).eval θ = t.eval θ :=
  SolvedBy.read_canonicalize h t

theorem Solves.eval_value (h : Solves θ A) (v : TyVar) : (A.value v).eval θ = θ v :=
  h.eval_canonicalize (.var v)

/-- Takes variables as what they stand for, and the unaliased ones as `θ` does. -/
def compose (A : Aliases) (θ : TyVar → Mono Int) : TyVar → Mono Int := fun v => (A.value v).eval θ

theorem eval_compose (A : Aliases) (θ : TyVar → Mono Int) (t : Ty) :
    t.eval (A.compose θ) = (A.canonicalize t).eval θ :=
  (Ty.eval_subst θ A.value t).symm

theorem Acyclic.solves_compose (hA : A.Acyclic) (θ : TyVar → Mono Int) : Solves (A.compose θ) A := by
  intro v t hv
  show (A.value v).eval θ = t.eval (A.compose θ)
  rw [hA.value_of_some hv, eval_compose]

theorem Solves.congr (h : Solves θ A)
    (hθ : ∀ v t, A.lookup v = some t → θ' v = θ v ∧ ∀ w ∈ t.occurrences, θ' w = θ w) :
    Solves θ' A := by
  intro v t hv
  show θ' v = t.eval θ'
  rw [(hθ v t hv).1, Ty.eval_congr (hθ v t hv).2]
  exact h v t hv

end Aliases

/-! ### Schemes and environments -/

/-- The polytype of a scheme whose free variables are taken as `θ` says. -/
def Scheme.eval (θ : TyVar → Mono Int) (s : Scheme) : Poly :=
  s.body.eval fun v => if v ∈ s.vars then .var (.bound v.toInt) else (θ v).toPoly

/-- The assumptions of an environment whose free variables are taken as `θ` says. -/
def Env.eval (θ : TyVar → Mono Int) (env : Env) : Assumptions :=
  env.recent.map fun b => (b.name, b.scheme.eval θ)

namespace Scheme
variable {θ θ' : TyVar → Mono Int} {s : Scheme} {τ : Mono Int} {v : TyVar}

theorem eval_congr (h : ∀ v ∈ s.free, θ v = θ' v) : s.eval θ = s.eval θ' := by
  refine Ty.eval_congr fun v hv => ?_
  by_cases hs : v ∈ s.vars
  · rw [if_pos hs, if_pos hs]
  · rw [if_neg hs, if_neg hs, h v (mem_free.2 ⟨hv, hs⟩)]

theorem eval_of_closed (h : s.free = ∅) (θ θ' : TyVar → Mono Int) : s.eval θ = s.eval θ' := by
  refine eval_congr fun v hv => ?_
  rw [h] at hv
  exact absurd hv (VarSet.not_mem_empty v)

theorem instance_eval : (s.eval θ).Instance τ ↔
    ∃ m : TyVar → Mono Int, τ = s.body.eval fun v => if v ∈ s.vars then m v else θ v := by
  have heval : ∀ m : Int → Mono Int, (s.eval θ).bind (Slot.fill m) =
      s.body.eval fun v => if v ∈ s.vars then m v.toInt else θ v := by
    intro m
    rw [eval, Ty.bind_eval]
    refine Ty.eval_congr fun v _ => ?_
    by_cases hs : v ∈ s.vars
    · rw [if_pos hs, if_pos hs]
      rfl
    · rw [if_neg hs, if_neg hs, Mono.toPoly, Mono.generalize, Mono.bind_bind]
      exact Mono.bind_var (θ v)
  constructor
  · rintro ⟨m, rfl⟩
    exact ⟨fun v => m v.toInt, heval m⟩
  · rintro ⟨m, rfl⟩
    refine ⟨fun i => m (.ofInt i), ?_⟩
    rw [heval]
    simp

theorem free_eval {w : Int} : (s.eval θ).Free w ↔ ∃ v ∈ s.free, (θ v).Occurs w := by
  rw [Poly.Free, eval, Ty.occurs_eval]
  constructor
  · rintro ⟨v, hv, hw⟩
    by_cases hs : v ∈ s.vars
    · rw [if_pos hs, Mono.occurs_var] at hw; cases hw
    · rw [if_neg hs] at hw
      exact ⟨v, mem_free.2 ⟨hv, hs⟩, Poly.free_toPoly.1 hw⟩
  · rintro ⟨v, hv, hw⟩
    obtain ⟨hv, hs⟩ := mem_free.1 hv
    exact ⟨v, hv, by rw [if_neg hs]; exact Poly.free_toPoly.2 hw⟩

theorem eval_mono (t : Ty) : (Scheme.mono t).eval θ = (t.eval θ).toPoly := by
  rw [eval, Mono.toPoly, Mono.generalize, Ty.bind_eval]
  exact Ty.eval_congr fun v _ => if_neg (VarSet.not_mem_empty v)

end Scheme

theorem Env.lookup_eval (θ : TyVar → Mono Int) (env : Env) (x : String) :
    (env.eval θ).lookup x = (env.lookup x).map (Scheme.eval θ) := by
  rw [Env.lookup_eq]
  unfold Env.eval
  induction env.recent with
  | nil => rfl
  | cons b bs ih =>
    by_cases hx : x = b.name
    · subst hx
      simp
    · rw [List.map_cons, Assumptions.lookup_cons_of_ne hx, ih, List.find?_cons_of_neg]
      simpa using Ne.symm hx

/-! ### Every variable as itself -/

/-- Every variable as itself. -/
def assigned (v : TyVar) : Mono Int := .var v.toInt

/-- A type of inference as a type of the declarative system. -/
def Ty.embed (t : Ty) : Mono Int := t.eval assigned

/-- The assumptions of an environment. -/
def Env.assumptions (env : Env) : Assumptions := env.eval assigned

/-- `τ` is an instance of the scheme. -/
def Scheme.Instance (s : Scheme) (τ : Mono Int) : Prop := (s.eval assigned).Instance τ

theorem Scheme.instance_generalize {t : Ty} {τ : Mono Int} :
    (generalize t ∅).Instance τ ↔ ∃ m : TyVar → Mono Int, τ = t.eval m := by
  refine instance_eval.trans (exists_congr fun m => Eq.congr_right (Ty.eval_congr fun v hv => ?_))
  exact if_pos (mem_vars_generalize.2 ⟨hv, VarSet.not_mem_empty v⟩)

namespace Ty
variable {t u : Ty} {g : TyVar → Mono Int}

theorem embed_inj (ht : t.WellFormed) (hu : u.WellFormed) (h : t.embed = u.embed) : t = u := by
  induction t generalizing u with
  | alien a => exact absurd ht (not_wellFormed_alien a)
  | var v =>
    cases u with
    | var w => rw [Int64.toInt_inj.1 (Mono.var.inj h)]
    | app d us => rw [embed, embed, eval_app] at h; cases h
    | alien a => exact absurd hu (not_wellFormed_alien a)
  | app c ts ih =>
    cases u with
    | var w => rw [embed, embed, eval_app] at h; cases h
    | alien a => exact absurd hu (not_wellFormed_alien a)
    | app d us =>
      rw [embed, embed, eval_app, eval_app, Mono.app.injEq] at h
      obtain ⟨rfl, h⟩ := h
      refine congrArg (app c) (List.ext_getElem (by simpa using congrArg List.length h) ?_)
      intro i hi hi'
      have hi₂ : (ts.map (eval assigned))[i]? = (us.map (eval assigned))[i]? := by rw [h]
      rw [List.getElem?_map, List.getElem?_map, List.getElem?_eq_getElem hi,
        List.getElem?_eq_getElem hi'] at hi₂
      exact ih _ (List.getElem_mem hi) (wellFormed_app.1 ht _ (List.getElem_mem hi))
        (wellFormed_app.1 hu _ (List.getElem_mem hi')) (Option.some.inj hi₂)

theorem exists_embed_of_eval (ht : t.WellFormed) (hu : u.WellFormed) (h : t.embed = u.eval g) :
    ∀ v ∈ u.occurrences, ∃ w : Ty, w.WellFormed ∧ g v = w.embed := by
  induction u generalizing t with
  | alien a => exact absurd hu (not_wellFormed_alien a)
  | var v =>
    intro x hx
    rw [mem_occurrences_var.1 hx]
    exact ⟨t, ht, h.symm⟩
  | app d us ih =>
    intro x hx
    obtain ⟨u, hmem, hx⟩ := mem_occurrences_app.1 hx
    cases t with
    | var v => rw [embed, eval_app] at h; cases h
    | alien a => exact absurd ht (not_wellFormed_alien a)
    | app c ts =>
      rw [embed, eval_app, eval_app, Mono.app.injEq] at h
      have hu' : u.eval g ∈ ts.map (eval assigned) := by
        rw [h.2]
        exact List.mem_map_of_mem hmem
      obtain ⟨t, ht', he⟩ := List.mem_map.1 hu'
      exact ih u hmem (wellFormed_app.1 ht t ht') (wellFormed_app.1 hu u hmem) he x hx

end Ty

theorem Subst.apply_map {vs : List TyVar} {f : TyVar → Ty} {v : TyVar} :
    Subst.apply (vs.map fun v => (v, f v)) v = if v ∈ vs then f v else .var v := by
  unfold Subst.apply
  induction vs with
  | nil => rfl
  | cons w vs ih =>
    by_cases h : v = w
    · subst h
      simp
    · rw [List.map_cons, List.lookup_cons, beq_false_of_ne h]
      simpa [h] using ih

/-- A type is an instance of a scheme if it is the body with types substituted for exactly the
quantified variables. -/
theorem Scheme.instance_embed {s : Scheme} {t : Ty} (hs : s.body.WellFormed) (ht : t.WellFormed)
    (h : s.Instance t.embed) :
    ∃ m : Subst, m.map Prod.fst = s.vars.toList ∧ t = s.body.substitute m := by
  obtain ⟨g, hg⟩ := Scheme.instance_eval.1 h
  have hval : ∀ v, ∃ u : Ty, v ∈ s.body.occurrences → u.WellFormed ∧
      (if v ∈ s.vars then g v else assigned v) = u.embed := by
    intro v
    by_cases hv : v ∈ s.body.occurrences
    · obtain ⟨u, hu⟩ := Ty.exists_embed_of_eval ht hs hg v hv
      exact ⟨u, fun _ => hu⟩
    · exact ⟨.var v, fun h => absurd h hv⟩
  choose f hf using hval
  refine ⟨s.vars.toList.map fun v => (v, f v), by simp [Function.comp_def], Ty.embed_inj ht ?_ ?_⟩
  · rw [Ty.substitute_eq_subst]
    refine Ty.wellFormed_subst_iff.2 ⟨hs, fun v hv => ?_⟩
    rw [Subst.apply_map]
    split
    · exact (hf v hv).1
    · exact Ty.wellFormed_var v
  · rw [hg, Ty.substitute_eq_subst, Ty.embed, Ty.eval_subst]
    refine Ty.eval_congr fun v hv => ?_
    rw [Subst.apply_map]
    by_cases hs' : v ∈ s.vars
    · rw [if_pos (VarSet.mem_def.1 hs')]
      exact (hf v hv).2
    · rw [if_neg fun h => hs' (VarSet.mem_def.2 h), if_neg hs']
      rfl

end LetPoly
