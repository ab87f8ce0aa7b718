import LetPoly.Proofs.Renaming
import LetPoly.Proofs.Simulation

/-!
# What inference takes from the environment

The answer of inference depends on an environment only through the schemes of the names that the term
mentions, up to the names of their variables: what else is bound, in which order and with which
variables makes no difference (`infer_independent_iff`). Binding the scheme of a value by hand has the
same effect as a `let` (`infer_letIn_agrees_extend`).

Both need that no free variable of the environment is handed out as fresh. An environment whose `next`
has wrapped around can violate this.
-/

namespace LetPoly

variable {env env' : Env} {bs : List Binding} {e e' v b : Expr} {x : String} {ctx ctx' : Context}
  {t u : Ty} {s s' S : Scheme} {β γ : TyVar → TyVar → Prop} {f f' : Failure} {w : TyVar} {k : Int}

/-! ### Schemes without free variables -/

theorem Scheme.mem_vars_of_closed (hs : s.free = ∅) (hw : w ∈ s.body.occurrences) : w ∈ s.vars := by
  by_contra hq
  have hfree : w ∈ s.free := mem_free.2 ⟨hw, hq⟩
  rw [hs] at hfree
  exact VarSet.not_mem_empty w hfree

theorem Scheme.Corresponds.of_closed (h : s.Corresponds β s') (hs : s.free = ∅) :
    s.Corresponds γ s' := by
  obtain ⟨δ, hδ, hbody⟩ := h
  refine ⟨δ, hδ, hbody.imp fun v hv w _ hvw => .inl (hvw.resolve_right fun h => h.1 ?_)⟩
  exact mem_vars_of_closed hs hv

theorem Scheme.corresponds_self (hwf : s.body.WellFormed) (hs : s.free = ∅) : s.Corresponds β s := by
  refine ⟨Eq, biUnique_eq, .refl hwf fun v hv => .inl ?_⟩
  exact ⟨mem_vars_of_closed hs hv, mem_vars_of_closed hs hv, rfl⟩

/-- Corresponding types with all variables quantified are equivalent. -/
theorem Scheme.equivalent_generalize (hβ : Relator.BiUnique β) (h : t.Corresponds β u) :
    (generalize t ∅).equivalent (generalize u ∅) = true := by
  have hcorr := corresponds_generalize hβ h fun v _ w _ _ =>
    iff_of_false (VarSet.not_mem_empty v) (VarSet.not_mem_empty w)
  refine equivalent_iff.2 ⟨?_, hcorr.of_closed (free_generalize_empty t)⟩
  -- the relation is a bijection between the variables of the types
  obtain ⟨ρ, rfl, hρ⟩ := h.exists_rename hβ.2
  have hvars : (generalize (t.rename ρ) ∅).vars = (generalize t ∅).vars.map ρ := by
    ext w
    simp [mem_vars_generalize, VarSet.mem_map, VarSet.not_mem_empty, Ty.occurrences_rename]
  have hinj : Set.InjOn ρ {v | v ∈ (generalize t ∅).vars} := fun v hv w hw he =>
    hβ.1 (hρ v (mem_vars_generalize.1 hv).1) (he ▸ hρ w (mem_vars_generalize.1 hw).1)
  rw [hvars, VarSet.size_map hinj]

/-! ### Answers -/

/-- Two answers, for `e` and for its subterm `e'` at `path`, are the same: equivalent schemes, or
failures of the same kind at the same subterm. -/
def Agree (path : List Expr.Branch) (e e' : Expr) : Except Failure Scheme → Except Failure Scheme → Prop
  | .ok S, .ok S' => S.equivalent S' = true
  | .error f, .error f' => f.error.kind = f'.error.kind ∧ f.position = path ++ f'.position ∧
    f.culprit? e = f'.culprit? e'
  | _, _ => False

theorem Failure.Alike.culprit? (h : f.Alike f') (e : Expr) : f.culprit? e = f'.culprit? e := by
  rw [Failure.culprit?, Failure.culprit?, h.2]

theorem infer_of_error (he : e ≠ .alien .absent) (h : inferType env e (.init env.next) = .error f) :
    infer env e = .error f := by
  unfold infer
  split
  · exact absurd rfl he
  · rw [h]
    rfl

/-- The free variables of the environment are below the variables that are handed out, but for the
greatest number of all. -/
def Env.Clear (env : Env) : Prop := ∀ v ∈ env.free, v < env.next ∨ v = Int64.maxValue

/-- The fresh variables of a run on `e` do not wrap around. -/
def Env.HasRoom (env : Env) (e : Expr) : Prop :=
  env.next.toInt + demand env e (.init env.next) < 2 ^ 63

instance (env : Env) : Decidable env.Clear :=
  List.decidableBAll (fun v => v < env.next ∨ v = Int64.maxValue) env.free.toList

instance (env : Env) (e : Expr) : Decidable (env.HasRoom e) := inferInstanceAs (Decidable (_ < _))

theorem Env.Clear.old (h : env.Clear) : ∀ v ∈ env.free, (Context.init env.next).supply.Old v := by
  intro v hv
  rcases h v hv with h | rfl
  · exact .inl (Int64.lt_iff_toInt_lt.1 h)
  · exact .inr rfl

theorem Env.clear_of_lt (h : ∀ b ∈ bs, ∀ w, b.scheme.Mentions w → w.toInt < 2 ^ 63 - 1) :
    (ofBindings bs).Clear := by
  intro w hw
  obtain ⟨b, hb, hw⟩ := mem_free_ofBindings.1 hw
  exact .inl (Int64.lt_iff_toInt_lt.2 (lt_next_ofBindings h b hb w (.inr (Scheme.mem_free.1 hw).1)))

theorem Context.Joined.none (c d : Context) : Joined (fun _ _ => False) c d :=
  ⟨⟨nofun, nofun⟩, nofun, nofun⟩

/-! ### Equivalent environments -/

/-- Each free name of `e` is bound in neither environment, or to equivalent schemes without free
variables. -/
def Env.SameFor (env env' : Env) (e : Expr) : Prop :=
  ∀ x, e.HasFree x → Option.Rel (fun s s' => s.free = ∅ ∧ s'.free = ∅ ∧ s.equivalent s' = true)
    (env.lookup x) (env'.lookup x)

theorem Env.SameFor.alike (h : env.SameFor env' e) : Env.Alike β env env' e :=
  fun x hx => optionRel_imp (h x hx) fun _ _ ⟨hs, _, heq⟩ =>
    (Scheme.equivalent_iff.1 heq).2.of_closed hs

theorem Env.SameFor.closedFor_left (h : env.SameFor env' e) : env.ClosedFor e := by
  intro x s hx hs
  obtain ⟨s', -, hfree, -, heq⟩ := exists_of_optionRel_left (h x hx) hs
  obtain ⟨-, γ, -, hbody⟩ := Scheme.equivalent_iff.1 heq
  exact ⟨hbody.wellFormed_left, hfree⟩

theorem Env.SameFor.closedFor_right (h : env.SameFor env' e) : env'.ClosedFor e := by
  intro x s' hx hs'
  obtain ⟨s, -, -, hfree, heq⟩ := exists_of_optionRel_right (h x hx) hs'
  obtain ⟨-, γ, -, hbody⟩ := Scheme.equivalent_iff.1 heq
  exact ⟨hbody.wellFormed_right, hfree⟩

/-- Runs that end with corresponding types give equivalent schemes, if the terms mention closed schemes
only. -/
theorem Agree.of_runs (hr : Ready env.next.toInt env e (.init env.next)) (hclosed : env.ClosedFor e)
    (hrun : Infers env e (.init env.next) t ctx)
    (hr' : Ready env'.next.toInt env' e' (.init env'.next)) (hclosed' : env'.ClosedFor e')
    (hrun' : Infers env' e' (.init env'.next) u ctx') (hj : Context.Joined γ ctx ctx')
    (htu : t.Corresponds γ u) {path : List Expr.Branch} :
    Agree path e e' (infer env e) (infer env' e') := by
  rw [infer_of_infers hrun (hr.generalize?_eq hclosed hrun).2,
    infer_of_infers hrun' (hr'.generalize?_eq hclosed' hrun').2]
  exact Scheme.equivalent_generalize hj.unique (hj.alike.canonicalize
    (hr.tidy_of_run hrun).1.acyclic (hr'.tidy_of_run hrun').1.acyclic htu)

theorem Env.SameFor.agree (h : env.SameFor env' e) (hr : Ready env.next.toInt env e (.init env.next))
    (hr' : Ready env'.next.toInt env' e (.init env'.next)) :
    Agree [] e e (infer env e) (infer env' e) := by
  by_cases he : e = .alien .absent
  · subst he
    exact ⟨rfl, rfl, rfl⟩
  have hm := inferType_matches hr hr' h.alike (.none _ _)
  generalize hrun : inferType env e (.init env.next) = r at hm
  generalize hrun' : inferType env' e (.init env'.next) = r' at hm
  cases hm with
  | error hf =>
    rw [infer_of_error he hrun, infer_of_error he hrun']
    exact ⟨hf.1, hf.2, hf.culprit? e⟩
  | ok _ hj htu =>
    exact .of_runs hr h.closedFor_left (infers_of_eq hrun) hr' h.closedFor_right (infers_of_eq hrun') hj htu

theorem Env.Clear.ready (h : (ofBindings bs).Clear) (hclosed : (ofBindings bs).ClosedFor e)
    (hroom : (ofBindings bs).HasRoom e) :
    Ready (ofBindings bs).next.toInt (ofBindings bs) e (.init (ofBindings bs).next) :=
  .init (covers_ofBindings bs) h.old (fun x s hx hs => (hclosed x s hx hs).1) hroom

/-- Inference from the environment answers as inference from any clear environment does, on the terms
for which the two are the same. -/
def Env.Independent (env : Env) : Prop :=
  ∀ bs e, (ofBindings bs).Clear → env.SameFor (ofBindings bs) e → env.HasRoom e →
    (ofBindings bs).HasRoom e → Agree [] e e (infer env e) (infer (ofBindings bs) e)

/-- An environment without free variables that hands out all variables from the least one on. -/
def Env.lowest : List Binding := [⟨"z", .generalize (.var Int64.maxValue) ∅⟩]

theorem Env.next_lowest : (ofBindings lowest).next = Int64.minValue := rfl

theorem Env.not_mem_free_lowest : w ∉ (ofBindings lowest).free := VarSet.not_mem_empty w

theorem Env.clear_lowest : (ofBindings lowest).Clear := fun _ hv => absurd hv not_mem_free_lowest

theorem Env.free_eq_empty_of_lowest (h : infer (.ofBindings lowest) e = .ok S) : S.free = ∅ := by
  obtain ⟨t, ctx, -, hS⟩ := infer_eq_ok h
  obtain ⟨-, rfl⟩ := Context.generalize?_eq_ok.1 hS
  refine Scheme.free_generalize_of_closed _ fun w hw => ?_
  obtain ⟨u, hu, -⟩ := Context.mem_freeVars.1 hw
  exact not_mem_free_lowest hu

theorem Env.exists_of_not_clear (h : ¬ env.Clear) :
    ∃ w ∈ env.free, env.next.toInt ≤ w.toInt ∧ w.toInt < 2 ^ 63 - 1 := by
  simp only [Clear, not_forall, not_or] at h
  obtain ⟨w, hw, hle, hne⟩ := h
  have hne' : w.toInt ≠ 2 ^ 63 - 1 := fun hw => hne (Int64.toInt_inj.1 hw)
  have hlt := w.toInt_lt
  rw [Int64.not_lt, Int64.le_iff_toInt_le] at hle
  exact ⟨w, hw, hle, by omega⟩

/-- If a run gets to hand out a free variable as fresh, the variable stays free in what is inferred. It
would not if the environment had no free variables. -/
theorem Env.exists_free_of_not_clear (h : ¬ env.Clear) : ∃ e S S', (∀ x, ¬ e.HasFree x) ∧
    env.HasRoom e ∧ (ofBindings lowest).HasRoom e ∧ infer env e = .ok S ∧ S.free ≠ ∅ ∧
    infer (ofBindings lowest) e = .ok S' ∧ S'.free = ∅ := by
  obtain ⟨w, hw, hle, hlt⟩ := exists_of_not_clear h
  obtain ⟨n, hn, S, hS, hfree⟩ := exists_lastOf hle hlt
  have hroom : env.HasRoom (.lastOf n) := by
    rw [HasRoom, demand_lastOf]
    omega
  have hroom' : (ofBindings lowest).HasRoom (.lastOf n) := by
    have hmin : Int64.minValue.toInt = -2 ^ 63 := rfl
    have hlow := env.next.le_toInt
    rw [HasRoom, demand_lastOf, next_lowest]
    omega
  have hclosed : (ofBindings lowest).ClosedFor (.lastOf n) :=
    fun x s hx => absurd hx Expr.not_hasFree_lastOf
  obtain ⟨τ, hτ, -⟩ := Expr.typing_lastOf (ofBindings lowest).assumptions n
  obtain ⟨S', hS', -⟩ := hτ.infer agrees_assumptions (clear_lowest.ready hclosed hroom') hclosed
  refine ⟨.lastOf n, S, S', fun x => Expr.not_hasFree_lastOf, hroom, hroom', hS, fun hnone => ?_, hS',
    free_eq_empty_of_lowest hS'⟩
  have hmem := hfree hw
  rw [hnone] at hmem
  exact VarSet.not_mem_empty w hmem

theorem Env.clear_of_independent (h : env.Independent) : env.Clear := by
  by_contra hclear
  obtain ⟨e, S, S', hnone, hroom, hroom', hS, hfree, hS', hfree'⟩ := exists_free_of_not_clear hclear
  have hagree := h _ _ clear_lowest (fun x hx => absurd hx (hnone x)) hroom hroom'
  rw [hS, hS'] at hagree
  refine hfree (VarSet.ext fun w => iff_of_false (fun hw => ?_) (VarSet.not_mem_empty w))
  obtain ⟨v, hv, -⟩ := (Scheme.equivalent_iff.1 hagree).2.exists_right hw
  rw [hfree'] at hv
  exact VarSet.not_mem_empty v hv

/-- What is inferred depends on nothing but the schemes of the mentioned names, up to equivalence,
exactly if every free variable of the environment is below the variables that are handed out, or the
greatest number of all. -/
theorem infer_independent_iff (bs : List Binding) :
    (Env.ofBindings bs).Independent ↔ (Env.ofBindings bs).Clear := by
  refine ⟨Env.clear_of_independent, fun h bs' e h' hsame hroom hroom' => ?_⟩
  exact hsame.agree (h.ready hsame.closedFor_left hroom) (h'.ready hsame.closedFor_right hroom')

/-- The binding of `z` makes the count start over at the least number, which is free in the binding of
`y`. -/
def Env.wrapped : List Binding :=
  [⟨"k", .mono (.app "Int" [])⟩, ⟨"y", .mono (.var Int64.minValue)⟩,
    ⟨"z", .generalize (.var Int64.maxValue) ∅⟩]

/-- The term `λx. x` mentions no name of the environment, and yet its type is not generalized as it is
in the empty one. -/
theorem infer_depends_on_wrapped_next :
    infer (.ofBindings Env.wrapped) (.func "x" (.var "x")) =
      .ok (.mono (.arrow (.var Int64.minValue) (.var Int64.minValue))) ∧
    infer (.ofBindings []) (.func "x" (.var "x")) = .ok (.generalize (.arrow (.var 0) (.var 0)) ∅) ∧
    ¬ (Env.ofBindings Env.wrapped).Independent := by
  have hok : infer (.ofBindings Env.wrapped) (.func "x" (.var "x")) =
      .ok (.mono (.arrow (.var Int64.minValue) (.var Int64.minValue))) := rfl
  have hok' : infer (.ofBindings []) (.func "x" (.var "x")) =
      .ok (.generalize (.arrow (.var 0) (.var 0)) ∅) := rfl
  have hsame : (Env.ofBindings Env.wrapped).SameFor (.ofBindings []) (.func "x" (.var "x")) := by
    rintro y ⟨hxy, rfl⟩
    exact absurd rfl hxy
  refine ⟨hok, hok', fun h => ?_⟩
  have hagree := h [] _ (by decide) hsame (by decide) (by decide)
  rw [hok, hok'] at hagree
  exact absurd (show _ = true from hagree) (by decide)

/-! ### Binding a scheme by hand -/

theorem Env.ClosedFor.alike (h : env.ClosedFor e) : Env.Alike β env env e := by
  intro x hx
  cases hs : env.lookup x with
  | none => exact .none
  | some s =>
    obtain ⟨hwf, hfree⟩ := h x s hx hs
    exact .some (Scheme.corresponds_self hwf hfree)

theorem Env.ClosedFor.extend (h : env.ClosedFor (.letIn x v b)) (hu : u.WellFormed) :
    (env.extend x (.generalize u ∅)).ClosedFor b :=
  Env.forall_free_extend (P := fun _ s => s.body.WellFormed ∧ s.free = ∅)
    ⟨hu, Scheme.free_generalize_empty u⟩ fun y s hxy hy => h y s (.inr ⟨hxy, hy⟩)

theorem Env.Clear.extend (h : env.Clear) (hu : ∀ w ∈ u.occurrences, w.toInt < 2 ^ 63 - 1) :
    (env.extend x (.generalize u ∅)).Clear := by
  have hmax : ∀ w, (Scheme.generalize u ∅).Mentions w → w.toInt < 2 ^ 63 - 1 := by
    rintro w (hw | hw)
    · exact hu w (Scheme.mem_vars_generalize.1 hw).1
    · exact hu w hw
  intro w hw
  rcases mem_free_extend.1 hw with hw | hw
  · refine (h w hw).imp_left fun hlt => ?_
    have hle : env.next.toInt ≤ (env.extend x _).next.toInt := (le_next_extend hmax).1
    rw [Int64.lt_iff_toInt_lt] at hlt ⊢
    omega
  · rw [Scheme.free_generalize_empty] at hw
    exact absurd hw (VarSet.not_mem_empty w)

/-- The type of a term that mentions closed schemes only is over fresh variables. -/
theorem Ready.lt_of_closed (hr : Ready k env e ctx) (hclosed : env.ClosedFor e)
    (hrun : Infers env e ctx t ctx') :
    ∀ w ∈ (ctx'.aliases.canonicalize t).occurrences, w.toInt < 2 ^ 63 - 1 := by
  have hnext := hrun.from hr.start (hr.count_lt hrun)
  have hlt := hr.count_lt hrun
  have hlocal := hrun.local (X := fun v => v.toInt < 2 ^ 63 - 1) hr.start hlt hr.tidy hr.mentioned
    (fun x s hx hs v hv => absurd ((hclosed x s hx hs).2 ▸ hv) (VarSet.not_mem_empty v))
    fun v _ hv => by omega
  exact Aliases.forall_mem_canonicalize hlocal.2

theorem inferType_letIn (hrun : inferType env v ctx = .ok (t, ctx'))
    (hS : ctx'.generalize? t env.free = .ok S) : inferType env (.letIn x v b) ctx =
      (inferType (env.extend x S) b ctx').mapError (·.under .body) := by
  rw [inferType, hrun]
  simp only [Except.mapError, bind, Except.bind, hS]

/-- The body of a `let` is run after the value, or from a new context. -/
theorem Ready.agree_letIn (hr : Ready env.next.toInt env (.letIn x v b) (.init env.next))
    (hr' : Ready (env.extend x S).next.toInt (env.extend x S) b (.init (env.extend x S).next))
    (hclosed : env.ClosedFor (.letIn x v b)) (hclosed' : (env.extend x S).ClosedFor b)
    (hb : b ≠ .alien .absent) (hrun : Infers env v (.init env.next) t ctx)
    (hS : ctx.generalize? t env.free = .ok S) :
    Agree [.body] (.letIn x v b) b (infer env (.letIn x v b)) (infer (env.extend x S) b) := by
  have hm := inferType_matches (hr.scope hrun hS) hr' hclosed'.alike (.none _ _)
  have hlet : inferType env (.letIn x v b) (.init env.next) = _ :=
    inferType_letIn hrun.inferType_eq hS
  generalize inferType (env.extend x S) b ctx = r at hm hlet
  generalize hbody : inferType (env.extend x S) b (.init (env.extend x S).next) = r' at hm
  cases hm with
  | @error f f' hf =>
    rw [infer_of_error Expr.noConfusion hlet, infer_of_error hb hbody]
    refine ⟨hf.1, (hf.under .body).2, ?_⟩
    rw [Failure.culprit?_under rfl f, hf.culprit? b]
  | ok _ hj htu =>
    exact .of_runs hr hclosed (infers_of_eq hlet) hr' hclosed' (infers_of_eq hbody) hj htu

/-- Inference on a `let` fails as on its value, and otherwise agrees with inference on its body in the
environment that binds the scheme of the value. -/
theorem infer_letIn_agrees_extend (bs : List Binding) (x : String) (v b : Expr)
    (hv : v ≠ .alien .absent) (hb : b ≠ .alien .absent) (hclear : (Env.ofBindings bs).Clear)
    (hclosed : (Env.ofBindings bs).ClosedFor (.letIn x v b))
    (hroom : (Env.ofBindings bs).HasRoom (.letIn x v b))
    (hroom' : ∀ S, infer (.ofBindings bs) v = .ok S → ((Env.ofBindings bs).extend x S).HasRoom b) :
    (∀ f, infer (.ofBindings bs) v = .error f →
      infer (.ofBindings bs) (.letIn x v b) = .error (f.under .value) ∧
      (f.under .value).culprit? (.letIn x v b) = f.culprit? v) ∧
    (∀ S, infer (.ofBindings bs) v = .ok S → Agree [.body] (.letIn x v b) b
      (infer (.ofBindings bs) (.letIn x v b)) (infer ((Env.ofBindings bs).extend x S) b)) := by
  have hr := hclear.ready hclosed hroom
  set env := Env.ofBindings bs
  cases hval : inferType env v (.init env.next) with
  | error f =>
    have hlet : inferType env (.letIn x v b) (.init env.next) = .error (f.under .value) := by
      rw [inferType, hval]
      rfl
    have hf := infer_of_error hv hval
    refine ⟨fun f' hf' => ?_, fun S hS => ?_⟩
    · obtain rfl := Except.error.inj (hf.symm.trans hf')
      exact ⟨infer_of_error Expr.noConfusion hlet, Failure.culprit?_under rfl f⟩
    · rw [hf] at hS
      cases hS
  | ok r =>
    have hrun := infers_of_eq hval
    have hvalue : env.ClosedFor v := fun y s hy => hclosed y s (.inl hy)
    obtain ⟨hwf, hS⟩ := hr.value.generalize?_eq hvalue hrun
    have hok := infer_of_infers hrun hS
    refine ⟨fun f hf => ?_, fun S hS' => ?_⟩
    · rw [hok] at hf
      cases hf
    obtain rfl := Except.ok.inj (hok.symm.trans hS')
    have hclosed' := hclosed.extend hwf
    have hr' := Ready.init ((Env.covers_ofBindings bs).extend x _)
      (hclear.extend (hr.value.lt_of_closed hvalue hrun)).old
      (fun y s hy hs => (hclosed' y s hy hs).1) (hroom' _ hok)
    exact hr.agree_letIn hr' hclosed hclosed' hb hrun hS

/-- A function to `Int`, and a name whose type has a free variable. -/
def Env.sample : List Binding :=
  [⟨"f", .generalize (.arrow (.var 0) (.app "Int" [])) ∅⟩, ⟨"y", .mono (.var 5)⟩]

theorem infer_letIn_agrees_extend_polymorphic :
    (Env.ofBindings Env.sample).Clear ∧
    infer (.ofBindings Env.sample) (.func "u" (.var "u")) =
      .ok (.generalize (.arrow (.var 6) (.var 6)) ∅) ∧
    Agree [.body] (.letIn "g" (.func "u" (.var "u")) (.call (.var "g") (.var "g")))
      (.call (.var "g") (.var "g"))
      (infer (.ofBindings Env.sample)
        (.letIn "g" (.func "u" (.var "u")) (.call (.var "g") (.var "g"))))
      (infer ((Env.ofBindings Env.sample).extend "g" (.generalize (.arrow (.var 6) (.var 6)) ∅))
        (.call (.var "g") (.var "g"))) := by
  have hclear : (Env.ofBindings Env.sample).Clear := by decide
  have hvalue : infer (.ofBindings Env.sample) (.func "u" (.var "u")) =
      .ok (.generalize (.arrow (.var 6) (.var 6)) ∅) := rfl
  have hclosed : (Env.ofBindings Env.sample).ClosedFor
      (.letIn "g" (.func "u" (.var "u")) (.call (.var "g") (.var "g"))) := by
    rintro x s (⟨hx, rfl⟩ | ⟨hx, rfl | rfl⟩)
    exacts [absurd rfl hx, absurd rfl hx, absurd rfl hx]
  refine ⟨hclear, hvalue, (infer_letIn_agrees_extend _ _ _ _ (by simp) (by simp) hclear hclosed
    (by decide) fun S hS => ?_).2 _ hvalue⟩
  obtain rfl := Except.ok.inj (hS.symm.trans hvalue)
  decide

/-- The value takes a variable and leaves none in its scheme. So the parameter of `λw. w` gets a variable
of its own after the value, and the one of `y` from a new context. -/
theorem infer_letIn_disagrees_of_wrapped_next :
    infer (.ofBindings Env.wrapped) (.letIn "q" (.func "u" (.var "u")) (.var "k")) =
      .ok (.mono (.app "Int" [])) ∧
    infer (.ofBindings Env.wrapped)
        (.letIn "x" (.letIn "q" (.func "u" (.var "u")) (.var "k")) (.func "w" (.var "w"))) =
      .ok (.generalize (.arrow (.var (Int64.minValue + 1)) (.var (Int64.minValue + 1))) ∅) ∧
    infer ((Env.ofBindings Env.wrapped).extend "x" (.mono (.app "Int" []))) (.func "w" (.var "w")) =
      .ok (.mono (.arrow (.var Int64.minValue) (.var Int64.minValue))) ∧
    (Scheme.generalize (.arrow (.var (Int64.minValue + 1)) (.var (Int64.minValue + 1))) ∅).equivalent
      (.mono (.arrow (.var Int64.minValue) (.var Int64.minValue))) = false ∧
    (Env.ofBindings Env.wrapped).ClosedFor
      (.letIn "x" (.letIn "q" (.func "u" (.var "u")) (.var "k")) (.func "w" (.var "w"))) ∧
    (Env.ofBindings Env.wrapped).HasRoom
      (.letIn "x" (.letIn "q" (.func "u" (.var "u")) (.var "k")) (.func "w" (.var "w"))) ∧
    ((Env.ofBindings Env.wrapped).extend "x" (.mono (.app "Int" []))).HasRoom (.func "w" (.var "w")) := by
  refine ⟨rfl, rfl, rfl, by decide, fun y s hy hs => ?_, by decide, by decide⟩
  obtain rfl : y = "k" := by grind [Expr.HasFree]
  cases hs
  exact ⟨rfl, by decide⟩

end LetPoly
