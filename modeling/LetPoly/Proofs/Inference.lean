import Mathlib.Algebra.Group.Int.Defs
import LetPoly.Infer
import LetPoly.Proofs.Environment
import LetPoly.Proofs.Typing
import LetPoly.Proofs.Unification

/-!
# Successful runs of inference

`Infers env e ctx t ctx'` is what `inferType` answers when it succeeds (`infers_iff`), as a relation
with one rule for each kind of term: later proofs go by induction on it and never open `inferType`.
The operations on contexts that the rules use get one lemma each that says what they leave behind.

A supply that has handed out `k` variables is `Supply.after k`. Its variables are the next `k`
numbers as long as these stay below `2 ^ 63`; `demand` is how many of them a run takes in all, also
when it fails.
-/

namespace LetPoly

/-! ### The supply -/

namespace Supply
variable {s : Supply} {j k : Nat}

/-- The supply after `k` variables have been handed out. -/
def after (s : Supply) (k : Nat) : Supply := ⟨s.next + .ofNat k, s.count + k⟩

theorem after_zero (s : Supply) : s.after 0 = s := by
  simp [after]

theorem advance_eq_after (s : Supply) : s.advance = s.after 1 := rfl

theorem after_after (s : Supply) (j k : Nat) : (s.after j).after k = s.after (j + k) := by
  simp [after, Int64.add_assoc, Nat.add_assoc]

theorem take_eq (s : Supply) (n : Nat) :
    s.take n = ((List.range n).map fun i => (s.after i).next, s.after n) := by
  induction n generalizing s with
  | zero => simp [take, after_zero]
  | succ n ih =>
    rw [take, ih, advance_eq_after, List.range_succ_eq_map, List.map_cons, List.map_map]
    simp only [after_after, Function.comp_def, Nat.add_comm 1, after_zero]

theorem next_toInt_after (h : s.next.toInt + k < 2 ^ 63) :
    (s.after k).next.toInt = s.next.toInt + k := by
  have hlow := s.next.le_toInt
  show (s.next + .ofNat k).toInt = _
  rw [Int64.toInt_add, Int64.toInt_ofNat', show Int64.size = 2 ^ 64 from rfl, Int.add_bmod_bmod]
  exact Int.bmod_eq_of_le (by omega) (by omega)

end Supply

/-! ### Instantiation, generalization, unification -/

theorem Subst.apply_zip_range {v : TyVar} (vs : List TyVar) (f : Nat → TyVar) :
    Subst.apply (vs.zip (((List.range vs.length).map f).map .var)) v =
      if v ∈ vs then .var (f (vs.idxOf v)) else .var v := by
  induction vs generalizing f with
  | nil => rfl
  | cons w vs ih =>
    rw [List.length_cons, List.range_succ_eq_map, List.map_cons, List.map_cons, List.zip_cons_cons,
      Subst.apply, List.lookup_cons]
    by_cases h : v = w
    · subst h
      simp
    · have hne : w ≠ v := Ne.symm h
      rw [beq_false_of_ne h, List.map_map (g := f) (f := Nat.succ)]
      simp only [List.mem_cons, h, false_or, List.idxOf_cons_ne _ hne]
      exact ih (f ∘ Nat.succ)

theorem Scheme.instantiate?_of_wellFormed {s : Scheme} (hs : s.body.WellFormed) (supply : Supply) :
    (s.instantiate? supply).1 = .ok (s.instantiateWith (supply.take s.vars.size).1) := by
  have hwf : (s.instantiateWith (supply.take s.vars.size).1).WellFormed := by
    rw [Scheme.instantiateWith, Ty.substitute_eq_subst]
    refine Ty.wellFormed_subst_iff.2 ⟨hs, fun v _ => ?_⟩
    rw [Supply.take_eq, VarSet.size, Subst.apply_zip_range s.vars.toList]
    split <;> exact Ty.wellFormed_var _
  show (if s.isMono then Except.ok _ else Ty.checked _) = _
  split
  · rfl
  · exact Ty.checked_eq_ok.2 ⟨hwf, rfl⟩

namespace Context
variable {ctx ctx' : Context} {a b t : Ty} {s : Scheme} {F : VarSet} {v w : TyVar}

/-- The variable that stands for the quantified variable `v` in the next copy of `s`. -/
def rename (ctx : Context) (s : Scheme) (v : TyVar) : Ty :=
  if v ∈ s.vars then .var (ctx.supply.after (s.vars.toList.idxOf v)).next else .var v

theorem instantiate?_eq_ok (h : ctx.instantiate? s = (.ok t, ctx')) :
    t = s.body.subst (ctx.rename s) ∧
      ctx' = { ctx with supply := ctx.supply.after s.vars.size } := by
  have hcopy : s.instantiateWith ((ctx.supply.take s.vars.size).1) =
      s.body.subst (ctx.rename s) := by
    rw [Supply.take_eq, Scheme.instantiateWith, Ty.substitute_eq_subst]
    exact Ty.subst_congr fun v _ => Subst.apply_zip_range _ fun i => (ctx.supply.after i).next
  unfold instantiate? Scheme.instantiate? Scheme.instantiate at h
  rw [Supply.take_eq] at h hcopy
  obtain ⟨ht, hctx⟩ := Prod.mk.inj h
  refine ⟨?_, hctx.symm⟩
  rw [← hcopy]
  split at ht
  · exact (Except.ok.inj ht).symm
  · exact (Ty.checked_eq_ok.1 ht).2.symm

theorem instantiate?_of_wellFormed (ctx : Context) (hs : s.body.WellFormed) :
    ∃ t ctx', ctx.instantiate? s = (.ok t, ctx') :=
  ⟨_, _, Prod.ext (Scheme.instantiate?_of_wellFormed hs ctx.supply) rfl⟩

theorem mem_freeVars :
    w ∈ ctx.freeVars F ↔ ∃ v ∈ F, w ∈ (ctx.aliases.value v).occurrences := by
  rw [freeVars, VarSet.mem_ofList, List.mem_flatMap]
  rfl

theorem generalize?_eq_ok : ctx.generalize? t F = .ok s ↔
    (ctx.aliases.canonicalize t).WellFormed ∧
      s = .generalize (ctx.aliases.canonicalize t) (ctx.freeVars F) := by
  unfold generalize? canonicalize? Aliases.canonicalize?
  constructor
  · intro h
    cases hc : (ctx.aliases.canonicalize t).checked with
    | error x => rw [hc] at h; cases h
    | ok u =>
      rw [hc] at h
      obtain ⟨hwf, rfl⟩ := Ty.checked_eq_ok.1 hc
      exact ⟨hwf, (Except.ok.inj h).symm⟩
  · rintro ⟨hwf, rfl⟩
    rw [Ty.checked_eq_ok.2 ⟨hwf, rfl⟩]
    rfl

theorem unify_eq_none : ctx.unify a b = (ctx', none) ↔
    (ctx.aliases.unify? a b).2 = none ∧
      ctx' = { ctx with aliases := (ctx.aliases.unify? a b).1 } :=
  ⟨fun h => ⟨(Prod.mk.inj h).2, (Prod.mk.inj h).1.symm⟩, fun ⟨h, hctx⟩ => by rw [hctx, ← h]; rfl⟩

end Context

/-! ### Runs -/

/-- A run on `e` that starts from `ctx` finds the type `t` and leaves `ctx'`. -/
inductive Infers : Env → Expr → Context → Ty → Context → Prop
  | var {env : Env} {x : String} {s : Scheme} {ctx ctx' : Context} {t : Ty} :
    env.lookup x = some s → ctx.instantiate? s = (.ok t, ctx') → Infers env (.var x) ctx t ctx'
  | call {env : Env} {f a : Expr} {ctx ctx₁ ctx₂ ctx' : Context} {tf ta : Ty} :
    Infers env f ctx tf ctx₁ → Infers env a ctx₁ ta ctx₂ →
    ctx₂.fresh.2.unify tf (.arrow ta (.var ctx₂.supply.next)) = (ctx', none) →
    Infers env (.call f a) ctx (.var ctx₂.supply.next) ctx'
  | func {env : Env} {x : String} {b : Expr} {ctx ctx' : Context} {t : Ty} :
    Infers (env.extend x (.mono (.var ctx.supply.next))) b ctx.fresh.2 t ctx' →
    Infers env (.func x b) ctx (.arrow (.var ctx.supply.next) t) ctx'
  | letIn {env : Env} {x : String} {v b : Expr} {ctx ctx₁ ctx' : Context} {tv t : Ty} {s : Scheme} :
    Infers env v ctx tv ctx₁ → ctx₁.generalize? tv env.free = .ok s →
    Infers (env.extend x s) b ctx₁ t ctx' → Infers env (.letIn x v b) ctx t ctx'

variable {env : Env} {e : Expr} {ctx ctx' : Context} {t : Ty}

theorem Infers.inferType_eq (h : Infers env e ctx t ctx') : inferType env e ctx = .ok (t, ctx') := by
  induction h with
  | var hx ht => simp only [inferType, hx, ht]
  | call _ _ hu ihf iha =>
    simp only [inferType, ihf, Except.mapError, bind, Except.bind, iha]
    rw [Context.fresh] at hu ⊢
    rw [hu]
  | func _ ih =>
    simp only [inferType, Context.fresh] at ih ⊢
    rw [ih]
    rfl
  | letIn _ hs _ ihv ihb =>
    simp only [inferType, ihv, Except.mapError, bind, Except.bind, hs, ihb]

theorem except_bind_ok {ε α β : Type} {m : Except ε α} {f : α → Except ε β} {b : β}
    (h : m >>= f = .ok b) : ∃ a, m = .ok a ∧ f a = .ok b := by
  cases m with
  | error e => cases h
  | ok a => exact ⟨a, rfl, h⟩

theorem except_mapError_ok {ε ε' α : Type} {m : Except ε α} {f : ε → ε'} {a : α}
    (h : m.mapError f = .ok a) : m = .ok a := by
  cases m with
  | error e => cases h
  | ok a => exact congrArg Except.ok (Except.ok.inj h)

theorem infers_of_eq (h : inferType env e ctx = .ok (t, ctx')) : Infers env e ctx t ctx' := by
  induction e generalizing env ctx t ctx' with
  | var x =>
    rw [inferType] at h
    split at h
    · cases h
    · rename_i s hs
      split at h
      · rename_i t' ctx'' ht
        cases h
        exact .var hs ht
      · cases h
  | call f a ihf iha =>
    rw [inferType] at h
    obtain ⟨⟨tf, ctx₁⟩, hf, h⟩ := except_bind_ok h
    obtain ⟨⟨ta, ctx₂⟩, ha, h⟩ := except_bind_ok h
    dsimp only at h ha
    split at h
    · rename_i ctx₃ hu
      cases h
      exact .call (ihf (except_mapError_ok hf)) (iha (except_mapError_ok ha)) hu
    · cases h
  | func x b ih =>
    rw [inferType] at h
    obtain ⟨⟨tb, ctx₁⟩, hb, h⟩ := except_bind_ok h
    cases h
    exact .func (ih (except_mapError_ok hb))
  | letIn x v b ihv ihb =>
    rw [inferType] at h
    obtain ⟨⟨tv, ctx₁⟩, hv, h⟩ := except_bind_ok h
    dsimp only at h
    split at h
    · cases h
    · rename_i s hs
      exact .letIn (ihv (except_mapError_ok hv)) hs (ihb (except_mapError_ok h))
  | alien a => cases h

theorem infers_iff : Infers env e ctx t ctx' ↔ inferType env e ctx = .ok (t, ctx') :=
  ⟨Infers.inferType_eq, infers_of_eq⟩

/-! ### What a run does to the context -/

theorem Infers.grows (h : Infers env e ctx t ctx') (hA : ctx.aliases.Acyclic) :
    Aliases.Grows (fun _ => True) ctx.aliases ctx'.aliases := by
  induction h with
  | var _ ht =>
    obtain ⟨-, rfl⟩ := Context.instantiate?_eq_ok ht
    exact .refl _
  | call _ _ hu ihf iha =>
    have hf := ihf hA
    have ha := iha (hf.acyclic hA)
    obtain ⟨-, rfl⟩ := Context.unify_eq_none.1 hu
    exact (hf.trans ha).trans (Aliases.unify?_grows (ha.acyclic (hf.acyclic hA)) (fun _ _ => trivial)
      fun _ _ => trivial)
  | func _ ih => exact ih hA
  | letIn _ _ _ ihv ihb =>
    have hv := ihv hA
    exact hv.trans (ihb (hv.acyclic hA))

theorem Infers.acyclic (h : Infers env e ctx t ctx') (hA : ctx.aliases.Acyclic) :
    ctx'.aliases.Acyclic :=
  (h.grows hA).acyclic hA

theorem Env.forall_free_extend {P : String → Scheme → Prop} {x : String} {s : Scheme} {b : Expr}
    (hx : P x s) (h : ∀ y s', y ≠ x → b.HasFree y → env.lookup y = some s' → P y s') :
    ∀ y s', b.HasFree y → (env.extend x s).lookup y = some s' → P y s' := by
  intro y s' hy hs'
  refine forall_lookup_extend (P := fun y s' => b.HasFree y → P y s') (fun _ => hx) ?_ y s' hs' hy
  exact fun y s' hxy hs' hy => h y s' hxy hy hs'

theorem Infers.wellFormed (h : Infers env e ctx t ctx') (hA : ctx.aliases.Acyclic)
    (hwf : ∀ v u, ctx.aliases.lookup v = some u → u.WellFormed)
    (henv : ∀ x s, e.HasFree x → env.lookup x = some s → s.body.WellFormed) : t.WellFormed := by
  induction h with
  | @var env x s ctx ctx' t hx ht =>
    obtain ⟨rfl, -⟩ := Context.instantiate?_eq_ok ht
    refine Ty.wellFormed_subst_iff.2 ⟨henv x s rfl hx, fun v _ => ?_⟩
    unfold Context.rename
    split <;> exact Ty.wellFormed_var _
  | call => exact Ty.wellFormed_var _
  | func _ ih =>
    refine Ty.wellFormed_arrow.2 ⟨Ty.wellFormed_var _, ih hA hwf ?_⟩
    exact Env.forall_free_extend (P := fun _ s => s.body.WellFormed) (Ty.wellFormed_var _)
      fun y s hxy hy => henv y s ⟨hxy, hy⟩
  | letIn hv hs _ _ ihb =>
    have hg := hv.grows hA
    refine ihb (hg.acyclic hA) (hg.forall_lookup hwf fun _ _ _ _ h => h) ?_
    obtain ⟨hwf, rfl⟩ := Context.generalize?_eq_ok.1 hs
    exact Env.forall_free_extend (P := fun _ s => s.body.WellFormed) hwf
      fun y s hxy hy => henv y s (.inr ⟨hxy, hy⟩)

/-- The number of variables that a run takes from the supply, up to its end or its failure. -/
def demand (env : Env) (e : Expr) (ctx : Context) : Nat :=
  match e with
  | .var x =>
    match env.lookup x with
    | none => 0
    | some s => s.vars.size
  | .call f a =>
    demand env f ctx + match inferType env f ctx with
      | .error _ => 0
      | .ok (_, ctx) => demand env a ctx + match inferType env a ctx with
        | .error _ => 0
        | .ok _ => 1
  | .func x b => 1 + demand (env.extend x (.mono (.var ctx.supply.next))) b ctx.fresh.2
  | .letIn x v b =>
    demand env v ctx + match inferType env v ctx with
      | .error _ => 0
      | .ok (t, ctx) => match ctx.generalize? t env.free with
        | .error _ => 0
        | .ok s => demand (env.extend x s) b ctx
  | .alien _ => 0

theorem Infers.supply_eq (h : Infers env e ctx t ctx') :
    ctx'.supply = ctx.supply.after (demand env e ctx) := by
  induction h with
  | var hx ht =>
    obtain ⟨-, rfl⟩ := Context.instantiate?_eq_ok ht
    simp only [demand, hx]
  | call hf ha hu ihf iha =>
    obtain ⟨-, rfl⟩ := Context.unify_eq_none.1 hu
    simp only [demand, hf.inferType_eq, ha.inferType_eq]
    show Supply.advance _ = _
    rw [Supply.advance_eq_after, iha, ihf, Supply.after_after, Supply.after_after]
  | func _ ih =>
    rw [ih, demand]
    show (Supply.advance _).after _ = _
    rw [Supply.advance_eq_after, Supply.after_after]
  | letIn hv hs _ ihv ihb =>
    simp only [demand, hv.inferType_eq, hs]
    rw [ihb, ihv, Supply.after_after]

theorem Infers.count_eq (h : Infers env e ctx t ctx') :
    ctx'.supply.count = ctx.supply.count + demand env e ctx :=
  congrArg Supply.count h.supply_eq

end LetPoly
