import LetPoly.Proofs.Freshness
import LetPoly.Proofs.Soundness

/-!
# Completeness of inference

Whatever type a term has, inference succeeds on it and finds a type that has the given one as an
instance (`Typing.infers`). The induction is on the derivation. It carries a solution of the aliases
along, extended by values for the fresh variables as they are handed out: the derivation says which.

Under a `let` the found scheme has to quantify every variable that the derivation quantifies. Its
other variables are those that the environment reaches. They are reached from the schemes that the
value mentions (`Infers.mentioned_of_shared`), so their values are over variables that are free in the
assumptions, which the derivation leaves alone as well.

The environment may have free variables in bindings that the term does not mention. They do no harm
as long as none of them is handed out as fresh (`Env.Covers.complete`). If one is, it is not
quantified where it should be (`Env.not_complete_of_free`).
-/

namespace LetPoly

variable {env : Env} {e f a v b : Expr} {x : String} {ctx ctx₁ ctx' : Context} {t : Ty} {s : Scheme}
  {θ θ' g : TyVar → Mono Int} {Γ : Assumptions} {τ σ : Mono Int} {k : Int} {w : TyVar}

/-! ### Values for fresh variables -/

/-- `θ`, but with values from `g` for the variables still to be handed out. -/
def Supply.splice (s : Supply) (θ g : TyVar → Mono Int) (v : TyVar) : Mono Int :=
  if s.next.toInt ≤ v.toInt ∧ v.toInt < 2 ^ 63 - 1 then g v else θ v

theorem Supply.splice_of_old {s : Supply} (h : s.Old w) : s.splice θ g w = θ w :=
  if_neg fun hw => Supply.not_old hw.1 hw.2 h

theorem Supply.splice_of_fresh {s : Supply} (hle : s.next.toInt ≤ w.toInt)
    (hlt : w.toInt < 2 ^ 63 - 1) : s.splice θ g w = g w :=
  if_pos ⟨hle, hlt⟩

theorem Context.Tidy.solves_splice (h : ctx.Tidy) (hθ : Aliases.Solves θ ctx.aliases)
    (g : TyVar → Mono Int) : Aliases.Solves (ctx.supply.splice θ g) ctx.aliases := by
  refine hθ.congr fun v t hv => ?_
  obtain ⟨hold, ht⟩ := h.old v t hv
  exact ⟨Supply.splice_of_old hold, fun w hw => Supply.splice_of_old (ht w hw)⟩

/-! ### Assumptions and environments -/

/-- On the free names of `e`, the environment's schemes have all instances of what `Γ` assumes, and no
free variables beyond its. -/
def Assumptions.AtMost (Γ : Assumptions) (env : Env) (θ : TyVar → Mono Int) (e : Expr) : Prop :=
  ∀ x p, e.HasFree x → Γ.lookup x = some p → ∃ s, env.lookup x = some s ∧
    (∀ τ, p.Instance τ → (s.eval θ).Instance τ) ∧ ∀ i, (s.eval θ).Free i → p.Free i

theorem Assumptions.AtMost.cons {p : Poly} (hinst : ∀ τ, p.Instance τ → (s.eval θ).Instance τ)
    (hfree : ∀ i, (s.eval θ).Free i → p.Free i)
    (h : ∀ y p', y ≠ x → b.HasFree y → Γ.lookup y = some p' → ∃ s', env.lookup y = some s' ∧
      (∀ τ, p'.Instance τ → (s'.eval θ).Instance τ) ∧ ∀ i, (s'.eval θ).Free i → p'.Free i) :
    Assumptions.AtMost ((x, p) :: Γ) (env.extend x s) θ b := by
  intro y p' hy hp'
  by_cases hxy : y = x
  · subst hxy
    rw [lookup_cons_self] at hp'
    obtain rfl := Option.some.inj hp'
    exact ⟨s, Env.lookup_extend_self env y s, hinst, hfree⟩
  · rw [lookup_cons_of_ne hxy] at hp'
    rw [Env.lookup_extend_of_ne hxy]
    exact h y p' hxy hy hp'

theorem Assumptions.AtMost.congr (h : Γ.AtMost env θ e) (hθ : env.Mentioned e fun v => θ' v = θ v) :
    Γ.AtMost env θ' e := by
  intro x p hx hp
  obtain ⟨s, hs, hinst, hfree⟩ := h x p hx hp
  have heval : s.eval θ' = s.eval θ := Scheme.eval_congr (hθ x s hx hs)
  exact ⟨s, hs, heval ▸ hinst, heval ▸ hfree⟩

theorem Typing.exists_lookup (h : Typing Γ e τ) (hx : e.HasFree x) : ∃ p, Γ.lookup x = some p := by
  induction h with
  | @var Γ y p τ hp _ =>
    obtain rfl : x = y := hx
    exact ⟨p, hp⟩
  | call _ _ ihf iha => exact hx.elim ihf iha
  | func _ ih =>
    obtain ⟨p, hp⟩ := ih hx.2
    rw [Assumptions.lookup_cons_of_ne hx.1] at hp
    exact ⟨p, hp⟩
  | letIn _ _ _ _ ihv ihb =>
    rcases hx with hx | ⟨hne, hx⟩
    · exact ihv hx
    · obtain ⟨p, hp⟩ := ihb hx
      rw [Assumptions.lookup_cons_of_ne hne] at hp
      exact ⟨p, hp⟩

/-! ### Calls that can be completed -/

/-- What a run on `e` that started at `k` may count on. -/
structure Ready (k : Int) (env : Env) (e : Expr) (ctx : Context) : Prop where
  start : ctx.supply.From k
  room : k + ctx.supply.count + demand env e ctx < 2 ^ 63
  tidy : ctx.Tidy
  wellFormed : ∀ x s, e.HasFree x → env.lookup x = some s → s.body.WellFormed
  covers : env.Covers
  old : ∀ v ∈ env.free, ctx.supply.Old v

namespace Ready

/-- The first call, from an environment none of whose free variables will be handed out. -/
theorem init (hcov : env.Covers) (hold : ∀ v ∈ env.free, (Context.init env.next).supply.Old v)
    (hwf : ∀ x s, e.HasFree x → env.lookup x = some s → s.body.WellFormed)
    (hroom : env.next.toInt + demand env e (.init env.next) < 2 ^ 63) :
    Ready env.next.toInt env e (.init env.next) where
  start := (Int.add_zero _).symm
  room := by
    show env.next.toInt + 0 + _ < _
    omega
  tidy := .init _
  wellFormed := hwf
  covers := hcov
  old := hold

theorem mentioned (h : Ready k env e ctx) : env.Mentioned e ctx.supply.Old :=
  fun x s _ hs v hv => h.old v (h.covers x s hs v hv)

theorem count_lt (h : Ready k env e ctx) (hrun : Infers env e ctx t ctx') :
    k + ctx'.supply.count < 2 ^ 63 := by
  have hroom := h.room
  have hcount := hrun.count_eq
  omega

theorem next_le (h : Ready k env e ctx) (hrun : Infers env e ctx t ctx') :
    ctx.supply.next.toInt ≤ ctx'.supply.next.toInt := by
  have hcount := hrun.count_le
  have hk := h.start
  have hk' := hrun.from h.start (h.count_lt hrun)
  omega

theorem tidy_of_run (h : Ready k env e ctx) (hrun : Infers env e ctx t ctx') :
    ctx'.Tidy ∧ ∀ v ∈ t.occurrences, ctx'.supply.Old v :=
  hrun.tidy h.start (h.count_lt hrun) h.tidy h.mentioned

theorem wellFormed_of_run (h : Ready k env e ctx) (hrun : Infers env e ctx t ctx') : t.WellFormed :=
  hrun.wellFormed h.tidy.acyclic h.tidy.wellFormed h.wellFormed

theorem of_run (h : Ready k env e ctx) (hrun : Infers env e ctx t ctx')
    (hroom : k + ctx'.supply.count + demand env a ctx' < 2 ^ 63)
    (hwf : ∀ x s, a.HasFree x → env.lookup x = some s → s.body.WellFormed) : Ready k env a ctx' where
  start := hrun.from h.start (h.count_lt hrun)
  room := hroom
  tidy := (h.tidy_of_run hrun).1
  wellFormed := hwf
  covers := h.covers
  old v hv := (h.old v hv).mono (h.next_le hrun)

theorem callee (h : Ready k env (.call f a) ctx) : Ready k env f ctx := by
  have hroom := h.room
  have hd : demand env f ctx ≤ demand env (.call f a) ctx := by
    rw [demand]
    exact Nat.le_add_right _ _
  exact { h with
    room := by omega
    wellFormed := fun x s hx => h.wellFormed x s (.inl hx) }

theorem argument (h : Ready k env (.call f a) ctx) (hf : Infers env f ctx t ctx₁) :
    Ready k env a ctx₁ := by
  have hroom := h.room
  have hcount := hf.count_eq
  have hd : demand env f ctx + demand env a ctx₁ ≤ demand env (.call f a) ctx := by
    simp only [demand, hf.inferType_eq]
    exact Nat.add_le_add_left (Nat.le_add_right _ _) _
  exact h.callee.of_run hf (by omega) fun x s hx => h.wellFormed x s (.inr hx)

theorem result (h : Ready k env (.call f a) ctx) {t' : Ty} (hf : Infers env f ctx t ctx₁)
    (ha : Infers env a ctx₁ t' ctx') : k + (ctx'.supply.count + 1) < 2 ^ 63 := by
  have hroom := h.room
  have hcount₁ := hf.count_eq
  have hcount := ha.count_eq
  have hd : demand env (.call f a) ctx = demand env f ctx + (demand env a ctx₁ + 1) := by
    simp only [demand, hf.inferType_eq, ha.inferType_eq]
  omega

theorem body (h : Ready k env (.func x b) ctx) :
    Ready k (env.extend x (.mono (.var ctx.supply.next))) b ctx.fresh.2 := by
  have hroom := h.room
  have hstart := h.start
  have hcount : ctx.fresh.2.supply.count = ctx.supply.count + 1 := rfl
  rw [demand] at hroom
  have hstart' : ctx.fresh.2.supply.From k := h.start.advance (by omega)
  refine
    { start := hstart'
      room := by omega
      tidy := h.tidy.of_le rfl (by omega)
      wellFormed := ?_
      covers := h.covers.extend _ _
      old := fun v hv => ?_ }
  · exact Env.forall_free_extend (P := fun _ s => s.body.WellFormed) (Ty.wellFormed_var _)
      fun y s hxy hy => h.wellFormed y s ⟨hxy, hy⟩
  · rcases Env.mem_free_extend.1 hv with hv | hv
    · exact (h.old v hv).mono (by omega)
    · rw [Ty.mem_occurrences_var.1 (Scheme.mem_free.1 hv).1]
      exact .inl (by omega)

theorem value (h : Ready k env (.letIn x v b) ctx) : Ready k env v ctx := by
  have hroom := h.room
  have hd : demand env v ctx ≤ demand env (.letIn x v b) ctx := by
    rw [demand]
    exact Nat.le_add_right _ _
  exact { h with
    room := by omega
    wellFormed := fun x s hx => h.wellFormed x s (.inl hx) }

theorem scope (h : Ready k env (.letIn x v b) ctx) (hv : Infers env v ctx t ctx₁)
    (hs : ctx₁.generalize? t env.free = .ok s) : Ready k (env.extend x s) b ctx₁ := by
  have hroom := h.room
  have hcount := hv.count_eq
  have hd : demand env (.letIn x v b) ctx = demand env v ctx + demand (env.extend x s) b ctx₁ := by
    simp only [demand, hv.inferType_eq, hs]
  obtain ⟨htidy, ht⟩ := h.value.tidy_of_run hv
  obtain ⟨hwf, hgen⟩ := Context.generalize?_eq_ok.1 hs
  refine
    { start := hv.from h.start (h.value.count_lt hv)
      room := by omega
      tidy := htidy
      wellFormed := ?_
      covers := h.covers.extend _ _
      old := fun w hw => ?_ }
  · refine Env.forall_free_extend (P := fun _ s => s.body.WellFormed) ?_
      fun y s' hxy hy => h.wellFormed y s' (.inr ⟨hxy, hy⟩)
    rw [hgen]
    exact hwf
  · rcases Env.mem_free_extend.1 hw with hw | hw
    · exact (h.old w hw).mono (h.value.next_le hv)
    · rw [hgen] at hw
      exact Aliases.forall_mem_canonicalize (fun u hu => htidy.keeps_old (ht u hu)) w
        (Scheme.mem_free.1 hw).1

end Ready

/-! ### Runs are complete -/

/-- What the environment keeps from being quantified is reached from the mentioned schemes. -/
theorem Ready.mem_freeVars (h : Ready k env e ctx) (hrun : Infers env e ctx t ctx')
    (hw : w ∈ (ctx'.aliases.canonicalize t).occurrences) :
    w ∈ ctx'.freeVars env.free ↔ ∃ x s, e.HasFree x ∧ env.lookup x = some s ∧
      ∃ v ∈ s.free, w ∈ (ctx'.aliases.value v).occurrences := by
  rw [Context.mem_freeVars]
  constructor
  · rintro ⟨u, hu, hwu⟩
    exact hrun.mentioned_of_shared h.start (h.count_lt hrun) h.tidy h.mentioned hw (h.old u hu) hwu
  · rintro ⟨x, s, -, hs, v, hv, hwv⟩
    exact ⟨v, h.covers x s hs v hv, hwv⟩

/-- The values of the variables that a `let` does not quantify are over free variables of the
assumptions. -/
theorem Ready.free_of_fixed (h : Ready k env e ctx) (hrun : Infers env e ctx t ctx')
    (hΓ : Γ.AtMost env θ e) (htyping : Typing Γ e τ) (hθ' : Aliases.Solves θ' ctx'.aliases)
    (hagree : ∀ v, ctx.supply.Old v → θ' v = θ v)
    (hw : w ∈ (ctx'.aliases.canonicalize t).occurrences) (hfixed : w ∈ ctx'.freeVars env.free)
    {i : Int} (hi : (θ' w).Occurs i) : Γ.Free i := by
  obtain ⟨x, s, hx, hs, v, hv, hwv⟩ := (h.mem_freeVars hrun hw).1 hfixed
  have hvi : (θ v).Occurs i := by
    rw [← hagree v (h.mentioned x s hx hs v hv), ← hθ'.eval_value v]
    exact Ty.occurs_eval.2 ⟨w, hwv, hi⟩
  obtain ⟨p, hp⟩ := htyping.exists_lookup hx
  obtain ⟨s', hs', -, hfree⟩ := hΓ x p hx hp
  obtain rfl : s' = s := Option.some.inj (hs'.symm.trans hs)
  exact ⟨x, p, hp, hfree i (Scheme.free_eval.2 ⟨v, hv, hvi⟩)⟩

/-- A copy of a scheme can be given any instance of the scheme as its value. -/
theorem Ready.instance_splice (h : Ready k env (.var x) ctx) (hs : env.lookup x = some s)
    (θ m : TyVar → Mono Int) :
    ∃ g, (s.body.subst (ctx.rename s)).eval (ctx.supply.splice θ g) =
      s.body.eval fun v => if v ∈ s.vars then m v else θ v := by
  have hroom := h.room
  have hstart := h.start
  simp only [demand, hs] at hroom
  refine ⟨fun v => m (s.vars.toList.getD (v.toInt - ctx.supply.next.toInt).toNat 0), ?_⟩
  rw [Ty.eval_subst]
  refine Ty.eval_congr fun v hv => ?_
  unfold Context.rename
  split
  · rename_i hmem
    have hidx : s.vars.toList.idxOf v < s.vars.size := List.idxOf_lt_length_iff.2 hmem
    have hnext : (ctx.supply.after (s.vars.toList.idxOf v)).next.toInt =
        ctx.supply.next.toInt + s.vars.toList.idxOf v := by
      apply Supply.next_toInt_after
      omega
    have hnat : ((ctx.supply.after (s.vars.toList.idxOf v)).next.toInt -
        ctx.supply.next.toInt).toNat = s.vars.toList.idxOf v := by omega
    rw [Ty.eval, Supply.splice_of_fresh (by omega) (by omega), hnat,
      List.getD_eq_getElem?_getD, List.getElem?_idxOf hmem]
    rfl
  · rename_i hmem
    rw [Ty.eval]
    exact Supply.splice_of_old (h.mentioned x s rfl hs v (Scheme.mem_free.2 ⟨hv, hmem⟩))

section Generalize
variable {u : Ty} {F : VarSet} {Q : Finset Int}

/-- A scheme has all instances of a generalization of its body's value, if that generalization leaves
alone what the scheme does not quantify. -/
theorem Scheme.instance_of_generalize
    (hfixed : ∀ w ∈ u.occurrences, w ∈ F → ∀ i, (θ w).Occurs i → i ∉ Q)
    (h : ((u.eval θ).generalize Q).Instance τ) : ((Scheme.generalize u F).eval θ).Instance τ := by
  obtain ⟨m, rfl⟩ := Poly.instance_generalize.1 h
  rw [Ty.bind_eval, instance_eval]
  refine ⟨fun v => (θ v).bind fun i => if i ∈ Q then m i else .var i, Ty.eval_congr fun v hv => ?_⟩
  split
  · rfl
  · rename_i hvars
    have hF : v ∈ F := by
      by_contra hF
      exact hvars (mem_vars_generalize.2 ⟨hv, hF⟩)
    refine (Mono.bind_congr fun i hi => ?_).trans (Mono.bind_var (θ v))
    exact if_neg (hfixed v hv hF i hi)

theorem Scheme.free_of_generalize
    (hfixed : ∀ w ∈ u.occurrences, w ∈ F → ∀ i, (θ w).Occurs i → i ∉ Q) {i : Int}
    (h : ((Scheme.generalize u F).eval θ).Free i) : ((u.eval θ).generalize Q).Free i := by
  obtain ⟨v, hv, hi⟩ := free_eval.1 h
  obtain ⟨hv, hF⟩ := mem_free_generalize.1 hv
  exact Poly.free_generalize.2 ⟨Ty.occurs_eval.2 ⟨v, hv, hi⟩, hfixed v hv hF i hi⟩

end Generalize

/-- If the term has a type, the run succeeds, and some solution of the aliases it leaves makes the
found type into the given one. The solution extends the given one. -/
theorem Typing.infers (h : Typing Γ e τ) (hr : Ready k env e ctx)
    (hθ : Aliases.Solves θ ctx.aliases) (hΓ : Γ.AtMost env θ e) :
    ∃ t ctx' θ', Infers env e ctx t ctx' ∧ Aliases.Solves θ' ctx'.aliases ∧ t.eval θ' = τ ∧
      ∀ v, ctx.supply.Old v → θ' v = θ v := by
  induction h generalizing env ctx θ with
  | @var Γ x p τ hp hinst =>
    obtain ⟨s, hs, hsub, -⟩ := hΓ x p rfl hp
    obtain ⟨t, ctx', ht⟩ := Context.instantiate?_of_wellFormed ctx (hr.wellFormed x s rfl hs)
    obtain ⟨rfl, rfl⟩ := Context.instantiate?_eq_ok ht
    obtain ⟨m, rfl⟩ := Scheme.instance_eval.1 (hsub τ hinst)
    obtain ⟨g, hg⟩ := hr.instance_splice hs θ m
    exact ⟨_, _, ctx.supply.splice θ g, .var hs ht, hr.tidy.solves_splice hθ g, hg,
      fun v hv => Supply.splice_of_old hv⟩
  | @call Γ f a σ τ hf ha ihf iha =>
    obtain ⟨tf, ctx₁, θ₁, hrunf, hθ₁, hevalf, hagree₁⟩ :=
      ihf hr.callee hθ fun x p hx => hΓ x p (.inl hx)
    obtain ⟨-, holdf⟩ := hr.callee.tidy_of_run hrunf
    have hra := hr.argument hrunf
    have hΓa : Γ.AtMost env θ₁ a := by
      refine Assumptions.AtMost.congr (fun x p hx => hΓ x p (.inr hx)) fun x s hx hs v hv => ?_
      exact hagree₁ v (hr.mentioned x s (.inr hx) hs v hv)
    obtain ⟨ta, ctx₂, θ₂, hruna, hθ₂, hevala, hagree₂⟩ := iha hra hθ₁ hΓa
    obtain ⟨htidy₂, holda⟩ := hra.tidy_of_run hruna
    have hle₁ := hr.callee.next_le hrunf
    have hle₂ := hra.next_le hruna
    have hroom := hr.result hrunf hruna
    have hstart₂ := hruna.from hra.start (hra.count_lt hruna)
    have hrmax : ctx₂.supply.next.toInt < 2 ^ 63 - 1 := by omega
    -- the fresh result variable gets the value `τ`
    set r := ctx₂.supply.next
    set θ₃ := ctx₂.supply.splice θ₂ fun _ => τ
    have hθ₃ : Aliases.Solves θ₃ ctx₂.aliases := htidy₂.solves_splice hθ₂ _
    have hr₃ : θ₃ r = τ := Supply.splice_of_fresh (Int.le_refl _) hrmax
    have hold₃ : ∀ v, ctx₂.supply.Old v → θ₃ v = θ₂ v := fun v hv => Supply.splice_of_old hv
    have htf : tf.eval θ₃ = .arrow σ τ := by
      rw [← hevalf]
      refine Ty.eval_congr fun v hv => ?_
      rw [hold₃ v ((holdf v hv).mono hle₂), hagree₂ v (holdf v hv)]
    have hta : (Ty.arrow ta (.var r)).eval θ₃ = .arrow σ τ := by
      rw [Ty.eval_arrow, Ty.eval, hr₃, ← hevala]
      exact congrArg (Mono.arrow · τ) (Ty.eval_congr fun v hv => hold₃ v (holda v hv))
    have htwf : (Ty.arrow ta (.var r)).WellFormed :=
      Ty.wellFormed_arrow.2 ⟨hra.wellFormed_of_run hruna, Ty.wellFormed_var r⟩
    have hnone := Aliases.unify?_eq_none (R := .ofAssignment θ₃) htidy₂.acyclic htidy₂.wellFormed
      (hr.callee.wellFormed_of_run hrunf) htwf hθ₃ (htf.trans hta.symm)
    refine ⟨.var r, _, θ₃, .call hrunf hruna (Context.unify_eq_none.2 ⟨hnone, rfl⟩),
      (Aliases.unify?_solvedBy hnone).2 ⟨hθ₃, htf.trans hta.symm⟩, hr₃, fun v hv => ?_⟩
    have hv₁ := hv.mono hle₁
    rw [hold₃ v (hv₁.mono hle₂), hagree₂ v hv₁, hagree₁ v hv]
  | @func Γ x b σ τ _ ih =>
    have hroom := hr.room
    have hstart := hr.start
    rw [demand] at hroom
    -- the fresh parameter gets the value `σ`
    set θ₁ := ctx.supply.splice θ fun _ => σ
    have hold₁ : ∀ v, ctx.supply.Old v → θ₁ v = θ v := fun v hv => Supply.splice_of_old hv
    have hp : θ₁ ctx.supply.next = σ := Supply.splice_of_fresh (Int.le_refl _) (by omega)
    have hparam : (Scheme.mono (.var ctx.supply.next)).eval θ₁ = σ.toPoly := by
      rw [Scheme.eval_mono, Ty.eval, hp]
    have hΓb : Assumptions.AtMost ((x, σ.toPoly) :: Γ)
        (env.extend x (.mono (.var ctx.supply.next))) θ₁ b := by
      refine .cons (fun τ hτ => hparam ▸ hτ) (fun i hi => hparam ▸ hi) fun y p hxy hy hp => ?_
      exact hΓ.congr (fun x s hx hs v hv => hold₁ v (hr.mentioned x s hx hs v hv)) y p ⟨hxy, hy⟩ hp
    have hθ₁ : Aliases.Solves θ₁ ctx.fresh.2.aliases := hr.tidy.solves_splice hθ _
    obtain ⟨t, ctx', θ', hrun, hθ', heval, hagree⟩ := ih hr.body hθ₁ hΓb
    have hle : ctx.supply.next.toInt < ctx.fresh.2.supply.next.toInt := by
      have hstart' := hr.body.start
      have hcount : ctx.fresh.2.supply.count = ctx.supply.count + 1 := rfl
      omega
    refine ⟨_, ctx', θ', .func hrun, hθ', ?_, fun v hv => ?_⟩
    · rw [Ty.eval_arrow, Ty.eval, hagree _ (.inl hle), hp, heval]
    · rw [hagree v (hv.mono (Int.le_of_lt hle)), hold₁ v hv]
  | @letIn Γ x v b σ τ Q hv hQ _ ihv ihb =>
    have hΓv : Γ.AtMost env θ v := fun y p hy => hΓ y p (.inl hy)
    obtain ⟨tv, ctx₁, θ₁, hrunv, hθ₁, hevalv, hagree₁⟩ := ihv hr.value hθ hΓv
    obtain ⟨htidy₁, -⟩ := hr.value.tidy_of_run hrunv
    set u := ctx₁.aliases.canonicalize tv
    have hu : u.eval θ₁ = σ := by rw [hθ₁.eval_canonicalize, hevalv]
    have hs : ctx₁.generalize? tv env.free = .ok (.generalize u (ctx₁.freeVars env.free)) :=
      Context.generalize?_eq_ok.2 ⟨Aliases.wellFormed_canonicalize htidy₁.acyclic htidy₁.wellFormed
        (hr.value.wellFormed_of_run hrunv), rfl⟩
    -- the derivation does not quantify in the value of a variable that the scheme leaves free
    have hfixed : ∀ w ∈ u.occurrences, w ∈ ctx₁.freeVars env.free → ∀ i, (θ₁ w).Occurs i → i ∉ Q :=
      fun w hw hmem i hi hiQ =>
        hQ i hiQ (hr.value.free_of_fixed hrunv hΓv hv hθ₁ hagree₁ hw hmem hi)
    have hΓb : Assumptions.AtMost ((x, σ.generalize Q) :: Γ)
        (env.extend x (.generalize u (ctx₁.freeVars env.free))) θ₁ b := by
      rw [← hu]
      refine .cons (fun τ => Scheme.instance_of_generalize hfixed)
        (fun i => Scheme.free_of_generalize hfixed) fun y p hxy hy hp => ?_
      exact hΓ.congr (fun x s hx hs v hv => hagree₁ v (hr.mentioned x s hx hs v hv)) y p
        (.inr ⟨hxy, hy⟩) hp
    obtain ⟨t, ctx', θ', hrunb, hθ', heval, hagree⟩ := ihb (hr.scope hrunv hs) hθ₁ hΓb
    refine ⟨t, ctx', θ', .letIn hrunv hs hrunb, hθ', heval, fun v hv => ?_⟩
    rw [hagree v (hv.mono (hr.value.next_le hrunv)), hagree₁ v hv]

/-! ### Principal types -/

/-- The schemes that `e` mentions are well-formed and have no free variables. -/
def Env.ClosedFor (env : Env) (e : Expr) : Prop :=
  ∀ x s, e.HasFree x → env.lookup x = some s → s.body.WellFormed ∧ s.free = ∅

theorem Ready.not_mem_freeVars (h : Ready k env e ctx) (hclosed : env.ClosedFor e)
    (hrun : Infers env e ctx t ctx') (hw : w ∈ (ctx'.aliases.canonicalize t).occurrences) :
    w ∉ ctx'.freeVars env.free := by
  intro hfixed
  obtain ⟨x, s, hx, hs, v, hv, -⟩ := (h.mem_freeVars hrun hw).1 hfixed
  rw [(hclosed x s hx hs).2] at hv
  exact VarSet.not_mem_empty v hv

/-- The type of a term that mentions closed schemes only is quantified over all its variables. -/
theorem Ready.generalize?_eq (h : Ready k env e ctx) (hclosed : env.ClosedFor e)
    (hrun : Infers env e ctx t ctx') : (ctx'.aliases.canonicalize t).WellFormed ∧
      ctx'.generalize? t env.free = .ok (.generalize (ctx'.aliases.canonicalize t) ∅) := by
  obtain ⟨htidy, -⟩ := h.tidy_of_run hrun
  have hwf : (ctx'.aliases.canonicalize t).WellFormed :=
    Aliases.wellFormed_canonicalize htidy.acyclic htidy.wellFormed (h.wellFormed_of_run hrun)
  refine ⟨hwf, Context.generalize?_eq_ok.2 ⟨hwf, (Scheme.generalize_eq fun v hv => ?_).symm⟩⟩
  exact h.not_mem_freeVars hclosed hrun hv

/-- On the free names of `e`, `Γ` assumes the environment's schemes. -/
def Assumptions.Agrees (Γ : Assumptions) (env : Env) (e : Expr) : Prop :=
  ∀ x, e.HasFree x → Γ.lookup x = (env.lookup x).map (Scheme.eval assigned)

theorem Env.agrees_assumptions : env.assumptions.Agrees env e := fun x _ => env.lookup_eval assigned x

theorem Typing.infer_of_atMost (h : Typing Γ e τ) (hΓ : Γ.AtMost env assigned e)
    (hr : Ready env.next.toInt env e (.init env.next)) (hclosed : env.ClosedFor e) :
    ∃ u, infer env e = .ok (.generalize u ∅) ∧ u.WellFormed ∧ (Scheme.generalize u ∅).Instance τ := by
  obtain ⟨t, ctx, θ, hrun, hθ, rfl, -⟩ := h.infers hr (Aliases.solvedBy_empty _) hΓ
  obtain ⟨hwf, hS⟩ := hr.generalize?_eq hclosed hrun
  refine ⟨_, infer_of_infers hrun hS, hwf, Scheme.instance_generalize.2 ⟨θ, ?_⟩⟩
  rw [hθ.eval_canonicalize]

theorem Typing.infer (h : Typing Γ e τ) (hΓ : Γ.Agrees env e)
    (hr : Ready env.next.toInt env e (.init env.next)) (hclosed : env.ClosedFor e) :
    ∃ S, infer env e = .ok S ∧ S.body.WellFormed ∧ S.Instance τ := by
  have hatMost : Γ.AtMost env assigned e := by
    intro x p hx hp
    rw [hΓ x hx] at hp
    obtain ⟨s, hs, rfl⟩ := Option.map_eq_some_iff.1 hp
    exact ⟨s, hs, fun _ h => h, fun _ h => h⟩
  obtain ⟨u, hu, hwf, hinst⟩ := h.infer_of_atMost hatMost hr hclosed
  exact ⟨_, hu, hwf, hinst⟩

theorem typing_of_infer (hcov : env.Covers) (hclosed : env.ClosedFor e) (hΓ : Γ.Agrees env e)
    (h : infer env e = .ok s) (hτ : s.Instance τ) : Typing Γ e τ := by
  obtain ⟨t, ctx, hrun, hs⟩ := infer_eq_ok h
  obtain ⟨-, rfl⟩ := Context.generalize?_eq_ok.1 hs
  obtain ⟨m, rfl⟩ := Scheme.instance_eval.1 hτ
  show Typing Γ e ((ctx.aliases.canonicalize t).eval _)
  rw [← Aliases.eval_compose]
  have hA := Aliases.acyclic_empty
  refine hrun.typing hA hcov ((hrun.acyclic hA).solves_compose _) fun x s hx hs => ?_
  refine ⟨s.eval assigned, by rw [hΓ x hx, hs]; rfl, fun τ hτ => ?_⟩
  exact Scheme.eval_of_closed (hclosed x s hx hs).2 _ assigned ▸ hτ

theorem Scheme.instance_body (s : Scheme) : s.Instance s.body.embed :=
  instance_eval.2 ⟨assigned, Ty.eval_congr fun _ _ => (ite_self _).symm⟩

/-- Inference is complete on terms that mention schemes without free variables only, if the fresh
variables of the run do not wrap: every type of the term, over any variables, is an instance of the
scheme that is found; as a type of inference, it is its body with types substituted for exactly the
quantified variables; and inference fails on the terms that have no type, and on no others. -/
def Env.Complete (env : Env) : Prop :=
  ∀ e, env.ClosedFor e → env.next.toInt + demand env e (.init env.next) < 2 ^ 63 →
    (∀ τ, Typing env.assumptions e τ → ∃ S, infer env e = .ok S ∧ S.Instance τ) ∧
    (∀ t : Ty, t.WellFormed → Typing env.assumptions e t.embed →
      ∃ S, infer env e = .ok S ∧
        ∃ m : Subst, m.map Prod.fst = S.vars.toList ∧ t = S.body.substitute m) ∧
    ((∃ f, infer env e = .error f) ↔ ¬ ∃ τ, Typing env.assumptions e τ)

theorem Env.Covers.complete (hcov : env.Covers)
    (hold : ∀ v ∈ env.free, v.toInt < env.next.toInt ∨ v.toInt = 2 ^ 63 - 1) : env.Complete := by
  intro e hclosed hroom
  have hr := Ready.init hcov hold (fun x s hx hs => (hclosed x s hx hs).1) hroom
  refine ⟨fun τ hτ => ?_, fun t ht hτ => ?_, fun ⟨f, hf⟩ ⟨τ, hτ⟩ => ?_, fun hnone => ?_⟩
  · obtain ⟨S, hS, -, hinst⟩ := hτ.infer Env.agrees_assumptions hr hclosed
    exact ⟨S, hS, hinst⟩
  · obtain ⟨S, hS, hwf, hinst⟩ := hτ.infer Env.agrees_assumptions hr hclosed
    exact ⟨S, hS, Scheme.instance_embed hwf ht hinst⟩
  · obtain ⟨S, hS, -⟩ := hτ.infer Env.agrees_assumptions hr hclosed
    rw [hf] at hS
    cases hS
  · cases hinfer : LetPoly.infer env e with
    | error f => exact ⟨f, rfl⟩
    | ok S =>
      exact absurd ⟨_, typing_of_infer hcov hclosed Env.agrees_assumptions hinfer S.instance_body⟩ hnone

theorem Env.complete_of_lt (bs : List Binding)
    (h : ∀ b ∈ bs, ∀ v, b.scheme.Mentions v → v.toInt < 2 ^ 63 - 1) : (ofBindings bs).Complete := by
  refine (covers_ofBindings bs).complete fun v hv => .inl ?_
  obtain ⟨b, hb, hv⟩ := mem_free_ofBindings.1 hv
  exact lt_next_ofBindings h b hb v (.inr (Scheme.mem_free.1 hv).1)

/-! ### A free variable that is handed out again -/

namespace Expr
variable {n : Nat}

/-- `λx. … λx. x`, with `n + 1` parameters. -/
def lastOf : Nat → Expr
  | 0 => .func "x" (.var "x")
  | n + 1 => .func "x" (lastOf n)

theorem not_hasFree_lastOf : ¬ (lastOf n).HasFree x := by
  induction n with
  | zero => exact fun h => h.1 h.2
  | succ n ih => exact fun h => ih h.2

/-- The type of the last parameter is the last variable that is handed out. -/
theorem infers_lastOf (env : Env) (ctx : Context) (n : Nat) :
    ∃ t ctx', Infers env (lastOf n) ctx t ctx' ∧ ctx'.aliases = ctx.aliases ∧
      ctx'.supply = ctx.supply.after (n + 1) ∧ (ctx.supply.after n).next ∈ t.occurrences := by
  induction n generalizing env ctx with
  | zero =>
    have hx := Env.lookup_extend_self env "x" (.mono (.var ctx.supply.next))
    refine ⟨_, ctx.fresh.2, .func (.var hx rfl), rfl, rfl, Ty.mem_occurrences_arrow.2 (.inl ?_)⟩
    rw [Supply.after_zero, Ty.mem_occurrences_var]
  | succ n ih =>
    obtain ⟨t, ctx', hrun, haliases, hsupply, hmem⟩ :=
      ih (env.extend "x" (.mono (.var ctx.supply.next))) ctx.fresh.2
    have hafter : ∀ j, ctx.fresh.2.supply.after j = ctx.supply.after (j + 1) := by
      intro j
      show (ctx.supply.after 1).after j = _
      rw [Supply.after_after, Nat.add_comm]
    rw [hafter] at hsupply hmem
    exact ⟨_, ctx', .func hrun, haliases, hsupply, Ty.mem_occurrences_arrow.2 (.inr hmem)⟩

theorem typing_lastOf (Γ : Assumptions) (n : Nat) :
    ∃ τ, Typing Γ (lastOf n) τ ∧ ∀ i, ¬ τ.Occurs i := by
  have hunit : ∀ i, ¬ (Mono.app "" [] : Mono Int).Occurs i := by
    intro i h
    simp [Mono.occurs_app] at h
  have harrow : ∀ τ : Mono Int, (∀ i, ¬ τ.Occurs i) → ∀ i, ¬ (Mono.arrow (.app "" []) τ).Occurs i := by
    intro τ hτ i h
    simp [Mono.arrow, Mono.occurs_app, hτ] at h
  induction n generalizing Γ with
  | zero => exact ⟨_, .func (.var Assumptions.lookup_cons_self (Poly.instance_toPoly.2 rfl)),
      harrow _ hunit⟩
  | succ n ih =>
    obtain ⟨τ, hτ, hclosed⟩ := ih (("x", Mono.toPoly (.app "" [])) :: Γ)
    exact ⟨_, .func hτ, harrow τ hclosed⟩

end Expr

theorem demand_lastOf (env : Env) (ctx : Context) (n : Nat) : demand env (.lastOf n) ctx = n + 1 := by
  obtain ⟨t, ctx', hrun, -, hsupply, -⟩ := Expr.infers_lastOf env ctx n
  have hcount := hrun.count_eq
  have hafter : (ctx.supply.after (n + 1)).count = ctx.supply.count + (n + 1) := rfl
  rw [hsupply, hafter] at hcount
  omega

/-- Every variable from `next` on is the last one that some run hands out. It stays free in what is
inferred if it is free in the environment. -/
theorem Env.exists_lastOf (hle : env.next.toInt ≤ w.toInt) (hlt : w.toInt < 2 ^ 63 - 1) :
    ∃ n : Nat, w.toInt = env.next.toInt + n ∧
      ∃ S, infer env (.lastOf n) = .ok S ∧ (w ∈ env.free → w ∈ S.free) := by
  obtain ⟨n, hn⟩ := Int.eq_ofNat_of_zero_le (Int.sub_nonneg_of_le hle)
  obtain ⟨t, ctx, hrun, haliases, -, hmem⟩ := Expr.infers_lastOf env (.init env.next) n
  have hnext : (Context.init env.next).supply.next = env.next := rfl
  have hlast : ((Context.init env.next).supply.after n).next = w := by
    have hlow : (Context.init env.next).supply.next.toInt + n < 2 ^ 63 := by
      rw [hnext]
      omega
    apply Int64.toInt_inj.1
    rw [Supply.next_toInt_after hlow, hnext]
    omega
  have hnone : ∀ v, ctx.aliases.lookup v = none := by
    rw [haliases]
    exact Aliases.lookup_empty
  have hcan : ctx.aliases.canonicalize t = t := Aliases.Canonical.canonicalize_eq fun v _ => hnone v
  have hwf : t.WellFormed := hrun.wellFormed Aliases.acyclic_empty (Context.Tidy.init _).wellFormed
    fun x s hx => absurd hx Expr.not_hasFree_lastOf
  refine ⟨n, by omega, _, infer_of_infers hrun (Context.generalize?_eq_ok.2 ⟨hcan.symm ▸ hwf, rfl⟩), ?_⟩
  rw [Scheme.mem_free_generalize, hcan, Context.mem_freeVars]
  refine fun hw => ⟨hlast ▸ hmem, w, hw, ?_⟩
  rw [Aliases.value_of_none (hnone w)]
  exact Ty.mem_occurrences_var.2 rfl

/-- If a run gets to hand out a free variable as fresh, inference is not complete. -/
theorem Env.not_complete_of_free (hw : w ∈ env.free) (hle : env.next.toInt ≤ w.toInt)
    (hlt : w.toInt < 2 ^ 63 - 1) : ¬ env.Complete := by
  intro h
  obtain ⟨n, hn, S, hS, hfree⟩ := exists_lastOf hle hlt
  have hclosed : env.ClosedFor (.lastOf n) := fun x s hx => absurd hx Expr.not_hasFree_lastOf
  obtain ⟨τ, hτ, hvars⟩ := Expr.typing_lastOf env.assumptions n
  have hdemand := demand_lastOf env (.init env.next) n
  obtain ⟨S', hS', hinst⟩ := (h _ hclosed (by omega)).1 τ hτ
  obtain rfl := Except.ok.inj (hS.symm.trans hS')
  -- a free variable of the scheme is in each of its instances
  obtain ⟨m, rfl⟩ := Scheme.instance_eval.1 hinst
  obtain ⟨hmem, hq⟩ := Scheme.mem_free.1 (hfree hw)
  refine hvars w.toInt (Ty.occurs_eval.2 ⟨w, hmem, ?_⟩)
  rw [if_neg hq]
  exact .var

/-- Inference is complete exactly if every free variable of the environment is below the variables
that are handed out, or the greatest number of all. -/
theorem infer_complete_iff (bs : List Binding) :
    (Env.ofBindings bs).Complete ↔
      ∀ v ∈ (Env.ofBindings bs).free, v < (Env.ofBindings bs).next ∨ v = Int64.maxValue := by
  have hmax : Int64.maxValue.toInt = 2 ^ 63 - 1 := rfl
  constructor
  · intro h v hv
    by_contra hcon
    obtain ⟨hle, hne⟩ := not_or.1 hcon
    have hne' : v.toInt ≠ 2 ^ 63 - 1 := fun hv => hne (Int64.toInt_inj.1 (hv.trans hmax.symm))
    have hlt := v.toInt_lt
    rw [Int64.not_lt, Int64.le_iff_toInt_le] at hle
    exact Env.not_complete_of_free hv hle (by omega) h
  · intro h
    refine (Env.covers_ofBindings bs).complete fun v hv => ?_
    rcases h v hv with h | rfl
    · exact .inl (Int64.lt_iff_toInt_lt.1 h)
    · exact .inr hmax

/-- The binding of `z` makes the count start over at the least number, which is free in the binding of
`y`. So the parameter of `λx. x` gets that number for its type, `id` is not generalized, and
`let id = λx. x in id id` is rejected although it has a type. -/
theorem infer_incomplete_of_wrapped_next :
    infer (.ofBindings [⟨"y", .mono (.var Int64.minValue)⟩,
        ⟨"z", .generalize (.var Int64.maxValue) ∅⟩])
      (.letIn "id" (.func "x" (.var "x")) (.call (.var "id") (.var "id"))) =
        .error ⟨.type (.recursive (.arrow (.var Int64.minValue) (.var Int64.minValue))
          Int64.minValue), [.body]⟩ ∧
    Typing (Env.ofBindings [⟨"y", .mono (.var Int64.minValue)⟩,
        ⟨"z", .generalize (.var Int64.maxValue) ∅⟩]).assumptions
      (.letIn "id" (.func "x" (.var "x")) (.call (.var "id") (.var "id")))
      (.arrow (.app "Int" []) (.app "Int" [])) ∧
    ¬ (Env.ofBindings [⟨"y", .mono (.var Int64.minValue)⟩,
        ⟨"z", .generalize (.var Int64.maxValue) ∅⟩]).Complete := by
  set env := Env.ofBindings [⟨"y", .mono (.var Int64.minValue)⟩,
    ⟨"z", .generalize (.var Int64.maxValue) ∅⟩]
  set e : Expr := .letIn "id" (.func "x" (.var "x")) (.call (.var "id") (.var "id"))
  set t : Ty := .arrow (.var Int64.minValue) (.var Int64.minValue)
  set ctx := (Context.init env.next).fresh.2
  have hvalue : Infers env (.func "x" (.var "x")) (.init env.next) t ctx := .func (.var rfl rfl)
  have hs : ctx.generalize? t env.free = .ok (.mono t) := rfl
  have hid : Infers (env.extend "id" (.mono t)) (.var "id") ctx t ctx := .var rfl rfl
  have hunify : ctx.fresh.2.unify t (.arrow t (.var ctx.fresh.1)) =
      (ctx.fresh.2, some (.recursive t Int64.minValue)) := by
    show Context.unify ⟨∅, ⟨Int64.minValue + 2, 2⟩⟩ t (.arrow t (.var (Int64.minValue + 1))) =
      (⟨∅, ⟨Int64.minValue + 2, 2⟩⟩, _)
    cbv
  have hbody : inferType (env.extend "id" (.mono t)) (.call (.var "id") (.var "id")) ctx =
      .error ⟨.type (.recursive t Int64.minValue), []⟩ := by
    rw [inferType]
    simp only [hid.inferType_eq, Except.mapError, bind, Except.bind]
    rw [Context.fresh] at hunify ⊢
    rw [hunify]
  have herror : infer env e = .error ⟨.type (.recursive t Int64.minValue), [.body]⟩ := by
    rw [infer, inferType, hvalue.inferType_eq]
    · simp only [Except.mapError, bind, Except.bind, hs, hbody]
      rfl
    · intro h
      simp [e] at h
  have htyping : Typing env.assumptions e (.arrow (.app "Int" []) (.app "Int" [])) := by
    -- the type variable of `id` is one that is not free in the assumptions
    obtain ⟨k, hk⟩ := env.assumptions.exists_bound
    have hinst : ∀ τ : Mono Int,
        ((Mono.arrow (.var k) (.var k)).generalize {k}).Instance (.arrow τ τ) := fun τ =>
      Poly.instance_generalize.2 ⟨fun _ => τ, by simp [Mono.arrow, Mono.bind]⟩
    refine .letIn {k} (.func (.var Assumptions.lookup_cons_self (Poly.instance_toPoly.2 rfl))) ?_
      (.call (.var Assumptions.lookup_cons_self (hinst _))
        (.var Assumptions.lookup_cons_self (hinst _)))
    intro i hi hfree
    rw [Finset.mem_singleton.1 hi] at hfree
    exact Int.lt_irrefl k (hk k hfree)
  have hclosed : env.ClosedFor e := by
    rintro x s (⟨hx, rfl⟩ | ⟨hx, rfl | rfl⟩)
    exacts [absurd rfl hx, absurd rfl hx, absurd rfl hx]
  have hroom : env.next.toInt + demand env e (.init env.next) < 2 ^ 63 := by
    have hdemand : demand env e (.init env.next) = 2 := by
      simp only [e, demand, hvalue.inferType_eq, hs, hid.inferType_eq]
      rfl
    rw [hdemand]
    decide
  exact ⟨herror, htyping, fun h => (h e hclosed hroom).2.2.1 ⟨_, herror⟩ ⟨_, htyping⟩⟩

end LetPoly
