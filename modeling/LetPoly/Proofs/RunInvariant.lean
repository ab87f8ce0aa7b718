import LetPoly.Proofs.Freshness

/-!
# The invariant of a run

A run of inference is a tree of calls of `inferType`. `Call.Enters` says which calls a call makes, as
far as the run gets; along with its arguments a call carries the schemes that the enclosing `let`s
have bound.

`RunInvariant` holds whenever a call is entered and whenever one returns. Everything in sight is below
the next fresh variable. The quantified variables of the schemes bound by `let` are out of reach: they
are never renamed, and yet no later unification gets to them, because it stays within what the
environment reaches and what is fresh (`Infers.local`).
-/

namespace LetPoly

/-- A call of `inferType`. -/
structure Call where
  env : Env
  /-- The schemes that the enclosing `let`s have bound. -/
  lets : List Scheme
  term : Expr
  ctx : Context

namespace Call

/-- The call that a run starts with. -/
def root (bs : List Binding) (e : Expr) : Call := ⟨.ofBindings bs, [], e, .init (Env.ofBindings bs).next⟩

/-- The calls that a call makes. -/
inductive Enters : Call → Call → Prop
  | callee {env : Env} {lets : List Scheme} {f a : Expr} {ctx : Context} :
    Enters ⟨env, lets, .call f a, ctx⟩ ⟨env, lets, f, ctx⟩
  | argument {env : Env} {lets : List Scheme} {f a : Expr} {ctx ctx₁ : Context} {t : Ty} :
    inferType env f ctx = .ok (t, ctx₁) →
    Enters ⟨env, lets, .call f a, ctx⟩ ⟨env, lets, a, ctx₁⟩
  | body {env : Env} {lets : List Scheme} {x : String} {b : Expr} {ctx : Context} :
    Enters ⟨env, lets, .func x b, ctx⟩
      ⟨env.extend x (.mono (.var ctx.fresh.1)), lets, b, ctx.fresh.2⟩
  | value {env : Env} {lets : List Scheme} {x : String} {v b : Expr} {ctx : Context} :
    Enters ⟨env, lets, .letIn x v b, ctx⟩ ⟨env, lets, v, ctx⟩
  | scope {env : Env} {lets : List Scheme} {x : String} {v b : Expr} {ctx ctx₁ : Context} {t : Ty}
    {s : Scheme} : inferType env v ctx = .ok (t, ctx₁) → ctx₁.generalize? t env.free = .ok s →
    Enters ⟨env, lets, .letIn x v b, ctx⟩ ⟨env.extend x s, s :: lets, b, ctx₁⟩

end Call

/-- What holds when a call is entered, and when one returns a type. -/
structure RunInvariant (env : Env) (lets : List Scheme) (ctx : Context) (returned : Option Ty) :
    Prop where
  env_lt : ∀ b ∈ env.recent, ∀ v, b.scheme.Mentions v → v < ctx.supply.next
  alias_lt : ∀ v t, ctx.aliases.lookup v = some t →
    v < ctx.supply.next ∧ ∀ w ∈ t.occurrences, w < ctx.supply.next
  returned_lt : ∀ t ∈ returned, ∀ v ∈ t.occurrences, v < ctx.supply.next
  unaliased : ∀ s ∈ lets, ∀ q ∈ s.vars, ctx.aliases.lookup q = none
  not_mem_env : ∀ s ∈ lets, ∀ q ∈ s.vars, ∀ b ∈ env.recent, ∀ v ∈ b.scheme.free,
    q ∉ (ctx.aliases.canonicalize (.var v)).occurrences
  not_mem_returned : ∀ s ∈ lets, ∀ q ∈ s.vars, ∀ t ∈ returned,
    q ∉ (ctx.aliases.canonicalize t).occurrences

/-- The invariant with what it takes to carry it along. -/
structure RunInvariant.Strong (env : Env) (lets : List Scheme) (ctx : Context)
    (returned : Option Ty) : Prop extends RunInvariant env lets ctx returned where
  tidy : ctx.Tidy
  bound : ∀ s ∈ lets, ∃ b ∈ env.recent, b.scheme = s
  mem_free : ∀ b ∈ env.recent, ∀ v ∈ b.scheme.free, v ∈ env.free

/-- `w` is still to be handed out, or a free variable of the environment, or one that such a variable
has come to stand for. -/
def Env.Reached (env : Env) (ctx : Context) (w : TyVar) : Prop :=
  ctx.supply.next ≤ w ∨
    ∃ b ∈ env.recent, ∃ v ∈ b.scheme.free, w = v ∨ w ∈ (ctx.aliases.value v).occurrences

theorem Env.keeps_reached {env : Env} {ctx : Context} {b : Binding} {v : TyVar}
    (hb : b ∈ env.recent) (hv : v ∈ b.scheme.free) : ctx.aliases.Keeps (env.Reached ctx) v :=
  ⟨.inr ⟨b, hb, v, hv, .inl rfl⟩, fun _ hw => .inr ⟨b, hb, v, hv, .inr hw⟩⟩

namespace RunInvariant.Strong
variable {env : Env} {lets : List Scheme} {ctx ctx' : Context} {returned : Option Ty} {e : Expr}
  {t : Ty} {s : Scheme} {x : String} {b : Int} {v w q : TyVar}

theorem of_root (bs : List Binding)
    (hids : ∀ b ∈ bs, ∀ v, b.scheme.Mentions v → v.toInt < 2 ^ 63 - 1) :
    Strong (.ofBindings bs) [] (.init (Env.ofBindings bs).next) none where
  env_lt b hb v hv := Int64.lt_iff_toInt_lt.2 (Env.lt_next_ofBindings hids b hb v hv)
  alias_lt v t hv := by
    rw [Context.init, Aliases.lookup_empty] at hv
    cases hv
  returned_lt t ht := nomatch ht
  unaliased s hs := nomatch hs
  not_mem_env s hs := nomatch hs
  not_mem_returned s hs := nomatch hs
  tidy := .init _
  bound s hs := nomatch hs
  mem_free b hb v hv := Env.mem_free_ofBindings.2 ⟨b, hb, hv⟩

theorem forget (h : Strong env lets ctx returned) : Strong env lets ctx none :=
  { h with
    returned_lt := nofun
    not_mem_returned := nofun }

theorem quantified_lt (h : Strong env lets ctx returned) (hs : s ∈ lets) (hq : q ∈ s.vars) :
    q < ctx.supply.next := by
  obtain ⟨b, hb, rfl⟩ := h.bound s hs
  exact h.env_lt b hb q (.inl hq)

theorem free_lt (h : Strong env lets ctx returned) {b : Binding} (hb : b ∈ env.recent)
    (hv : v ∈ b.scheme.free) : v < ctx.supply.next :=
  h.env_lt b hb v (.inr (Scheme.mem_free.1 hv).1)

theorem value_lt (h : Strong env lets ctx returned) (hv : v < ctx.supply.next) :
    ∀ w ∈ (ctx.aliases.value v).occurrences, w < ctx.supply.next :=
  h.tidy.acyclic.forall_mem_value (fun v t hl => (h.alias_lt v t hl).2) hv

/-- The quantified variables are out of reach. -/
theorem not_reached (h : Strong env lets ctx returned) (hs : s ∈ lets) (hq : q ∈ s.vars) :
    ¬ env.Reached ctx q := by
  rintro (hle | ⟨b, hb, v, hv, rfl | hmem⟩)
  · exact absurd (h.quantified_lt hs hq) (Int64.not_lt.2 hle)
  · refine h.not_mem_env s hs q hq b hb q hv ?_
    rw [Aliases.canonicalize_var, Aliases.value_of_none (h.unaliased s hs q hq)]
    exact Ty.mem_occurrences_var.2 rfl
  · exact h.not_mem_env s hs q hq b hb v hv hmem

theorem mentioned_old (h : Strong env lets ctx returned) : env.Mentioned e ctx.supply.Old :=
  Env.mentioned_of_recent fun _ hb _ hv => .inl (Int64.lt_iff_toInt_lt.1 (h.free_lt hb hv))

theorem run_lt (h : Strong env lets ctx none) (hrun : Infers env e ctx t ctx')
    (hb : ctx.supply.From b) (hmax : b + ctx'.supply.count < 2 ^ 63)
    (hle : ∀ v, v < ctx.supply.next → v < ctx'.supply.next) :
    Aliases.Grows (· < ctx'.supply.next) ctx.aliases ctx'.aliases ∧
      ∀ v ∈ t.occurrences, ctx'.aliases.Keeps (· < ctx'.supply.next) v := by
  refine hrun.local hb hmax h.tidy h.mentioned_old (Env.mentioned_of_recent fun b hb v hv => ?_)
    fun v _ hv => Int64.lt_iff_toInt_lt.2 hv
  have hv := h.free_lt hb hv
  exact ⟨hle v hv, fun w hw => hle w (h.value_lt hv w hw)⟩

theorem run_reached (h : Strong env lets ctx none) (hrun : Infers env e ctx t ctx')
    (hb : ctx.supply.From b) (hmax : b + ctx'.supply.count < 2 ^ 63) :
    Aliases.Grows (env.Reached ctx) ctx.aliases ctx'.aliases ∧
      ∀ v ∈ t.occurrences, ctx'.aliases.Keeps (env.Reached ctx) v :=
  hrun.local hb hmax h.tidy h.mentioned_old
    (Env.mentioned_of_recent fun _ hb _ hv => Env.keeps_reached hb hv)
    fun _ hv _ => .inl (Int64.le_iff_toInt_le.2 hv)

/-- A call that returns has kept the invariant. -/
theorem returns (h : Strong env lets ctx none) (hrun : Infers env e ctx t ctx')
    (hb : ctx.supply.From b) (hmax : b + ctx'.supply.count < 2 ^ 63) :
    Strong env lets ctx' (some t) := by
  have hcount := hrun.count_le
  have hb' := hrun.from hb hmax
  have hle : ∀ v, v < ctx.supply.next → v < ctx'.supply.next := by
    intro v hv
    rw [Int64.lt_iff_toInt_lt] at hv ⊢
    omega
  obtain ⟨hg, ht⟩ := h.run_lt hrun hb hmax hle
  obtain ⟨hgX, htX⟩ := h.run_reached hrun hb hmax
  refine
    { env_lt := fun b hb v hv => hle v (h.env_lt b hb v hv)
      alias_lt := hg.forall_lookup (fun v t hv => ?_) fun v t hv hw _ => ⟨hv, hw⟩
      returned_lt := ?_
      unaliased := fun s hs q hq => ?_
      not_mem_env := fun s hs q hq b hb v hv hmem => ?_
      not_mem_returned := ?_
      tidy := (hrun.tidy hb hmax h.tidy h.mentioned_old).1
      bound := h.bound
      mem_free := h.mem_free }
  · exact ⟨hle v (h.alias_lt v t hv).1, fun w hw => hle w ((h.alias_lt v t hv).2 w hw)⟩
  · rintro _ ⟨⟩ v hv
    exact (ht v hv).1
  · rw [hgX.lookup_of_not (h.not_reached hs hq)]
    exact h.unaliased s hs q hq
  · exact h.not_reached hs hq (((Env.keeps_reached hb hv).grows h.tidy.acyclic hgX).2 q hmem)
  · rintro s hs q hq _ ⟨⟩ hmem
    exact h.not_reached hs hq (Aliases.forall_mem_canonicalize htX q hmem)

theorem fresh (h : Strong env lets ctx none) (hb : ctx.supply.From b)
    (hmax : b + ctx.fresh.2.supply.count < 2 ^ 63) : Strong env lets ctx.fresh.2 none := by
  have hcount : ctx.fresh.2.supply.count = ctx.supply.count + 1 := rfl
  have hb' : ctx.fresh.2.supply.From b := hb.advance (by omega)
  have hle : ∀ v, v < ctx.supply.next → v < ctx.fresh.2.supply.next := by
    intro v hv
    rw [Int64.lt_iff_toInt_lt] at hv ⊢
    omega
  exact
    { h with
      env_lt := fun b hb v hv => hle v (h.env_lt b hb v hv)
      alias_lt := fun v t hv =>
        ⟨hle v (h.alias_lt v t hv).1, fun w hw => hle w ((h.alias_lt v t hv).2 w hw)⟩
      returned_lt := nofun
      tidy := h.tidy.of_le rfl (by omega) }

/-- A new binding may have unaliased free variables that no scheme in scope quantifies. -/
theorem extend (h : Strong env lets ctx returned) (x : String)
    (hlt : ∀ v, s.Mentions v → v < ctx.supply.next)
    (hnone : ∀ v ∈ s.free, ctx.aliases.lookup v = none)
    (hout : ∀ s' ∈ lets, ∀ q ∈ s'.vars, q ∉ s.free) : Strong (env.extend x s) lets ctx none := by
  refine
    { h.forget with
      env_lt := ?_
      not_mem_env := ?_
      bound := ?_
      mem_free := ?_ }
  · intro b hb
    rcases List.mem_cons.1 hb with rfl | hb
    exacts [hlt, h.env_lt b hb]
  · intro s' hs' q hq b hb v hv
    rcases List.mem_cons.1 hb with rfl | hb
    · rw [Aliases.canonicalize_var, Aliases.value_of_none (hnone v hv), Ty.mem_occurrences_var]
      rintro rfl
      exact hout s' hs' q hq hv
    · exact h.not_mem_env s' hs' q hq b hb v hv
  · intro s' hs'
    obtain ⟨b, hb, hbs⟩ := h.bound s' hs'
    exact ⟨b, List.mem_cons_of_mem _ hb, hbs⟩
  · intro b hb v hv
    rw [Env.mem_free_extend]
    rcases List.mem_cons.1 hb with rfl | hb
    exacts [.inr hv, .inl (h.mem_free b hb v hv)]

theorem param (h : Strong env lets ctx none) (hb : ctx.supply.From b)
    (hmax : b + ctx.fresh.2.supply.count < 2 ^ 63) (x : String) :
    Strong (env.extend x (.mono (.var ctx.fresh.1))) lets ctx.fresh.2 none := by
  have hcount : ctx.fresh.2.supply.count = ctx.supply.count + 1 := rfl
  have hb' : ctx.fresh.2.supply.From b := hb.advance (by omega)
  have hfree : ∀ v ∈ (Scheme.mono (.var ctx.fresh.1)).free, v = ctx.supply.next :=
    fun v hv => Ty.mem_occurrences_var.1 (Scheme.mem_free.1 hv).1
  refine (h.fresh hb hmax).extend x (fun v hv => ?_) (fun v hv => ?_) fun s hs q hq hmem => ?_
  · have hv : v = ctx.supply.next :=
      hv.elim (fun hv => absurd hv (VarSet.not_mem_empty v)) Ty.mem_occurrences_var.1
    rw [hv, Int64.lt_iff_toInt_lt]
    omega
  · rw [hfree v hv]
    refine h.tidy.lookup_of_not_old (Supply.not_old ?_ ?_) <;> omega
  · have hlt := h.quantified_lt hs hq
    rw [hfree q hmem] at hlt
    exact Int64.lt_irrefl hlt

theorem scope (h : Strong env lets ctx (some t)) (hs : ctx.generalize? t env.free = .ok s)
    (x : String) : Strong (env.extend x s) (s :: lets) ctx none := by
  obtain ⟨-, rfl⟩ := Context.generalize?_eq_ok.1 hs
  set u := ctx.aliases.canonicalize t
  have hnone : ∀ v ∈ u.occurrences, ctx.aliases.lookup v = none :=
    h.tidy.acyclic.canonical_canonicalize t
  have hfree : ∀ v ∈ (Scheme.generalize u (ctx.freeVars env.free)).free, v ∈ u.occurrences :=
    fun v hv => (Scheme.mem_free.1 hv).1
  have hvars : ∀ v ∈ (Scheme.generalize u (ctx.freeVars env.free)).vars,
      v ∈ u.occurrences ∧ v ∉ ctx.freeVars env.free :=
    fun v hv => Scheme.mem_vars_generalize.1 hv
  have hlt : ∀ v, (Scheme.generalize u (ctx.freeVars env.free)).Mentions v → v < ctx.supply.next := by
    intro v hv
    obtain ⟨w, hw, hv⟩ := Aliases.mem_canonicalize.1 (hv.elim (fun hv => (hvars v hv).1) id)
    exact h.value_lt (h.returned_lt t rfl w hw) v hv
  have hext := h.extend x hlt (fun v hv => hnone v (hfree v hv))
    fun s' hs' q hq hmem => h.not_mem_returned s' hs' q hq t rfl (hfree q hmem)
  refine
    { hext with
      unaliased := ?_
      not_mem_env := ?_
      not_mem_returned := nofun
      bound := ?_ }
  · intro s' hs' q hq
    rcases List.mem_cons.1 hs' with rfl | hs'
    exacts [hnone q (hvars q hq).1, h.unaliased s' hs' q hq]
  · intro s' hs' q hq b hb v hv
    rcases List.mem_cons.1 hs' with rfl | hs'
    · rcases List.mem_cons.1 hb with rfl | hb
      · rw [Aliases.canonicalize_var, Aliases.value_of_none (hnone v (hfree v hv)),
          Ty.mem_occurrences_var]
        rintro rfl
        exact (Scheme.mem_free.1 hv).2 hq
      · exact fun hmem => (hvars q hq).2 (Context.mem_freeVars.2 ⟨v, h.mem_free b hb v hv, hmem⟩)
    · exact hext.not_mem_env s' hs' q hq b hb v hv
  · intro s' hs'
    rcases List.mem_cons.1 hs' with rfl | hs'
    exacts [⟨_, List.mem_cons_self, rfl⟩, hext.bound s' hs']

end RunInvariant.Strong

/-! ### Along a run -/

theorem Call.Enters.strong {c c' : Call} {b : Int} (h : c.Enters c') (hb : c.ctx.supply.From b)
    (hmax : b + c'.ctx.supply.count < 2 ^ 63)
    (hc : RunInvariant.Strong c.env c.lets c.ctx none) :
    c'.ctx.supply.From b ∧ RunInvariant.Strong c'.env c'.lets c'.ctx none := by
  cases h with
  | callee => exact ⟨hb, hc⟩
  | argument hf =>
    have hf := infers_iff.2 hf
    exact ⟨hf.from hb hmax, (hc.returns hf hb hmax).forget⟩
  | body => exact ⟨hb.advance hmax, hc.param hb hmax _⟩
  | value => exact ⟨hb, hc⟩
  | scope hv hs =>
    have hv := infers_iff.2 hv
    exact ⟨hv.from hb hmax, (hc.returns hv hb hmax).scope hs _⟩

theorem Call.Enters.count_le {c c' : Call} (h : c.Enters c') :
    c.ctx.supply.count ≤ c'.ctx.supply.count := by
  cases h with
  | callee => exact Nat.le_refl _
  | argument hf => exact (infers_iff.2 hf).count_le
  | body => exact Nat.le_succ _
  | value => exact Nat.le_refl _
  | scope hv _ => exact (infers_iff.2 hv).count_le

/-- The invariant holds at every entry and every return, as long as the count has not wrapped. -/
theorem run_invariant (bs : List Binding) (e : Expr)
    (hids : ∀ b ∈ bs, ∀ v, b.scheme.Mentions v → v.toInt < 2 ^ 63 - 1) (c : Call)
    (hc : Relation.ReflTransGen Call.Enters (.root bs e) c)
    (hmax : (Env.ofBindings bs).next.toInt + c.ctx.supply.count < 2 ^ 63) :
    RunInvariant c.env c.lets c.ctx none ∧
    ∀ t ctx', inferType c.env c.term c.ctx = .ok (t, ctx') →
      (Env.ofBindings bs).next.toInt + ctx'.supply.count < 2 ^ 63 →
      RunInvariant c.env c.lets ctx' (some t) := by
  have hstrong : c.ctx.supply.From (Env.ofBindings bs).next.toInt ∧
      RunInvariant.Strong c.env c.lets c.ctx none := by
    induction hc with
    | refl => exact ⟨(Int.add_zero _).symm, .of_root bs hids⟩
    | tail _ hstep ih =>
      have hcount := hstep.count_le
      obtain ⟨hb, hc⟩ := ih (by omega)
      exact hstep.strong hb hmax hc
  obtain ⟨hb, hstrong⟩ := hstrong
  exact ⟨hstrong.toRunInvariant, fun t ctx' h hmax' =>
    (hstrong.returns (infers_iff.2 h) hb hmax').toRunInvariant⟩

/-- In `let id = λx. x in k id`, the quantified variable of `id` stays out of reach when the body of
the `let` is entered, and when the type of the body is returned. -/
theorem run_invariant_let_body :
    ∃ c, Relation.ReflTransGen Call.Enters
        (.root [⟨"k", .mono (.var 0)⟩] (.letIn "id" (.func "x" (.var "x"))
          (.call (.var "k") (.var "id")))) c ∧
      c.lets = [.generalize (.arrow (.var 1) (.var 1)) ∅] ∧
      RunInvariant c.env c.lets c.ctx none ∧
      ∃ ctx', inferType c.env c.term c.ctx = .ok (.var 3, ctx') ∧
        RunInvariant c.env c.lets ctx' (some (.var 3)) := by
  have hids : ∀ b ∈ [(⟨"k", .mono (.var 0)⟩ : Binding)], ∀ v, b.scheme.Mentions v →
      v.toInt < 2 ^ 63 - 1 := by
    intro b hb v hv
    obtain rfl := List.mem_singleton.1 hb
    have hv : v = 0 := hv.elim (fun hv => absurd hv (VarSet.not_mem_empty v)) Ty.mem_occurrences_var.1
    rw [hv]
    decide
  set env := Env.ofBindings [⟨"k", .mono (.var 0)⟩]
  set id := Scheme.generalize (.arrow (.var 1) (.var 1)) ∅
  have hvalue : Infers env (.func "x" (.var "x")) (.init 1) (.arrow (.var 1) (.var 1))
      (Context.init 1).fresh.2 := .func (.var rfl rfl)
  have hstep : Call.Enters
      (.root [⟨"k", .mono (.var 0)⟩] (.letIn "id" (.func "x" (.var "x"))
        (.call (.var "k") (.var "id"))))
      ⟨env.extend "id" id, [id], .call (.var "k") (.var "id"), (Context.init 1).fresh.2⟩ :=
    .scope hvalue.inferType_eq rfl
  have hc := Relation.ReflTransGen.single hstep
  obtain ⟨hentry, hreturn⟩ := run_invariant _ _ hids _ hc (by decide)
  have hk : Infers (env.extend "id" id) (.var "k") (Context.init 1).fresh.2 (.var 0)
      (Context.init 1).fresh.2 := .var rfl rfl
  have hid : Infers (env.extend "id" id) (.var "id") (Context.init 1).fresh.2
      (.arrow (.var 2) (.var 2)) ⟨∅, ⟨3, 2⟩⟩ := .var rfl rfl
  have hunify : (Context.fresh ⟨∅, ⟨3, 2⟩⟩).2.unify (.var 0)
      (.arrow (.arrow (.var 2) (.var 2)) (.var 3)) =
        (⟨(∅ : Aliases).record 0 (.arrow (.arrow (.var 2) (.var 2)) (.var 3)), ⟨4, 3⟩⟩, none) := by
    show Context.unify ⟨∅, ⟨4, 3⟩⟩ _ _ = _
    cbv
  have hbody := (Infers.call hk hid hunify).inferType_eq
  exact ⟨_, hc, rfl, hentry, _, hbody, hreturn _ _ hbody (by decide)⟩

end LetPoly
