import LetPoly.Proofs.Environment
import LetPoly.Proofs.Inference
import LetPoly.Proofs.Typing

/-!
# What a run can touch

A run counts its fresh variables up from where the supply stands. As long as the count does not wrap,
the variables below it are the old ones, and so is the greatest number of all, which such a run never
hands out.

`Infers.local`: take any set of variables that has those of the schemes the term mentions, what these
stand for, and the fresh variables of the run. Then all aliases that the run records are between
variables of the set, and so are the type it finds and the canonical form of that type. Which set to
take is up to the caller: the old variables, to see that the context stays tidy; or what the mentioned
schemes reach, to see that nothing else is reached.
-/

namespace LetPoly

/-! ### Old variables -/

namespace Supply
variable {s s' : Supply} {b : Int} {k : Nat} {v : TyVar}

/-- The supply has counted up from `b` without wrapping. -/
abbrev From (s : Supply) (b : Int) : Prop := s.next.toInt = b + s.count

theorem From.after (h : s.From b) (hk : b + (s.after k).count < 2 ^ 63) : (s.after k).From b := by
  have hcount : (s.after k).count = s.count + k := rfl
  rw [From, next_toInt_after] <;> omega

theorem From.advance (h : s.From b) (hk : b + (s.count + 1) < 2 ^ 63) : s.advance.From b :=
  From.after (k := 1) h hk

/-- `v` is below the variables still to be handed out, or the greatest number of all. -/
def Old (s : Supply) (v : TyVar) : Prop := v.toInt < s.next.toInt ∨ v.toInt = 2 ^ 63 - 1

theorem Old.mono (h : s.Old v) (hle : s.next.toInt ≤ s'.next.toInt) : s'.Old v :=
  h.imp_left fun hv => Int.lt_of_lt_of_le hv hle

theorem not_old (hle : s.next.toInt ≤ v.toInt) (hmax : v.toInt < 2 ^ 63 - 1) : ¬ s.Old v := by
  rintro (h | h) <;> omega

end Supply

namespace Aliases
variable {A A' : Aliases} {X : TyVar → Prop} {v : TyVar} {t : Ty}

/-- `v` is in `X`, and so are the variables of what it stands for. -/
def Keeps (A : Aliases) (X : TyVar → Prop) (v : TyVar) : Prop :=
  X v ∧ ∀ w ∈ (A.value v).occurrences, X w

theorem keeps_of_none (hv : A.lookup v = none) (hX : X v) : A.Keeps X v := by
  refine ⟨hX, fun w hw => ?_⟩
  rw [value_of_none hv, Ty.mem_occurrences_var] at hw
  rwa [hw]

theorem Keeps.grows (h : A.Keeps X v) (hA : A.Acyclic) (hg : Grows X A A') : A'.Keeps X v :=
  ⟨h.1, hg.mem_canonicalize (t := .var v) hA h.2⟩

theorem forall_mem_canonicalize (h : ∀ v ∈ t.occurrences, A.Keeps X v) :
    ∀ w ∈ (A.canonicalize t).occurrences, X w := by
  intro w hw
  obtain ⟨v, hv, hw⟩ := mem_canonicalize.1 hw
  exact (h v hv).2 w hw

end Aliases

/-! ### Tidy contexts -/

/-- The aliases are acyclic and well-formed, and between old variables. -/
structure Context.Tidy (ctx : Context) : Prop where
  acyclic : ctx.aliases.Acyclic
  old : ∀ v t, ctx.aliases.lookup v = some t →
    ctx.supply.Old v ∧ ∀ w ∈ t.occurrences, ctx.supply.Old w
  wellFormed : ∀ v t, ctx.aliases.lookup v = some t → t.WellFormed

namespace Context.Tidy
variable {ctx ctx' : Context} {v : TyVar}

theorem init (first : TyVar) : (Context.init first).Tidy where
  acyclic := Aliases.acyclic_empty
  old v t hv := by
    rw [Context.init, Aliases.lookup_empty] at hv
    cases hv
  wellFormed v t hv := by
    rw [Context.init, Aliases.lookup_empty] at hv
    cases hv

theorem of_le (h : ctx.Tidy) (haliases : ctx'.aliases = ctx.aliases)
    (hle : ctx.supply.next.toInt ≤ ctx'.supply.next.toInt) : ctx'.Tidy where
  acyclic := haliases ▸ h.acyclic
  old v t hv := by
    rw [haliases] at hv
    obtain ⟨hold, ht⟩ := h.old v t hv
    exact ⟨hold.mono hle, fun w hw => (ht w hw).mono hle⟩
  wellFormed v t hv := h.wellFormed v t (haliases ▸ hv)

theorem lookup_of_not_old (h : ctx.Tidy) (hv : ¬ ctx.supply.Old v) : ctx.aliases.lookup v = none := by
  cases hl : ctx.aliases.lookup v with
  | none => rfl
  | some t => exact absurd (h.old v t hl).1 hv

theorem keeps_old (h : ctx.Tidy) (hv : ctx.supply.Old v) : ctx.aliases.Keeps ctx.supply.Old v :=
  ⟨hv, h.acyclic.forall_mem_value (fun v t hl => (h.old v t hl).2) hv⟩

theorem keeps_fresh {X : TyVar → Prop} (h : ctx.Tidy) (hle : ctx.supply.next.toInt ≤ v.toInt)
    (hlt : v.toInt < 2 ^ 63 - 1) (hX : X v) : ctx.aliases.Keeps X v :=
  Aliases.keeps_of_none (h.lookup_of_not_old (Supply.not_old hle hlt)) hX

end Context.Tidy

/-! ### What a run touches -/

/-- `P` holds of the free variables of all schemes that `e` mentions. -/
def Env.Mentioned (env : Env) (e : Expr) (P : TyVar → Prop) : Prop :=
  ∀ x s, e.HasFree x → env.lookup x = some s → ∀ v ∈ s.free, P v

theorem Env.Mentioned.imp {env : Env} {e : Expr} {P Q : TyVar → Prop} (h : env.Mentioned e P)
    (hPQ : ∀ v, P v → Q v) : env.Mentioned e Q :=
  fun x s hx hs v hv => hPQ v (h x s hx hs v hv)

theorem Env.mentioned_of_recent {env : Env} {e : Expr} {P : TyVar → Prop}
    (hP : ∀ b ∈ env.recent, ∀ v ∈ b.scheme.free, P v) : env.Mentioned e P := by
  intro x s _ hs v hv
  obtain ⟨b, hb, rfl⟩ := exists_binding hs
  exact hP b hb v hv

theorem Env.Mentioned.extend {env : Env} {e : Expr} {P : TyVar → Prop} {x : String} {s : Scheme}
    (hs : ∀ v ∈ s.free, P v)
    (h : ∀ y s', y ≠ x → e.HasFree y → env.lookup y = some s' → ∀ v ∈ s'.free, P v) :
    (env.extend x s).Mentioned e P :=
  forall_free_extend (P := fun _ s' => ∀ v ∈ s'.free, P v) hs h

variable {env : Env} {e : Expr} {ctx ctx' : Context} {t : Ty} {b : Int} {X : TyVar → Prop}

theorem Infers.count_le (h : Infers env e ctx t ctx') : ctx.supply.count ≤ ctx'.supply.count := by
  rw [h.count_eq]
  exact Nat.le_add_right _ _

theorem Infers.from (h : Infers env e ctx t ctx') (hb : ctx.supply.From b)
    (hmax : b + ctx'.supply.count < 2 ^ 63) : ctx'.supply.From b := by
  rw [h.supply_eq] at hmax ⊢
  exact hb.after hmax

theorem Context.Tidy.of_run (htidy : ctx.Tidy) (hold : env.Mentioned e ctx.supply.Old)
    (hle : ctx.supply.next.toInt ≤ ctx'.supply.next.toInt)
    (hrun : ∀ X : TyVar → Prop, env.Mentioned e (ctx.aliases.Keeps X) →
      (∀ v, ctx.supply.next.toInt ≤ v.toInt → v.toInt < ctx'.supply.next.toInt → X v) →
      Aliases.Grows X ctx.aliases ctx'.aliases ∧ ∀ v ∈ t.occurrences, ctx'.aliases.Keeps X v) :
    ctx'.Tidy ∧ ∀ v ∈ t.occurrences, ctx'.supply.Old v := by
  have hup : ∀ v, ctx.supply.Old v → ctx'.supply.Old v := fun v hv => hv.mono hle
  obtain ⟨hg, ht⟩ := hrun ctx'.supply.Old
    (hold.imp fun v hv => ⟨hup v hv, fun w hw => hup w ((htidy.keeps_old hv).2 w hw)⟩)
    fun v _ hv => .inl hv
  refine ⟨⟨hg.acyclic htidy.acyclic, ?_, ?_⟩, fun v hv => (ht v hv).1⟩
  · refine hg.forall_lookup (fun v t hv => ?_) fun v t hv hw _ => ⟨hv, hw⟩
    obtain ⟨hold, ht⟩ := htidy.old v t hv
    exact ⟨hup v hold, fun w hw => hup w (ht w hw)⟩
  · exact hg.forall_lookup htidy.wellFormed fun v t _ _ hwf => hwf

theorem Context.mem_rename {s : Scheme} {v : TyVar} (hv : v ∈ (s.body.subst (ctx.rename s)).occurrences) :
    v ∈ s.free ∨ ∃ i < s.vars.size, v = (ctx.supply.after i).next := by
  obtain ⟨u, hu, hv⟩ := Ty.mem_occurrences_subst.1 hv
  unfold rename at hv
  split at hv
  · rename_i hs
    rw [Ty.mem_occurrences_var] at hv
    exact .inr ⟨_, List.idxOf_lt_length_iff.2 hs, hv⟩
  · rename_i hs
    rw [Ty.mem_occurrences_var] at hv
    exact .inl (Scheme.mem_free.2 ⟨hv ▸ hu, hv ▸ hs⟩)

/-- A run touches only what the mentioned schemes reach, and its own fresh variables. -/
theorem Infers.local (h : Infers env e ctx t ctx') (hb : ctx.supply.From b)
    (hmax : b + ctx'.supply.count < 2 ^ 63) (htidy : ctx.Tidy)
    (hold : env.Mentioned e ctx.supply.Old) (hX : env.Mentioned e (ctx.aliases.Keeps X))
    (hfresh : ∀ v, ctx.supply.next.toInt ≤ v.toInt → v.toInt < ctx'.supply.next.toInt → X v) :
    Aliases.Grows X ctx.aliases ctx'.aliases ∧ ∀ v ∈ t.occurrences, ctx'.aliases.Keeps X v := by
  induction h generalizing X with
  | @var env x s ctx ctx' t hx ht =>
    obtain ⟨rfl, rfl⟩ := Context.instantiate?_eq_ok ht
    have hb' : (ctx.supply.after s.vars.size).From b := hb.after hmax
    have hcount : (ctx.supply.after s.vars.size).count = ctx.supply.count + s.vars.size := rfl
    dsimp only at hfresh hmax
    refine ⟨.refl _, fun v hv => ?_⟩
    rcases Context.mem_rename hv with hv | ⟨i, hi, rfl⟩
    · exact hX x s rfl hx v hv
    · have hnext : (ctx.supply.after i).next.toInt = ctx.supply.next.toInt + i :=
        Supply.next_toInt_after (by omega)
      refine htidy.keeps_fresh ?_ ?_ (hfresh _ ?_ ?_) <;> omega
  | @call env f a ctx ctx₁ ctx₂ ctx' tf ta hf ha hu ihf iha =>
    obtain ⟨-, rfl⟩ := Context.unify_eq_none.1 hu
    have hcf := hf.count_le
    have hca := ha.count_le
    have hcount : ctx₂.fresh.2.supply.count = ctx₂.supply.count + 1 := rfl
    dsimp only at hfresh hmax ⊢
    have hb₁ : ctx₁.supply.From b := hf.from hb (by omega)
    have hb₂ : ctx₂.supply.From b := ha.from hb₁ (by omega)
    have hb' : ctx₂.fresh.2.supply.From b := hb₂.advance (by omega)
    have hXf : env.Mentioned f (ctx.aliases.Keeps X) := fun x s hx => hX x s (.inl hx)
    have holdf : env.Mentioned f ctx.supply.Old := fun x s hx => hold x s (.inl hx)
    have hrunf := fun X => @ihf X hb (by omega) htidy holdf
    obtain ⟨htidy₁, -⟩ := htidy.of_run holdf (by omega) hrunf
    obtain ⟨hgf, htf⟩ := hrunf X hXf fun v hle hlt => hfresh v hle (by omega)
    have holda : env.Mentioned a ctx₁.supply.Old :=
      fun x s hx hs v hv => (hold x s (.inr hx) hs v hv).mono (by omega)
    have hXa : env.Mentioned a (ctx₁.aliases.Keeps X) :=
      fun x s hx hs v hv => (hX x s (.inr hx) hs v hv).grows htidy.acyclic hgf
    have hruna := fun X => @iha X hb₁ (by omega) htidy₁ holda
    obtain ⟨htidy₂, -⟩ := htidy₁.of_run holda (by omega) hruna
    obtain ⟨hga, hta⟩ := hruna X hXa fun v hle hlt => hfresh v (by omega) (by omega)
    have hr : ctx₂.aliases.Keeps X ctx₂.supply.next := by
      refine htidy₂.keeps_fresh ?_ ?_ (hfresh _ ?_ ?_) <;> omega
    have htf₂ : ∀ v ∈ tf.occurrences, ctx₂.aliases.Keeps X v :=
      fun v hv => (htf v hv).grows htidy₁.acyclic hga
    have hta₂ : ∀ v ∈ (Ty.arrow ta (.var ctx₂.supply.next)).occurrences, ctx₂.aliases.Keeps X v := by
      intro v hv
      rcases Ty.mem_occurrences_arrow.1 hv with hv | hv
      · exact hta v hv
      · rwa [Ty.mem_occurrences_var.1 hv]
    have hgu := Aliases.unify?_grows htidy₂.acyclic (Aliases.forall_mem_canonicalize htf₂)
      (Aliases.forall_mem_canonicalize hta₂)
    refine ⟨(hgf.trans hga).trans hgu, fun v hv => ?_⟩
    rw [Ty.mem_occurrences_var.1 hv]
    exact hr.grows htidy₂.acyclic hgu
  | @func env x body ctx ctx' t hbody ih =>
    have hcount : ctx.fresh.2.supply.count = ctx.supply.count + 1 := rfl
    have hcb := hbody.count_le
    have hb₁ : ctx.fresh.2.supply.From b := hb.advance (by omega)
    have hb' : ctx'.supply.From b := hbody.from hb₁ hmax
    have hp : ctx.aliases.Keeps X ctx.supply.next := by
      refine htidy.keeps_fresh ?_ ?_ (hfresh _ ?_ ?_) <;> omega
    have hpfree : ∀ v ∈ (Scheme.mono (.var ctx.supply.next)).free, v = ctx.supply.next :=
      fun v hv => Ty.mem_occurrences_var.1 (Scheme.mem_free.1 hv).1
    have hold₁ : (env.extend x (.mono (.var ctx.supply.next))).Mentioned body
        ctx.fresh.2.supply.Old := by
      refine .extend (fun v hv => ?_) fun y s hxy hy hs v hv =>
        (hold y s ⟨hxy, hy⟩ hs v hv).mono (by omega)
      rw [hpfree v hv]
      exact .inl (by omega)
    have hX₁ : (env.extend x (.mono (.var ctx.supply.next))).Mentioned body
        (ctx.aliases.Keeps X) := by
      refine .extend (fun v hv => ?_) fun y s hxy hy hs v hv => hX y s ⟨hxy, hy⟩ hs v hv
      rwa [hpfree v hv]
    obtain ⟨hg, ht⟩ := ih hb₁ hmax (htidy.of_le rfl (by omega)) hold₁ hX₁ fun v hle hlt =>
      hfresh v (by omega) hlt
    refine ⟨hg, fun v hv => ?_⟩
    rcases Ty.mem_occurrences_arrow.1 hv with hv | hv
    · rw [Ty.mem_occurrences_var.1 hv]
      exact hp.grows htidy.acyclic hg
    · exact ht v hv
  | @letIn env x v body ctx ctx₁ ctx' tv t s hv hs hbody ihv ihb =>
    have hcv := hv.count_le
    have hcb := hbody.count_le
    have hb₁ : ctx₁.supply.From b := hv.from hb (by omega)
    have hb' : ctx'.supply.From b := hbody.from hb₁ hmax
    have holdv : env.Mentioned v ctx.supply.Old := fun x s hx => hold x s (.inl hx)
    have hrunv := fun X => @ihv X hb (by omega) htidy holdv
    obtain ⟨htidy₁, htv⟩ := htidy.of_run holdv (by omega) hrunv
    obtain ⟨hgv, htvX⟩ := hrunv X (fun x s hx => hX x s (.inl hx)) fun w hle hlt =>
      hfresh w hle (by omega)
    have hsfree : ∀ w ∈ s.free, w ∈ (ctx₁.aliases.canonicalize tv).occurrences := by
      obtain ⟨-, rfl⟩ := Context.generalize?_eq_ok.1 hs
      exact fun w hw => (Scheme.mem_free.1 hw).1
    have hold₁ : (env.extend x s).Mentioned body ctx₁.supply.Old := by
      refine .extend (fun w hw => ?_) fun y s' hxy hy hs' w hw =>
        (hold y s' (.inr ⟨hxy, hy⟩) hs' w hw).mono (by omega)
      exact Aliases.forall_mem_canonicalize (fun u hu => htidy₁.keeps_old (htv u hu)) w (hsfree w hw)
    have hX₁ : (env.extend x s).Mentioned body (ctx₁.aliases.Keeps X) := by
      refine .extend (fun w hw => ?_) fun y s' hxy hy hs' w hw =>
        (hX y s' (.inr ⟨hxy, hy⟩) hs' w hw).grows htidy.acyclic hgv
      exact Aliases.keeps_of_none (htidy₁.acyclic.canonical_canonicalize tv w (hsfree w hw))
        (Aliases.forall_mem_canonicalize htvX w (hsfree w hw))
    obtain ⟨hgb, ht⟩ := ihb hb₁ hmax htidy₁ hold₁ hX₁ fun w hle hlt => hfresh w (by omega) hlt
    exact ⟨hgv.trans hgb, ht⟩

theorem Infers.tidy (h : Infers env e ctx t ctx') (hb : ctx.supply.From b)
    (hmax : b + ctx'.supply.count < 2 ^ 63) (htidy : ctx.Tidy)
    (hold : env.Mentioned e ctx.supply.Old) :
    ctx'.Tidy ∧ ∀ v ∈ t.occurrences, ctx'.supply.Old v := by
  have hcount := h.count_le
  have hb' := h.from hb hmax
  exact htidy.of_run hold (by omega) fun X => h.local hb hmax htidy hold

/-- A variable that the found type has in common with what an old variable stands for is one that a
mentioned scheme reaches. -/
theorem Infers.mentioned_of_shared {v w : TyVar} (h : Infers env e ctx t ctx')
    (hb : ctx.supply.From b) (hmax : b + ctx'.supply.count < 2 ^ 63) (htidy : ctx.Tidy)
    (hold : env.Mentioned e ctx.supply.Old) (hw : w ∈ (ctx'.aliases.canonicalize t).occurrences)
    (hv : ctx.supply.Old v) (hwv : w ∈ (ctx'.aliases.value v).occurrences) :
    ∃ x s, e.HasFree x ∧ env.lookup x = some s ∧
      ∃ u ∈ s.free, w ∈ (ctx'.aliases.value u).occurrences := by
  have hb' := h.from hb hmax
  let M (y : TyVar) : Prop := ∃ x s, e.HasFree x ∧ env.lookup x = some s ∧
    ∃ u ∈ s.free, y = u ∨ y ∈ (ctx.aliases.value u).occurrences
  let X (y : TyVar) : Prop := M y ∨
    (ctx.supply.next.toInt ≤ y.toInt ∧ y.toInt < ctx'.supply.next.toInt)
  have hX : env.Mentioned e (ctx.aliases.Keeps X) := fun x s hx hs u hu =>
    ⟨.inl ⟨x, s, hx, hs, u, hu, .inl rfl⟩, fun y hy => .inl ⟨x, s, hx, hs, u, hu, .inr hy⟩⟩
  obtain ⟨hg, ht⟩ := h.local hb hmax htidy hold hX fun y hle hlt => .inr ⟨hle, hlt⟩
  have hvalue : ∀ u, ctx'.aliases.canonicalize (ctx.aliases.value u) = ctx'.aliases.value u :=
    fun u => hg.canonicalize_canonicalize htidy.acyclic (.var u)
  -- `w` comes from a variable `y` that `v` stood for before the run
  rw [← hvalue v] at hwv
  obtain ⟨y, hy, hwy⟩ := Aliases.mem_canonicalize.1 hwv
  have hXy : X y := by
    by_contra hXy
    have hnone : ctx'.aliases.lookup y = none := by
      rw [hg.lookup_of_not hXy]
      exact (htidy.acyclic.mem_value.1 hy).1
    rw [Aliases.value_of_none hnone, Ty.mem_occurrences_var] at hwy
    exact hXy (hwy ▸ Aliases.forall_mem_canonicalize ht w hw)
  rcases hXy with ⟨x, s, hx, hs, u, hu, hyu⟩ | ⟨hle, hlt⟩
  · refine ⟨x, s, hx, hs, u, hu, ?_⟩
    rcases hyu with rfl | hyu
    · exact hwy
    · rw [← hvalue u]
      exact Aliases.mem_canonicalize.2 ⟨y, hyu, hwy⟩
  · exact absurd ((htidy.keeps_old hv).2 y hy) (Supply.not_old hle (by omega))

end LetPoly
