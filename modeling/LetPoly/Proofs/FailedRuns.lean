import LetPoly.Proofs.ContextInvariant
import LetPoly.Proofs.Inference

/-!
# Failed runs of inference

`Fails env e ctx f` is what `inferType` answers when it fails (`fails_of_eq`), with one rule for each
way to fail. The runs before the failure are successful ones (`Infers`).

A failure points at a subterm of the term (`Fails.exists_subterm`). Where the schemes that the term
mentions are well-formed, no run breaks off at an alien type and none comes to bind a variable twice:
what it fails with is a verdict on the term (`Fails.isVerdict`).
-/

namespace LetPoly

/-- A run on `e` that starts from `ctx` fails with `f`. -/
inductive Fails : Env → Expr → Context → Failure → Prop
  | unknown {env : Env} {x : String} {ctx : Context} : env.lookup x = none →
    Fails env (.var x) ctx ⟨.unknownVariable x, []⟩
  | copy {env : Env} {x : String} {s : Scheme} {ctx ctx' : Context} {a : Alien} :
    env.lookup x = some s → ctx.instantiate? s = (.error a, ctx') →
    Fails env (.var x) ctx ⟨.type (.unexpected a), []⟩
  | callee {env : Env} {g a : Expr} {ctx : Context} {f : Failure} : Fails env g ctx f →
    Fails env (.call g a) ctx (f.under .callee)
  | argument {env : Env} {g a : Expr} {ctx ctx₁ : Context} {t : Ty} {f : Failure} :
    Infers env g ctx t ctx₁ → Fails env a ctx₁ f → Fails env (.call g a) ctx (f.under .argument)
  | unify {env : Env} {g a : Expr} {ctx ctx₁ ctx₂ ctx' : Context} {tg ta : Ty} {e : TypeError} :
    Infers env g ctx tg ctx₁ → Infers env a ctx₁ ta ctx₂ →
    ctx₂.fresh.2.unify tg (.arrow ta (.var ctx₂.supply.next)) = (ctx', some e) →
    Fails env (.call g a) ctx ⟨.type e, []⟩
  | func {env : Env} {x : String} {b : Expr} {ctx : Context} {f : Failure} :
    Fails (env.extend x (.mono (.var ctx.supply.next))) b ctx.fresh.2 f →
    Fails env (.func x b) ctx (f.under .body)
  | value {env : Env} {x : String} {v b : Expr} {ctx : Context} {f : Failure} : Fails env v ctx f →
    Fails env (.letIn x v b) ctx (f.under .value)
  | generalize {env : Env} {x : String} {v b : Expr} {ctx ctx₁ : Context} {t : Ty} {a : Alien} :
    Infers env v ctx t ctx₁ → ctx₁.generalize? t env.free = .error a →
    Fails env (.letIn x v b) ctx ⟨.type (.unexpected a), []⟩
  | body {env : Env} {x : String} {v b : Expr} {ctx ctx₁ : Context} {t : Ty} {s : Scheme} {f : Failure} :
    Infers env v ctx t ctx₁ → ctx₁.generalize? t env.free = .ok s →
    Fails (env.extend x s) b ctx₁ f → Fails env (.letIn x v b) ctx (f.under .body)
  | alien {env : Env} {ctx : Context} {a : Alien} : Fails env (.alien a) ctx ⟨.unhandled a, []⟩

variable {env : Env} {e : Expr} {ctx ctx' : Context} {t : Ty} {f : Failure}

theorem except_bind_error {ε α β : Type} {m : Except ε α} {k : α → Except ε β} {err : ε}
    (h : m >>= k = .error err) : m = .error err ∨ ∃ a, m = .ok a ∧ k a = .error err := by
  cases m with
  | error e =>
    cases h
    exact .inl rfl
  | ok a => exact .inr ⟨a, rfl, h⟩

theorem except_mapError_error {ε ε' α : Type} {m : Except ε α} {g : ε → ε'} {err : ε'}
    (h : m.mapError g = .error err) : ∃ e, m = .error e ∧ g e = err := by
  cases m with
  | error e => exact ⟨e, rfl, Except.error.inj h⟩
  | ok a => cases h

theorem fails_of_eq (h : inferType env e ctx = .error f) : Fails env e ctx f := by
  induction e generalizing env ctx f with
  | var x =>
    rw [inferType] at h
    split at h
    · rename_i hx
      cases h
      exact .unknown hx
    · rename_i s hx
      split at h
      · cases h
      · rename_i a ctx' hs
        cases h
        exact .copy hx hs
  | call g a ihg iha =>
    rw [inferType] at h
    rcases except_bind_error h with h | ⟨⟨tg, ctx₁⟩, hg, h⟩
    · obtain ⟨f', hf', rfl⟩ := except_mapError_error h
      exact .callee (ihg hf')
    have hg := infers_of_eq (except_mapError_ok hg)
    rcases except_bind_error h with h | ⟨⟨ta, ctx₂⟩, ha, h⟩
    · obtain ⟨f', hf', rfl⟩ := except_mapError_error h
      exact .argument hg (iha hf')
    have ha := infers_of_eq (except_mapError_ok ha)
    dsimp only at h
    split at h
    · cases h
    · rename_i ctx₃ err hu
      cases h
      exact .unify hg ha hu
  | func x b ih =>
    rw [inferType] at h
    rcases except_bind_error h with h | ⟨⟨tb, ctx₁⟩, hb, h⟩
    · obtain ⟨f', hf', rfl⟩ := except_mapError_error h
      exact .func (ih hf')
    · cases h
  | letIn x v b ihv ihb =>
    rw [inferType] at h
    rcases except_bind_error h with h | ⟨⟨tv, ctx₁⟩, hv, h⟩
    · obtain ⟨f', hf', rfl⟩ := except_mapError_error h
      exact .value (ihv hf')
    have hv := infers_of_eq (except_mapError_ok hv)
    dsimp only at h
    split at h
    · rename_i a hs
      cases h
      exact .generalize hv hs
    · rename_i s hs
      obtain ⟨f', hf', rfl⟩ := except_mapError_error h
      exact .body hv hs (ihb hf')
  | alien a =>
    cases h
    exact .alien

theorem Fails.exists_subterm (h : Fails env e ctx f) : ∃ u, e.subterm? f.position = some u := by
  induction h with
  | unknown | copy | unify | generalize | alien => exact ⟨_, rfl⟩
  | callee _ ih => exact ih
  | argument _ _ ih => exact ih
  | func _ ih => exact ih
  | value _ ih => exact ih
  | body _ _ _ ih => exact ih

theorem infer_eq_error (h : infer env e = .error f) :
    (e = .alien .absent ∧ f = ⟨.empty, []⟩) ∨ Fails env e (.init env.next) f ∨
      ∃ t ctx a, Infers env e (.init env.next) t ctx ∧ ctx.generalize? t env.free = .error a ∧
        f = ⟨.type (.unexpected a), []⟩ := by
  unfold infer at h
  split at h
  · cases h
    exact .inl ⟨rfl, rfl⟩
  · rcases except_bind_error h with h | ⟨⟨t, ctx⟩, hrun, h⟩
    · exact .inr (.inl (fails_of_eq h))
    · dsimp only at h
      split at h
      · rename_i a hs
        cases h
        exact .inr (.inr ⟨t, ctx, a, infers_of_eq hrun, hs, rfl⟩)
      · cases h

theorem exists_subterm_of_error (h : infer env e = .error f) : ∃ u, e.subterm? f.position = some u := by
  rcases infer_eq_error h with ⟨-, rfl⟩ | h | ⟨t, ctx, a, -, -, rfl⟩
  · exact ⟨e, rfl⟩
  · exact h.exists_subterm
  · exact ⟨e, rfl⟩

/-! ### Runs that give a verdict -/

theorem Infers.sound (h : Infers env e ctx t ctx') (hctx : ctx.Sound) : ctx'.Sound := by
  have hg := h.grows hctx.acyclic
  exact ⟨hg.acyclic hctx.acyclic, hg.forall_lookup hctx.wellFormed fun _ _ _ _ ht => ht⟩

theorem Context.Sound.generalize?_eq (h : ctx.Sound) (ht : t.WellFormed) (F : VarSet) :
    ctx.generalize? t F = .ok (.generalize (ctx.aliases.canonicalize t) (ctx.freeVars F)) :=
  generalize?_eq_ok.2 ⟨Aliases.wellFormed_canonicalize h.acyclic h.wellFormed ht, rfl⟩

theorem Fails.isVerdict (h : Fails env e ctx f) (hctx : ctx.Sound)
    (henv : ∀ x s, e.HasFree x → env.lookup x = some s → s.body.WellFormed) :
    f.error.isVerdict = true := by
  induction h with
  | unknown | alien => rfl
  | @copy env x s ctx ctx' a hx hs =>
    obtain ⟨t, ctx'', ht⟩ := Context.instantiate?_of_wellFormed ctx (henv x s rfl hx)
    rw [hs] at ht
    cases ht
  | callee _ ih => exact ih hctx fun x s hx => henv x s (.inl hx)
  | argument hg _ ih => exact ih (hg.sound hctx) fun x s hx => henv x s (.inr hx)
  | @unify env g a ctx ctx₁ ctx₂ ctx' tg ta e hg ha hu =>
    have hctx₁ := hg.sound hctx
    have hctx₂ : ctx₂.fresh.2.Sound := (ha.sound hctx₁).of_eq rfl
    have htg := hg.wellFormed hctx.acyclic hctx.wellFormed fun x s hx => henv x s (.inl hx)
    have hta := ha.wellFormed hctx₁.acyclic hctx₁.wellFormed fun x s hx => henv x s (.inr hx)
    have harrow : (Ty.arrow ta (.var ctx₂.supply.next)).WellFormed :=
      Ty.wellFormed_arrow.2 ⟨hta, Ty.wellFormed_var _⟩
    -- the operands are well-formed, so only a clash or an occurs check can end the unification
    have herr := congrArg Prod.snd hu
    cases e with
    | impossible | recursive => rfl
    | rebound v => exact (hctx₂.clash_of_unify herr nofun).elim
    | unexpected x => exact absurd herr (hctx₂.unify_ne_unexpected htg harrow x)
  | func _ ih =>
    refine ih (hctx.of_eq rfl) ?_
    exact Env.forall_free_extend (P := fun _ s => s.body.WellFormed) (Ty.wellFormed_var _)
      fun y s hxy hy => henv y s ⟨hxy, hy⟩
  | value _ ih => exact ih hctx fun x s hx => henv x s (.inl hx)
  | generalize hv hs =>
    have ht := hv.wellFormed hctx.acyclic hctx.wellFormed fun x s hx => henv x s (.inl hx)
    rw [(hv.sound hctx).generalize?_eq ht] at hs
    cases hs
  | body hv hs _ ih =>
    refine ih (hv.sound hctx) ?_
    obtain ⟨hwf, rfl⟩ := Context.generalize?_eq_ok.1 hs
    exact Env.forall_free_extend (P := fun _ s => s.body.WellFormed) hwf
      fun y s hxy hy => henv y s (.inr ⟨hxy, hy⟩)

theorem isVerdict_of_infer (h : infer env e = .error f)
    (henv : ∀ x s, e.HasFree x → env.lookup x = some s → s.body.WellFormed) :
    f.error.isVerdict = true := by
  have hctx : (Context.init env.next).Sound := .of_empty rfl
  rcases infer_eq_error h with ⟨-, rfl⟩ | h | ⟨t, ctx, a, hrun, hs, rfl⟩
  · rfl
  · exact h.isVerdict hctx henv
  · have ht := hrun.wellFormed hctx.acyclic hctx.wellFormed henv
    rw [(hrun.sound hctx).generalize?_eq ht] at hs
    cases hs

end LetPoly
