import LetPoly.Proofs.SessionReuse

/-!
# What a failed inference points at

A run on a term without aliens ends with a scheme, or it fails in one of three ways, and the record that
the session keeps of it is about a subterm of the term (`Session.infer_fails_located`). A name without a
binding is blamed on an occurrence of it that is bound neither around it in the term nor in the
environment. A clash, or a type that would contain itself, is blamed on an application.

Since the first failure ends the run, everything that is evaluated before the blamed application has been
typed, so all variables in it are bound. Positions are compared by `Expr.Precedes`: the parts of a term
come before the term, the callee before the argument, the value of a `let` before its body.
-/

namespace LetPoly

namespace Expr
variable {e e' : Expr} {b : Branch} {p q : List Branch} {n x : String}

/-- The names that the binders around a position bind there, outermost first. The value of a `let` is
outside of its scope. -/
def binders : Expr → List Branch → List String
  | .call f _, .callee :: p => f.binders p
  | .call _ a, .argument :: p => a.binders p
  | .func x b, .body :: p => x :: b.binders p
  | .letIn _ v _, .value :: p => v.binders p
  | .letIn x _ b, .body :: p => x :: b.binders p
  | _, _ => []

/-- Which of two parts of a term is evaluated first. -/
inductive Branch.Before : Branch → Branch → Prop
  | call : Before .callee .argument
  | letIn : Before .value .body

/-- The evaluation of what is at the first position ends before that of what is at the second. -/
inductive Precedes : List Branch → List Branch → Prop
  | part {b : Branch} {p : List Branch} : Precedes (b :: p) []
  | apart {b c : Branch} {p q : List Branch} : b.Before c → Precedes (b :: p) (c :: q)
  | under {b : Branch} {p q : List Branch} : Precedes p q → Precedes (b :: p) (b :: q)

theorem hasFree_of_subterm? (h : e.subterm? p = some (.var n)) (hn : n ∉ e.binders p) : e.HasFree n := by
  induction p generalizing e with
  | nil =>
    obtain rfl := Option.some.inj h
    rfl
  | cons b p ih =>
    obtain ⟨e', hchild, h⟩ := Option.bind_eq_some_iff.1 h
    cases e <;> cases b <;> cases hchild <;> simp only [binders, List.mem_cons, not_or] at hn
    · exact .inl (ih h hn)
    · exact .inr (ih h hn)
    · exact ⟨hn.1, ih h hn.2⟩
    · exact .inl (ih h hn)
    · exact .inr ⟨hn.1, ih h hn.2⟩

end Expr

namespace Env
variable {env : Env} {x n : String} {s : Scheme} {xs : List String}

/-- The name is one of those bound in a term, or has a binding. -/
def Binds (env : Env) (xs : List String) (n : String) : Prop := n ∈ xs ∨ (env.lookup n).isSome

theorem binds_extend : (env.extend x s).Binds xs n ↔ env.Binds (x :: xs) n := by
  unfold Binds
  by_cases hn : n = x
  · subst hn
    simp [lookup_extend_self]
  · simp [lookup_extend_of_ne hn, hn]

theorem not_binds : ¬ env.Binds xs n ↔ n ∉ xs ∧ env.lookup n = none := by
  simp [Binds]

end Env

variable {env : Env} {e : Expr} {ctx ctx' : Context} {t : Ty} {f : Failure} {n : String}
  {p : List Expr.Branch}

/-- A run that succeeds has met no unknown name. -/
theorem Infers.binds (h : Infers env e ctx t ctx') (hp : e.subterm? p = some (.var n)) :
    env.Binds (e.binders p) n := by
  induction h generalizing p with
  | var hx _ =>
    cases p with
    | nil =>
      cases hp
      exact .inr (by rw [hx, Option.isSome_some])
    | cons b p => cases b <;> cases hp
  | call _ _ _ ihf iha =>
    cases p with
    | nil => cases hp
    | cons b p =>
      cases b with
      | callee => exact ihf hp
      | argument => exact iha hp
      | value | body => cases hp
  | func _ ih =>
    cases p with
    | nil => cases hp
    | cons b p =>
      cases b with
      | body => exact Env.binds_extend.1 (ih hp)
      | callee | argument | value => cases hp
  | letIn _ _ _ ihv ihb =>
    cases p with
    | nil => cases hp
    | cons b p =>
      cases b with
      | value => exact ihv hp
      | body => exact Env.binds_extend.1 (ihb hp)
      | callee | argument => cases hp

namespace Fails

/-- What is evaluated before the failure has been typed. An alien type that is met when the value of a
`let` is generalized would be reported before the body has been looked at; it is no verdict. -/
theorem binds (h : Fails env e ctx f) (hf : f.error.isVerdict = true)
    (hp : e.subterm? p = some (.var n)) (hbefore : Expr.Precedes p f.position) :
    env.Binds (e.binders p) n := by
  induction h generalizing p with
  | unknown | copy | alien =>
    cases hbefore with
    | @part b => cases b <;> cases hp
  | callee _ ih =>
    cases hbefore with
    | apart hb => cases hb
    | under hbefore => exact ih hf hp hbefore
  | argument hg _ ih =>
    cases hbefore with
    | apart hb =>
      cases hb
      exact hg.binds hp
    | under hbefore => exact ih hf hp hbefore
  | unify hg ha _ =>
    cases hbefore with
    | @part b =>
      cases b with
      | callee => exact hg.binds hp
      | argument => exact ha.binds hp
      | value | body => cases hp
  | func _ ih =>
    cases hbefore with
    | apart hb =>
      cases hb
      cases hp
    | under hbefore => exact Env.binds_extend.1 (ih hf hp hbefore)
  | value _ ih =>
    cases hbefore with
    | apart hb => cases hb
    | under hbefore => exact ih hf hp hbefore
  | generalize => cases hf
  | body hv _ _ ih =>
    cases hbefore with
    | apart hb =>
      cases hb
      exact hv.binds hp
    | under hbefore => exact Env.binds_extend.1 (ih hf hp hbefore)

/-- The kind of a verdict decides what is at the position of the failure. -/
theorem culprit (h : Fails env e ctx f) (hf : f.error.isVerdict = true) (he : e.WellFormed) :
    (∃ n, f.error = .unknownVariable n ∧ e.subterm? f.position = some (.var n) ∧
      ¬ env.Binds (e.binders f.position) n) ∨
    ((∃ err, f.error = .type err) ∧ ∃ g a, e.subterm? f.position = some (.call g a)) := by
  induction h with
  | @unknown env x ctx hx => exact .inl ⟨x, rfl, rfl, Env.not_binds.2 ⟨List.not_mem_nil, hx⟩⟩
  | copy | generalize => cases hf
  | @unify env g a ctx ctx₁ ctx₂ ctx' tg ta err => exact .inr ⟨⟨err, rfl⟩, g, a, rfl⟩
  | callee _ ih => exact ih hf he.1
  | argument _ _ ih => exact ih hf he.2
  | value _ ih => exact ih hf he.1
  | func _ ih =>
    refine (ih hf he).imp_left ?_
    rintro ⟨n, hn, hsub, hbinds⟩
    exact ⟨n, hn, hsub, mt Env.binds_extend.2 hbinds⟩
  | body _ _ _ ih =>
    refine (ih hf he.2).imp_left ?_
    rintro ⟨n, hn, hsub, hbinds⟩
    exact ⟨n, hn, hsub, mt Env.binds_extend.2 hbinds⟩
  | alien => exact he.elim

end Fails

/-- The failure of a run on `e` in `env` is of one of three kinds, and what is at its position is to
blame for it: a free occurrence of an unknown name, or an application that comes after bound variables
only. -/
def Failure.Located (f : Failure) (env : Env) (e : Expr) : Prop :=
  match f.error with
  | .unknownVariable n =>
    e.subterm? f.position = some (.var n) ∧ n ∉ e.binders f.position ∧ env.lookup n = none
  | .type (.impossible ..) | .type (.recursive ..) =>
    (∃ g a, e.subterm? f.position = some (.call g a)) ∧
      ∀ p n, e.subterm? p = some (.var n) → Expr.Precedes p f.position →
        n ∈ e.binders p ∨ ∃ s, env.lookup n = some s
  | _ => False

theorem located_of_infer (h : infer env e = .error f) (he : e.WellFormed)
    (henv : ∀ x s, e.HasFree x → env.lookup x = some s → s.body.WellFormed) : f.Located env e := by
  have hf := isVerdict_of_infer h henv
  rcases infer_eq_error h with ⟨rfl, -⟩ | h | ⟨t, ctx, a, -, -, rfl⟩
  · exact he.elim
  · unfold Failure.Located
    rcases h.culprit hf he with ⟨n, hn, hsub, hbinds⟩ | ⟨⟨err, herr⟩, hsub⟩
    · rw [hn]
      exact ⟨hsub, Env.not_binds.1 hbinds⟩
    · have hbefore : ∀ p n, e.subterm? p = some (.var n) → Expr.Precedes p f.position →
          n ∈ e.binders p ∨ ∃ s, env.lookup n = some s := by
        intro p n hp hbefore
        exact (h.binds hf hp hbefore).imp_right Option.isSome_iff_exists.1
      rw [herr] at hf ⊢
      cases err with
      | impossible a b => exact ⟨hsub, hbefore⟩
      | recursive t v => exact ⟨hsub, hbefore⟩
      | rebound v => cases hf
      | unexpected a => cases hf
  · cases hf

namespace Failure.Located

theorem hasFree (h : f.Located env e) (hn : f.error = .unknownVariable n) :
    e.HasFree n ∧ env.lookup n = none := by
  unfold Failure.Located at h
  rw [hn] at h
  exact ⟨Expr.hasFree_of_subterm? h.1 h.2.1, h.2.2⟩

theorem culprit? (h : f.Located env e) : ∃ u, e.subterm? f.position = some u ∧ f.culprit? e = some u := by
  have hsub : (∃ n, e.subterm? f.position = some (.var n)) ∨
      ∃ g a, e.subterm? f.position = some (.call g a) := by
    unfold Failure.Located at h
    split at h
    · exact .inl ⟨_, h.1⟩
    · exact .inr h.1
    · exact .inr h.1
    · exact h.elim
  unfold Failure.culprit?
  rcases hsub with ⟨n, hn⟩ | ⟨g, a, hg⟩
  · exact ⟨_, hn, by rw [hn]⟩
  · exact ⟨_, hg, by rw [hg]⟩

end Failure.Located

/-- However a session has been used, a run on a term without aliens, with well-formed schemes for its
free names, ends with a scheme or with a failure of one of three kinds. The session then has a record of
the error and of the subterm to blame. If all free names have bindings, no name is unknown. -/
theorem Session.infer_fails_located (s : Session) (env : Env) (e : Expr) (he : e.WellFormed)
    (henv : ∀ x S, e.HasFree x → env.lookup x = some S → S.body.WellFormed) :
    (∃ S, (s.infer env e).2 = .ok S) ∨
    ∃ f u, (s.infer env e).2 = .error f ∧ f.Located env e ∧
      (s.infer env e).1.error? = some f.error ∧
      e.subterm? f.position = some u ∧ (s.infer env e).1.culprit? = some u ∧
      ((∀ x, e.HasFree x → ∃ S, env.lookup x = some S) → ∀ n, f.error ≠ .unknownVariable n) := by
  cases h : LetPoly.infer env e with
  | ok S =>
    obtain ⟨ctx, hs⟩ := s.infer_of_ok h
    exact .inl ⟨S, by rw [hs]⟩
  | error f =>
    obtain ⟨ctx, hs⟩ := s.infer_of_error h
    have hlocated := located_of_infer h he henv
    obtain ⟨u, hu, hculprit⟩ := hlocated.culprit?
    refine .inr ⟨f, u, ?_⟩
    rw [hs, record, if_pos (isVerdict_of_infer h henv)]
    refine ⟨rfl, hlocated, rfl, hu, hculprit, fun hbound n hn => ?_⟩
    obtain ⟨hfree, hnone⟩ := hlocated.hasFree hn
    obtain ⟨S, hS⟩ := hbound n hfree
    cases hS.symm.trans hnone

/-- In `let x = k k in z` with an integer `k`, the unknown name `z` comes after the application to blame
and is not looked at. -/
theorem Session.infer_fails_located_value :
    (Session.infer {} (.ofBindings [⟨"k", .mono (.const "Int")⟩])
      (.letIn "x" (.call (.var "k") (.var "k")) (.var "z"))).1.culprit? =
        some (.call (.var "k") (.var "k")) ∧
    ∀ p n, (Expr.letIn "x" (.call (.var "k") (.var "k")) (.var "z")).subterm? p = some (.var n) →
      Expr.Precedes p [.value] →
      n ∈ (Expr.letIn "x" (.call (.var "k") (.var "k")) (.var "z")).binders p ∨
        ∃ S, (Env.ofBindings [⟨"k", .mono (.const "Int")⟩]).lookup n = some S := by
  have hwf : ∀ x S, (Env.ofBindings [⟨"k", .mono (.const "Int")⟩]).lookup x = some S →
      S.body.WellFormed := by
    intro x S hS
    obtain ⟨b, hb, rfl⟩ := Env.exists_binding hS
    obtain rfl := List.mem_singleton.1 (Env.mem_of_mem_recent hb)
    rfl
  set env := Env.ofBindings [⟨"k", .mono (.const "Int")⟩]
  have hk : Infers env (.var "k") (.init 0) (.const "Int") (.init 0) := .var rfl rfl
  have hunify : (Context.init 0).fresh.2.unify (.const "Int") (.arrow (.const "Int") (.var 0)) =
      (⟨∅, ⟨1, 1⟩⟩, some (.impossible (.const "Int") (.arrow (.const "Int") (.var 0)))) := by
    show Context.unify ⟨∅, ⟨1, 1⟩⟩ _ _ = _
    cbv
  have hfails : Fails env (.letIn "x" (.call (.var "k") (.var "k")) (.var "z")) (.init 0)
      ⟨.type (.impossible (.const "Int") (.arrow (.const "Int") (.var 0))), [.value]⟩ :=
    .value (.unify hk hk hunify)
  have herror : (Session.infer {} env (.letIn "x" (.call (.var "k") (.var "k")) (.var "z"))).2 =
      .error ⟨.type (.impossible (.const "Int") (.arrow (.const "Int") (.var 0))), [.value]⟩ := by
    obtain ⟨ctx, hends⟩ := (hfails.breaks { used := true }).bind
    rw [← Session.Run.infer_of_ne (by simp)] at hends
    rw [Session.infer_of_ends hends]
  rcases Session.infer_fails_located {} env
      (.letIn "x" (.call (.var "k") (.var "k")) (.var "z")) ⟨⟨trivial, trivial⟩, trivial⟩
      fun x S _ => hwf x S with ⟨S, hS⟩ | ⟨f, u, hf, hlocated, -, hu, hculprit, -⟩
  · cases hS.symm.trans herror
  · obtain rfl := Except.error.inj (hf.symm.trans herror)
    obtain rfl := Option.some.inj hu
    exact ⟨hculprit, hlocated.2⟩

end LetPoly
