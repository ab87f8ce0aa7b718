import LetPoly.Proofs.FailedRuns
import LetPoly.Proofs.Soundness
import LetPoly.Session

/-!
# Reuse of a session

A session answers as if it were new, however it has been used before, and its record is about the last
run only (`Session.infer_after`).

The run of a session keeps its context in the session, where `inferType` passes it along, and goes on to
change the session up to the point of failure. The two are compared along the rules for successful runs
(`Infers.ends`) and for failed ones (`Fails.breaks`): both end with the same answer, and the session ends
with the context of the run and, after a failure, with a record of it. Since a run discards the context
and the record that it finds, there is nothing else in the session for it to depend on.
-/

namespace LetPoly

variable {env : Env} {e e' : Expr} {ctx ctx' : Context} {t : Ty} {S : Scheme} {f : Failure}

namespace Session
variable {s s' s₁ : Session}

theorem record_under {br : Expr.Branch} (h : e.child? br = some e') (s : Session) (f : Failure) :
    s.record (f.under br) e = s.record f e' := by
  unfold record
  rw [Failure.culprit?_under h f]
  rfl

@[simp] theorem used_record (s : Session) (f : Failure) (e : Expr) : (s.record f e).used = s.used := by
  unfold record
  split <;> rfl

/-! ### Parts of a run -/

namespace Run
variable {α β : Type} {m : Run α} {k : α → Run β} {a : α} {r : Except Failure β} {br : Expr.Branch}

/-- From `s`, the part `m` of a run comes to `s'`, with the answer `r`. -/
def Ends (m : Run α) (s : Session) (r : Except Failure α) (s' : Session) : Prop := m.run.run s = (r, s')

theorem Ends.bind (h : m.Ends s (.ok a) s₁) (hk : (k a).Ends s₁ r s') : (m >>= k).Ends s r s' := by
  unfold Ends at h hk ⊢
  rw [ExceptT.run_bind, StateT.run_bind, h]
  exact hk

theorem Ends.bind_error (h : m.Ends s (.error f) s') : (m >>= k).Ends s (.error f) s' := by
  unfold Ends at h ⊢
  rw [ExceptT.run_bind, StateT.run_bind, h]
  rfl

theorem Ends.under (h : m.Ends s (.ok a) s') : (Run.under br m).Ends s (.ok a) s' := by
  unfold Ends at h ⊢
  show (Except.mapError _ <$> m.run).run s = _
  rw [StateT.run_map, h]
  rfl

theorem Ends.under_error (h : m.Ends s (.error f) s') :
    (Run.under br m).Ends s (.error (f.under br)) s' := by
  unfold Ends at h ⊢
  show (Except.mapError _ <$> m.run).run s = _
  rw [StateT.run_map, h]
  rfl

/-- From `s`, the part `m` of a run fails with `f`. It leaves some context, and the record of `f` as a
failure on the term `e`. -/
def Breaks (m : Run α) (s : Session) (f : Failure) (e : Expr) : Prop :=
  ∃ ctx, m.Ends s (.error f) (record { s with context := ctx } f e)

theorem Breaks.bind (h : m.Breaks s f e) : (m >>= k).Breaks s f e := by
  obtain ⟨ctx, h⟩ := h
  exact ⟨ctx, h.bind_error⟩

theorem Breaks.under (h : m.Breaks s f e') (he : e.child? br = some e') :
    (Run.under br m).Breaks s (f.under br) e := by
  obtain ⟨ctx, h⟩ := h
  refine ⟨ctx, ?_⟩
  rw [record_under he]
  exact h.under_error

theorem Ends.bind_breaks (h : m.Ends s (.ok a) { s with context := ctx })
    (hk : (k a).Breaks { s with context := ctx } f e) : (m >>= k).Breaks s f e := by
  obtain ⟨ctx', hk⟩ := hk
  exact ⟨ctx', h.bind hk⟩

theorem ends_pure : (pure a : Run α).Ends s (.ok a) s := rfl

theorem ends_get : (get : Run Session).Ends s (.ok s) s := rfl

theorem ends_set : (set s' : Run PUnit).Ends s (.ok ⟨⟩) s' := rfl

theorem breaks_fail {error : InferError} : (fail e error : Run α).Breaks s ⟨error, []⟩ e :=
  ⟨s.context, rfl⟩

theorem ends_fresh :
    fresh.Ends { s with context := ctx } (.ok ctx.supply.next) { s with context := ctx.fresh.2 } := rfl

theorem ends_instantiate (h : ctx.instantiate? S = (.ok t, ctx')) :
    (instantiate e S).Ends { s with context := ctx } (.ok t) { s with context := ctx' } := by
  refine ends_get.bind ?_
  simp only [h]
  exact ends_set.bind ends_pure

theorem breaks_instantiate {x : Alien} (h : ctx.instantiate? S = (.error x, ctx')) :
    (instantiate e S).Breaks { s with context := ctx } ⟨.type (.unexpected x), []⟩ e := by
  refine ends_get.bind_breaks ?_
  simp only [h]
  exact ends_set.bind_breaks breaks_fail

theorem ends_unify {t u : Ty} (h : ctx.unify t u = (ctx', none)) :
    (unify e t u).Ends { s with context := ctx } (.ok ()) { s with context := ctx' } := by
  refine ends_get.bind ?_
  simp only [h]
  exact ends_set.bind ends_pure

theorem breaks_unify {t u : Ty} {error : TypeError} (h : ctx.unify t u = (ctx', some error)) :
    (unify e t u).Breaks { s with context := ctx } ⟨.type error, []⟩ e := by
  refine ends_get.bind_breaks ?_
  simp only [h]
  exact ends_set.bind_breaks breaks_fail

theorem ends_generalize {F : VarSet} (h : ctx.generalize? t F = .ok S) :
    (generalize e t F).Ends { s with context := ctx } (.ok S) { s with context := ctx } := by
  refine ends_get.bind ?_
  simp only [h]
  exact ends_pure

theorem breaks_generalize {F : VarSet} {x : Alien} (h : ctx.generalize? t F = .error x) :
    (generalize e t F).Breaks { s with context := ctx } ⟨.type (.unexpected x), []⟩ e := by
  refine ends_get.bind_breaks ?_
  simp only [h]
  exact breaks_fail

end Run

end Session

/-! ### Whole runs -/

open Session Run

theorem Infers.ends (h : Infers env e ctx t ctx') (s : Session) :
    (Run.inferType env e).Ends { s with context := ctx } (.ok t) { s with context := ctx' } := by
  induction h generalizing s with
  | var hx ht =>
    simp only [Run.inferType, hx]
    exact ends_instantiate ht
  | call _ _ hu ihf iha =>
    refine (ihf s).under.bind ((iha s).under.bind (ends_fresh.bind ?_))
    exact (ends_unify hu).bind ends_pure
  | func _ ih => exact ends_fresh.bind ((ih s).under.bind ends_pure)
  | letIn _ hs _ ihv ihb => exact (ihv s).under.bind ((ends_generalize hs).bind (ihb s).under)

theorem Fails.breaks (h : Fails env e ctx f) (s : Session) :
    (Run.inferType env e).Breaks { s with context := ctx } f e := by
  induction h generalizing s with
  | unknown hx =>
    simp only [Run.inferType, hx]
    exact breaks_fail
  | copy hx hs =>
    simp only [Run.inferType, hx]
    exact breaks_instantiate hs
  | callee _ ih => exact ((ih s).under rfl).bind
  | argument hg _ ih => exact (hg.ends s).under.bind_breaks ((ih s).under rfl).bind
  | unify hg ha hu =>
    refine (hg.ends s).under.bind_breaks ((ha.ends s).under.bind_breaks ?_)
    exact ends_fresh.bind_breaks (breaks_unify hu).bind
  | func _ ih => exact ends_fresh.bind_breaks ((ih s).under rfl).bind
  | value _ ih => exact ((ih s).under rfl).bind
  | generalize hv hs => exact (hv.ends s).under.bind_breaks (breaks_generalize hs).bind
  | body hv hs _ ih =>
    refine (hv.ends s).under.bind_breaks ?_
    exact (ends_generalize hs).bind_breaks ((ih s).under rfl)
  | alien => exact breaks_fail

namespace Session
variable {s : Session}

theorem infer_of_ends {r : Except Failure Scheme} {s' : Session}
    (h : (Run.infer env e).Ends { s.clear env.next with used := true } r s') :
    s.infer env e = (s', r) := by
  unfold Session.infer
  rw [show (Run.infer env e).run.run { s.clear env.next with used := true } = (r, s') from h]

theorem Run.infer_of_ne (he : e ≠ .alien .absent) :
    Run.infer env e = (do let t ← Run.inferType env e; Run.generalize e t env.free) := by
  unfold Run.infer
  split
  · exact absurd rfl he
  · rfl

theorem infer_of_ok (s : Session) (h : LetPoly.infer env e = .ok S) :
    ∃ ctx, s.infer env e = ({ context := ctx, used := true }, .ok S) := by
  obtain ⟨t, ctx, hrun, hS⟩ := infer_eq_ok h
  refine ⟨ctx, infer_of_ends ?_⟩
  rw [Run.infer_of_ne (by rintro rfl; cases hrun)]
  exact (hrun.ends { used := true }).bind (ends_generalize hS)

theorem breaks_infer (h : LetPoly.infer env e = .error f) :
    (Run.infer env e).Breaks { s.clear env.next with used := true } f e := by
  by_cases he : e = .alien .absent
  · subst he
    cases h
    exact breaks_fail
  rw [Run.infer_of_ne he]
  rcases infer_eq_error h with ⟨habsent, -⟩ | hfail | ⟨t, ctx, a, hrun, hgen, rfl⟩
  · exact absurd habsent he
  · exact (hfail.breaks { used := true }).bind
  · exact (hrun.ends { used := true }).bind_breaks (breaks_generalize hgen)

theorem infer_of_error (s : Session) (h : LetPoly.infer env e = .error f) :
    ∃ ctx, s.infer env e = (record { context := ctx, used := true } f e, .error f) := by
  obtain ⟨ctx, hends⟩ := breaks_infer h
  exact ⟨ctx, infer_of_ends hends⟩

/-! ### Histories -/

/-- What can be asked of a session. -/
inductive Op where
  | infer (env : Env) (e : Expr)
  | reset

/-- The session after an operation. -/
def perform (s : Session) : Op → Session
  | .infer env e => (s.infer env e).1
  | .reset => s.reset

/-- A session that was new once, after several operations. -/
def after (ops : List Op) : Session := ops.foldl perform {}

/-- A session that counts as unused has no record. -/
def Blank (s : Session) : Prop := s.used = false → s.error? = none ∧ s.culprit? = none

theorem used_infer (s : Session) (env : Env) (e : Expr) : (s.infer env e).1.used = true := by
  cases h : LetPoly.infer env e with
  | ok S =>
    obtain ⟨ctx, hs⟩ := s.infer_of_ok h
    rw [hs]
  | error f =>
    obtain ⟨ctx, hs⟩ := s.infer_of_error h
    rw [hs, used_record]

theorem Blank.reset (h : s.Blank) : s.reset.error? = none ∧ s.reset.culprit? = none := by
  unfold Session.reset
  split
  · exact ⟨rfl, rfl⟩
  · rename_i hused
    exact h (Bool.eq_false_of_not_eq_true hused)

theorem Blank.perform (h : s.Blank) (op : Op) : (s.perform op).Blank := by
  cases op with
  | infer env e =>
    intro hused
    rw [Session.perform, used_infer] at hused
    cases hused
  | reset => exact fun _ => h.reset

theorem Blank.foldl (h : s.Blank) (ops : List Op) : (ops.foldl Session.perform s).Blank := by
  induction ops generalizing s with
  | nil => exact h
  | cons op ops ih => exact ih (h.perform op)

theorem blank_after (ops : List Op) : (after ops).Blank := Blank.foldl (fun _ => ⟨rfl, rfl⟩) ops

/-- However a session has been used, an inference in it answers as one that is made by itself. After it
the session has a record of the failure, or no record if there was none; and it has none after a reset. -/
theorem infer_after (ops : List Op) (env : Env) (e : Expr)
    (henv : ∀ x s, e.HasFree x → env.lookup x = some s → s.body.WellFormed) :
    ((after ops).infer env e).2 = LetPoly.infer env e ∧
    (∀ S, LetPoly.infer env e = .ok S →
      ((after ops).infer env e).1.error? = none ∧ ((after ops).infer env e).1.culprit? = none) ∧
    (∀ f, LetPoly.infer env e = .error f →
      ((after ops).infer env e).1.error? = some f.error ∧
      ((after ops).infer env e).1.culprit? = f.culprit? e) ∧
    (after ops).reset.error? = none ∧ (after ops).reset.culprit? = none := by
  refine ⟨?_, fun S hS => ?_, fun f hf => ?_, (blank_after ops).reset⟩
  · cases h : LetPoly.infer env e with
    | ok S =>
      obtain ⟨ctx, hs⟩ := (after ops).infer_of_ok h
      rw [hs]
    | error f =>
      obtain ⟨ctx, hs⟩ := (after ops).infer_of_error h
      rw [hs]
  · obtain ⟨ctx, hs⟩ := (after ops).infer_of_ok hS
    rw [hs]
    exact ⟨rfl, rfl⟩
  · obtain ⟨ctx, hs⟩ := (after ops).infer_of_error hf
    rw [hs, record, if_pos (isVerdict_of_infer hf henv)]
    exact ⟨rfl, rfl⟩

/-- A run that fails under a binder, a reset, and a run that is given no term. -/
def Op.troubles : List Op := [.infer ∅ (.func "x" (.var "z")), .reset, .infer ∅ (.alien .absent)]

theorem infer_after_troubles :
    (after Op.troubles).error? = some .empty ∧
    ((after Op.troubles).infer (.ofBindings [⟨"k", .mono (.app "Int" [])⟩]) (.func "x" (.var "k"))).2 =
      .ok (.generalize (.arrow (.var 0) (.app "Int" [])) ∅) ∧
    ((after Op.troubles).infer (.ofBindings [⟨"k", .mono (.app "Int" [])⟩])
      (.func "x" (.var "k"))).1.error? = none ∧
    ((after Op.troubles).infer (.ofBindings [⟨"k", .mono (.app "Int" [])⟩])
      (.letIn "x" (.var "k") (.var "z"))).1.error? = some (.unknownVariable "z") ∧
    ((after Op.troubles).infer (.ofBindings [⟨"k", .mono (.app "Int" [])⟩])
      (.letIn "x" (.var "k") (.var "z"))).1.culprit? = some (.var "z") ∧
    (after Op.troubles).reset.error? = none := by
  have hwf : ∀ x s, (Env.ofBindings [⟨"k", .mono (.app "Int" [])⟩]).lookup x = some s →
      s.body.WellFormed := by
    intro x s hs
    obtain ⟨b, hb, rfl⟩ := Env.exists_binding hs
    obtain rfl := List.mem_singleton.1 (Env.mem_of_mem_recent hb)
    rfl
  have hok : LetPoly.infer (.ofBindings [⟨"k", .mono (.app "Int" [])⟩]) (.func "x" (.var "k")) =
      .ok (.generalize (.arrow (.var 0) (.app "Int" [])) ∅) := rfl
  have herror : LetPoly.infer (.ofBindings [⟨"k", .mono (.app "Int" [])⟩])
      (.letIn "x" (.var "k") (.var "z")) = .error ⟨.unknownVariable "z", [.body]⟩ := rfl
  have h := infer_after Op.troubles _ (.func "x" (.var "k")) fun x s _ => hwf x s
  have h' := infer_after Op.troubles _ (.letIn "x" (.var "k") (.var "z")) fun x s _ => hwf x s
  obtain ⟨hanswer, hclear, -, hreset, -⟩ := h
  obtain ⟨-, -, hrecord, -⟩ := h'
  exact ⟨rfl, hanswer.trans hok, (hclear _ hok).1, (hrecord _ herror).1, (hrecord _ herror).2, hreset⟩

end Session

end LetPoly
