import LetPoly.Proofs.FailedRuns
import LetPoly.Proofs.Inlining

/-!
# Names of binders

Terms that differ in the names of their binders only (`Expr.Alpha`) are inferred alike to the last
detail: the same scheme with the same variables, or the same error at the same position
(`infer_eq_of_alpha`).

Which bindings shadow which ones does depend on the names. But two runs side by side bind the same
schemes one after the other (`Env.Renamed`), so a name and its counterpart are bound to the same scheme
however they are shadowed, and the free variables of the environment, to which shadowed bindings
contribute as well, never differ.
-/

namespace LetPoly

variable {ps : List (String × String)} {x y z : String} {e e' u b : Expr} {env env' : Env}
  {s : Scheme} {f : Failure} {path : List Expr.Branch}

namespace Expr

/-- Under pairs of binders, innermost first, `x` on the left and `y` on the right belong to the same
pair, or are the same name and belong to none. -/
inductive Paired : List (String × String) → String → String → Prop
  | free {x : String} : Paired [] x x
  | here {ps : List (String × String)} {x y : String} : Paired ((x, y) :: ps) x y
  | there {ps : List (String × String)} {x y z w : String} : x ≠ z → y ≠ w → Paired ps x y →
    Paired ((z, w) :: ps) x y

/-- Under pairs of binders, the terms are the same up to the names of their own binders. -/
inductive Alpha : List (String × String) → Expr → Expr → Prop
  | var {ps : List (String × String)} {x y : String} : Paired ps x y → Alpha ps (.var x) (.var y)
  | call {ps : List (String × String)} {f f' a a' : Expr} : Alpha ps f f' → Alpha ps a a' →
    Alpha ps (.call f a) (.call f' a')
  | func {ps : List (String × String)} {x y : String} {b b' : Expr} : Alpha ((x, y) :: ps) b b' →
    Alpha ps (.func x b) (.func y b')
  | letIn {ps : List (String × String)} {x y : String} {v v' b b' : Expr} : Alpha ps v v' →
    Alpha ((x, y) :: ps) b b' → Alpha ps (.letIn x v b) (.letIn y v' b')
  | alien {ps : List (String × String)} {a : Alien} : Alpha ps (.alien a) (.alien a)

/-! ### Renaming a binder -/

theorem Paired.same (h : x ≠ z → Paired ps x x) : Paired ((z, z) :: ps) x x := by
  by_cases hx : x = z
  · subst hx
    exact .here
  · exact .there hx hx (h hx)

theorem alpha_self (h : ∀ z, e.HasFree z → Paired ps z z) : Alpha ps e e := by
  induction e generalizing ps with
  | var z => exact .var (h z rfl)
  | call f a ihf iha => exact .call (ihf fun z hz => h z (.inl hz)) (iha fun z hz => h z (.inr hz))
  | func z b ih => exact .func (ih fun w hw => .same fun hwz => h w ⟨hwz, hw⟩)
  | letIn z v b ihv ihb =>
    exact .letIn (ihv fun w hw => h w (.inl hw))
      (ihb fun w hw => .same fun hwz => h w (.inr ⟨hwz, hw⟩))
  | alien a => exact .alien

theorem Paired.under {w : String} (hzy : z ≠ y) (hzx : z ≠ x)
    (h : w ≠ z → Paired ps w (if w = x then y else w)) :
    Paired ((z, z) :: ps) w (if w = x then y else w) := by
  by_cases hwz : w = z
  · rw [hwz, if_neg hzx]
    exact .here
  · refine .there hwz ?_ (h hwz)
    split
    · exact hzy.symm
    · exact hwz

/-- What is in the scope of a binder that does not capture `y`: left alone if the binder is `x`, and
otherwise as elsewhere. -/
theorem alpha_scope (hzy : z ≠ y)
    (h : ∀ w, w ≠ z → b.HasFree w → Paired ps w (if w = x then y else w))
    (ih : (∀ w, b.HasFree w → Paired ((z, z) :: ps) w (if w = x then y else w)) →
      Alpha ((z, z) :: ps) b (b.inline x (.var y))) :
    Alpha ((z, z) :: ps) b (if z = x then b else b.inline x (.var y)) := by
  split
  · rename_i hzx
    subst hzx
    refine alpha_self fun w hw => .same fun hwz => ?_
    have hpair := h w hwz hw
    rwa [if_neg hwz] at hpair
  · rename_i hzx
    exact ih fun w hw => .under hzy hzx fun hwz => h w hwz hw

/-- Putting `y` for `x` is a matter of names if `x` is paired with `y` and no binder captures `y`. -/
theorem alpha_inline (h : ∀ z, b.HasFree z → Paired ps z (if z = x then y else z))
    (hy : ¬ b.Binds y) : Alpha ps b (b.inline x (.var y)) := by
  induction b generalizing ps with
  | var z =>
    have hz := h z rfl
    rw [inline]
    split
    · rename_i hzx
      rw [if_pos hzx] at hz
      exact .var hz
    · rename_i hzx
      rw [if_neg hzx] at hz
      exact .var hz
  | call f a ihf iha =>
    refine .call (ihf (fun z hz => h z (.inl hz)) fun hf => hy (.inl hf)) ?_
    exact iha (fun z hz => h z (.inr hz)) fun ha => hy (.inr ha)
  | func z c ih =>
    have hzy : z ≠ y := fun hzy => hy (.inl hzy.symm)
    refine .func (alpha_scope hzy (fun w hwz hw => h w ⟨hwz, hw⟩) fun hc => ?_)
    exact ih hc fun hb => hy (.inr hb)
  | letIn z v c ihv ihc =>
    have hzy : z ≠ y := fun hzy => hy (.inl hzy.symm)
    refine .letIn (ihv (fun w hw => h w (.inl hw)) fun hv => hy (.inr (.inl hv))) ?_
    refine alpha_scope hzy (fun w hwz hw => h w (.inr ⟨hwz, hw⟩)) fun hc => ?_
    exact ihc hc fun hb => hy (.inr (.inr hb))
  | alien a => exact .alien

theorem paired_rename (hy : ¬ b.HasFree y) (hz : b.HasFree z) :
    Paired [(x, y)] z (if z = x then y else z) := by
  split
  · rename_i hzx
    subst hzx
    exact .here
  · rename_i hzx
    exact .there hzx (fun hzy => hy (hzy ▸ hz)) .free

/-- The parameter of an abstraction may be renamed to any name that neither is free in the body nor bound
there. -/
theorem alpha_func_rename (hfree : ¬ b.HasFree y) (hbinds : ¬ b.Binds y) :
    Alpha [] (.func x b) (.func y (b.inline x (.var y))) :=
  .func (alpha_inline (fun _ hz => paired_rename hfree hz) hbinds)

/-- So may the name of a `let`. -/
theorem alpha_letIn_rename {v : Expr} (hfree : ¬ b.HasFree y) (hbinds : ¬ b.Binds y) :
    Alpha [] (.letIn x v b) (.letIn y v (b.inline x (.var y))) :=
  .letIn (alpha_self fun _ _ => .free) (alpha_inline (fun _ hz => paired_rename hfree hz) hbinds)

/-! ### Positions -/

theorem Alpha.child (h : Alpha ps e e') {br : Branch} (hu : e.child? br = some u) :
    ∃ qs u', e'.child? br = some u' ∧ Alpha qs u u' := by
  cases h with
  | var => cases hu
  | call hf ha =>
    cases br with
    | callee => cases hu; exact ⟨_, _, rfl, hf⟩
    | argument => cases hu; exact ⟨_, _, rfl, ha⟩
    | value | body => cases hu
  | func hb =>
    cases br with
    | body => cases hu; exact ⟨_, _, rfl, hb⟩
    | callee | argument | value => cases hu
  | letIn hv hb =>
    cases br with
    | value => cases hu; exact ⟨_, _, rfl, hv⟩
    | body => cases hu; exact ⟨_, _, rfl, hb⟩
    | callee | argument => cases hu
  | alien => cases hu

theorem Alpha.subterm (h : Alpha ps e e') (hu : e.subterm? path = some u) :
    ∃ qs u', e'.subterm? path = some u' ∧ Alpha qs u u' := by
  induction path generalizing ps e e' with
  | nil =>
    cases hu
    exact ⟨ps, e', rfl, h⟩
  | cons br path ih =>
    obtain ⟨c, hc, hu⟩ := Option.bind_eq_some_iff.1 hu
    obtain ⟨qs, c', hc', halpha⟩ := h.child hc
    obtain ⟨rs, u', hu', halpha'⟩ := ih halpha hu
    refine ⟨rs, u', ?_, halpha'⟩
    rw [subterm?, hc']
    exact hu'

end Expr

/-! ### Two runs side by side -/

/-- The environments arise from a common one by binding the same schemes to the names of each pair, the
last pair first. -/
inductive Env.Renamed : List (String × String) → Env → Env → Prop
  | refl {env : Env} : Renamed [] env env
  | extend {ps : List (String × String)} {x y : String} {s : Scheme} {env env' : Env} :
    Renamed ps env env' → Renamed ((x, y) :: ps) (env.extend x s) (env'.extend y s)

theorem Env.Renamed.free (h : Env.Renamed ps env env') : env.free = env'.free := by
  induction h with
  | refl => rfl
  | extend _ ih => exact congrArg (· ∪ _) ih

theorem Env.Renamed.lookup (h : Env.Renamed ps env env') (hxy : Expr.Paired ps x y) :
    (∃ s, env.lookup x = some s ∧ env'.lookup y = some s) ∨
      x = y ∧ env.lookup x = none ∧ env'.lookup y = none := by
  induction h with
  | @refl env =>
    cases hxy with
    | free =>
      cases hs : env.lookup x with
      | none => exact .inr ⟨rfl, rfl, rfl⟩
      | some s => exact .inl ⟨s, rfl, rfl⟩
  | @extend ps z w s env env' _ ih =>
    cases hxy with
    | here => exact .inl ⟨s, Env.lookup_extend_self env x s, Env.lookup_extend_self env' y s⟩
    | there hx hy hxy =>
      rw [Env.lookup_extend_of_ne hx, Env.lookup_extend_of_ne hy]
      exact ih hxy

theorem Expr.Alpha.inferType_eq (h : Alpha ps e e') (henv : Env.Renamed ps env env') (ctx : Context) :
    inferType env e ctx = inferType env' e' ctx := by
  induction h generalizing env env' ctx with
  | @var ps x y hxy =>
    rcases henv.lookup hxy with ⟨s, hx, hy⟩ | ⟨rfl, hx, hy⟩
    · simp only [inferType, hx, hy]
    · simp only [inferType, hx, hy]
  | call _ _ ihf iha => simp only [inferType, ihf henv, iha henv]
  | func _ ih =>
    simp only [inferType]
    rw [ih henv.extend]
  | @letIn ps x y v v' b b' _ _ ihv ihb =>
    have hbody : ∀ s ctx, inferType (env.extend x s) b ctx = inferType (env'.extend y s) b' ctx :=
      fun s ctx => ihb henv.extend ctx
    simp only [inferType, ihv henv, henv.free, hbody]
  | alien => rfl

theorem infer_congr (he : e ≠ .alien .absent) (he' : e' ≠ .alien .absent)
    (h : inferType env e (.init env.next) = inferType env e' (.init env.next)) :
    infer env e = infer env e' := by
  simp only [infer, h]

/-- Terms that differ in the names of binders only get the same answer: the same scheme, or the same
error at the same position. The subterms at this position differ in the names of binders only, too. -/
theorem infer_eq_of_alpha (env : Env) (e e' : Expr) (h : Expr.Alpha [] e e') :
    infer env e = infer env e' ∧ ∀ f, infer env e = .error f →
      ∃ qs u u', e.subterm? f.position = some u ∧ e'.subterm? f.position = some u' ∧
        Expr.Alpha qs u u' := by
  constructor
  · have hrun := h.inferType_eq (@Env.Renamed.refl env) (.init env.next)
    cases h with
    | alien => rfl
    | var | call | func | letIn => exact infer_congr Expr.noConfusion Expr.noConfusion hrun
  · intro f hf
    obtain ⟨u, hu⟩ := exists_subterm_of_error hf
    obtain ⟨qs, u', hu', halpha⟩ := h.subterm hu
    exact ⟨qs, u, u', hu, hu', halpha⟩

/-- In `let x = k in λx. x q` and in `λx. λx. x q` the outer binder is shadowed, and it makes no
difference to call it `y`: `q` is unknown, and it is the argument of the inner body that says so. -/
theorem infer_eq_of_alpha_shadowed :
    infer (.ofBindings [⟨"k", .mono (.app "Int" [])⟩])
        (.letIn "x" (.var "k") (.func "x" (.call (.var "x") (.var "q")))) =
      .error ⟨.unknownVariable "q", [.body, .body, .argument]⟩ ∧
    infer (.ofBindings [⟨"k", .mono (.app "Int" [])⟩])
        (.letIn "y" (.var "k") (.func "x" (.call (.var "x") (.var "q")))) =
      .error ⟨.unknownVariable "q", [.body, .body, .argument]⟩ ∧
    infer ∅ (.func "x" (.func "x" (.call (.var "x") (.var "q")))) =
      infer ∅ (.func "y" (.func "x" (.call (.var "x") (.var "q")))) := by
  have hfree : ¬ (Expr.func "x" (.call (.var "x") (.var "q"))).HasFree "y" := by simp [Expr.HasFree]
  have hbinds : ¬ (Expr.func "x" (.call (.var "x") (.var "q"))).Binds "y" := by simp [Expr.Binds]
  have hlet : infer (.ofBindings [⟨"k", .mono (.app "Int" [])⟩])
        (.letIn "x" (.var "k") (.func "x" (.call (.var "x") (.var "q")))) =
      .error ⟨.unknownVariable "q", [.body, .body, .argument]⟩ := rfl
  have h := infer_eq_of_alpha (.ofBindings [⟨"k", .mono (.app "Int" [])⟩]) _ _
    (Expr.alpha_letIn_rename (x := "x") (v := .var "k") hfree hbinds)
  have h' := infer_eq_of_alpha ∅ _ _ (Expr.alpha_func_rename (x := "x") hfree hbinds)
  exact ⟨hlet, h.1.symm.trans hlet, h'.1⟩

end LetPoly
