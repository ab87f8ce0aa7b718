import LetPoly.Proofs.Unification

/-!
# What a failed unification reports

A run that fails stops at an equation that cannot hold, and reports it. The equation may be deep inside
the one that was given, and may be there only because of aliases that the run itself has recorded; all
the same it follows from what was given. No substitution solves it, so it says little that every
solution of the given equation would solve it too. `Entails` says it without solutions: the equation is
derived by rewriting with aliases and by taking applications apart.

`solve_stops` is the statement about runs: what is reported is entailed by the aliases at the start and
canonical under those at the end. `Context.unify_reports_clash` reads it off for the two kinds of error.
-/

namespace LetPoly

/-- The equation `t = u` follows from the aliases and the equations. Applications of one constructor to
equally many arguments are equal if and only if their arguments are. -/
inductive Entails (A : Aliases) (eqs : Equations) : Ty → Ty → Prop
  | recorded {v : TyVar} {t : Ty} : A.lookup v = some t → Entails A eqs (.var v) t
  | given {t u : Ty} : (t, u) ∈ eqs → Entails A eqs t u
  | refl (t : Ty) : Entails A eqs t t
  | symm {t u : Ty} : Entails A eqs t u → Entails A eqs u t
  | trans {t u w : Ty} : Entails A eqs t u → Entails A eqs u w → Entails A eqs t w
  | app {con : String} {ts us : List Ty} : ts.length = us.length →
    (∀ t u, (t, u) ∈ ts.zip us → Entails A eqs t u) → Entails A eqs (.app con ts) (.app con us)
  | argument {con : String} {ts us : List Ty} {t u : Ty} : ts.length = us.length →
    Entails A eqs (.app con ts) (.app con us) → (t, u) ∈ ts.zip us → Entails A eqs t u

namespace Entails
variable {D : Type} {R : Reading D} {A A' : Aliases} {eqs eqs' : Equations} {a b t u : Ty} {v : TyVar}

/-- Aliases and equations that follow from others entail nothing more than these. -/
theorem cut (h : Entails A' eqs' t u) (hA : ∀ v t, A'.lookup v = some t → Entails A eqs (.var v) t)
    (heqs : ∀ t u, (t, u) ∈ eqs' → Entails A eqs t u) : Entails A eqs t u := by
  induction h with
  | recorded hv => exact hA _ _ hv
  | given h => exact heqs _ _ h
  | refl t => exact .refl t
  | symm _ ih => exact ih.symm
  | trans _ _ ih ih' => exact ih.trans ih'
  | app hl _ ih => exact .app hl ih
  | argument hl _ hmem ih => exact ih.argument hl hmem

theorem subst {f g : TyVar → Ty} (h : ∀ v ∈ t.occurrences, Entails A eqs (f v) (g v)) :
    Entails A eqs (t.subst f) (t.subst g) := by
  induction t with
  | var v => exact h v (Ty.mem_occurrences_var.2 rfl)
  | alien x => exact .refl _
  | app con args ih =>
    rw [Ty.subst_app, Ty.subst_app]
    refine .app (by simp) fun t' u' hmem => ?_
    rw [List.zip_map', List.mem_map] at hmem
    obtain ⟨t, ht, he⟩ := hmem
    obtain ⟨rfl, rfl⟩ := Prod.mk.inj he
    exact ih t ht fun v hv => h v (Ty.mem_occurrences_app.2 ⟨t, ht, hv⟩)

theorem replace (h : Entails A eqs (.var v) u) (t : Ty) : Entails A eqs t (t.replace v u) := by
  have hsubst : Entails A eqs (t.subst .var) (t.replace v u) := by
    rw [Ty.replace_eq_subst]
    refine subst fun w _ => ?_
    split
    · rename_i hw
      rwa [hw]
    · exact .refl _
  rwa [Ty.subst_var] at hsubst

theorem canonicalize (A : Aliases) (eqs : Equations) (t : Ty) :
    Entails A eqs t (A.canonicalize t) := by
  have hexpand : ∀ n v, Entails A eqs (.var v) (A.expand n v) := by
    intro n
    induction n with
    | zero => exact fun v => .refl _
    | succ n ih =>
      intro v
      cases hv : A.lookup v with
      | none =>
        rw [Aliases.expand_of_none hv]
        exact .refl _
      | some u =>
        have hsubst : Entails A eqs (u.subst .var) (u.subst (A.expand n)) := subst fun w _ => ih w
        rw [Ty.subst_var] at hsubst
        rw [Aliases.expand_of_some hv]
        exact (recorded hv).trans hsubst
  have hsubst : Entails A eqs (t.subst .var) (A.canonicalize t) := subst fun v _ => hexpand A.size v
  rwa [Ty.subst_var] at hsubst

/-- What follows from aliases and equations holds in each of their solutions. -/
theorem read_eq (h : Entails A eqs t u) (hA : A.SolvedBy R) (heqs : eqs.SolvedBy R) :
    R.read t = R.read u := by
  induction h with
  | recorded hv => exact hA _ _ hv
  | given h => exact heqs _ h
  | refl t => rfl
  | symm _ ih => exact ih.symm
  | trans _ _ ih ih' => exact ih.trans ih'
  | app hl _ ih =>
    exact R.app_inj.2 ⟨rfl, (Equations.solvedBy_zip hl).1 fun e he => ih e.1 e.2 he⟩
  | argument hl _ hmem ih =>
    exact (Equations.solvedBy_zip hl).2 (R.app_inj.1 ih).2 _ hmem

theorem of_orient (h : Entails A eqs a b) (ho : orient a b = some (v, t)) :
    Entails A eqs (.var v) t := by
  rcases orient_eq_some ho with ⟨rfl, rfl⟩ | ⟨rfl, rfl⟩
  · exact h
  · exact h.symm

/-! What the equations left after a step of `solve` entail, the equations before it do. -/

theorem of_tail (h : Entails A eqs t u) : Entails A ((a, b) :: eqs) t u := by
  refine h.cut (fun v t => .recorded) fun t u htu => ?_
  exact .given (List.mem_cons_of_mem _ htu)

theorem of_bind {x y : Ty} (ho : orient a b = some (v, t))
    (h : Entails (A.record v t) (eqs.replace v t) x y) : Entails A ((a, b) :: eqs) x y := by
  have hab : Entails A ((a, b) :: eqs) a b := .given List.mem_cons_self
  have hvt := hab.of_orient ho
  refine h.cut (fun w u hw => ?_) fun t' u' hmem => ?_
  · rw [Aliases.lookup_record] at hw
    split at hw
    · subst w
      obtain rfl := Option.some.inj hw
      exact hvt
    · exact .recorded hw
  · obtain ⟨⟨t, u⟩, htu, he⟩ := List.mem_map.1 hmem
    obtain ⟨rfl, rfl⟩ := Prod.mk.inj he
    have hgiven : Entails A ((a, b) :: eqs) t u := .given (List.mem_cons_of_mem _ htu)
    exact (hvt.replace t).symm.trans (hgiven.trans (hvt.replace u))

theorem of_arguments {con : String} {ts us : List Ty} (hl : ts.length = us.length)
    (h : Entails A (ts.zip us ++ eqs) t u) :
    Entails A ((.app con ts, .app con us) :: eqs) t u := by
  refine h.cut (fun v t => .recorded) fun t u hmem => ?_
  rcases List.mem_append.1 hmem with hmem | hmem
  · exact (given List.mem_cons_self).argument hl hmem
  · exact .given (List.mem_cons_of_mem _ hmem)

end Entails

/-! ### Where a run stops -/

/-- The two types that an error shows. -/
def TypeError.sides? : TypeError → Option (Ty × Ty)
  | .impossible a b => some (a, b)
  | .recursive t v => some (.var v, t)
  | _ => none

namespace Aliases
variable {A : Aliases} {eqs : Equations} {a b t x y : Ty} {v : TyVar} {e : TypeError}

/-- A run that fails stops at an equation that follows from what it was given. Its sides are canonical
under the aliases recorded so far, which are those that stay. -/
theorem solve_stops (hwf : eqs.WellFormed) (hcan : eqs.Canonical A) (h : (A.solve eqs).2 = some e) :
    ∃ x y, e.sides? = some (x, y) ∧ Entails A eqs x y ∧ (x.WellFormed ∧ y.WellFormed) ∧
      (A.solve eqs).1.Canonical x ∧ (A.solve eqs).1.Canonical y := by
  fun_induction solve A eqs with
  | case1 => cases h
  | case2 A a rest ih =>
    obtain ⟨x, y, hxy, hent, hends⟩ := ih (Equations.wellFormed_cons.1 hwf).2 hcan.tail h
    exact ⟨x, y, hxy, hent.of_tail, hends⟩
  | case3 A a b rest hne v t ho hocc =>
    obtain rfl := Option.some.inj h
    have hab : Entails A ((a, b) :: rest) a b := .given List.mem_cons_self
    refine ⟨.var v, t, rfl, hab.of_orient ho, ⟨Ty.wellFormed_var v, hwf.of_orient ho⟩, ?_, ?_⟩
    · intro x hx
      exact hcan x (Equations.mem_vars_of_orient ho (.inl (Ty.mem_occurrences_var.1 hx)))
    · exact fun x hx => hcan x (Equations.mem_vars_of_orient ho (.inr hx))
  | case4 A a b rest hne v t ho hocc hv =>
    rw [hcan v (Equations.mem_vars_of_orient ho (.inl rfl))] at hv
    cases hv
  | case5 A a b rest hne v t ho hocc hv ih =>
    have ht : A.Canonical t := fun x hx => hcan x (Equations.mem_vars_of_orient ho (.inr hx))
    have hf : v ∉ t.occurrences := fun h => hocc (Ty.occurs_iff_mem_occurrences.2 h)
    have hwf' := (Equations.wellFormed_cons.1 hwf).2.replace (v := v) (hwf.of_orient ho)
    obtain ⟨x, y, hxy, hent, hends⟩ := ih hwf' (canonical_record hcan.tail ht hf) h
    exact ⟨x, y, hxy, hent.of_bind ho, hends⟩
  | case6 A rest con ts con' us ho hcon hne ih =>
    obtain ⟨rfl, hl⟩ := hcon
    obtain ⟨x, y, hxy, hent, hends⟩ := ih hwf.zip_append
      (fun x hx => hcan x (Equations.mem_vars_of_zip_append hx)) h
    exact ⟨x, y, hxy, hent.of_arguments hl, hends⟩
  | case7 A rest con ts con' us ho hcon hne =>
    obtain rfl := Option.some.inj h
    exact ⟨_, _, rfl, .given List.mem_cons_self, (Equations.wellFormed_cons.1 hwf).1, hcan.head⟩
  | case8 A rest a b ho hno hne =>
    obtain rfl := Option.some.inj h
    exact ⟨_, _, rfl, .given List.mem_cons_self, (Equations.wellFormed_cons.1 hwf).1, hcan.head⟩

theorem unify?_stops (hA : A.Acyclic) (h : (A.unify? a b).2 = some e)
    (hwf : ∀ x, e ≠ .unexpected x) :
    e.Clash ∧ ∃ x y, e.sides? = some (x, y) ∧ Entails A [(a, b)] x y ∧ (x.WellFormed ∧ y.WellFormed) ∧
      (A.unify? a b).1.Canonical x ∧ (A.unify? a b).1.Canonical y := by
  refine ⟨(unify?_error (R := .ofSubst .var) hA h hwf).1, ?_⟩
  rcases A.unify?_cases a b with ⟨x, hx, -⟩ | ⟨hs, hwf'⟩
  · rw [hx] at h
    exact absurd (Option.some.inj h).symm (hwf x)
  · rw [hs] at h ⊢
    obtain ⟨x, y, hxy, hent, hends⟩ := solve_stops hwf' (canonical_pair hA a b) h
    refine ⟨x, y, hxy, hent.cut (fun v t => .recorded) fun t u htu => ?_, hends⟩
    obtain ⟨rfl, rfl⟩ := Prod.mk.inj (List.mem_singleton.1 htu)
    have hab : Entails A [(a, b)] a b := .given List.mem_cons_self
    exact (Entails.canonicalize A _ a).symm.trans (hab.trans (.canonicalize A _ b))

theorem Canonical.canonicalize?_eq (h : A.Canonical t) (ht : t.WellFormed) :
    A.canonicalize? t = .ok t := by
  have heq := h.canonicalize_eq
  exact Ty.checked_eq_ok.2 ⟨by rwa [heq], heq⟩

end Aliases

/-! ### Errors -/

namespace TypeError
variable {t x y : Ty} {v : TyVar}

theorem Clash.exists_app (h : (impossible x y).Clash) :
    ∃ c ts d us, x = .app c ts ∧ y = .app d us ∧ (c ≠ d ∨ ts.length ≠ us.length) := by
  match x, y, h with
  | .app c ts, .app d us, h => exact ⟨c, ts, d, us, rfl, rfl, h⟩

theorem Clash.exists_app_of_recursive (h : (recursive t v).Clash) : ∃ c ts, t = .app c ts := by
  obtain ⟨hv, hne⟩ := h
  cases t with
  | var w =>
    rw [Ty.mem_occurrences_var] at hv
    exact absurd (by rw [hv]) hne
  | app c ts => exact ⟨c, ts, rfl⟩
  | alien z => simp [Ty.occurrences] at hv

end TypeError

/-- The errors of unification carry a clash that is there. Types that are reported not to fit are
applications that differ in their constructor or in the number of arguments; a variable that is reported
to recur has no alias and occurs in an application. The types are canonical under the aliases left
behind, and that they are equal follows from the equation that was to be solved, so it holds in all
its solutions. The only other way to fail is to meet an alien, which takes an alias to one. -/
theorem Context.unify_reports_clash (ctx : Context) (a b : Ty) (hA : ctx.aliases.Acyclic)
    (ha : a.WellFormed) (hb : b.WellFormed) :
    (∀ ctx' x y, ctx.unify a b = (ctx', some (.impossible x y)) →
      (∃ c ts d us, x = .app c ts ∧ y = .app d us ∧ (c ≠ d ∨ ts.length ≠ us.length)) ∧
      ctx'.canonicalize? x = .ok x ∧ ctx'.canonicalize? y = .ok y ∧
      Entails ctx.aliases [(a, b)] x y ∧
      ∀ θ ∈ ctx.aliases.Solutions, a.subst θ = b.subst θ → x.subst θ = y.subst θ) ∧
    (∀ ctx' t v, ctx.unify a b = (ctx', some (.recursive t v)) →
      ctx'.aliases.lookup v = none ∧ (∃ c ts, t = .app c ts) ∧
      ctx'.canonicalize? t = .ok t ∧ t.occurs v = true ∧
      Entails ctx.aliases [(a, b)] (.var v) t ∧
      ∀ θ ∈ ctx.aliases.Solutions, a.subst θ = b.subst θ → θ v = t.subst θ) ∧
    (∀ ctx' e, ctx.unify a b = (ctx', some e) →
      (∃ x y, e = .impossible x y) ∨ (∃ t v, e = .recursive t v) ∨
      (∃ z, e = .unexpected z) ∧ ∃ v t, ctx.aliases.lookup v = some t ∧ ¬ t.WellFormed) := by
  have hsolved : ∀ {x y θ}, Entails ctx.aliases [(a, b)] x y → θ ∈ ctx.aliases.Solutions →
      a.subst θ = b.subst θ → x.subst θ = y.subst θ := by
    intro x y θ hent hθ hab
    exact hent.read_eq (R := .ofSubst θ) hθ (Equations.solvedBy_singleton.2 hab)
  refine ⟨fun ctx' x y h => ?_, fun ctx' t v h => ?_, fun ctx' e h => ?_⟩
  · obtain ⟨rfl, herr⟩ := Prod.mk.inj h
    obtain ⟨hclash, _, _, hsides, hent, ⟨hxwf, hywf⟩, hx, hy⟩ :=
      Aliases.unify?_stops hA herr (by simp)
    obtain ⟨rfl, rfl⟩ := Prod.mk.inj (Option.some.inj hsides)
    exact ⟨hclash.exists_app, hx.canonicalize?_eq hxwf, hy.canonicalize?_eq hywf, hent,
      fun θ hθ => hsolved hent hθ⟩
  · obtain ⟨rfl, herr⟩ := Prod.mk.inj h
    obtain ⟨hclash, _, _, hsides, hent, ⟨-, htwf⟩, hv, ht⟩ := Aliases.unify?_stops hA herr (by simp)
    obtain ⟨rfl, rfl⟩ := Prod.mk.inj (Option.some.inj hsides)
    exact ⟨hv v (Ty.mem_occurrences_var.2 rfl), hclash.exists_app_of_recursive,
      ht.canonicalize?_eq htwf, Ty.occurs_iff_mem_occurrences.2 hclash.1, hent,
      fun θ hθ => hsolved hent hθ⟩
  · obtain ⟨-, herr⟩ := Prod.mk.inj h
    match e with
    | .impossible x y => exact .inl ⟨x, y, rfl⟩
    | .recursive t v => exact .inr (.inl ⟨t, v, rfl⟩)
    | .rebound v =>
      cases (Aliases.unify?_stops hA herr (by simp)).1
    | .unexpected z =>
      refine .inr (.inr ⟨⟨z, rfl⟩, ?_⟩)
      by_contra hnone
      push Not at hnone
      exact Aliases.unify?_ne_unexpected hA hnone ha hb z herr

/-- With `t0` aliased to `List t1`, the second pair of arguments clashes because of the alias that the
first one records: `Int` and `String` after `t1` has become `Int`, and `t2` and `List (List t2)` after it
has become `List t2`. -/
theorem Context.unify_reports_clash_late :
    ((∅ : Aliases).record 0 (.app "List" [.var 1])).Acyclic ∧
    (Ty.app "Pair" [.var 1, .var 0]).WellFormed ∧
    (Ty.app "Pair" [.const "Int", .app "List" [.const "String"]]).WellFormed ∧
    (Ty.app "Pair" [.app "List" [.var 2], .var 2]).WellFormed ∧
    unify ⟨(∅ : Aliases).record 0 (.app "List" [.var 1]), {}⟩
      (.app "Pair" [.var 1, .var 0]) (.app "Pair" [.const "Int", .app "List" [.const "String"]]) =
      (⟨((∅ : Aliases).record 0 (.app "List" [.var 1])).record 1 (.const "Int"), {}⟩,
        some (.impossible (.const "Int") (.const "String"))) ∧
    Entails ((∅ : Aliases).record 0 (.app "List" [.var 1]))
      [(.app "Pair" [.var 1, .var 0], .app "Pair" [.const "Int", .app "List" [.const "String"]])]
      (.const "Int") (.const "String") ∧
    unify ⟨(∅ : Aliases).record 0 (.app "List" [.var 1]), {}⟩
      (.app "Pair" [.var 1, .var 0]) (.app "Pair" [.app "List" [.var 2], .var 2]) =
      (⟨((∅ : Aliases).record 0 (.app "List" [.var 1])).record 1 (.app "List" [.var 2]), {}⟩,
        some (.recursive (.app "List" [.app "List" [.var 2]]) 2)) ∧
    Entails ((∅ : Aliases).record 0 (.app "List" [.var 1]))
      [(.app "Pair" [.var 1, .var 0], .app "Pair" [.app "List" [.var 2], .var 2])]
      (.var 2) (.app "List" [.app "List" [.var 2]]) := by
  have hA : ((∅ : Aliases).record 0 (.app "List" [.var 1])).Acyclic :=
    Aliases.acyclic_empty.record (Aliases.lookup_empty 0) (by decide)
  have himpossible : unify ⟨(∅ : Aliases).record 0 (.app "List" [.var 1]), {}⟩
      (.app "Pair" [.var 1, .var 0]) (.app "Pair" [.const "Int", .app "List" [.const "String"]]) =
      (⟨((∅ : Aliases).record 0 (.app "List" [.var 1])).record 1 (.const "Int"), {}⟩,
        some (.impossible (.const "Int") (.const "String"))) := by cbv
  have hrecursive : unify ⟨(∅ : Aliases).record 0 (.app "List" [.var 1]), {}⟩
      (.app "Pair" [.var 1, .var 0]) (.app "Pair" [.app "List" [.var 2], .var 2]) =
      (⟨((∅ : Aliases).record 0 (.app "List" [.var 1])).record 1 (.app "List" [.var 2]), {}⟩,
        some (.recursive (.app "List" [.app "List" [.var 2]]) 2)) := by cbv
  have h₁ := (unify_reports_clash ⟨_, {}⟩ (.app "Pair" [.var 1, .var 0])
    (.app "Pair" [.const "Int", .app "List" [.const "String"]]) hA rfl rfl).1 _ _ _ himpossible
  have h₂ := (unify_reports_clash ⟨_, {}⟩ (.app "Pair" [.var 1, .var 0])
    (.app "Pair" [.app "List" [.var 2], .var 2]) hA rfl rfl).2.1 _ _ _ hrecursive
  exact ⟨hA, rfl, rfl, rfl, himpossible, h₁.2.2.2.1, hrecursive, h₂.2.2.2.2.1⟩

end LetPoly
