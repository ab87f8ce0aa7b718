import Mathlib.Data.List.Permutation
import Mathlib.Data.Set.Defs
import LetPoly.Context
import LetPoly.Proofs.Canonical

/-!
# What unification does

`Grows X A A'`: `A'` arises from `A` by recording aliases one by one, each for a variable of `X` that
had none, with a canonical target over `X` that does not mention it. This is all that `solve` does to
the aliases (`solve_grows`), whether it succeeds or fails; that aliases stay acyclic and where new
ones can appear follows from it alone.

What the recorded aliases mean is a statement about readings: a run that succeeds leaves exactly
the solutions of the equations (`solve_solvedBy`), and a run that fails ends with two types that
every solution would equate and that no reading equates (`solve_error`).
-/

namespace LetPoly

namespace Equations
variable {D : Type} {R : Reading D} {A : Aliases} {eqs e₁ e₂ : Equations} {a b t : Ty} {v : TyVar}

/-- No variable of the equations has an alias. -/
def Canonical (A : Aliases) (eqs : Equations) : Prop := ∀ v ∈ eqs.vars, A.lookup v = none

/-- All sides are well-formed. -/
def WellFormed (eqs : Equations) : Prop := ∀ e ∈ eqs, e.1.WellFormed ∧ e.2.WellFormed

/-- All equations hold. -/
def SolvedBy (eqs : Equations) (R : Reading D) : Prop := ∀ e ∈ eqs, R.read e.1 = R.read e.2

theorem solvedBy_cons : SolvedBy ((a, b) :: eqs) R ↔ R.read a = R.read b ∧ eqs.SolvedBy R := by
  simp [SolvedBy]

theorem solvedBy_singleton : SolvedBy [(a, b)] R ↔ R.read a = R.read b := by
  simp [SolvedBy]

theorem solvedBy_append : SolvedBy (e₁ ++ e₂) R ↔ e₁.SolvedBy R ∧ e₂.SolvedBy R := by
  simp [SolvedBy, or_imp, forall_and]

theorem solvedBy_zip {ts us : List Ty} (h : ts.length = us.length) :
    SolvedBy (ts.zip us) R ↔ ts.map R.read = us.map R.read := by
  induction ts generalizing us with
  | nil => cases us with
    | nil => simp [SolvedBy]
    | cons u us => cases h
  | cons t ts ih => cases us with
    | nil => cases h
    | cons u us =>
      rw [List.zip_cons_cons, solvedBy_cons, ih (Nat.succ.inj h)]
      simp

theorem solvedBy_replace (h : R.read (.var v) = R.read t) :
    (eqs.replace v t).SolvedBy R ↔ eqs.SolvedBy R := by
  simp only [SolvedBy, replace, List.forall_mem_map, Reading.read_replace h]

theorem wellFormed_cons :
    WellFormed ((a, b) :: eqs) ↔ (a.WellFormed ∧ b.WellFormed) ∧ eqs.WellFormed := by
  simp [WellFormed]

theorem WellFormed.replace (h : eqs.WellFormed) (ht : t.WellFormed) :
    (eqs.replace v t).WellFormed := by
  intro e' he'
  obtain ⟨e, he, rfl⟩ := List.mem_map.1 he'
  exact ⟨(h e he).1.replace ht, (h e he).2.replace ht⟩

theorem WellFormed.zip_append {c d : String} {ts us : List Ty}
    (h : WellFormed ((.app c ts, .app d us) :: eqs)) : WellFormed (ts.zip us ++ eqs) := by
  obtain ⟨⟨hts, hus⟩, heqs⟩ := wellFormed_cons.1 h
  intro e he
  rcases List.mem_append.1 he with he | he
  · exact ⟨Ty.wellFormed_app.1 hts _ (List.of_mem_zip he).1,
      Ty.wellFormed_app.1 hus _ (List.of_mem_zip he).2⟩
  · exact heqs e he

theorem mem_vars_of_zip_append {c d : String} {ts us : List Ty} {x : TyVar}
    (h : x ∈ vars (ts.zip us ++ eqs)) : x ∈ vars ((.app c ts, .app d us) :: eqs) := by
  rw [mem_vars_cons]
  rcases mem_vars_append.1 h with h | h
  · rcases mem_vars_zip h with h | h
    · exact .inl h
    · exact .inr (.inl h)
  · exact .inr (.inr h)

theorem mem_vars_of_mem_tail {x : TyVar} (h : x ∈ vars eqs) : x ∈ vars ((a, b) :: eqs) :=
  mem_vars_cons.2 (.inr (.inr h))

theorem Canonical.head (h : Canonical A ((a, b) :: eqs)) : A.Canonical a ∧ A.Canonical b :=
  ⟨fun x hx => h x (mem_vars_cons.2 (.inl hx)), fun x hx => h x (mem_vars_cons.2 (.inr (.inl hx)))⟩

theorem Canonical.tail (h : Canonical A ((a, b) :: eqs)) : Canonical A eqs :=
  fun x hx => h x (mem_vars_of_mem_tail hx)

theorem WellFormed.of_orient (h : WellFormed ((a, b) :: eqs)) (ho : orient a b = some (v, t)) :
    t.WellFormed := by
  obtain ⟨⟨ha, hb⟩, -⟩ := wellFormed_cons.1 h
  rcases orient_eq_some ho with ⟨-, rfl⟩ | ⟨-, rfl⟩
  exacts [hb, ha]

theorem read_orient (ho : orient a b = some (v, t)) :
    R.read a = R.read b ↔ R.read (.var v) = R.read t := by
  rcases orient_eq_some ho with ⟨rfl, rfl⟩ | ⟨rfl, rfl⟩
  · exact Iff.rfl
  · exact eq_comm

theorem mem_vars_of_orient {x : TyVar} (ho : orient a b = some (v, t))
    (h : x = v ∨ x ∈ t.occurrences) : x ∈ vars ((a, b) :: eqs) := by
  rw [mem_vars_cons]
  rcases orient_eq_some ho with ⟨rfl, rfl⟩ | ⟨rfl, rfl⟩
  · exact h.elim (fun e => .inl (Ty.mem_occurrences_var.2 e)) fun h => .inr (.inl h)
  · exact h.elim (fun e => .inr (.inl (Ty.mem_occurrences_var.2 e))) fun h => .inl h

end Equations

namespace Aliases
variable {D : Type} {R : Reading D} {X Y : TyVar → Prop} {A A' A'' : Aliases} {eqs : Equations}
  {a b t u : Ty} {v w x : TyVar} {e : TypeError}

/-! ### Growth -/

/-- `A'` extends `A` by aliases between variables of `X`. -/
inductive Grows (X : TyVar → Prop) : Aliases → Aliases → Prop
  | refl (A : Aliases) : Grows X A A
  | bind {A A' : Aliases} {v : TyVar} {t : Ty} (unaliased : A.lookup v = none)
    (fresh : v ∉ t.occurrences) (canonical : A.Canonical t) (wellFormed : t.WellFormed)
    (var : X v) (target : ∀ w ∈ t.occurrences, X w) : Grows X (A.record v t) A' → Grows X A A'

namespace Grows

theorem trans (h : Grows X A A') (h' : Grows X A' A'') : Grows X A A'' := by
  induction h with
  | refl => exact h'
  | bind hv hf hc hw hX ht _ ih => exact .bind hv hf hc hw hX ht (ih h')

theorem acyclic (h : Grows X A A') (hA : A.Acyclic) : A'.Acyclic := by
  induction h with
  | refl => exact hA
  | bind hv hf hc _ _ _ _ ih => exact ih (hA.record hv (by rwa [hc.canonicalize_eq]))

theorem lookup_of_some (h : Grows X A A') (hv : A.lookup v = some t) : A'.lookup v = some t := by
  induction h with
  | refl => exact hv
  | @bind A A' w u hw _ _ _ _ _ _ ih =>
    have hne : w ≠ v := by
      rintro rfl
      rw [hw] at hv
      cases hv
    exact ih (by rw [lookup_record, if_neg hne, hv])

theorem lookup_of_not (h : Grows X A A') (hx : ¬ X x) : A'.lookup x = A.lookup x := by
  induction h with
  | refl => rfl
  | @bind A A' w u _ _ _ _ hw _ _ ih =>
    have hne : w ≠ x := fun e => hx (e ▸ hw)
    rw [ih, lookup_record, if_neg hne]

theorem forall_lookup {P : TyVar → Ty → Prop} (h : Grows X A A')
    (hold : ∀ v t, A.lookup v = some t → P v t)
    (hnew : ∀ v t, X v → (∀ w ∈ t.occurrences, X w) → t.WellFormed → P v t) :
    ∀ v t, A'.lookup v = some t → P v t := by
  induction h with
  | refl => exact hold
  | @bind A A' w u _ _ _ hwf hw hu _ ih =>
    refine ih fun v t hv => ?_
    rw [lookup_record] at hv
    split at hv
    · subst w
      obtain rfl : u = t := Option.some.inj hv
      exact hnew v u hw hu hwf
    · exact hold v t hv

theorem solvedBy (h : Grows X A A') (hs : A'.SolvedBy R) : A.SolvedBy R :=
  fun v t hv => hs v t (h.lookup_of_some hv)

theorem canonicalize_canonicalize (h : Grows X A A') (hA : A.Acyclic) (t : Ty) :
    A'.canonicalize (A.canonicalize t) = A'.canonicalize t :=
  (h.solvedBy (h.acyclic hA).solvedBy_value).read_canonicalize t

theorem mem_canonicalize (h : Grows X A A') (hA : A.Acyclic)
    (ht : ∀ w ∈ (A.canonicalize t).occurrences, X w) :
    ∀ w ∈ (A'.canonicalize t).occurrences, X w := by
  induction h with
  | refl => exact ht
  | @bind A A' v u hv hf hc _ _ hu _ ih =>
    have hf' : v ∉ (A.canonicalize u).occurrences := by rwa [hc.canonicalize_eq]
    refine ih (hA.record hv hf') fun w hw => ?_
    rw [hA.canonicalize_record hv hf', hc.canonicalize_eq, Ty.mem_occurrences_replace] at hw
    rcases hw with ⟨-, hw⟩ | ⟨hw, -⟩
    · exact hu w hw
    · exact ht w hw

end Grows

/-! ### Solving equations -/

theorem canonical_record (hcan : eqs.Canonical A) (ht : A.Canonical t) (hv : v ∉ t.occurrences) :
    (eqs.replace v t).Canonical (A.record v t) := by
  intro x hx
  have hx' : x ∈ t.occurrences ∨ (x ∈ eqs.vars ∧ x ≠ v) := Equations.mem_vars_replace hx
  have hne : v ≠ x := by
    rintro rfl
    rcases hx' with h | ⟨-, h⟩
    · exact hv h
    · exact h rfl
  rw [lookup_record, if_neg hne]
  rcases hx' with h | ⟨h, -⟩
  · exact ht x h
  · exact hcan x h

/-- Whether it succeeds or not, solving only adds aliases between variables of the equations. -/
theorem solve_grows (hwf : eqs.WellFormed) (hcan : eqs.Canonical A) (hX : ∀ x ∈ eqs.vars, X x) :
    Grows X A (A.solve eqs).1 := by
  fun_induction solve A eqs with
  | case1 A => exact .refl A
  | case2 A a rest ih =>
    exact ih (Equations.wellFormed_cons.1 hwf).2 hcan.tail
      fun x hx => hX x (Equations.mem_vars_of_mem_tail hx)
  | case3 A => exact .refl A
  | case4 A => exact .refl A
  | case5 A a b rest hne v t ho hocc hv ih =>
    have hvar : ∀ x, x = v ∨ x ∈ t.occurrences → x ∈ Equations.vars ((a, b) :: rest) :=
      fun x => Equations.mem_vars_of_orient ho
    have ht : A.Canonical t := fun x hx => hcan x (hvar x (.inr hx))
    have hf : v ∉ t.occurrences := fun h => hocc (Ty.occurs_iff_mem_occurrences.2 h)
    have htwf := hwf.of_orient ho
    have hwf' := (Equations.wellFormed_cons.1 hwf).2.replace (v := v) htwf
    refine .bind (by simpa using hv) hf ht htwf (hX v (hvar v (.inl rfl)))
      (fun w hw => hX w (hvar w (.inr hw))) (ih hwf' (canonical_record hcan.tail ht hf) ?_)
    intro x hx
    rcases Equations.mem_vars_replace hx with h | ⟨h, -⟩
    · exact hX x (hvar x (.inr h))
    · exact hX x (Equations.mem_vars_of_mem_tail h)
  | case6 A rest con ts con' us ho hcon hne ih =>
    exact ih hwf.zip_append (fun x hx => hcan x (Equations.mem_vars_of_zip_append hx))
      fun x hx => hX x (Equations.mem_vars_of_zip_append hx)
  | case7 A => exact .refl A
  | case8 A => exact .refl A

/-- A run that succeeds leaves exactly the solutions of the equations. -/
theorem solve_solvedBy (h : (A.solve eqs).2 = none) :
    (A.solve eqs).1.SolvedBy R ↔ A.SolvedBy R ∧ eqs.SolvedBy R := by
  fun_induction solve A eqs with
  | case1 A => simp [Equations.SolvedBy]
  | case2 A a rest ih => rw [ih h, Equations.solvedBy_cons]; simp
  | case3 => cases h
  | case4 => cases h
  | case5 A a b rest hne v t ho hocc hv ih =>
    rw [ih h, solvedBy_record (by simpa using hv), Equations.solvedBy_cons,
      Equations.read_orient ho, and_assoc]
    exact and_congr_right fun _ => and_congr_right Equations.solvedBy_replace
  | case6 A rest con ts con' us ho hcon hne ih =>
    rw [ih h, Equations.solvedBy_append, Equations.solvedBy_zip hcon.2, Equations.solvedBy_cons,
      R.app_inj]
    simp [hcon.1]
  | case7 => cases h
  | case8 => cases h

end Aliases

/-- What an error of unification shows is a clash: applications that differ at the root, or a
variable within a larger type. -/
def TypeError.Clash : TypeError → Prop
  | .impossible (.app c ts) (.app d us) => c ≠ d ∨ ts.length ≠ us.length
  | .recursive t v => v ∈ t.occurrences ∧ t ≠ .var v
  | _ => False

/-- The two types that an error shows mean the same. -/
def TypeError.EquatedBy {D : Type} (R : Reading D) : TypeError → Prop
  | .impossible a b => R.read a = R.read b
  | .recursive t v => R.read (.var v) = R.read t
  | _ => False

theorem TypeError.Clash.not_equatedBy {D : Type} {R : Reading D} {e : TypeError} (h : e.Clash) :
    ¬ e.EquatedBy R := by
  intro heq
  match e, h with
  | .impossible (.app c ts) (.app d us), h =>
    obtain ⟨hc, hmap⟩ := R.app_inj.1 heq
    have hlen := congrArg List.length hmap
    rw [List.length_map, List.length_map] at hlen
    rcases h with h | h
    exacts [h hc, h hlen]
  | .recursive t v, ⟨hv, hne⟩ => exact Reading.ne_of_occurs hv hne heq

namespace Aliases
variable {D : Type} {R : Reading D} {A : Aliases} {eqs : Equations} {e : TypeError} {a b : Ty}

/-- A run that fails ends at a clash that every solution of the equations would have to resolve. -/
theorem solve_error (hwf : eqs.WellFormed) (hcan : eqs.Canonical A)
    (h : (A.solve eqs).2 = some e) :
    e.Clash ∧ (A.SolvedBy R → eqs.SolvedBy R → e.EquatedBy R) := by
  fun_induction solve A eqs with
  | case1 => cases h
  | case2 A a rest ih =>
    obtain ⟨hcl, heq⟩ := ih (Equations.wellFormed_cons.1 hwf).2 hcan.tail h
    exact ⟨hcl, fun hA hs => heq hA (Equations.solvedBy_cons.1 hs).2⟩
  | case3 A a b rest hne v t ho hocc =>
    obtain rfl := Option.some.inj h
    refine ⟨⟨Ty.occurs_iff_mem_occurrences.1 hocc, ?_⟩, fun _ hs => ?_⟩
    · rintro rfl
      rcases orient_eq_some ho with ⟨rfl, rfl⟩ | ⟨rfl, rfl⟩ <;> exact hne rfl
    · exact (Equations.read_orient ho).1 (Equations.solvedBy_cons.1 hs).1
  | case4 A a b rest hne v t ho hocc hv =>
    rw [hcan v (Equations.mem_vars_of_orient ho (.inl rfl))] at hv
    cases hv
  | case5 A a b rest hne v t ho hocc hv ih =>
    have hv : A.lookup v = none := by simpa using hv
    have ht : A.Canonical t := fun x hx => hcan x (Equations.mem_vars_of_orient ho (.inr hx))
    have hf : v ∉ t.occurrences := fun h => hocc (Ty.occurs_iff_mem_occurrences.2 h)
    have hwf' := (Equations.wellFormed_cons.1 hwf).2.replace (v := v) (hwf.of_orient ho)
    obtain ⟨hcl, heq⟩ := ih hwf' (canonical_record hcan.tail ht hf) h
    refine ⟨hcl, fun hA hs => ?_⟩
    obtain ⟨hab, hs⟩ := Equations.solvedBy_cons.1 hs
    have hvt := (Equations.read_orient ho).1 hab
    exact heq ((solvedBy_record hv).2 ⟨hA, hvt⟩) ((Equations.solvedBy_replace hvt).2 hs)
  | case6 A rest con ts con' us ho hcon hne ih =>
    obtain ⟨hcl, heq⟩ := ih hwf.zip_append
      (fun x hx => hcan x (Equations.mem_vars_of_zip_append hx)) h
    refine ⟨hcl, fun hA hs => heq hA ?_⟩
    obtain ⟨hab, hs⟩ := Equations.solvedBy_cons.1 hs
    exact Equations.solvedBy_append.2
      ⟨(Equations.solvedBy_zip hcon.2).2 (R.app_inj.1 hab).2, hs⟩
  | case7 A rest con ts con' us ho hcon hne =>
    obtain rfl := Option.some.inj h
    exact ⟨by rwa [not_and_or] at hcon, fun _ hs => (Equations.solvedBy_cons.1 hs).1⟩
  | case8 A rest a b ho hno hne =>
    -- one side is an alien
    obtain ⟨⟨ha, hb⟩, -⟩ := Equations.wellFormed_cons.1 hwf
    exfalso
    match a, b with
    | .var v, b => simp [orient] at ho
    | .app c ts, .var v => simp [orient] at ho
    | .app c ts, .app d us => exact hno c ts d us rfl rfl rfl .rfl
    | .alien x, _ => exact Ty.not_wellFormed_alien x ha
    | .app c ts, .alien x => exact Ty.not_wellFormed_alien x hb

/-! ### Unifying two types -/

theorem canonical_pair (hA : A.Acyclic) (a b : Ty) :
    Equations.Canonical A [(A.canonicalize a, A.canonicalize b)] := by
  intro x hx
  rcases Equations.mem_vars_cons.1 hx with hx | hx | hx
  · exact hA.canonical_canonicalize a x hx
  · exact hA.canonical_canonicalize b x hx
  · simp [Equations.vars, Equations.occurrences] at hx

/-- Either an alien is in the way, or the canonical forms are well-formed and get solved. -/
theorem unify?_cases (A : Aliases) (a b : Ty) :
    (∃ x, A.unify? a b = (A, some (.unexpected x)) ∧
      ¬ ((A.canonicalize a).WellFormed ∧ (A.canonicalize b).WellFormed)) ∨
    (A.unify? a b = A.solve [(A.canonicalize a, A.canonicalize b)] ∧
      Equations.WellFormed [(A.canonicalize a, A.canonicalize b)]) := by
  unfold unify? Ty.WellFormed
  cases ha : (A.canonicalize a).alien? with
  | some x => exact .inl ⟨x, rfl, by simp⟩
  | none => cases hb : (A.canonicalize b).alien? with
    | some x => exact .inl ⟨x, rfl, by simp⟩
    | none =>
      refine .inr ⟨rfl, fun e he => ?_⟩
      obtain rfl := List.mem_singleton.1 he
      exact ⟨ha, hb⟩

theorem unify?_grows {X : TyVar → Prop} (hA : A.Acyclic)
    (ha : ∀ x ∈ (A.canonicalize a).occurrences, X x)
    (hb : ∀ x ∈ (A.canonicalize b).occurrences, X x) : Grows X A (A.unify? a b).1 := by
  rcases A.unify?_cases a b with ⟨x, h, -⟩ | ⟨h, hwf⟩
  · rw [h]
    exact .refl A
  · rw [h]
    refine solve_grows hwf (canonical_pair hA a b) fun x hx => ?_
    rcases Equations.mem_vars_cons.1 hx with hx | hx | hx
    · exact ha x hx
    · exact hb x hx
    · simp [Equations.vars, Equations.occurrences] at hx

theorem unify?_solvedBy (h : (A.unify? a b).2 = none) :
    (A.unify? a b).1.SolvedBy R ↔ A.SolvedBy R ∧ R.read a = R.read b := by
  rcases A.unify?_cases a b with ⟨x, hx, -⟩ | ⟨hs, -⟩
  · rw [hx] at h
    cases h
  · rw [hs] at h ⊢
    rw [solve_solvedBy h, Equations.solvedBy_singleton]
    refine and_congr_right fun hA => ?_
    rw [hA.read_canonicalize, hA.read_canonicalize]

theorem unify?_error (hA : A.Acyclic) (h : (A.unify? a b).2 = some e)
    (hwf : ∀ x, e ≠ .unexpected x) :
    e.Clash ∧ (A.SolvedBy R → R.read a = R.read b → e.EquatedBy R) := by
  rcases A.unify?_cases a b with ⟨x, hx, -⟩ | ⟨hs, hwf'⟩
  · rw [hx] at h
    exact absurd (Option.some.inj h).symm (hwf x)
  · rw [hs] at h
    obtain ⟨hcl, heq⟩ := solve_error (R := R) hwf' (canonical_pair hA a b) h
    refine ⟨hcl, fun hR hab => heq hR (Equations.solvedBy_singleton.2 ?_)⟩
    rw [hR.read_canonicalize, hR.read_canonicalize, hab]

theorem wellFormed_canonicalize (hA : A.Acyclic)
    (hwf : ∀ v t, A.lookup v = some t → t.WellFormed) {t : Ty} (ht : t.WellFormed) :
    (A.canonicalize t).WellFormed := by
  have hvalue : ∀ v, (A.value v).WellFormed := by
    intro v
    induction v using hA.induction with
    | step v ih =>
      cases hv : A.lookup v with
      | none => rw [value_of_none hv]; exact Ty.wellFormed_var v
      | some u =>
        rw [hA.value_of_some hv]
        exact Ty.wellFormed_subst_iff.2 ⟨hwf v u hv, fun w hw => ih w ⟨u, hv, hw⟩⟩
  exact Ty.wellFormed_subst_iff.2 ⟨ht, fun v _ => hvalue v⟩

theorem unify?_ne_unexpected_of_canonical (hA : A.Acyclic) (ha : (A.canonicalize a).WellFormed)
    (hb : (A.canonicalize b).WellFormed) (x : Alien) : (A.unify? a b).2 ≠ some (.unexpected x) := by
  intro h
  rcases A.unify?_cases a b with ⟨_, -, hn⟩ | ⟨hs, hwf⟩
  · exact hn ⟨ha, hb⟩
  · rw [hs] at h
    exact (solve_error (R := .ofSubst .var) hwf (canonical_pair hA a b) h).1

theorem unify?_ne_unexpected (hA : A.Acyclic) (hwf : ∀ v t, A.lookup v = some t → t.WellFormed)
    (ha : a.WellFormed) (hb : b.WellFormed) (x : Alien) :
    (A.unify? a b).2 ≠ some (.unexpected x) :=
  unify?_ne_unexpected_of_canonical hA (wellFormed_canonicalize hA hwf ha)
    (wellFormed_canonicalize hA hwf hb) x

theorem unify?_eq_none_of_canonical (hA : A.Acyclic) (ha : (A.canonicalize a).WellFormed)
    (hb : (A.canonicalize b).WellFormed) (hR : A.SolvedBy R) (hab : R.read a = R.read b) :
    (A.unify? a b).2 = none := by
  cases herr : (A.unify? a b).2 with
  | none => rfl
  | some e =>
    have hx : ∀ x, e ≠ .unexpected x := by
      rintro x rfl
      exact unify?_ne_unexpected_of_canonical hA ha hb x herr
    obtain ⟨hclash, heq⟩ := unify?_error (R := R) hA herr hx
    exact absurd (heq hR hab) hclash.not_equatedBy

theorem unify?_eq_none (hA : A.Acyclic) (hwf : ∀ v t, A.lookup v = some t → t.WellFormed)
    (ha : a.WellFormed) (hb : b.WellFormed) (hR : A.SolvedBy R) (hab : R.read a = R.read b) :
    (A.unify? a b).2 = none :=
  unify?_eq_none_of_canonical hA (wellFormed_canonicalize hA hwf ha)
    (wellFormed_canonicalize hA hwf hb) hR hab

/-- The substitutions under which all aliases hold. -/
def Solutions (A : Aliases) : Set (TyVar → Ty) :=
  { θ | ∀ v t, A.lookup v = some t → θ v = t.subst θ }

end Aliases

/-- Unification computes exactly the solution set. If it succeeds, the aliases it leaves have the
solutions of the old ones that equate the two types, whose canonical forms have become equal. If it
reports a clash, no solution of the aliases equates them. The only other way for it to end is to meet
an alien, which takes an alias to one. -/
theorem Context.unify_solutions (ctx : Context) (a b : Ty) (hA : ctx.aliases.Acyclic)
    (ha : a.WellFormed) (hb : b.WellFormed) :
    (∀ ctx', ctx.unify a b = (ctx', none) →
      ctx'.aliases.Solutions = { θ ∈ ctx.aliases.Solutions | a.subst θ = b.subst θ } ∧
      ctx'.aliases.canonicalize a = ctx'.aliases.canonicalize b) ∧
    (∀ ctx' e, ctx.unify a b = (ctx', some e) → (∀ x, e ≠ .unexpected x) →
      ∀ θ ∈ ctx.aliases.Solutions, a.subst θ ≠ b.subst θ) ∧
    ((∀ v t, ctx.aliases.lookup v = some t → t.WellFormed) →
      ∀ ctx' x, ctx.unify a b ≠ (ctx', some (.unexpected x))) := by
  refine ⟨fun ctx' h => ?_, fun ctx' e h hx θ hθ hab => ?_, fun hwf ctx' x h => ?_⟩
  · obtain ⟨rfl, hnone⟩ := Prod.mk.inj h
    have hsol : ∀ θ, (ctx.aliases.unify? a b).1.SolvedBy (.ofSubst θ) ↔
        ctx.aliases.SolvedBy (.ofSubst θ) ∧ a.subst θ = b.subst θ :=
      fun θ => Aliases.unify?_solvedBy hnone
    have hacyc : (ctx.aliases.unify? a b).1.Acyclic :=
      (Aliases.unify?_grows (X := fun _ => True) hA (fun _ _ => trivial) fun _ _ => trivial).acyclic hA
    exact ⟨Set.ext hsol, ((hsol _).1 hacyc.solvedBy_value).2⟩
  · obtain ⟨-, hsome⟩ := Prod.mk.inj h
    obtain ⟨hcl, heq⟩ := Aliases.unify?_error (R := .ofSubst θ) hA hsome hx
    exact hcl.not_equatedBy (heq hθ hab)
  · obtain ⟨-, hsome⟩ := Prod.mk.inj h
    exact Aliases.unify?_ne_unexpected hA hwf ha hb x hsome

/-- With `t0` aliased to `List t1`, unifying `t0` and `t1` runs into a cycle, and indeed there is no
solution. -/
theorem Context.unify_solutions_hidden_cycle :
    ((∅ : Aliases).record 0 (.app "List" [.var 1])).Acyclic ∧
    (Ty.var 0).WellFormed ∧ (Ty.var 1).WellFormed ∧
    Context.unify ⟨(∅ : Aliases).record 0 (.app "List" [.var 1]), {}⟩ (.var 0) (.var 1) =
      (⟨(∅ : Aliases).record 0 (.app "List" [.var 1]), {}⟩,
        some (.recursive (.app "List" [.var 1]) 1)) ∧
    ∀ θ ∈ ((∅ : Aliases).record 0 (.app "List" [.var 1])).Solutions, θ 0 ≠ θ 1 := by
  have hA : ((∅ : Aliases).record 0 (.app "List" [.var 1])).Acyclic :=
    Aliases.acyclic_empty.record (Aliases.lookup_empty 0) (by decide)
  have herr : Context.unify ⟨(∅ : Aliases).record 0 (.app "List" [.var 1]), {}⟩ (.var 0) (.var 1) =
      (⟨(∅ : Aliases).record 0 (.app "List" [.var 1]), {}⟩,
        some (.recursive (.app "List" [.var 1]) 1)) := by cbv
  refine ⟨hA, rfl, rfl, herr, ?_⟩
  refine (Context.unify_solutions ⟨_, {}⟩ (.var 0) (.var 1) hA rfl rfl).2.1 _ _ herr fun x hx => ?_
  cases hx

end LetPoly
