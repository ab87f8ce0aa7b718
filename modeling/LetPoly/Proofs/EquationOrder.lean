import Mathlib.Data.FinEnum
import Mathlib.Data.List.Zip
import Mathlib.Logic.Equiv.Fintype
import LetPoly.Proofs.Renaming
import LetPoly.Proofs.Termination

/-!
# The order of equations

Unification binds a variable to whatever it meets first, so the aliases it leaves depend on the order
of the equations and on which side of an equation comes first. What they mean does not: aliases with
the same solutions have the same canonical forms up to one renaming of the variables
(`Acyclic.exists_sameUpTo`).

For a sequence of unifications that succeeds this is enough, since the solutions are those of all the
equations together (`unifyAll_rearranged`). A failure leaves the aliases recorded on the way to it, and
these are compared step by step: two runs on the same equations, one of them with all sides swapped,
have aliases with the same solutions at every step, and so stop at the same equation
(`solve_mirror`, `unify_symmetric`).
-/

namespace LetPoly

namespace Aliases
variable {A A' B : Aliases} {a b t : Ty} {v : TyVar} {r : Equiv.Perm TyVar} {X : TyVar → Prop}

/-! ### Aliases with the same solutions -/

/-- Up to the renaming `r`, a type stands for the same in `B` as in `A`. -/
def SameUpTo (r : Equiv.Perm TyVar) (A B : Aliases) : Prop :=
  ∀ t, B.canonicalize t = (A.canonicalize t).rename r

theorem sameUpTo_refl (A : Aliases) : SameUpTo (Equiv.refl TyVar) A A :=
  fun _ => (Ty.rename_id _).symm

theorem SameUpTo.canonicalize_eq (h : SameUpTo r A B) (ht : A.Canonical t) :
    B.canonicalize t = t.rename r := by
  rw [h t, ht.canonicalize_eq]

theorem SameUpTo.canonicalize_ne (h : SameUpTo r A B) (ha : A.Canonical a) (hb : A.Canonical b)
    (hne : a ≠ b) : B.canonicalize b ≠ B.canonicalize a := by
  rw [h.canonicalize_eq ha, h.canonicalize_eq hb]
  exact fun he => hne (Ty.rename_injective r.injective he).symm

theorem Acyclic.exists_sameUpTo (hA : A.Acyclic) (hB : B.Acyclic) (h : A.Solutions = B.Solutions) :
    ∃ r, SameUpTo r A B := by
  have hBA : A.SolvedBy (.ofSubst B.value) := by
    have hmem : B.value ∈ B.Solutions := hB.solvedBy_value
    rwa [← h] at hmem
  have hAB : B.SolvedBy (.ofSubst A.value) := by
    have hmem : A.value ∈ A.Solutions := hA.solvedBy_value
    rwa [h] at hmem
  -- the values of `A` undo those of `B`, so a variable without an alias in `A` has a variable as value
  have hvar : ∀ v, A.lookup v = none → ∃ w, B.value v = .var w ∧ A.value w = .var v := by
    intro v hv
    have hundo : (B.value v).subst A.value = A.value v := hAB.read_canonicalize (.var v)
    exact Ty.exists_of_subst_eq_var (hundo.trans (value_of_none hv))
  choose! ρ hρ using hvar
  have hinj : Function.Injective fun v : { v // A.lookup v = none } => ρ v := by
    intro v w (hvw : ρ v = ρ w)
    have hv := (hρ v v.2).2
    rw [hvw, (hρ w w.2).2] at hv
    exact Subtype.ext (Ty.var.inj hv).symm
  obtain ⟨r, hr⟩ := Equiv.Perm.exists_extending_pair _ _ Subtype.val_injective hinj
  refine ⟨r, fun t => ?_⟩
  have hread : (A.canonicalize t).subst B.value = B.canonicalize t := hBA.read_canonicalize t
  rw [← hread]
  refine Ty.subst_congr fun v hv => ?_
  have hv := hA.canonical_canonicalize t v hv
  rw [(hρ v hv).1, ← hr ⟨v, hv⟩]

theorem Grows.wellFormed_equations_iff (h : Grows X A A') (hA : A.Acyclic) {eqs : Equations} :
    (eqs.canonicalize A').WellFormed ↔ (eqs.canonicalize A).WellFormed := by
  refine ⟨fun hwf => ?_, h.wellFormed_equations hA⟩
  rw [← Equations.canonicalize_canonicalize h hA] at hwf
  intro e he
  obtain ⟨h₁, h₂⟩ := hwf _ (List.mem_map_of_mem he)
  exact ⟨(Ty.wellFormed_subst_iff.1 h₁).1, (Ty.wellFormed_subst_iff.1 h₂).1⟩

theorem unify?_eq_none_iff (hA : A.Acyclic) : (A.unify? a b).2 = none ↔
    ((A.canonicalize a).WellFormed ∧ (A.canonicalize b).WellFormed) ∧
      ∃ θ ∈ A.Solutions, a.subst θ = b.subst θ := by
  constructor
  · intro h
    have hg : Grows (fun _ => True) A (A.unify? a b).1 := hA.grows_unify? rfl
    refine ⟨?_, _, (unify?_solvedBy h).1 (hg.acyclic hA).solvedBy_value⟩
    rcases A.unify?_cases a b with ⟨x, hx, -⟩ | ⟨-, hwf⟩
    · rw [hx] at h
      cases h
    · exact (Equations.wellFormed_cons.1 hwf).1
  · rintro ⟨⟨ha, hb⟩, θ, hθ, hab⟩
    exact unify?_eq_none_of_canonical (R := .ofSubst θ) hA ha hb hθ hab

end Aliases

/-! ### One equation after the other -/

/-- The same equations in another order, any of them with its sides swapped. -/
def Equations.Rearranged (eqs eqs' : Equations) : Prop :=
  ∃ l, eqs.Perm l ∧ List.Forall₂ (fun e e' => e' = e ∨ e' = e.swap) l eqs'

theorem Equations.Rearranged.forall_iff {eqs eqs' : Equations} {P : Ty × Ty → Prop}
    (h : eqs.Rearranged eqs') (hP : ∀ e, P e.swap ↔ P e) : (∀ e ∈ eqs, P e) ↔ ∀ e ∈ eqs', P e := by
  obtain ⟨l, hperm, hl⟩ := h
  have hmem : (∀ e ∈ eqs, P e) ↔ ∀ e ∈ l, P e := by simp only [hperm.mem_iff]
  rw [hmem]
  clear hmem hperm
  induction hl with
  | nil => exact Iff.rfl
  | @cons e e' _ _ he _ ih =>
    have hhead : P e ↔ P e' := by
      rcases he with rfl | rfl
      · exact Iff.rfl
      · exact (hP e).symm
    rw [List.forall_mem_cons, List.forall_mem_cons]
    exact and_congr hhead ih

namespace Context
variable {ctx ctx' : Context} {eqs : Equations} {a b : Ty} {θ : TyVar → Ty}

/-- Unifies pair after pair, up to the first one that cannot be unified. -/
def unifyAll (ctx : Context) : Equations → Context × Option TypeError
  | [] => (ctx, none)
  | (a, b) :: rest =>
    match ctx.unify a b with
    | (ctx', none) => ctx'.unifyAll rest
    | (ctx', some e) => (ctx', some e)

theorem unify_grows {o : Option TypeError} (hA : ctx.aliases.Acyclic)
    (h : ctx.unify a b = (ctx', o)) :
    Aliases.Grows (fun _ => True) ctx.aliases ctx'.aliases := by
  obtain ⟨rfl, -⟩ := Prod.mk.inj h
  exact hA.grows_unify? rfl

theorem mem_solutions_unify (h : ctx.unify a b = (ctx', none)) :
    θ ∈ ctx'.aliases.Solutions ↔ θ ∈ ctx.aliases.Solutions ∧ a.subst θ = b.subst θ := by
  obtain ⟨rfl, hnone⟩ := Prod.mk.inj h
  exact Aliases.unify?_solvedBy (R := .ofSubst θ) hnone

theorem unifyAll_grows (hA : ctx.aliases.Acyclic) (eqs : Equations) :
    Aliases.Grows (fun _ => True) ctx.aliases (ctx.unifyAll eqs).1.aliases := by
  induction eqs generalizing ctx with
  | nil => exact .refl _
  | cons e rest ih =>
    obtain ⟨a, b⟩ := e
    rw [unifyAll]
    cases hu : ctx.unify a b with
    | mk ctx' o =>
      have hg := unify_grows hA hu
      cases o with
      | none => exact hg.trans (ih (hg.acyclic hA))
      | some e => exact hg

theorem mem_solutions_unifyAll (h : (ctx.unifyAll eqs).2 = none) :
    θ ∈ (ctx.unifyAll eqs).1.aliases.Solutions ↔
      θ ∈ ctx.aliases.Solutions ∧ eqs.SolvedBy (.ofSubst θ) := by
  induction eqs generalizing ctx with
  | nil => simp [unifyAll, Equations.SolvedBy]
  | cons e rest ih =>
    obtain ⟨a, b⟩ := e
    rw [unifyAll] at h ⊢
    cases hu : ctx.unify a b with
    | mk ctx' o =>
      rw [hu] at h
      cases o with
      | some e => cases h
      | none =>
        rw [Equations.solvedBy_cons, ← and_assoc]
        exact (ih h).trans (and_congr_left' (mem_solutions_unify hu))

/-- Neither side of this depends on the order of the equations: a sequence of unifications succeeds if
it meets no alien and some solution of the aliases solves all the equations. -/
theorem unifyAll_eq_none_iff (hA : ctx.aliases.Acyclic) :
    (ctx.unifyAll eqs).2 = none ↔ (eqs.canonicalize ctx.aliases).WellFormed ∧
      ∃ θ ∈ ctx.aliases.Solutions, eqs.SolvedBy (.ofSubst θ) := by
  induction eqs generalizing ctx with
  | nil =>
    refine iff_of_true rfl ⟨?_, ctx.aliases.value, hA.solvedBy_value, ?_⟩
    · simp [Equations.canonicalize, Equations.WellFormed]
    · simp [Equations.SolvedBy]
  | cons e rest ih =>
    obtain ⟨a, b⟩ := e
    have hone : (ctx.unify a b).2 = none ↔ _ := Aliases.unify?_eq_none_iff hA
    have hcons : (Equations.canonicalize ((a, b) :: rest) ctx.aliases).WellFormed ↔
        ((ctx.aliases.canonicalize a).WellFormed ∧ (ctx.aliases.canonicalize b).WellFormed) ∧
          (Equations.canonicalize rest ctx.aliases).WellFormed := Equations.wellFormed_cons
    rw [unifyAll, hcons]
    cases hu : ctx.unify a b with
    | mk ctx' o =>
      rw [hu] at hone
      cases o with
      | none =>
        have hg := unify_grows hA hu
        have hsol : (∃ θ ∈ ctx'.aliases.Solutions, Equations.SolvedBy rest (.ofSubst θ)) ↔
            ∃ θ ∈ ctx.aliases.Solutions, Equations.SolvedBy ((a, b) :: rest) (.ofSubst θ) := by
          refine exists_congr fun θ => ?_
          rw [mem_solutions_unify hu, Equations.solvedBy_cons, and_assoc]
          rfl
        refine (ih (hg.acyclic hA)).trans ?_
        rw [hg.wellFormed_equations_iff hA, hsol, and_iff_right (hone.1 rfl).1]
      | some e =>
        refine iff_of_false (Option.some_ne_none e) ?_
        rintro ⟨⟨hab, -⟩, θ, hθ, hs⟩
        cases hone.2 ⟨hab, θ, hθ, (Equations.solvedBy_cons.1 hs).1⟩

/-- Equations may be unified in any order and with their sides swapped: all of them are unified in the
one order if they are in the other, and then every type stands for the same, up to one renaming of the
variables. -/
theorem unifyAll_rearranged (ctx : Context) (eqs eqs' : Equations) (hA : ctx.aliases.Acyclic)
    (h : eqs.Rearranged eqs') :
    ((ctx.unifyAll eqs).2 = none ↔ (ctx.unifyAll eqs').2 = none) ∧
    ((ctx.unifyAll eqs).2 = none → ∃ r : Equiv.Perm TyVar,
      Aliases.SameUpTo r (ctx.unifyAll eqs).1.aliases (ctx.unifyAll eqs').1.aliases) := by
  have hsolved : ∀ θ, eqs.SolvedBy (.ofSubst θ) ↔ eqs'.SolvedBy (.ofSubst θ) :=
    fun θ => h.forall_iff fun e => eq_comm
  have hwf : (eqs.canonicalize ctx.aliases).WellFormed ↔
      (eqs'.canonicalize ctx.aliases).WellFormed := by
    unfold Equations.canonicalize Equations.WellFormed
    rw [List.forall_mem_map, List.forall_mem_map]
    exact h.forall_iff fun e => and_comm
  have hiff : (ctx.unifyAll eqs).2 = none ↔ (ctx.unifyAll eqs').2 = none := by
    simp only [unifyAll_eq_none_iff hA, hwf, hsolved]
  refine ⟨hiff, fun hnone => ?_⟩
  have hacyc : ∀ l : Equations, (ctx.unifyAll l).1.aliases.Acyclic :=
    fun l => (unifyAll_grows hA l).acyclic hA
  refine (hacyc eqs).exists_sameUpTo (hacyc eqs') (Set.ext fun θ => ?_)
  rw [mem_solutions_unifyAll hnone, mem_solutions_unifyAll (hiff.1 hnone), hsolved]

/-- The one order leaves `t1` in place of `t0`, the other `t0` in place of `t1`. -/
theorem unifyAll_rearranged_swapped :
    (∅ : Aliases).Acyclic ∧
    Equations.Rearranged [(.var 0, .var 1), (.var 2, .app "List" [.var 0])]
      [(.app "List" [.var 0], .var 2), (.var 1, .var 0)] ∧
    ∃ r : Equiv.Perm TyVar, r 1 = 0 ∧ Aliases.SameUpTo r
      (unifyAll ⟨∅, {}⟩ [(.var 0, .var 1), (.var 2, .app "List" [.var 0])]).1.aliases
      (unifyAll ⟨∅, {}⟩ [(.app "List" [.var 0], .var 2), (.var 1, .var 0)]).1.aliases := by
  have hr : Equations.Rearranged [(.var 0, .var 1), (.var 2, .app "List" [.var 0])]
      [(.app "List" [.var 0], .var 2), (.var 1, .var 0)] :=
    ⟨_, .swap _ _ _, .cons (.inr rfl) (.cons (.inr rfl) .nil)⟩
  have hnone : (unifyAll ⟨∅, {}⟩ [(.var 0, .var 1), (.var 2, .app "List" [.var 0])]).2 = none := by
    cbv
  obtain ⟨r, hsame⟩ := (unifyAll_rearranged ⟨∅, {}⟩ _ _ Aliases.acyclic_empty hr).2 hnone
  refine ⟨Aliases.acyclic_empty, hr, r, ?_, hsame⟩
  have h₁ : (unifyAll ⟨∅, {}⟩ [(.var 0, .var 1),
      (.var 2, .app "List" [.var 0])]).1.aliases.canonicalize (.var 1) = .var 1 := by cbv
  have h₂ : (unifyAll ⟨∅, {}⟩ [(.app "List" [.var 0], .var 2),
      (.var 1, .var 0)]).1.aliases.canonicalize (.var 1) = .var 0 := by cbv
  have h := hsame (.var 1)
  rw [h₁, h₂] at h
  exact (Ty.var.inj h).symm

end Context

/-! ### The two sides of an equation -/

/-- The ends of two runs that see the sides of each equation the other way round, where the variables
of the second are those of the first renamed. -/
inductive TypeError.Mirrored (ρ : TyVar → TyVar) : Option TypeError → Option TypeError → Prop
  | none : Mirrored ρ none none
  | impossible (a b : Ty) :
    Mirrored ρ (some (.impossible a b)) (some (.impossible (b.rename ρ) (a.rename ρ)))
  | recursive (t : Ty) (v : TyVar) :
    Mirrored ρ (some (.recursive t v)) (some (.recursive (t.rename ρ) (ρ v)))

namespace Equations

/-- The equations with their sides swapped. -/
def mirror (eqs : Equations) : Equations := eqs.map Prod.swap

theorem mirror_replace (eqs : Equations) (v : TyVar) (t : Ty) :
    (eqs.replace v t).mirror = eqs.mirror.replace v t := by
  simp [mirror, replace]

theorem canonicalize_mirror_cons (a b : Ty) (rest : Equations) (A : Aliases) :
    (mirror ((a, b) :: rest)).canonicalize A =
      (A.canonicalize b, A.canonicalize a) :: (mirror rest).canonicalize A := rfl

theorem canonicalize_mirror_zip_append (ts us : List Ty) (rest : Equations) (A : Aliases) :
    (mirror (ts.zip us ++ rest)).canonicalize A =
      (us.map A.canonicalize).zip (ts.map A.canonicalize) ++ (mirror rest).canonicalize A := by
  rw [mirror, List.map_append, List.zip_swap, canonicalize, List.map_append, List.zip_map]
  rfl

end Equations

/-- From the other side, an equation is oriented the same way unless it is between variables. -/
theorem orient_rename_swap {a b t : Ty} {v : TyVar} {ρ : TyVar → TyVar}
    (ho : orient a b = some (v, t)) :
    orient (b.rename ρ) (a.rename ρ) = some (ρ v, t.rename ρ) ∨
      ∃ w, t = .var w ∧ orient (b.rename ρ) (a.rename ρ) = some (ρ w, .var (ρ v)) := by
  rcases orient_eq_some ho with ⟨rfl, rfl⟩ | ⟨rfl, rfl⟩
  · cases b with
    | var w => exact .inr ⟨w, rfl, rfl⟩
    | app con args => exact .inl (by rw [Ty.rename_app]; rfl)
    | alien x => exact .inl rfl
  · exact .inl rfl

namespace Aliases
variable {A B : Aliases} {a b t : Ty} {v : TyVar} {r : Equiv.Perm TyVar} {eqs : Equations}

theorem Acyclic.lookup_of_orient (hA : A.Acyclic)
    (ho : orient (A.canonicalize a) (A.canonicalize b) = some (v, t)) :
    A.lookup v = none ∧ A.Canonical t := by
  have hcan := canonical_pair hA a b
  exact ⟨hcan v (Equations.mem_vars_of_orient ho (.inl rfl)),
    fun x hx => hcan x (Equations.mem_vars_of_orient ho (.inr hx))⟩

theorem Acyclic.record_of_orient (hA : A.Acyclic)
    (ho : orient (A.canonicalize a) (A.canonicalize b) = some (v, t)) (hf : v ∉ t.occurrences) :
    (A.record v t).Acyclic ∧
      (A.record v t).Solutions = { θ ∈ A.Solutions | a.subst θ = b.subst θ } := by
  obtain ⟨hv, ht⟩ := hA.lookup_of_orient ho
  refine ⟨hA.record hv (by rwa [ht.canonicalize_eq]), Set.ext fun θ => ?_⟩
  refine (solvedBy_record (R := .ofSubst θ) hv).trans (and_congr_right fun hθ => ?_)
  rw [← Equations.read_orient ho, hθ.read_canonicalize, hθ.read_canonicalize]
  rfl

theorem Acyclic.solve_bind (hA : A.Acyclic) (hne : A.canonicalize a ≠ A.canonicalize b)
    (ho : orient (A.canonicalize a) (A.canonicalize b) = some (v, t)) (hf : v ∉ t.occurrences)
    (rest : Equations) :
    A.solve (Equations.canonicalize ((a, b) :: rest) A) =
      (A.record v t).solve (rest.canonicalize (A.record v t)) := by
  obtain ⟨hv, ht⟩ := hA.lookup_of_orient ho
  have hf' : v ∉ (A.canonicalize t).occurrences := by rwa [ht.canonicalize_eq]
  have hrest : rest.canonicalize (A.record v t) = (rest.canonicalize A).replace v t := by
    simp only [Equations.canonicalize, Equations.replace, List.map_map, Function.comp_def,
      hA.canonicalize_record hv hf', ht.canonicalize_eq]
  show A.solve ((A.canonicalize a, A.canonicalize b) :: rest.canonicalize A) = _
  rw [solve_cons_of_orient hne ho, bind, if_neg (mt Ty.occurs_iff_mem_occurrences.1 hf),
    if_neg (by simp [hv]), hrest]

theorem SameUpTo.exists_orient (h : SameUpTo r A B) (ha : A.Canonical a) (hb : A.Canonical b)
    (ho : orient a b = some (v, t)) (hf : v ∉ t.occurrences) :
    ∃ w u, orient (B.canonicalize b) (B.canonicalize a) = some (w, u) ∧ w ∉ u.occurrences := by
  rw [h.canonicalize_eq ha, h.canonicalize_eq hb]
  rcases orient_rename_swap (ρ := r) ho with ho' | ⟨w, rfl, ho'⟩
  · exact ⟨_, _, ho', mt (Ty.mem_occurrences_rename r.injective).1 hf⟩
  · refine ⟨_, _, ho', ?_⟩
    rw [Ty.mem_occurrences_var] at hf ⊢
    exact fun he => hf (r.injective he).symm

/-- Where the first run stops with the aliases it has, it is enough that the second one does. -/
theorem Acyclic.mirrored_of_stop {o : Option TypeError} {p : Aliases × Option TypeError}
    (hA : A.Acyclic) (hB : B.Acyclic) (hAB : A.Solutions = B.Solutions)
    (h : ∀ r : Equiv.Perm TyVar, SameUpTo r A B → p.1 = B ∧ TypeError.Mirrored r o p.2) :
    A.Solutions = p.1.Solutions ∧
      ∀ r : Equiv.Perm TyVar, SameUpTo r A p.1 → TypeError.Mirrored r o p.2 := by
  obtain ⟨r, hr⟩ := hA.exists_sameUpTo hB hAB
  rw [(h r hr).1]
  exact ⟨hAB, fun r hr => (h r hr).2⟩

/-- Runs on the same equations, seen from either side, from aliases with the same solutions: they end
in aliases with the same solutions, and in the same way up to the renaming between these. -/
theorem solve_mirror (hA : A.Acyclic) (hB : B.Acyclic) (hAB : A.Solutions = B.Solutions)
    (hwf : eqs.WellFormed) (hcan : eqs.Canonical A) :
    (A.solve eqs).1.Solutions = (B.solve (eqs.mirror.canonicalize B)).1.Solutions ∧
      ∀ r : Equiv.Perm TyVar, SameUpTo r (A.solve eqs).1 (B.solve (eqs.mirror.canonicalize B)).1 →
        TypeError.Mirrored r (A.solve eqs).2 (B.solve (eqs.mirror.canonicalize B)).2 := by
  fun_induction A.solve eqs generalizing B with
  | case1 A =>
    simp only [Equations.mirror, Equations.canonicalize, List.map_nil, solve]
    exact ⟨hAB, fun r _ => .none⟩
  | case2 A a rest ih =>
    rw [Equations.canonicalize_mirror_cons, solve_cons_self]
    exact ih hA hB hAB (Equations.wellFormed_cons.1 hwf).2 hcan.tail
  | case3 A a b rest hne v t ho hocc =>
    obtain ⟨ha, hb⟩ := hcan.head
    refine hA.mirrored_of_stop hB hAB fun r hr => ?_
    have ho' : orient (B.canonicalize b) (B.canonicalize a) = some (r v, t.rename r) := by
      rw [hr.canonicalize_eq ha, hr.canonicalize_eq hb]
      rcases orient_rename_swap (ρ := r) ho with ho' | ⟨w, rfl, -⟩
      · exact ho'
      · -- a variable that occurs in a variable makes the two sides equal
        obtain rfl : w = v := by simpa [Ty.occurs] using hocc
        rcases orient_eq_some ho with ⟨rfl, rfl⟩ | ⟨rfl, rfl⟩ <;> exact (hne rfl).elim
    have hocc' : (t.rename r).occurs (r v) = true := by
      rw [Ty.occurs_iff_mem_occurrences] at hocc ⊢
      exact (Ty.mem_occurrences_rename r.injective).2 hocc
    rw [Equations.canonicalize_mirror_cons, solve_cons_of_orient (hr.canonicalize_ne ha hb hne) ho',
      bind, if_pos hocc']
    exact ⟨rfl, .recursive t v⟩
  | case4 A a b rest hne v t ho hocc hv =>
    rw [hcan v (Equations.mem_vars_of_orient ho (.inl rfl))] at hv
    cases hv
  | case5 A a b rest hne v t ho hocc hv ih =>
    have ht : A.Canonical t := fun x hx => hcan x (Equations.mem_vars_of_orient ho (.inr hx))
    have hf : v ∉ t.occurrences := fun h => hocc (Ty.occurs_iff_mem_occurrences.2 h)
    obtain ⟨ha, hb⟩ := hcan.head
    obtain ⟨r, hr⟩ := hA.exists_sameUpTo hB hAB
    obtain ⟨w, u, ho', hf'⟩ := hr.exists_orient ha hb ho hf
    have hoA : orient (A.canonicalize a) (A.canonicalize b) = some (v, t) := by
      rw [ha.canonicalize_eq, hb.canonicalize_eq, ho]
    obtain ⟨hA', hsolA⟩ := hA.record_of_orient hoA hf
    obtain ⟨hB', hsolB⟩ := hB.record_of_orient ho' hf'
    have hsol : (A.record v t).Solutions = (B.record w u).Solutions := by
      rw [hsolA, hsolB, hAB]
      simp only [eq_comm]
    -- the second run need not have bound `v`, but `v` stands for `t` there as well
    have hvalue : (B.record w u).value v = (B.record w u).canonicalize t := by
      have hmem : (B.record w u).value ∈ (A.record v t).Solutions := hsol ▸ hB'.solvedBy_value
      exact hmem v t (lookup_record_self A v t)
    have hstep : B.solve ((Equations.mirror ((a, b) :: rest)).canonicalize B) =
        (B.record w u).solve ((Equations.replace rest v t).mirror.canonicalize (B.record w u)) := by
      rw [Equations.mirror_replace, Equations.canonicalize_replace hvalue]
      exact hB.solve_bind (hr.canonicalize_ne ha hb hne) ho' hf' (Equations.mirror rest)
    rw [hstep]
    exact ih hA' hB' hsol ((Equations.wellFormed_cons.1 hwf).2.replace (hwf.of_orient ho))
      (canonical_record hcan.tail ht hf)
  | case6 A rest con ts con' us ho hcon hne ih =>
    obtain ⟨rfl, hlen⟩ := hcon
    obtain ⟨ha, hb⟩ := hcan.head
    obtain ⟨r, hr⟩ := hA.exists_sameUpTo hB hAB
    have hne' := hr.canonicalize_ne ha hb hne
    rw [canonicalize_app, canonicalize_app] at hne'
    rw [Equations.canonicalize_mirror_cons, canonicalize_app, canonicalize_app,
      solve_cons_arguments (fun he => hne' (by rw [he])) (by simp [hlen]),
      ← Equations.canonicalize_mirror_zip_append]
    exact ih hA hB hAB hwf.zip_append fun x hx => hcan x (Equations.mem_vars_of_zip_append hx)
  | case7 A rest con ts con' us ho hcon hne =>
    obtain ⟨ha, hb⟩ := hcan.head
    refine hA.mirrored_of_stop hB hAB fun r hr => ?_
    have hclash : con' ≠ con ∨ (us.map (Ty.rename r)).length ≠ (ts.map (Ty.rename r)).length := by
      rw [List.length_map, List.length_map, ne_comm, @ne_comm _ us.length]
      rwa [not_and_or] at hcon
    rw [Equations.canonicalize_mirror_cons, hr.canonicalize_eq ha, hr.canonicalize_eq hb,
      Ty.rename_app, Ty.rename_app, solve_cons_clash hclash, ← Ty.rename_app, ← Ty.rename_app]
    exact ⟨rfl, .impossible _ _⟩
  | case8 A rest a b ho hno hne =>
    obtain ⟨⟨ha, hb⟩, -⟩ := Equations.wellFormed_cons.1 hwf
    obtain ⟨c, ts, d, us, rfl, rfl⟩ := exists_app_of_orient ha hb ho
    exact (hno c ts d us rfl rfl rfl .rfl).elim

theorem Acyclic.unify?_mirror (hA : A.Acyclic)
    (hwf : Equations.WellFormed [(A.canonicalize a, A.canonicalize b)]) :
    ∃ r : Equiv.Perm TyVar, SameUpTo r (A.unify? a b).1 (A.unify? b a).1 ∧
      TypeError.Mirrored r (A.unify? a b).2 (A.unify? b a).2 := by
  have hwf' : Equations.WellFormed [(A.canonicalize b, A.canonicalize a)] := by
    obtain ⟨⟨ha, hb⟩, hnil⟩ := Equations.wellFormed_cons.1 hwf
    exact Equations.wellFormed_cons.2 ⟨⟨hb, ha⟩, hnil⟩
  have hpair : (Equations.mirror [(A.canonicalize a, A.canonicalize b)]).canonicalize A =
      [(A.canonicalize b, A.canonicalize a)] := by
    rw [Equations.canonicalize_mirror_cons, hA.canonicalize_idem, hA.canonicalize_idem]
    rfl
  obtain ⟨hsol, hend⟩ := solve_mirror hA hA rfl hwf (canonical_pair hA a b)
  rw [hpair, ← unify?_of_wellFormed hwf, ← unify?_of_wellFormed hwf'] at hsol hend
  have hacyc : ∀ c d, (A.unify? c d).1.Acyclic := fun c d => (hA.grows_unify? rfl).acyclic hA
  obtain ⟨r, hr⟩ := (hacyc a b).exists_sameUpTo (hacyc b a) hsol
  exact ⟨r, hr, hend r hr⟩

end Aliases

/-- Unification is symmetric, failures included: with its operands exchanged it ends in the same way,
and up to one renaming of the variables every type stands for the same afterwards and the error shows
the same types. The only other way for it to end is to meet an alien, from either side, which takes an
alias to one. -/
theorem Context.unify_symmetric (ctx : Context) (a b : Ty) (hA : ctx.aliases.Acyclic)
    (ha : a.WellFormed) (hb : b.WellFormed) :
    ∃ r : Equiv.Perm TyVar,
      Aliases.SameUpTo r (ctx.unify a b).1.aliases (ctx.unify b a).1.aliases ∧
      (TypeError.Mirrored r (ctx.unify a b).2 (ctx.unify b a).2 ∨
        (∃ x y, (ctx.unify a b).2 = some (.unexpected x) ∧ (ctx.unify b a).2 = some (.unexpected y)) ∧
          ∃ v t, ctx.aliases.lookup v = some t ∧ ¬ t.WellFormed) := by
  show ∃ r, Aliases.SameUpTo r (ctx.aliases.unify? a b).1 (ctx.aliases.unify? b a).1 ∧
    (TypeError.Mirrored r (ctx.aliases.unify? a b).2 (ctx.aliases.unify? b a).2 ∨
      (∃ x y, (ctx.aliases.unify? a b).2 = some (.unexpected x) ∧
        (ctx.aliases.unify? b a).2 = some (.unexpected y)) ∧ _)
  rcases ctx.aliases.unify?_cases a b with ⟨x, hx, hn⟩ | ⟨-, hwf⟩
  · rcases ctx.aliases.unify?_cases b a with ⟨y, hy, -⟩ | ⟨-, hwf⟩
    · rw [hx, hy]
      refine ⟨_, Aliases.sameUpTo_refl _, .inr ⟨⟨x, y, rfl, rfl⟩, ?_⟩⟩
      by_contra hnone
      push Not at hnone
      exact hn ⟨Aliases.wellFormed_canonicalize hA hnone ha, Aliases.wellFormed_canonicalize hA hnone hb⟩
    · exact (hn (Equations.wellFormed_cons.1 hwf).1.symm).elim
  · obtain ⟨r, hsame, hend⟩ := hA.unify?_mirror hwf
    exact ⟨r, hsame, .inl hend⟩

/-- The first pair of arguments binds `t0` from the one side and `t1` from the other; the clash of the
second pair is reported with the variable that is left. -/
theorem Context.unify_symmetric_late_clash :
    (∅ : Aliases).Acyclic ∧
    (Ty.app "P" [.var 0, .app "List" [.var 0]]).WellFormed ∧
    (Ty.app "P" [.var 1, .app "Option" [.var 1]]).WellFormed ∧
    ∃ r : Equiv.Perm TyVar,
      Aliases.SameUpTo r
        (unify ⟨∅, {}⟩ (.app "P" [.var 0, .app "List" [.var 0]])
          (.app "P" [.var 1, .app "Option" [.var 1]])).1.aliases
        (unify ⟨∅, {}⟩ (.app "P" [.var 1, .app "Option" [.var 1]])
          (.app "P" [.var 0, .app "List" [.var 0]])).1.aliases ∧
      TypeError.Mirrored r
        (some (.impossible (.app "List" [.var 1]) (.app "Option" [.var 1])))
        (some (.impossible (.app "Option" [.var 0]) (.app "List" [.var 0]))) := by
  have h₁ : (unify ⟨∅, {}⟩ (.app "P" [.var 0, .app "List" [.var 0]])
      (.app "P" [.var 1, .app "Option" [.var 1]])).2 =
        some (.impossible (.app "List" [.var 1]) (.app "Option" [.var 1])) := by cbv
  have h₂ : (unify ⟨∅, {}⟩ (.app "P" [.var 1, .app "Option" [.var 1]])
      (.app "P" [.var 0, .app "List" [.var 0]])).2 =
        some (.impossible (.app "Option" [.var 0]) (.app "List" [.var 0])) := by cbv
  obtain ⟨r, hsame, hend⟩ := unify_symmetric ⟨∅, {}⟩ (.app "P" [.var 0, .app "List" [.var 0]])
    (.app "P" [.var 1, .app "Option" [.var 1]]) Aliases.acyclic_empty rfl rfl
  rw [h₁, h₂] at hend
  refine ⟨Aliases.acyclic_empty, rfl, rfl, r, hsame, ?_⟩
  rcases hend with hend | ⟨⟨x, y, hx, -⟩, -⟩
  · exact hend
  · cases hx

end LetPoly
