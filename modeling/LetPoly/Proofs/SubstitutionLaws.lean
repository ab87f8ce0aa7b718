import LetPoly.Proofs.Reading

/-!
# The laws of substitution

Whether a variable occurs in a type, which variables it has, putting a type in place of one variable and
applying a finite substitution are four traversals, each with its own way to stop early or to leave
something alone. They fit together (`Ty.substitution_coherent`).

Both kinds of replacing are cases of `Ty.subst`, so their laws come from three facts about it: which
variables the result has, that only the values at these variables count, and that one substitution after
another is a substitution. What is left is to say what a finite substitution puts in place of a variable.
-/

namespace LetPoly

namespace Subst
variable {m m' m'' : Subst} {v : TyVar} {u : Ty}

theorem apply_of_some (h : m.lookup v = some u) : m.apply v = u := by
  rw [apply, h, Option.getD_some]

theorem apply_of_none (h : m.lookup v = none) : m.apply v = .var v := by
  rw [apply, h, Option.getD_none]

theorem apply_congr (h : m.lookup v = m'.lookup v) : m.apply v = m'.apply v := by
  rw [apply, apply, h]

/-- `m''` does what `m` and then `m'` do: it has the entries of `m`, with `m'` applied to them, and the
entries of `m'` for the other variables. -/
def Composes (m m' m'' : Subst) : Prop :=
  ∀ w, m''.lookup w = ((m.lookup w).map (·.substitute m')).or (m'.lookup w)

/-- First `m`, then `m'`. -/
def andThen (m m' : Subst) : Subst := m.map (fun e => (e.1, e.2.substitute m')) ++ m'

theorem composes_andThen (m m' : Subst) : m.Composes m' (m.andThen m') := by
  intro w
  rw [andThen, List.lookup_append]
  congr 1
  induction m with
  | nil => rfl
  | cons e m ih =>
    rw [List.map_cons, List.lookup_cons, List.lookup_cons, ih]
    cases w == e.1 <;> rfl

theorem Composes.apply_eq (h : Composes m m' m'') (w : TyVar) :
    m''.apply w = (m.apply w).subst m'.apply := by
  have hw := h w
  cases hm : m.lookup w with
  | some u =>
    rw [hm, Option.map_some, Option.some_or] at hw
    rw [apply_of_some hm, apply_of_some hw, Ty.substitute_eq_subst]
  | none =>
    rw [hm, Option.map_none, Option.none_or] at hw
    rw [apply_of_none hm, Ty.subst, apply_congr hw]

end Subst

namespace Ty
variable {t u : Ty} {v x : TyVar} {m m' m'' : Subst}

theorem occurs_iff_mem_vars : t.occurs v = true ↔ v ∈ t.vars :=
  occurs_iff_mem_occurrences.trans mem_vars.symm

/-! ### Results -/

theorem WellFormed.replace?_eq (ht : t.WellFormed) (v : TyVar) (u : Ty) :
    t.replace? v u = .ok (t.replace v u) := by
  rw [replace?, checked_eq_ok.2 ⟨ht, rfl⟩]
  rfl

theorem WellFormed.substitute?_eq (ht : t.WellFormed) (m : Subst) :
    t.substitute? m = .ok (t.substitute m) := by
  unfold substitute?
  split
  · rename_i hm
    rw [substitute.eq_def, if_pos hm]
  · rw [checked_eq_ok.2 ⟨ht, rfl⟩]
    rfl

theorem WellFormed.substitute (ht : t.WellFormed) (hm : ∀ w s, m.lookup w = some s → s.WellFormed) :
    (t.substitute m).WellFormed := by
  rw [substitute_eq_subst]
  refine wellFormed_subst_iff.2 ⟨ht, fun w _ => ?_⟩
  cases hw : m.lookup w with
  | some s =>
    rw [Subst.apply_of_some hw]
    exact hm w s hw
  | none =>
    rw [Subst.apply_of_none hw]
    exact wellFormed_var w

/-! ### Laws -/

theorem replace_eq_substitute (t : Ty) (v : TyVar) (u : Ty) :
    t.replace v u = t.substitute [(v, u)] := by
  rw [replace_eq_subst, substitute_eq_subst]
  refine subst_congr fun w _ => ?_
  by_cases hw : w = v
  · subst hw
    rw [if_pos rfl, Subst.apply_of_some List.lookup_cons_self]
  · rw [if_neg hw, Subst.apply_of_none]
    rw [List.lookup_cons, beq_false_of_ne hw]
    rfl

theorem replace_of_not_occurs (h : t.occurs v = false) : t.replace v u = t := by
  refine replace_of_not_mem fun hv => ?_
  rw [occurs_iff_mem_occurrences.2 hv] at h
  cases h

/-- The variables of a result come from the types that were put in, or were left where they were. -/
theorem mem_vars_substitute : x ∈ (t.substitute m).vars ↔
    (∃ w ∈ t.vars, ∃ s, m.lookup w = some s ∧ x ∈ s.vars) ∨ (x ∈ t.vars ∧ m.lookup x = none) := by
  simp only [mem_vars, substitute_eq_subst, mem_occurrences_subst]
  constructor
  · rintro ⟨w, hw, hx⟩
    cases hm : m.lookup w with
    | some s =>
      rw [Subst.apply_of_some hm] at hx
      exact .inl ⟨w, hw, s, hm, hx⟩
    | none =>
      rw [Subst.apply_of_none hm, mem_occurrences_var] at hx
      subst hx
      exact .inr ⟨hw, hm⟩
  · rintro (⟨w, hw, s, hm, hx⟩ | ⟨hx, hm⟩)
    · exact ⟨w, hw, by rwa [Subst.apply_of_some hm]⟩
    · exact ⟨x, hx, by rw [Subst.apply_of_none hm, mem_occurrences_var]⟩

theorem substitute_congr (h : ∀ w ∈ t.vars, m.lookup w = m'.lookup w) :
    t.substitute m = t.substitute m' := by
  rw [substitute_eq_subst, substitute_eq_subst]
  exact subst_congr fun w hw => Subst.apply_congr (h w (mem_vars.2 hw))

theorem substitute_substitute (h : Subst.Composes m m' m'') (t : Ty) :
    (t.substitute m).substitute m' = t.substitute m'' := by
  rw [substitute_eq_subst, substitute_eq_subst, substitute_eq_subst, subst_subst]
  exact subst_congr fun w _ => (h.apply_eq w).symm

/-- On a well-formed type replacing and substituting always give a result, and so does substituting once
more if well-formed types were put in. Occurring is being one of the variables. Replacing one variable
is substituting with a single entry, and changes nothing if the variable does not occur. The variables
of a result are those of the types put in and those without an entry, only entries for variables of the
type count, and one substitution after another is their composition. -/
theorem substitution_coherent (t u : Ty) (v : TyVar) (m m' : Subst) (ht : t.WellFormed) :
    t.replace? v u = .ok (t.replace v u) ∧
    t.substitute? m = .ok (t.substitute m) ∧
    ((∀ w s, m.lookup w = some s → s.WellFormed) →
      (t.substitute m).substitute? m' = .ok ((t.substitute m).substitute m')) ∧
    (t.occurs v = true ↔ v ∈ t.vars) ∧
    t.replace v u = t.substitute [(v, u)] ∧
    (t.occurs v = false → t.replace v u = t) ∧
    (∀ x, x ∈ (t.substitute m).vars ↔
      (∃ w ∈ t.vars, ∃ s, m.lookup w = some s ∧ x ∈ s.vars) ∨ (x ∈ t.vars ∧ m.lookup x = none)) ∧
    ((∀ w ∈ t.vars, m.lookup w = m'.lookup w) → t.substitute m = t.substitute m') ∧
    (∃ m'', m.Composes m' m'') ∧
    ∀ m'', m.Composes m' m'' → (t.substitute m).substitute m' = t.substitute m'' :=
  ⟨ht.replace?_eq v u, ht.substitute?_eq m, fun hm => (ht.substitute hm).substitute?_eq m',
    occurs_iff_mem_vars, t.replace_eq_substitute v u, replace_of_not_occurs,
    fun _ => mem_vars_substitute, substitute_congr, ⟨_, m.composes_andThen m'⟩,
    fun _ h => substitute_substitute h t⟩

/-- Two variables exchange their places, and then one of them is replaced: the second substitution meets
what the first one put in, not what was there before. -/
theorem substitution_coherent_exchanged :
    ((Ty.arrow (.var 1) (.var 2)).substitute [(1, .var 2), (2, .var 1)]).substitute?
      [(1, .const "Int")] = .ok (.arrow (.var 2) (.const "Int")) ∧
    Subst.andThen [(1, .var 2), (2, .var 1)] [(1, .const "Int")] =
      [(1, .var 2), (2, .const "Int"), (1, .const "Int")] ∧
    (Ty.arrow (.var 1) (.var 2)).substitute [(1, .var 2), (2, .const "Int"), (1, .const "Int")] =
      .arrow (.var 2) (.const "Int") := by
  have hm : ∀ w s, List.lookup w ([(1, .var 2), (2, .var 1)] : Subst) = some s → s.WellFormed := by
    intro w s hs
    obtain ⟨l₁, l₂, hl, -⟩ := List.lookup_eq_some_iff.1 hs
    have hmem : (w, s) ∈ ([(1, .var 2), (2, .var 1)] : Subst) := by
      rw [hl]
      simp
    rcases List.mem_cons.1 hmem with he | hmem
    · cases he
      rfl
    · cases List.mem_singleton.1 hmem
      rfl
  obtain ⟨-, -, htwice, -, -, -, -, -, -, hcompose⟩ := substitution_coherent
    (.arrow (.var 1) (.var 2)) (.const "Int") 1 [(1, .var 2), (2, .var 1)] [(1, .const "Int")] rfl
  refine ⟨?_, rfl, rfl⟩
  rw [htwice hm, hcompose _ (Subst.composes_andThen _ _)]
  rfl

end Ty

end LetPoly
