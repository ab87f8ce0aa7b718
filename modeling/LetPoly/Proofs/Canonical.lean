import Mathlib.Data.Finset.Card
import Mathlib.Logic.Relation
import LetPoly.Aliases
import LetPoly.Proofs.Reading

/-!
# Canonical forms

`Aliases.Acyclic`: no variable is reached from itself by following aliases and the variables of
their targets. On such a map every step leads to a variable with fewer aliased variables below it
(`Acyclic.card_below_lt`), so `size` hops follow every alias to its end, and `canonicalize` is the
substitution of the map: it leaves no aliased variable behind, applying it twice changes nothing,
and it solves the aliases as equations. Recording one more alias composes it with the replacement of
one variable (`Acyclic.canonicalize_record`).
-/

namespace LetPoly

namespace Aliases
variable {A : Aliases} {v w x : TyVar} {t u : Ty} {n : Nat}

/-- The alias of `v` mentions `w`. -/
def Step (A : Aliases) (v w : TyVar) : Prop := ∃ t, A.lookup v = some t ∧ w ∈ t.occurrences

/-- No variable is reached from itself. -/
def Acyclic (A : Aliases) : Prop := ∀ v, ¬ Relation.TransGen A.Step v v

/-- `w` is reached from `v`, or is `v`. -/
abbrev Reach (A : Aliases) : TyVar → TyVar → Prop := Relation.ReflTransGen A.Step

theorem not_step_of_lookup (hv : A.lookup v = none) : ¬ A.Step v w := by
  rintro ⟨t, ht, -⟩
  rw [hv] at ht
  cases ht

theorem acyclic_empty : (∅ : Aliases).Acyclic := by
  intro v hv
  obtain ⟨w, hw, -⟩ := Relation.TransGen.head'_iff.1 hv
  exact not_step_of_lookup (lookup_empty v) hw

/-! ### The number of aliased variables below a variable -/

theorem mem_keys : v ∈ A.entries.keys ↔ (A.lookup v).isSome = true := by
  rw [Std.TreeMap.mem_keys, lookup, Std.TreeMap.mem_iff_isSome_getElem?]

open Classical in
/-- The aliased variables that are reached from `v`. -/
noncomputable def below (A : Aliases) (v : TyVar) : Finset TyVar :=
  A.entries.keys.toFinset.filter (A.Reach v)

theorem mem_below : x ∈ A.below v ↔ (A.lookup x).isSome = true ∧ A.Reach v x := by
  simp only [below, Finset.mem_filter, List.mem_toFinset, mem_keys]

theorem card_below_le_size (A : Aliases) (v : TyVar) : (A.below v).card ≤ A.size := by
  have hsub : A.below v ⊆ A.entries.keys.toFinset := fun x hx => by
    rw [List.mem_toFinset, mem_keys]
    exact (mem_below.1 hx).1
  calc (A.below v).card ≤ A.entries.keys.toFinset.card := Finset.card_le_card hsub
    _ ≤ A.entries.keys.length := List.toFinset_card_le _
    _ = A.size := Std.TreeMap.length_keys

theorem lookup_of_card_below (h : (A.below v).card = 0) : A.lookup v = none := by
  have hv : v ∉ A.below v := by simp [Finset.card_eq_zero.1 h]
  rw [mem_below] at hv
  simpa using fun hs => hv ⟨hs, .refl⟩

theorem Acyclic.card_below_lt (hA : A.Acyclic) (h : A.Step v w) :
    (A.below w).card < (A.below v).card := by
  obtain ⟨t, ht, hw⟩ := h
  refine Finset.card_lt_card ⟨fun x hx => ?_, fun hsub => ?_⟩
  · obtain ⟨hx, hr⟩ := mem_below.1 hx
    exact mem_below.2 ⟨hx, .head ⟨t, ht, hw⟩ hr⟩
  · have hv : v ∈ A.below w := hsub (mem_below.2 ⟨by rw [ht]; rfl, .refl⟩)
    exact hA v (.head' ⟨t, ht, hw⟩ (mem_below.1 hv).2)

/-- To prove something of every variable, prove it from the variables its alias mentions. -/
theorem Acyclic.induction {motive : TyVar → Prop} (hA : A.Acyclic)
    (step : ∀ v, (∀ w, A.Step v w → motive w) → motive v) (v : TyVar) : motive v := by
  induction h : (A.below v).card using Nat.strong_induction_on generalizing v with
  | _ n ih => exact step v fun w hw => ih _ (h ▸ hA.card_below_lt hw) w rfl

/-! ### What a variable stands for -/

/-- What `v` stands for. -/
def value (A : Aliases) (v : TyVar) : Ty := A.expand A.size v

theorem canonicalize_eq_subst (A : Aliases) (t : Ty) : A.canonicalize t = t.subst A.value := rfl

theorem canonicalize_var (A : Aliases) (v : TyVar) : A.canonicalize (.var v) = A.value v := rfl

theorem canonicalize_app (A : Aliases) (con : String) (args : List Ty) :
    A.canonicalize (.app con args) = .app con (args.map A.canonicalize) :=
  Ty.subst_app ..

theorem expand_of_none (hv : A.lookup v = none) (n : Nat) : A.expand n v = .var v := by
  cases n with
  | zero => rfl
  | succ n => simp only [expand, hv]

theorem expand_of_some (hv : A.lookup v = some t) (n : Nat) :
    A.expand (n + 1) v = t.subst (A.expand n) := by
  simp only [expand, hv]

/-- One more hop makes no difference once there are as many as aliased variables to pass. -/
theorem Acyclic.expand_stable (hA : A.Acyclic) (h : (A.below v).card ≤ n) :
    A.expand (n + 1) v = A.expand n v := by
  induction n generalizing v with
  | zero =>
    have hv := lookup_of_card_below (Nat.le_zero.1 h)
    rw [expand_of_none hv, expand_of_none hv]
  | succ n ih =>
    cases hv : A.lookup v with
    | none => rw [expand_of_none hv, expand_of_none hv]
    | some t =>
      rw [expand_of_some hv, expand_of_some hv]
      refine Ty.subst_congr fun w hw => ih ?_
      have := hA.card_below_lt ⟨t, hv, hw⟩
      omega

theorem value_of_none (hv : A.lookup v = none) : A.value v = .var v := expand_of_none hv _

theorem Acyclic.value_of_some (hA : A.Acyclic) (hv : A.lookup v = some t) :
    A.value v = A.canonicalize t := by
  have h := hA.expand_stable (A.card_below_le_size v)
  rw [expand_of_some hv] at h
  exact h.symm

theorem Acyclic.value_unique (hA : A.Acyclic) {g : TyVar → Ty}
    (hnone : ∀ v, A.lookup v = none → g v = .var v)
    (hsome : ∀ v t, A.lookup v = some t → g v = t.subst g) : g = A.value := by
  funext v
  induction v using hA.induction with
  | step v ih =>
    cases hv : A.lookup v with
    | none => rw [hnone v hv, value_of_none hv]
    | some t =>
      rw [hsome v t hv, hA.value_of_some hv]
      exact Ty.subst_congr fun w hw => ih w ⟨t, hv, hw⟩

theorem Acyclic.mem_value (hA : A.Acyclic) :
    x ∈ (A.value v).occurrences ↔ A.lookup x = none ∧ A.Reach v x := by
  induction v using hA.induction with
  | step v ih =>
    cases hv : A.lookup v with
    | none =>
      rw [value_of_none hv, Ty.mem_occurrences_var]
      constructor
      · rintro rfl
        exact ⟨hv, .refl⟩
      · rintro ⟨-, hr⟩
        rcases hr.cases_head with rfl | ⟨w, hw, -⟩
        · rfl
        · exact absurd hw (not_step_of_lookup hv)
    | some t =>
      rw [hA.value_of_some hv, canonicalize_eq_subst, Ty.mem_occurrences_subst]
      constructor
      · rintro ⟨w, hw, hx⟩
        obtain ⟨hx, hr⟩ := (ih w ⟨t, hv, hw⟩).1 hx
        exact ⟨hx, .head ⟨t, hv, hw⟩ hr⟩
      · rintro ⟨hx, hr⟩
        rcases hr.cases_head with rfl | ⟨w, hw, hr⟩
        · rw [hv] at hx; cases hx
        · obtain ⟨t', ht', hw'⟩ := hw
          obtain rfl : t' = t := Option.some.inj (ht'.symm.trans hv)
          exact ⟨w, hw', (ih w ⟨t', hv, hw'⟩).2 ⟨hx, hr⟩⟩

theorem Acyclic.forall_mem_value {P : TyVar → Prop} (hA : A.Acyclic)
    (h : ∀ v t, A.lookup v = some t → ∀ w ∈ t.occurrences, P w) (hv : P v) :
    ∀ w ∈ (A.value v).occurrences, P w := by
  induction v using hA.induction with
  | step v ih =>
    intro w hw
    cases hl : A.lookup v with
    | none =>
      rw [value_of_none hl, Ty.mem_occurrences_var] at hw
      rwa [hw]
    | some t =>
      rw [hA.value_of_some hl, canonicalize_eq_subst, Ty.mem_occurrences_subst] at hw
      obtain ⟨u, hu, hw⟩ := hw
      exact ih u ⟨t, hl, hu⟩ (h v t hl u hu) w hw

/-! ### Canonical types -/

/-- None of the variables of `t` has an alias. -/
def Canonical (A : Aliases) (t : Ty) : Prop := ∀ v ∈ t.occurrences, A.lookup v = none

theorem mem_canonicalize :
    x ∈ (A.canonicalize t).occurrences ↔ ∃ v ∈ t.occurrences, x ∈ (A.value v).occurrences :=
  Ty.mem_occurrences_subst

theorem Acyclic.canonical_canonicalize (hA : A.Acyclic) (t : Ty) :
    A.Canonical (A.canonicalize t) := by
  intro x hx
  obtain ⟨v, -, hx⟩ := mem_canonicalize.1 hx
  exact (hA.mem_value.1 hx).1

theorem Canonical.canonicalize_eq (ht : A.Canonical t) : A.canonicalize t = t := by
  rw [canonicalize_eq_subst, Ty.subst_congr (g := .var), Ty.subst_var]
  exact fun v hv => value_of_none (ht v hv)

theorem Acyclic.canonicalize_idem (hA : A.Acyclic) (t : Ty) :
    A.canonicalize (A.canonicalize t) = A.canonicalize t :=
  (hA.canonical_canonicalize t).canonicalize_eq

/-! ### Recording an alias -/

theorem step_record (hv : A.lookup v = none) :
    (A.record v u).Step w x ↔ A.Step w x ∨ (w = v ∧ x ∈ u.occurrences) := by
  simp only [Step, lookup_record]
  split
  · subst w
    simp [hv]
  · rename_i hne
    simp [Ne.symm hne]

/-- A new cycle would lead from a variable of the target back to `v`. -/
theorem Acyclic.record (hA : A.Acyclic) (hv : A.lookup v = none)
    (hu : v ∉ (A.canonicalize u).occurrences) : (A.record v u).Acyclic := by
  have hback : ∀ w ∈ u.occurrences, ¬ A.Reach w v := fun w hw hr =>
    hu (mem_canonicalize.2 ⟨w, hw, hA.mem_value.2 ⟨hv, hr⟩⟩)
  -- a path is an old one, or passes through the new alias once
  have hpath : ∀ {w x}, Relation.TransGen (A.record v u).Step w x →
      Relation.TransGen A.Step w x ∨ (A.Reach w v ∧ ∃ y ∈ u.occurrences, A.Reach y x) := by
    intro w x h
    induction h with
    | single h =>
      rcases (step_record hv).1 h with h | ⟨rfl, hx⟩
      · exact .inl (.single h)
      · exact .inr ⟨.refl, _, hx, .refl⟩
    | tail _ h ih =>
      rcases (step_record hv).1 h with h | ⟨rfl, hx⟩
      · rcases ih with ih | ⟨hr, y, hy, hyx⟩
        · exact .inl (ih.tail h)
        · exact .inr ⟨hr, y, hy, hyx.tail h⟩
      · rcases ih with ih | ⟨-, y, hy, hyv⟩
        · exact .inr ⟨ih.to_reflTransGen, _, hx, .refl⟩
        · exact absurd hyv (hback y hy)
  intro w hw
  rcases hpath hw with h | ⟨hr, y, hy, hyw⟩
  · exact hA w h
  · exact hback y hy (hyw.trans hr)

theorem Acyclic.value_record (hA : A.Acyclic) (hv : A.lookup v = none)
    (hu : v ∉ (A.canonicalize u).occurrences) :
    (A.record v u).value = fun w => (A.value w).replace v (A.canonicalize u) := by
  refine ((hA.record hv hu).value_unique ?_ ?_).symm
  · intro w hw
    rw [lookup_record] at hw
    split at hw
    · cases hw
    · rename_i hne
      rw [value_of_none hw]
      exact if_neg (Ne.symm hne)
  · intro w t hw
    rw [lookup_record] at hw
    split at hw
    · subst w
      obtain rfl : u = t := Option.some.inj hw
      rw [value_of_none hv]
      calc (Ty.var v).replace v (A.canonicalize u) = A.canonicalize u := if_pos rfl
        _ = (A.canonicalize u).replace v (A.canonicalize u) := (Ty.replace_of_not_mem hu).symm
        _ = _ := Ty.replace_subst _ u v _
    · rw [hA.value_of_some hw]
      exact Ty.replace_subst _ t v _

theorem Acyclic.canonicalize_record (hA : A.Acyclic) (hv : A.lookup v = none)
    (hu : v ∉ (A.canonicalize u).occurrences) (t : Ty) :
    (A.record v u).canonicalize t = (A.canonicalize t).replace v (A.canonicalize u) := by
  rw [canonicalize_eq_subst, hA.value_record hv hu]
  exact (Ty.replace_subst _ t v _).symm

/-! ### Solutions -/

/-- The aliases hold as equations. -/
def SolvedBy {D : Type} (A : Aliases) (R : Reading D) : Prop :=
  ∀ v t, A.lookup v = some t → R.read (.var v) = R.read t

/-- A solution does not tell a type from its canonical form. -/
theorem SolvedBy.read_canonicalize {D : Type} {R : Reading D} (h : A.SolvedBy R) (t : Ty) :
    R.read (A.canonicalize t) = R.read t := by
  have hexpand : ∀ n v, R.read (A.expand n v) = R.read (.var v) := by
    intro n
    induction n with
    | zero => exact fun v => rfl
    | succ n ih =>
      intro v
      cases hv : A.lookup v with
      | none => rw [expand_of_none hv]
      | some t =>
        rw [expand_of_some hv, h v t hv]
        exact Reading.read_subst fun w _ => ih w
  exact Reading.read_subst fun v _ => hexpand A.size v

theorem Acyclic.solvedBy_value (hA : A.Acyclic) : A.SolvedBy (.ofSubst A.value) :=
  fun _ _ hv => hA.value_of_some hv

theorem solvedBy_empty {D : Type} (R : Reading D) : (∅ : Aliases).SolvedBy R := by
  intro v t hv
  rw [lookup_empty] at hv
  cases hv

theorem solvedBy_record {D : Type} {R : Reading D} (hv : A.lookup v = none) :
    (A.record v u).SolvedBy R ↔ A.SolvedBy R ∧ R.read (.var v) = R.read u := by
  constructor
  · intro h
    refine ⟨fun w t hw => h w t ?_, h v u (lookup_record_self A v u)⟩
    have hne : v ≠ w := by
      rintro rfl
      rw [hv] at hw
      cases hw
    rw [lookup_record, if_neg hne, hw]
  · rintro ⟨h, hvu⟩ w t hw
    rw [lookup_record] at hw
    split at hw
    · subst w
      obtain rfl : u = t := Option.some.inj hw
      exact hvu
    · exact h w t hw

end Aliases

end LetPoly
