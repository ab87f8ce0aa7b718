import Mathlib.Algebra.Group.Int.Defs
import LetPoly.Env
import LetPoly.Proofs.Reading

/-!
# Environments and their bindings

What an environment keeps beside its bindings, in terms of them: `free` has the free variables of
every binding, shadowed ones included, and `next` is above every variable that a binding mentions,
provided none of these is the greatest number there is.
-/

namespace LetPoly

theorem Scheme.mem_free {s : Scheme} {v : TyVar} :
    v ∈ s.free ↔ v ∈ s.body.occurrences ∧ v ∉ s.vars := by
  rw [free, VarSet.mem_sdiff, Ty.mem_vars]

theorem Scheme.mem_vars_generalize {t : Ty} {F : VarSet} {v : TyVar} :
    v ∈ (generalize t F).vars ↔ v ∈ t.occurrences ∧ v ∉ F := by
  rw [generalize, VarSet.mem_sdiff, Ty.mem_vars]

theorem Scheme.mem_free_generalize {t : Ty} {F : VarSet} {v : TyVar} :
    v ∈ (generalize t F).free ↔ v ∈ t.occurrences ∧ v ∈ F := by
  rw [mem_free, mem_vars_generalize]
  constructor
  · rintro ⟨hv, hvars⟩
    exact ⟨hv, Decidable.byContradiction fun hF => hvars ⟨hv, hF⟩⟩
  · rintro ⟨hv, hF⟩
    exact ⟨hv, fun h => h.2 hF⟩

/-- If no variable is kept from being quantified, all are. -/
theorem Scheme.generalize_eq {t : Ty} {F : VarSet} (h : ∀ v ∈ t.occurrences, v ∉ F) :
    generalize t F = generalize t ∅ := by
  have hvars : t.vars \ F = t.vars \ ∅ := by
    ext v
    rw [VarSet.mem_sdiff, VarSet.mem_sdiff, Ty.mem_vars]
    exact and_congr_right fun hv => iff_of_true (h v hv) (VarSet.not_mem_empty v)
  rw [generalize, generalize, hvars]

theorem Scheme.free_generalize_empty (t : Ty) : (generalize t ∅).free = ∅ := by
  ext v
  rw [mem_free_generalize]
  exact and_iff_right_of_imp fun h => absurd h (VarSet.not_mem_empty v)

/-- `v` is quantified by the scheme or occurs in its body. -/
def Scheme.Mentions (s : Scheme) (v : TyVar) : Prop := v ∈ s.vars ∨ v ∈ s.body.occurrences

namespace Env
variable {env : Env} {x y : String} {s : Scheme} {v : TyVar} {bs : List Binding}

theorem lookup_extend_self (env : Env) (x : String) (s : Scheme) :
    (env.extend x s).lookup x = some s := by
  simp [extend, lookup_eq]

theorem lookup_extend_of_ne (h : y ≠ x) : (env.extend x s).lookup y = env.lookup y := by
  rw [lookup_eq, lookup_eq]
  unfold extend
  rw [List.find?_cons_of_neg]
  simpa using Ne.symm h

theorem forall_lookup_extend {P : String → Scheme → Prop} (hx : P x s)
    (h : ∀ y s', y ≠ x → env.lookup y = some s' → P y s') (y : String) (s' : Scheme)
    (hy : (env.extend x s).lookup y = some s') : P y s' := by
  by_cases hxy : y = x
  · subst hxy
    rw [lookup_extend_self] at hy
    obtain rfl := Option.some.inj hy
    exact hx
  · rw [lookup_extend_of_ne hxy] at hy
    exact h y s' hxy hy

theorem exists_binding (h : env.lookup x = some s) : ∃ b ∈ env.recent, b.scheme = s := by
  rw [lookup_eq] at h
  obtain ⟨b, hb, rfl⟩ := Option.map_eq_some_iff.1 h
  exact ⟨b, List.mem_of_find?_eq_some hb, rfl⟩

theorem recent_extend (env : Env) (x : String) (s : Scheme) :
    (env.extend x s).recent = ⟨x, s⟩ :: env.recent := rfl

theorem bindings_extend (env : Env) (x : String) (s : Scheme) :
    (env.extend x s).bindings = env.bindings ++ [⟨x, s⟩] := List.reverse_cons

theorem lookup_of_bindings {bs bs' : List Binding} {b : Binding} (h : env.bindings = bs ++ b :: bs')
    (hb : ∀ b' ∈ bs', b'.name ≠ b.name) : env.lookup b.name = some b.scheme := by
  have hrecent : env.recent = bs'.reverse ++ b :: bs.reverse := by
    rw [← List.reverse_reverse env.recent]
    change env.bindings.reverse = _
    simp [h]
  have hnone : bs'.reverse.find? (·.name == b.name) = none := by
    simpa using hb
  rw [lookup_eq, hrecent, List.find?_append, hnone]
  simp

theorem lookup_eq_none (h : ∀ b ∈ env.bindings, b.name ≠ x) : env.lookup x = none := by
  have hnone : env.recent.find? (·.name == x) = none := by
    simpa [bindings] using h
  rw [lookup_eq, hnone]
  rfl

theorem mem_free_extend : v ∈ (env.extend x s).free ↔ v ∈ env.free ∨ v ∈ s.free := VarSet.mem_union

/-- What holds of the empty environment and is kept by the bindings of a list holds of the
environment of the list. -/
theorem ofBindings_induction {motive : Env → Prop} (bs : List Binding) (nil : motive ∅)
    (extend : ∀ env, ∀ b ∈ bs, motive env → motive (env.extend b.name b.scheme)) :
    motive (ofBindings bs) := by
  have hfold : ∀ (l : List Binding) (env : Env), (∀ b ∈ l, b ∈ bs) → motive env →
      motive (l.foldl (fun env b => env.extend b.name b.scheme) env) := by
    intro l
    induction l with
    | nil => exact fun env _ h => h
    | cons b l ih =>
      intro env hl h
      exact ih _ (fun b' hb' => hl b' (List.mem_cons_of_mem _ hb'))
        (extend env b (hl b List.mem_cons_self) h)
  exact hfold bs ∅ (fun _ h => h) nil

theorem mem_of_mem_recent {b : Binding} (h : b ∈ (ofBindings bs).recent) : b ∈ bs := by
  refine ofBindings_induction (motive := fun env => ∀ b ∈ env.recent, b ∈ bs) bs ?_ ?_ b h
  · intro b hb
    cases hb
  · intro env b hb ih b' hb'
    rcases List.mem_cons.1 hb' with rfl | hb'
    · exact hb
    · exact ih b' hb'

theorem mem_free_ofBindings :
    v ∈ (ofBindings bs).free ↔ ∃ b ∈ (ofBindings bs).recent, v ∈ b.scheme.free := by
  refine ofBindings_induction
    (motive := fun env => v ∈ env.free ↔ ∃ b ∈ env.recent, v ∈ b.scheme.free) bs ?_ ?_
  · exact ⟨fun h => absurd h (VarSet.not_mem_empty v), fun ⟨b, hb, _⟩ => nomatch hb⟩
  · intro env b _ ih
    rw [mem_free_extend, ih, recent_extend]
    simp [or_comm]

/-! ### The next variable -/

theorem toInt_next (h : v.toInt < 2 ^ 63 - 1) : v.next.toInt = v.toInt + 1 := by
  have hlow := v.le_toInt
  show (v + 1).toInt = _
  rw [Int64.toInt_add]
  exact Int.bmod_eq_of_le (by simp; omega) (by simp; omega)

theorem le_foldl_skip (vs : List TyVar) (n : TyVar) (hvs : ∀ v ∈ vs, v.toInt < 2 ^ 63 - 1) :
    n.toInt ≤ (vs.foldl skip n).toInt ∧ ∀ v ∈ vs, v.toInt < (vs.foldl skip n).toInt := by
  induction vs generalizing n with
  | nil => exact ⟨Int.le_refl _, fun v hv => absurd hv List.not_mem_nil⟩
  | cons w vs ih =>
    obtain ⟨hn, hlt⟩ := ih (skip n w) fun v hv => hvs v (List.mem_cons_of_mem _ hv)
    have hskip : n.toInt ≤ (skip n w).toInt ∧ w.toInt < (skip n w).toInt := by
      have hnext := toInt_next (hvs w List.mem_cons_self)
      unfold skip
      split
      · rename_i hle
        rw [Int64.le_iff_toInt_le] at hle
        omega
      · rename_i hle
        rw [Int64.le_iff_toInt_le] at hle
        omega
    rw [List.foldl_cons]
    refine ⟨by omega, fun v hv => ?_⟩
    rcases List.mem_cons.1 hv with rfl | hv
    · omega
    · exact hlt v hv

theorem foldl_skip_le {m : Int} (vs : List TyVar) (n : TyVar) (hm : m < 2 ^ 63) (hn : n.toInt ≤ m)
    (hvs : ∀ v ∈ vs, v.toInt < m) : (vs.foldl skip n).toInt ≤ m := by
  induction vs generalizing n with
  | nil => exact hn
  | cons w vs ih =>
    refine ih (skip n w) ?_ fun v hv => hvs v (List.mem_cons_of_mem _ hv)
    have hw := hvs w List.mem_cons_self
    have hnext := toInt_next (v := w) (by omega)
    unfold skip
    split <;> omega

theorem mem_union_iff_mentions : v ∈ (s.body.vars ∪ s.vars).toList ↔ s.Mentions v := by
  rw [← VarSet.mem_def, VarSet.mem_union, Ty.mem_vars]
  exact or_comm

theorem le_next_extend (h : ∀ v, s.Mentions v → v.toInt < 2 ^ 63 - 1) :
    env.next.toInt ≤ (env.extend x s).next.toInt ∧
      ∀ v, s.Mentions v → v.toInt < (env.extend x s).next.toInt := by
  obtain ⟨hn, hlt⟩ := le_foldl_skip (s.body.vars ∪ s.vars).toList env.next
    fun w hw => h w (mem_union_iff_mentions.1 hw)
  exact ⟨hn, fun v hv => hlt v (mem_union_iff_mentions.2 hv)⟩

theorem next_extend_le {m : Int} (hm : m < 2 ^ 63) (hn : env.next.toInt ≤ m)
    (h : ∀ v, s.Mentions v → v.toInt < m) : (env.extend x s).next.toInt ≤ m :=
  foldl_skip_le _ _ hm hn fun v hv => h v (mem_union_iff_mentions.1 hv)

theorem lt_next_ofBindings (h : ∀ b ∈ bs, ∀ v, b.scheme.Mentions v → v.toInt < 2 ^ 63 - 1) :
    ∀ b ∈ (ofBindings bs).recent, ∀ v, b.scheme.Mentions v →
      v.toInt < (ofBindings bs).next.toInt := by
  refine ofBindings_induction (motive := fun env =>
    ∀ b ∈ env.recent, ∀ v, b.scheme.Mentions v → v.toInt < env.next.toInt) bs ?_ ?_
  · intro b hb
    cases hb
  · intro env b hb ih b' hb' v hv
    obtain ⟨hn, hlt⟩ := le_next_extend (h b hb)
    rcases List.mem_cons.1 hb' with rfl | hb'
    · exact hlt v hv
    · exact Int.lt_of_lt_of_le (ih b' hb' v hv) hn

end Env

end LetPoly
