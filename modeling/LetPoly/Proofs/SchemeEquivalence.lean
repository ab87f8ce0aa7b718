import Mathlib.Data.Fintype.Sum
import LetPoly.Proofs.Monotonicity

/-!
# What equivalence of schemes means

The walk over two bodies pairs only the quantified variables that it meets, and of the others it takes
into account how many there are. So much is enough for a bijection between all quantified variables under
which the bodies are the same (`Scheme.AlphaBy`): the pairs that were met extend to one because the sets
are of the same size.

The same can be said of what schemes are for. Equivalent schemes have the same instances, and schemes with
the same instances, and equally many quantified variables, are equivalent
(`equivalent_iff_same_instances`). Each body is an instance of the other scheme, so the substitutions that
show this undo each other and can only rename; that they leave the free variables alone on both sides is
seen from an instance in which no other variables are left.
-/

namespace LetPoly

/-- A one-to-one relation between sets of the same size is part of a bijection. -/
theorem VarSet.exists_bijOn {a b : VarSet} {γ : TyVar → TyVar → Prop} (hγ : Relator.BiUnique γ)
    (hsize : a.size = b.size) :
    ∃ r, Set.BijOn r {v | v ∈ a} {w | w ∈ b} ∧ ∀ v ∈ a, ∀ w ∈ b, γ v w → r v = w := by
  have hcard : Fintype.card a.toList.toFinset = b.toList.toFinset.card := by
    rw [Fintype.card_coe, List.toFinset_card_of_nodup a.nodup, List.toFinset_card_of_nodup b.nodup]
    exact hsize
  choose! f hf using fun v (hv : ∃ w ∈ b, γ v w) => hv
  have hmaps : Set.MapsTo (fun v : a.toList.toFinset => f v) {v | ∃ w ∈ b, γ v w}
      b.toList.toFinset := fun v hv => List.mem_toFinset.2 (hf v hv).1
  have hinj : Set.InjOn (fun v : a.toList.toFinset => f v) {v | ∃ w ∈ b, γ v w} :=
    fun v hv w hw (he : f v = f w) => Subtype.ext (hγ.1 (hf v hv).2 (he ▸ (hf w hw).2))
  obtain ⟨e, he⟩ := hmaps.exists_equiv_extend_of_card_eq hcard hinj
  let r (v : TyVar) : TyVar := if hv : v ∈ a.toList.toFinset then e ⟨v, hv⟩ else v
  have hr : ∀ v (hv : v ∈ a), r v = e ⟨v, List.mem_toFinset.2 hv⟩ :=
    fun v hv => dif_pos (List.mem_toFinset.2 hv)
  refine ⟨r, ⟨fun v hv => ?_, fun v hv w hw h => ?_, fun w hw => ?_⟩, fun v hv w hw h => ?_⟩
  · rw [hr v hv]
    exact List.mem_toFinset.1 (e _).2
  · rw [hr v hv, hr w hw] at h
    exact congrArg Subtype.val (e.injective (Subtype.ext h))
  · have hv := List.mem_toFinset.1 (e.symm ⟨w, List.mem_toFinset.2 hw⟩).2
    refine ⟨_, hv, ?_⟩
    rw [hr _ hv, Subtype.coe_eta, e.apply_symm_apply]
  · have hv' : ∃ w ∈ b, γ v w := ⟨w, hw, h⟩
    rw [hr v hv, he _ hv']
    exact hγ.2 (hf v hv').2 h

namespace Scheme
variable {a b c s : Scheme} {q r : TyVar → TyVar} {t : Ty} {v : TyVar}

/-! ### Renaming quantified variables -/

/-- `r` takes the quantified variables of `a` one-to-one onto those of `b`, and the bodies are one tree:
where a variable of `a` stands, there is the one that `r` takes it to if it is quantified, and the same one,
quantified on neither side, if it is not. -/
structure AlphaBy (r : TyVar → TyVar) (a b : Scheme) : Prop where
  bijOn : Set.BijOn r {v | v ∈ a.vars} {w | w ∈ b.vars}
  body : a.body.Corresponds
    (fun v w => v ∈ a.vars ∧ w ∈ b.vars ∧ r v = w ∨ v ∉ a.vars ∧ w ∉ b.vars ∧ v = w) b.body

namespace AlphaBy

theorem refl (hs : s.body.WellFormed) : AlphaBy id s s where
  bijOn := Set.bijOn_id _
  body := .refl hs fun v _ => by by_cases hv : v ∈ s.vars <;> simp [hv]

theorem symm (h : AlphaBy r a b) : ∃ q, AlphaBy q b a := by
  have hinv := h.bijOn.invOn_invFunOn
  refine ⟨_, h.bijOn.symm hinv.symm, h.body.swap.imp ?_⟩
  rintro w - v - (⟨hv, hw, rfl⟩ | ⟨hv, hw, rfl⟩)
  · exact .inl ⟨hw, hv, hinv.1 hv⟩
  · exact .inr ⟨hw, hv, rfl⟩

theorem trans (h : AlphaBy r a b) (h' : AlphaBy q b c) : AlphaBy (q ∘ r) a c := by
  refine ⟨h'.bijOn.comp h.bijOn, (h.body.trans h'.body).imp ?_⟩
  rintro v - x - ⟨w, ⟨hv, hw, rfl⟩ | ⟨hv, hw, rfl⟩, ⟨hw', hx, rfl⟩ | ⟨hw', hx, rfl⟩⟩
  · exact .inl ⟨hv, hx, rfl⟩
  · exact absurd hw hw'
  · exact absurd hw' hw
  · exact .inr ⟨hv, hx, rfl⟩

theorem size_eq (h : AlphaBy r a b) : a.vars.size = b.vars.size := by
  have hvars : b.vars = a.vars.map r := by
    ext w
    rw [VarSet.mem_map]
    exact ⟨fun hw => h.bijOn.surjOn hw, fun ⟨v, hv, he⟩ => he ▸ h.bijOn.mapsTo hv⟩
  rw [hvars, VarSet.size_map h.bijOn.injOn]

end AlphaBy

theorem equivalent_iff_alphaBy : a.equivalent b = true ↔ ∃ r, AlphaBy r a b := by
  rw [equivalent_iff]
  constructor
  · rintro ⟨hsize, γ, hγ, hbody⟩
    obtain ⟨r, hr, hext⟩ := VarSet.exists_bijOn hγ hsize
    refine ⟨r, hr, hbody.imp fun v _ w _ => Or.imp_left ?_⟩
    exact fun ⟨hv, hw, hvw⟩ => ⟨hv, hw, hext v hv w hw hvw⟩
  · rintro ⟨r, h⟩
    refine ⟨h.size_eq, fun v w => v ∈ a.vars ∧ r v = w, ⟨?_, ?_⟩, h.body.imp fun v _ w _ => ?_⟩
    · rintro v v' _ ⟨hv, rfl⟩ ⟨hv', he⟩
      exact h.bijOn.injOn hv hv' he.symm
    · rintro v _ _ ⟨-, rfl⟩ ⟨-, rfl⟩
      rfl
    · exact Or.imp_left fun ⟨hv, hw, hvw⟩ => ⟨hv, hw, hv, hvw⟩

/-- Schemes are found equivalent exactly if a bijection between their quantified variables takes the one
to the other, and this is an equivalence relation on schemes with well-formed bodies. -/
theorem equivalent_decides_alpha :
    (∀ a b : Scheme, a.equivalent b = true ↔ ∃ r, AlphaBy r a b) ∧
    Equivalence fun a b : { s : Scheme // s.body.WellFormed } => a.1.equivalent b.1 = true := by
  refine ⟨fun a b => equivalent_iff_alphaBy, fun a => ?_, fun {a b} h => ?_, fun {a b c} h h' => ?_⟩
  · exact equivalent_iff_alphaBy.2 ⟨id, .refl a.2⟩
  · obtain ⟨r, hr⟩ := equivalent_iff_alphaBy.1 h
    exact equivalent_iff_alphaBy.2 hr.symm
  · obtain ⟨r, hr⟩ := equivalent_iff_alphaBy.1 h
    obtain ⟨q, hq⟩ := equivalent_iff_alphaBy.1 h'
    exact equivalent_iff_alphaBy.2 ⟨q ∘ r, hr.trans hq⟩

-- quantified variables that do not occur count, but only by their number
example : (forAll [1, 3] (.arrow (.var 1) (.var 2))).equivalent
      (forAll [4, 1] (.arrow (.var 4) (.var 2))) = true ∧
    (forAll [1, 3] (.arrow (.var 1) (.var 2))).equivalent
      (forAll [4] (.arrow (.var 4) (.var 2))) = false := by decide

/-! ### Same instances -/

theorem AlphaBy.hasInstance (h : AlphaBy r a b) (ht : a.HasInstance t) : b.HasInstance t := by
  obtain ⟨q, hq⟩ := h.symm
  obtain ⟨f, hf, rfl⟩ := hasInstance_iff.1 ht
  refine hasInstance_iff.2 ⟨fun w => if w ∈ b.vars then f (q w) else .var w, fun w hw => if_neg hw, ?_⟩
  refine (hq.body.subst_eq ?_).symm
  rintro w v (⟨hw, hv, rfl⟩ | ⟨hw, hv, rfl⟩)
  · exact if_pos hw
  · rw [if_neg hw, hf w hv]

theorem AlphaBy.same_instances (h : AlphaBy r a b) : a.HasInstance t ↔ b.HasInstance t := by
  obtain ⟨q, hq⟩ := h.symm
  exact ⟨h.hasInstance, hq.hasInstance⟩

theorem mem_free_of_instances (hb : b.body.WellFormed)
    (h : ∀ t : Ty, t.WellFormed → b.HasInstance t → a.HasInstance t) (hv : v ∈ a.free) :
    v ∈ b.free := by
  obtain ⟨t, ht, hwf, hfree⟩ := b.exists_instance_free
  exact hfree v ((h t (hwf hb) ht).mem_occurrences hv)

theorem corresponds_of_instances (ha : a.body.WellFormed) (hb : b.body.WellFormed)
    (h : ∀ t : Ty, t.WellFormed → (a.HasInstance t ↔ b.HasInstance t)) : a.Corresponds Eq b := by
  have hfree : ∀ v, v ∈ a.free ↔ v ∈ b.free := fun v =>
    ⟨mem_free_of_instances hb fun t ht => (h t ht).2, mem_free_of_instances ha fun t ht => (h t ht).1⟩
  -- each body is an instance of the other scheme
  obtain ⟨f, hf, hfb⟩ := hasInstance_iff.1 ((h b.body hb).2 b.hasInstance_body)
  obtain ⟨g, hg, hga⟩ := hasInstance_iff.1 ((h a.body ha).1 a.hasInstance_body)
  have hbody := Ty.corresponds_undone (f := f) (g := g) ha (by rw [← hfb, ← hga])
  rw [← hfb] at hbody
  refine ⟨_, Ty.biUnique_undone f g, hbody.imp fun v hv w hw hvw => ?_⟩
  by_cases hva : v ∈ a.vars
  · by_cases hwb : w ∈ b.vars
    · exact .inl ⟨hva, hwb, hvw⟩
    · obtain rfl : w = v := Ty.var.inj ((hg w hwb).symm.trans hvw.2)
      exact absurd hva (mem_free.1 ((hfree w).2 (mem_free.2 ⟨hw, hwb⟩))).2
  · obtain rfl : v = w := Ty.var.inj ((hf v hva).symm.trans hvw.1)
    exact .inr ⟨hva, (mem_free.1 ((hfree v).1 (mem_free.2 ⟨hv, hva⟩))).2, rfl⟩

/-- Schemes are found equivalent exactly if they quantify equally many variables and have the same
instances. It is enough to compare the well-formed ones. -/
theorem equivalent_iff_same_instances (a b : Scheme) (ha : a.body.WellFormed)
    (hb : b.body.WellFormed) :
    (a.equivalent b = true ↔
      a.vars.size = b.vars.size ∧ ∀ t, a.HasInstance t ↔ b.HasInstance t) ∧
    (a.equivalent b = true ↔
      a.vars.size = b.vars.size ∧ ∀ t : Ty, t.WellFormed → (a.HasInstance t ↔ b.HasInstance t)) := by
  have hall : a.equivalent b = true →
      a.vars.size = b.vars.size ∧ ∀ t, a.HasInstance t ↔ b.HasInstance t := by
    intro h
    obtain ⟨r, hr⟩ := equivalent_iff_alphaBy.1 h
    exact ⟨hr.size_eq, fun t => hr.same_instances⟩
  have hsome : (a.vars.size = b.vars.size ∧
      ∀ t : Ty, t.WellFormed → (a.HasInstance t ↔ b.HasInstance t)) → a.equivalent b = true :=
    fun ⟨hsize, h⟩ => equivalent_iff.2 ⟨hsize, corresponds_of_instances ha hb h⟩
  constructor
  · exact ⟨hall, fun ⟨hsize, h⟩ => hsome ⟨hsize, fun t _ => h t⟩⟩
  · exact ⟨fun h => ⟨(hall h).1, fun t _ => (hall h).2 t⟩, hsome⟩

/-- `∀ t1 t3. t1 -> t2` and `∀ t4 t1. t4 -> t2` have the same instances, although `t1` stands for different
things in them. With `t2` quantified in place of a variable that does not occur they differ in one. -/
theorem equivalent_iff_same_instances_reused_number :
    (∀ t, (forAll [1, 3] (.arrow (.var 1) (.var 2))).HasInstance t ↔
      (forAll [4, 1] (.arrow (.var 4) (.var 2))).HasInstance t) ∧
    ∃ t : Ty, t.WellFormed ∧ ¬ ((forAll [1, 3] (.arrow (.var 1) (.var 2))).HasInstance t ↔
      (forAll [1, 2] (.arrow (.var 1) (.var 2))).HasInstance t) := by
  have h := equivalent_iff_same_instances (forAll [1, 3] (.arrow (.var 1) (.var 2)))
    (forAll [4, 1] (.arrow (.var 4) (.var 2))) rfl rfl
  have h' := equivalent_iff_same_instances (forAll [1, 3] (.arrow (.var 1) (.var 2)))
    (forAll [1, 2] (.arrow (.var 1) (.var 2))) rfl rfl
  have hdiff := not_and.1 (mt h'.2.2 (by decide)) (by decide)
  obtain ⟨t, ht⟩ := not_forall.1 hdiff
  exact ⟨(h.1.1 (by decide)).2, t, Classical.not_imp.1 ht⟩

end Scheme

end LetPoly
