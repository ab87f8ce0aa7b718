import Mathlib.Data.List.GetD
import LetPoly.Proofs.Inference
import LetPoly.Proofs.Numbering

/-!
# Copies of a scheme

A copy of a scheme is its body with the quantified variables renamed, all at once and in ascending order,
to variables that are dealt out (`instantiateWith_eq_rename`). The new variables only have to be different
from each other; that some of them are quantified variables themselves, in whatever order, does no harm.
If none of them is fixed by the surroundings, generalizing the copy renames the quantified variables of
the scheme along with the body (`generalize_rename`) and so gives an equivalent scheme
(`generalize_instantiate`).
-/

namespace LetPoly

theorem Supply.length_take (s : Supply) (n : Nat) : (s.take n).1.length = n := by
  rw [take_eq, List.length_map, List.length_range]

/-- A supply does not repeat itself until it has gone through all numbers. -/
theorem Supply.nodup_take (s : Supply) {n : Nat} (hn : n ≤ 2 ^ 64) : (s.take n).1.Nodup := by
  rw [take_eq]
  refine List.Nodup.map_on (fun i hi j hj h => ?_) List.nodup_range
  rw [List.mem_range] at hi hj
  have hadd : s.next + Int64.ofNat i = s.next + Int64.ofNat j := h
  exact TyVar.ofNat_inj (by omega) (by omega) ((Int64.add_right_inj s.next).1 hadd)

namespace Scheme
variable {s : Scheme} {t : Ty} {F : VarSet} {ρ : TyVar → TyVar} {fresh : List TyVar} {v : TyVar}

/-! ### Copies as renamings -/

/-- `ρ` gives the quantified variables, in ascending order, the variables of `fresh`, and leaves all
others alone. -/
structure Deals (s : Scheme) (fresh : List TyVar) (ρ : TyVar → TyVar) : Prop where
  map : s.vars.toList.map ρ = fresh
  keep : ∀ v, v ∉ s.vars → ρ v = v

/-- The variable that `v` becomes if the quantified variables are dealt those of `fresh` in turn. -/
def deal (s : Scheme) (fresh : List TyVar) (v : TyVar) : TyVar :=
  if v ∈ s.vars then fresh.getD (s.vars.toList.idxOf v) v else v

theorem deals_deal (h : fresh.length = s.vars.size) : s.Deals fresh (s.deal fresh) := by
  refine ⟨List.ext_getElem (by rw [List.length_map, h]; rfl) fun i hi hi' => ?_, fun v hv => if_neg hv⟩
  rw [List.length_map] at hi
  rw [List.getElem_map, deal, if_pos (VarSet.mem_def.2 (List.getElem_mem hi)),
    s.vars.nodup.idxOf_getElem i hi, List.getD_eq_getElem _ _ hi']

theorem instantiateWith_eq_rename (h : fresh.length = s.vars.size) :
    s.instantiateWith fresh = s.body.rename (s.deal fresh) := by
  rw [instantiateWith, Ty.substitute_eq_subst]
  refine Ty.subst_congr fun v _ => ?_
  have hfresh : (List.range s.vars.toList.length).map (fun i => fresh.getD i v) = fresh := by
    refine List.ext_getElem (by rw [List.length_map, List.length_range, h]; rfl) fun i hi hi' => ?_
    rw [List.getElem_map, List.getElem_range, List.getD_eq_getElem _ _ hi']
  have happly := Subst.apply_zip_range (v := v) s.vars.toList fun i => fresh.getD i v
  rw [hfresh] at happly
  rw [happly, deal]
  exact (apply_ite Ty.var ..).symm

/-! ### Generalizing a copy -/

/-- Generalizing a renamed type renames the scheme, if the renaming keeps apart what is fixed and what
is not. -/
theorem generalize_rename (hfixed : ∀ v ∈ t.occurrences, ρ v ∈ F ↔ v ∈ F) :
    generalize (t.rename ρ) F = (generalize t F).rename ρ := by
  have hvars : (generalize (t.rename ρ) F).vars = (generalize t F).vars.map ρ := by
    ext w
    rw [mem_vars_generalize, Ty.occurrences_rename, List.mem_map, VarSet.mem_map]
    constructor
    · rintro ⟨⟨v, hv, rfl⟩, hF⟩
      exact ⟨v, mem_vars_generalize.2 ⟨hv, mt (hfixed v hv).2 hF⟩, rfl⟩
    · rintro ⟨v, hv, rfl⟩
      obtain ⟨hv, hF⟩ := mem_vars_generalize.1 hv
      exact ⟨⟨v, hv, rfl⟩, mt (hfixed v hv).1 hF⟩
  rw [rename, ← hvars]
  rfl

namespace Deals

theorem eq_of_fixed (h : (generalize t F).Deals fresh ρ) (hv : v ∈ F) : ρ v = v :=
  h.keep v fun hq => (mem_vars_generalize.1 hq).2 hv

theorem mem_fresh (h : (generalize t F).Deals fresh ρ) (hv : v ∈ t.occurrences) (hF : v ∉ F) :
    ρ v ∈ fresh := by
  rw [← h.map]
  exact List.mem_map_of_mem (VarSet.mem_def.1 (mem_vars_generalize.2 ⟨hv, hF⟩))

theorem mem_fixed_iff (h : (generalize t F).Deals fresh ρ) (hfresh : ∀ v ∈ fresh, v ∉ F)
    (hv : v ∈ t.occurrences) : ρ v ∈ F ↔ v ∈ F := by
  constructor
  · intro hρ
    by_contra hF
    exact hfresh _ (h.mem_fresh hv hF) hρ
  · intro hF
    rwa [h.eq_of_fixed hF]

theorem apart (h : (generalize t F).Deals fresh ρ) (hfresh : ∀ v ∈ fresh, v ∉ F)
    (hnodup : fresh.Nodup) : (generalize t F).Apart ρ := by
  have hoccurs : ∀ v, (generalize t F).Mentions v → v ∈ t.occurrences := by
    rintro v (hv | hv)
    · exact (mem_vars_generalize.1 hv).1
    · exact hv
  have hinj : ∀ v ∈ (generalize t F).vars, ∀ w ∈ (generalize t F).vars, ρ v = ρ w → v = w :=
    fun v hv w hw => List.inj_on_of_nodup_map (by rwa [h.map]) hv hw
  intro v hv w hw he
  have hv := hoccurs v hv
  have hw := hoccurs w hw
  have hvw : v ∈ F ↔ w ∈ F := by
    rw [← h.mem_fixed_iff hfresh hv, he, h.mem_fixed_iff hfresh hw]
  by_cases hF : v ∈ F
  · rwa [h.eq_of_fixed hF, h.eq_of_fixed (hvw.1 hF)] at he
  · exact hinj v (mem_vars_generalize.2 ⟨hv, hF⟩) w (mem_vars_generalize.2 ⟨hw, mt hvw.2 hF⟩) he

theorem equivalent (h : (generalize t F).Deals fresh ρ) (ht : t.WellFormed)
    (hfresh : ∀ v ∈ fresh, v ∉ F) (hnodup : fresh.Nodup) :
    (generalize (t.rename ρ) F).equivalent (generalize t F) = true := by
  have hsame : ((generalize t F).rename ρ).equivalent ((generalize t F).rename id) = true := by
    refine equivalent_rename ht (h.apart hfresh hnodup) Function.injective_id.injOn fun v hv => ?_
    exact h.keep v (mem_free.1 hv).2
  rw [rename_id] at hsame
  rwa [generalize_rename fun v hv => h.mem_fixed_iff hfresh hv]

end Deals

/-- Generalizing a copy of a generalized type gives an equivalent scheme, whatever different variables
the copy was made with, as long as none of them is fixed. The copy is the type with the quantified
variables renamed to them; exactly the fixed variables are left as they are, and another one can only
stay if it is dealt itself. The copies that are made from a supply are among these: they are made with
the variables that it hands out next, which differ from each other, and it has handed out no more. -/
theorem generalize_instantiate (t : Ty) (F : VarSet) (ht : t.WellFormed) :
    (∀ fresh : List TyVar, fresh.length = (generalize t F).vars.size → fresh.Nodup →
      (∀ v ∈ fresh, v ∉ F) →
      (generalize ((generalize t F).instantiateWith fresh) F).equivalent (generalize t F) = true ∧
      ∃ ρ, (generalize t F).Deals fresh ρ ∧ (generalize t F).instantiateWith fresh = t.rename ρ ∧
        ∀ v ∈ t.occurrences, (v ∈ F → ρ v = v) ∧ (v ∉ F → ρ v ∈ fresh) ∧
          (v ∉ fresh → (ρ v = v ↔ v ∈ F))) ∧
    ∀ supply fresh supply', supply.take (generalize t F).vars.size = (fresh, supply') →
      fresh.length = (generalize t F).vars.size ∧ fresh.Nodup ∧
      (generalize t F).instantiate? supply =
        (.ok ((generalize t F).instantiateWith fresh), supply') ∧
      ((∀ v ∈ fresh, v ∉ F) →
        (generalize ((generalize t F).instantiateWith fresh) F).equivalent (generalize t F) = true) := by
  have hcopy : ∀ fresh : List TyVar, fresh.length = (generalize t F).vars.size → fresh.Nodup →
      (∀ v ∈ fresh, v ∉ F) →
      (generalize ((generalize t F).instantiateWith fresh) F).equivalent (generalize t F) = true := by
    intro fresh hlength hnodup hfresh
    rw [instantiateWith_eq_rename hlength]
    exact (deals_deal hlength).equivalent ht hfresh hnodup
  refine ⟨fun fresh hlength hnodup hfresh => ⟨hcopy fresh hlength hnodup hfresh, ?_⟩,
    fun supply fresh supply' htake => ?_⟩
  · have h := deals_deal (s := generalize t F) hlength
    refine ⟨_, h, instantiateWith_eq_rename hlength, fun v hv => ⟨h.eq_of_fixed, h.mem_fresh hv, ?_⟩⟩
    intro hv'
    refine ⟨fun he => ?_, h.eq_of_fixed⟩
    by_contra hF
    have hmem := h.mem_fresh hv hF
    rw [he] at hmem
    exact hv' hmem
  · have hsize : (generalize t F).vars.size ≤ 2 ^ 64 := TyVar.length_le_of_nodup (VarSet.nodup _)
    have hlength := supply.length_take (generalize t F).vars.size
    have hnodup := supply.nodup_take hsize
    have hok := instantiate?_of_wellFormed (s := generalize t F) ht supply
    have hleft : ((generalize t F).instantiate? supply).2 = supply' := by
      show (supply.take (generalize t F).vars.size).2 = supply'
      rw [htake]
    rw [htake] at hlength hnodup hok
    exact ⟨hlength, hnodup, Prod.ext hok hleft, hcopy fresh hlength hnodup⟩

/-- The quantified variables of `∀ t1 t2. (t1 -> t2) -> Pair t2 t3` are exchanged in a copy, and the
scheme of the copy is the same. -/
theorem generalize_instantiate_exchanged :
    (Ty.arrow (.arrow (.var 1) (.var 2)) (.app "Pair" [.var 2, .var 3])).WellFormed ∧
    (generalize (.arrow (.arrow (.var 1) (.var 2)) (.app "Pair" [.var 2, .var 3]))
      (.ofList [3])).instantiateWith [2, 1] =
        .arrow (.arrow (.var 2) (.var 1)) (.app "Pair" [.var 1, .var 3]) ∧
    (generalize (.arrow (.arrow (.var 2) (.var 1)) (.app "Pair" [.var 1, .var 3]))
      (.ofList [3])).equivalent
        (generalize (.arrow (.arrow (.var 1) (.var 2)) (.app "Pair" [.var 2, .var 3]))
          (.ofList [3])) = true := by
  have hcopy : (generalize (.arrow (.arrow (.var 1) (.var 2)) (.app "Pair" [.var 2, .var 3]))
      (.ofList [3])).instantiateWith [2, 1] =
        .arrow (.arrow (.var 2) (.var 1)) (.app "Pair" [.var 1, .var 3]) := by decide
  have h := (generalize_instantiate (.arrow (.arrow (.var 1) (.var 2)) (.app "Pair" [.var 2, .var 3]))
    (.ofList [3]) rfl).1 [2, 1] (by decide) (by decide) (by simp)
  rw [hcopy] at h
  exact ⟨rfl, hcopy, h.1⟩

end Scheme

end LetPoly
