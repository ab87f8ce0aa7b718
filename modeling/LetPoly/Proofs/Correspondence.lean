import Mathlib.Data.List.Forall2
import LetPoly.Proofs.Reading
import LetPoly.Scheme.Equivalent

/-!
# Corresponding types and schemes

Two types correspond along a relation between variables if they are the same tree up to the names
of their variables, and variables at the same place are related. Between schemes the free variables
are related by what is given, and the quantified ones by any one-to-one relation.

The walk that decides whether two schemes are equivalent finds such a relation if there is one:
schemes are equivalent if and only if they quantify equally many variables and correspond along
equality (`Scheme.equivalent_iff`).
-/

namespace LetPoly

theorem forall₂_imp_mem {α β : Type} {R S : α → β → Prop} {l : List α} {m : List β}
    (h : List.Forall₂ R l m) (himp : ∀ a ∈ l, ∀ b ∈ m, R a b → S a b) : List.Forall₂ S l m := by
  rw [List.forall₂_iff_zip] at h ⊢
  refine ⟨h.1, fun {a b} hab => ?_⟩
  obtain ⟨ha, hb⟩ := List.of_mem_zip hab
  exact himp a ha b hb (h.2 hab)

theorem exists_of_forall₂_mem {α β : Type} {R : α → β → Prop} {l : List α} {m : List β} {a : α}
    (h : List.Forall₂ R l m) (ha : a ∈ l) : ∃ b ∈ m, R a b := by
  induction h with
  | nil => exact absurd ha List.not_mem_nil
  | cons hab _ ih =>
    rcases List.mem_cons.1 ha with rfl | ha
    · exact ⟨_, List.mem_cons_self, hab⟩
    · obtain ⟨b, hb, h⟩ := ih ha
      exact ⟨b, List.mem_cons_of_mem _ hb, h⟩

/-- One-to-one relations between different things are one-to-one together. -/
theorem biUnique_or {β γ : TyVar → TyVar → Prop} (hβ : Relator.BiUnique β) (hγ : Relator.BiUnique γ)
    (hleft : ∀ v w w', β v w → ¬ γ v w') (hright : ∀ v v' w, β v w → ¬ γ v' w) :
    Relator.BiUnique fun v w => β v w ∨ γ v w := by
  constructor
  · rintro v v' w (h | h) (h' | h')
    · exact hβ.1 h h'
    · exact absurd h' (hright v v' w h)
    · exact absurd h (hright v' v w h')
    · exact hγ.1 h h'
  · rintro v w w' (h | h) (h' | h')
    · exact hβ.2 h h'
    · exact absurd h' (hleft v w w' h)
    · exact absurd h (hleft v w' w h')
    · exact hγ.2 h h'

theorem biUnique_eq : Relator.BiUnique (Eq : TyVar → TyVar → Prop) :=
  ⟨fun _ _ _ h h' => h.trans h'.symm, fun _ _ _ h h' => h.symm.trans h'⟩

theorem biUnique_pair (x y : TyVar) : Relator.BiUnique fun v w : TyVar => v = x ∧ w = y := by
  constructor
  · rintro _ _ _ ⟨rfl, -⟩ ⟨rfl, -⟩
    rfl
  · rintro _ _ _ ⟨-, rfl⟩ ⟨-, rfl⟩
    rfl

namespace Ty

/-- The types are one tree, without aliens, and its variables are related place by place. -/
inductive Corresponds (β : TyVar → TyVar → Prop) : Ty → Ty → Prop
  | var {v w : TyVar} : β v w → Corresponds β (.var v) (.var w)
  | app {con : String} {ts us : List Ty} :
    List.Forall₂ (Corresponds β) ts us → Corresponds β (.app con ts) (.app con us)

namespace Corresponds
variable {β γ : TyVar → TyVar → Prop} {t t' u u' : Ty} {v w : TyVar}

/-- Induction over a correspondence. -/
@[elab_as_elim]
theorem ind {motive : ∀ t u, t.Corresponds β u → Prop}
    (var : ∀ v w (h : β v w), motive (.var v) (.var w) (.var h))
    (app : ∀ con ts us (h : List.Forall₂ (Corresponds β) ts us),
      (∀ t ∈ ts, ∀ u, (h : t.Corresponds β u) → motive t u h) →
        motive (.app con ts) (.app con us) (.app h))
    (h : t.Corresponds β u) : motive t u h := by
  induction t generalizing u with
  | var v =>
    cases h with
    | var h => exact var v _ h
  | alien a => cases h
  | app con ts ih =>
    cases h with
    | app hargs => exact app con ts _ hargs fun t ht u h => ih t ht h

theorem occurrences (h : t.Corresponds β u) : List.Forall₂ β t.occurrences u.occurrences := by
  induction h using ind with
  | var v w h => exact .cons h .nil
  | app con ts us h ih =>
    rw [Ty.occurrences, Ty.occurrences]
    induction h with
    | nil => exact .nil
    | cons h _ ihs =>
      exact List.rel_append (ih _ List.mem_cons_self _ h)
        (ihs fun t ht => ih t (List.mem_cons_of_mem _ ht))

theorem exists_right (h : t.Corresponds β u) (hv : v ∈ t.occurrences) : ∃ w ∈ u.occurrences, β v w :=
  exists_of_forall₂_mem h.occurrences hv

theorem swap (h : t.Corresponds β u) : u.Corresponds (flip β) t := by
  induction h using ind with
  | var v w h => exact .var h
  | app con ts us h ih => exact .app (forall₂_imp_mem h fun t ht u _ h => ih t ht u h).flip

theorem exists_left (h : t.Corresponds β u) (hw : w ∈ u.occurrences) : ∃ v ∈ t.occurrences, β v w :=
  h.swap.exists_right hw

theorem mem_iff (h : t.Corresponds β u) (hβ : Relator.BiUnique β) (hvw : β v w) :
    v ∈ t.occurrences ↔ w ∈ u.occurrences :=
  List.rel_mem hβ hvw h.occurrences

theorem occurs_iff (h : t.Corresponds β u) (hβ : Relator.BiUnique β) (hvw : β v w) :
    t.occurs v = true ↔ u.occurs w = true := by
  rw [occurs_iff_mem_occurrences, occurs_iff_mem_occurrences, h.mem_iff hβ hvw]

theorem wellFormed_left (h : t.Corresponds β u) : t.WellFormed := by
  induction h using ind with
  | var v w _ => exact wellFormed_var v
  | app con ts us h ih =>
    rw [wellFormed_app]
    intro t ht
    obtain ⟨u, -, htu⟩ := exists_of_forall₂_mem h ht
    exact ih t ht u htu

theorem wellFormed_right (h : t.Corresponds β u) : u.WellFormed := h.swap.wellFormed_left

theorem rightUnique (hβ : Relator.RightUnique β) : Relator.RightUnique (Corresponds β) := by
  intro t u u' h
  induction h using ind generalizing u' with
  | var v w h =>
    rintro (h' | -)
    rw [hβ h h']
  | app con ts us h ih =>
    intro h'
    cases h' with
    | @app _ _ us' h' =>
      have hall : List.Forall₂ (fun t u' => ∀ u, t.Corresponds β u → u = u') ts us' :=
        forall₂_imp_mem h' fun t ht u' _ h' u h => ih t ht u h h'
      clear ih h'
      refine congrArg (Ty.app con) ?_
      induction h generalizing us' with
      | nil => cases hall; rfl
      | cons h _ ihs =>
        cases hall with
        | cons heq hall => rw [heq _ h, ihs hall]

theorem biUnique (hβ : Relator.BiUnique β) : Relator.BiUnique (Corresponds β) := by
  refine ⟨fun t t' u h h' => ?_, rightUnique hβ.2⟩
  have hflip : Relator.RightUnique (flip β) := fun _ _ _ hv hw => hβ.1 hv hw
  exact rightUnique hflip h.swap h'.swap

theorem subst {f g : TyVar → Ty} (h : t.Corresponds β u)
    (hfg : ∀ v ∈ t.occurrences, ∀ w ∈ u.occurrences, β v w → (f v).Corresponds γ (g w)) :
    (t.subst f).Corresponds γ (u.subst g) := by
  induction h using ind with
  | var v w h => exact hfg v (mem_occurrences_var.2 rfl) w (mem_occurrences_var.2 rfl) h
  | app con ts us h ih =>
    rw [subst_app, subst_app]
    refine .app (List.forall₂_map_left_iff.2 (List.forall₂_map_right_iff.2 ?_))
    refine forall₂_imp_mem h fun t ht u hu h => ih t ht u h fun v hv w hw => ?_
    exact hfg v (mem_occurrences_app.2 ⟨t, ht, hv⟩) w (mem_occurrences_app.2 ⟨u, hu, hw⟩)

theorem imp (h : t.Corresponds β u)
    (hβγ : ∀ v ∈ t.occurrences, ∀ w ∈ u.occurrences, β v w → γ v w) : t.Corresponds γ u := by
  have h' := h.subst (f := Ty.var) (g := Ty.var) fun v hv w hw hvw => .var (hβγ v hv w hw hvw)
  rwa [subst_var, subst_var] at h'

theorem replace {a b : Ty} (h : t.Corresponds β u) (hβ : Relator.BiUnique β) (hvw : β v w)
    (hab : a.Corresponds β b) : (t.replace v a).Corresponds β (u.replace w b) := by
  rw [replace_eq_subst, replace_eq_subst]
  refine h.subst fun v' _ w' _ h' => ?_
  have hiff : v' = v ↔ w' = w := Relator.rel_eq hβ h' hvw
  by_cases hv : v' = v
  · rw [if_pos hv, if_pos (hiff.1 hv)]
    exact hab
  · rw [if_neg hv, if_neg (mt hiff.2 hv)]
    exact .var h'

theorem trans {s : Ty} (h : t.Corresponds β u) (h' : u.Corresponds γ s) :
    t.Corresponds (fun v x => ∃ w, β v w ∧ γ w x) s := by
  induction h using ind generalizing s with
  | var v w h =>
    cases h' with
    | var h' => exact .var ⟨w, h, h'⟩
  | app con ts us h ih =>
    cases h' with
    | @app _ _ ss h' =>
      refine .app ?_
      induction h generalizing ss with
      | nil =>
        cases h'
        exact .nil
      | cons h _ ihs =>
        cases h' with
        | cons h' hrest =>
          exact .cons (ih _ List.mem_cons_self _ h h')
            (ihs (fun t ht => ih t (List.mem_cons_of_mem _ ht)) hrest)

/-- Substitutions with the same values at related variables make the types equal. -/
theorem subst_eq {f g : TyVar → Ty} (h : t.Corresponds β u) (hfg : ∀ v w, β v w → f v = g w) :
    t.subst f = u.subst g := by
  induction h using ind with
  | var v w h => exact hfg v w h
  | app con ts us h ih =>
    rw [subst_app, subst_app]
    refine congrArg (Ty.app con) ?_
    induction h with
    | nil => rfl
    | cons h _ ihs =>
      rw [List.map_cons, List.map_cons, ih _ List.mem_cons_self _ h,
        ihs fun t ht => ih t (List.mem_cons_of_mem _ ht)]

theorem arrow (ht : t.Corresponds β t') (hu : u.Corresponds β u') :
    (arrow t u).Corresponds β (arrow t' u') :=
  .app (.cons ht (.cons hu .nil))

theorem refl (ht : t.WellFormed) (hβ : ∀ v ∈ t.occurrences, β v v) : t.Corresponds β t := by
  induction t with
  | var v => exact .var (hβ v (mem_occurrences_var.2 rfl))
  | alien a => exact absurd ht (not_wellFormed_alien a)
  | app con ts ih =>
    refine .app (List.forall₂_same.2 fun t hmem => ih t hmem (wellFormed_app.1 ht t hmem) ?_)
    exact fun v hv => hβ v (mem_occurrences_app.2 ⟨t, hmem, hv⟩)

end Corresponds

/-! ### Substitutions that can be undone -/

theorem biUnique_undone (f g : TyVar → Ty) :
    Relator.BiUnique fun v w : TyVar => f v = .var w ∧ g w = .var v := by
  constructor
  · rintro v v' w ⟨-, h⟩ ⟨-, h'⟩
    exact var.inj (h.symm.trans h')
  · rintro v w w' ⟨h, -⟩ ⟨h', -⟩
    exact var.inj (h.symm.trans h')

/-- A substitution that can be undone on a type only renames its variables. -/
theorem corresponds_undone {f g : TyVar → Ty} {t : Ty} (ht : t.WellFormed)
    (h : (t.subst f).subst g = t) :
    t.Corresponds (fun v w => f v = .var w ∧ g w = .var v) (t.subst f) := by
  induction t with
  | var v =>
    obtain ⟨w, hw, hv⟩ := exists_of_subst_eq_var h
    rw [hw]
    exact .var ⟨hw, hv⟩
  | alien a => exact absurd ht (not_wellFormed_alien a)
  | app con args ih =>
    rw [subst_app, subst_app, app.injEq, List.map_map] at h
    have hargs := List.map_inj_left.1 (h.2.trans (List.map_id args).symm)
    rw [subst_app]
    refine .app (List.forall₂_map_right_iff.2 (List.forall₂_same.2 fun t hmem => ?_))
    exact ih t hmem (wellFormed_app.1 ht t hmem) (hargs t hmem)

end Ty

/-! ### Schemes -/

/-- How variables are related in the bodies of two schemes that quantify `a` and `b`: quantified ones
by `γ`, the others by `β`. -/
def VarSet.Linked (a b : VarSet) (β γ : TyVar → TyVar → Prop) (v w : TyVar) : Prop :=
  v ∈ a ∧ w ∈ b ∧ γ v w ∨ v ∉ a ∧ w ∉ b ∧ β v w

theorem VarSet.biUnique_linked {β γ : TyVar → TyVar → Prop} (hβ : Relator.BiUnique β)
    (hγ : Relator.BiUnique γ) (a b : VarSet) : Relator.BiUnique (a.Linked b β γ) := by
  constructor
  · rintro v v' w (⟨hv, hw, h⟩ | ⟨hv, hw, h⟩) (⟨hv', hw', h'⟩ | ⟨hv', hw', h'⟩)
    · exact hγ.1 h h'
    · exact absurd hw hw'
    · exact absurd hw' hw
    · exact hβ.1 h h'
  · rintro v w w' (⟨hv, hw, h⟩ | ⟨hv, hw, h⟩) (⟨hv', hw', h'⟩ | ⟨hv', hw', h'⟩)
    · exact hγ.2 h h'
    · exact absurd hv hv'
    · exact absurd hv' hv
    · exact hβ.2 h h'

/-- The schemes are equal up to the names of their variables. The free ones are related by `β`. -/
def Scheme.Corresponds (β : TyVar → TyVar → Prop) (a b : Scheme) : Prop :=
  ∃ γ, Relator.BiUnique γ ∧ a.body.Corresponds (a.vars.Linked b.vars β γ) b.body

/-! ### Equivalence -/

namespace Pairing
variable {p p' p'' : Pairing} {γ : TyVar → TyVar → Prop} {x y : TyVar}

/-- The pairs as a relation. -/
def Pairs (p : Pairing) (x y : TyVar) : Prop := (x, y) ∈ p

/-- What a walk does to the pairs: it adds some, and nothing gets a second partner. -/
def Grows (p p' : Pairing) : Prop := p ⊆ p' ∧ (Relator.BiUnique p.Pairs → Relator.BiUnique p'.Pairs)

theorem Grows.refl (p : Pairing) : p.Grows p := ⟨List.Subset.refl p, id⟩

theorem Grows.trans (h : p.Grows p') (h' : p'.Grows p'') : p.Grows p'' :=
  ⟨List.Subset.trans h.1 h'.1, h'.2 ∘ h.2⟩

theorem meet_grows (h : p.meet x y = some p') : p.Grows p' ∧ p'.Pairs x y := by
  unfold meet at h
  split at h
  · rename_i hmem
    cases h
    exact ⟨.refl p, hmem⟩
  split at h
  · cases h
  rename_i hnew
  cases h
  refine ⟨⟨List.subset_cons_self _ _, fun hp => ?_⟩, List.mem_cons_self⟩
  have hpairs : Pairs ((x, y) :: p) = fun v w => p.Pairs v w ∨ v = x ∧ w = y := by
    ext v w
    simp [Pairs, or_comm]
  rw [hpairs]
  refine biUnique_or hp (biUnique_pair x y) ?_ ?_
  · rintro _ w _ h ⟨rfl, -⟩
    exact hnew (.inl (List.mem_map_of_mem h))
  · rintro v _ _ h ⟨-, rfl⟩
    exact hnew (.inr (List.mem_map_of_mem h))

/-- A one-to-one relation that holds of all pairs lets its own pairs meet. -/
theorem meet_of_related (hγ : Relator.BiUnique γ) (hp : ∀ x y, p.Pairs x y → γ x y) (h : γ x y) :
    ∃ p', p.meet x y = some p' ∧ ∀ x y, p'.Pairs x y → γ x y := by
  unfold meet
  split
  · exact ⟨p, rfl, hp⟩
  rename_i hnew
  rw [if_neg]
  · refine ⟨_, rfl, fun v w hvw => ?_⟩
    rcases List.mem_cons.1 hvw with hvw | hvw
    · cases hvw
      exact h
    · exact hp v w hvw
  · rintro (hx | hy)
    · obtain ⟨⟨v, w⟩, hvw, rfl⟩ := List.mem_map.1 hx
      exact hnew (hγ.2 (hp v w hvw) h ▸ hvw)
    · obtain ⟨⟨v, w⟩, hvw, rfl⟩ := List.mem_map.1 hy
      exact hnew (hγ.1 (hp v w hvw) h ▸ hvw)

end Pairing

namespace Scheme
variable {a b : VarSet} {t u : Ty} {ts us : List Ty} {p p' : Pairing} {γ : TyVar → TyVar → Prop}

theorem faceOffAll_corresponds
    (ih : ∀ t ∈ ts, ∀ u p p', faceOff a b t u p = some p' →
      p.Grows p' ∧ t.Corresponds (a.Linked b Eq p'.Pairs) u)
    (h : faceOffAll a b ts us p = some p') :
    p.Grows p' ∧ List.Forall₂ (Ty.Corresponds (a.Linked b Eq p'.Pairs)) ts us := by
  induction ts generalizing us p with
  | nil =>
    cases us with
    | nil =>
      cases h
      exact ⟨.refl _, .nil⟩
    | cons u us => cases h
  | cons t ts ihs =>
    cases us with
    | nil => cases h
    | cons u us =>
      rw [faceOffAll, Option.bind_eq_some_iff] at h
      obtain ⟨q, hhead, htail⟩ := h
      obtain ⟨hpq, ht⟩ := ih t List.mem_cons_self u p q hhead
      obtain ⟨hqp, hts⟩ := ihs (fun t ht => ih t (List.mem_cons_of_mem _ ht)) htail
      refine ⟨hpq.trans hqp, .cons (ht.imp fun v _ w _ => ?_) hts⟩
      exact Or.imp_left fun ⟨hv, hw, hvw⟩ => ⟨hv, hw, hqp.1 hvw⟩

theorem faceOff_corresponds (h : faceOff a b t u p = some p') :
    p.Grows p' ∧ t.Corresponds (a.Linked b Eq p'.Pairs) u := by
  induction t generalizing u p p' with
  | var x =>
    cases u with
    | var y =>
      rw [faceOff] at h
      split at h
      · rename_i hq
        obtain ⟨hgrows, hpair⟩ := Pairing.meet_grows h
        exact ⟨hgrows, .var (.inl ⟨hq.1, hq.2, hpair⟩)⟩
      · split at h
        · rename_i hfree
          cases h
          exact ⟨.refl p, .var (.inr hfree)⟩
        · cases h
    | app d us => cases h
    | alien c => cases h
  | alien c => cases h
  | app c ts ih =>
    cases u with
    | var y => cases h
    | alien c => cases h
    | app d us =>
      rw [faceOff] at h
      split at h
      · rename_i hcon
        obtain ⟨hgrows, hargs⟩ := faceOffAll_corresponds (fun t ht u p p' h => ih t ht h) h
        exact ⟨hgrows, hcon ▸ .app hargs⟩
      · cases h

theorem exists_faceOffAll
    (h : List.Forall₂ (fun t u => ∀ p : Pairing, (∀ x y, p.Pairs x y → γ x y) →
      ∃ p', faceOff a b t u p = some p' ∧ ∀ x y, p'.Pairs x y → γ x y) ts us)
    (hp : ∀ x y, p.Pairs x y → γ x y) :
    ∃ p', faceOffAll a b ts us p = some p' ∧ ∀ x y, p'.Pairs x y → γ x y := by
  induction h generalizing p with
  | nil => exact ⟨p, rfl, hp⟩
  | cons hhead _ ih =>
    obtain ⟨q, hq, hpq⟩ := hhead p hp
    rw [faceOffAll, hq]
    exact ih hpq

theorem exists_faceOff (hγ : Relator.BiUnique γ) (h : t.Corresponds (a.Linked b Eq γ) u)
    (hp : ∀ x y, p.Pairs x y → γ x y) :
    ∃ p', faceOff a b t u p = some p' ∧ ∀ x y, p'.Pairs x y → γ x y := by
  induction h using Ty.Corresponds.ind generalizing p with
  | var v w h =>
    rw [faceOff]
    rcases h with ⟨hv, hw, hvw⟩ | hfree
    · rw [if_pos ⟨hv, hw⟩]
      exact Pairing.meet_of_related hγ hp hvw
    · rw [if_neg fun h => hfree.1 h.1, if_pos hfree]
      exact ⟨p, rfl, hp⟩
  | app con ts us h ih =>
    rw [faceOff, if_pos rfl]
    exact exists_faceOffAll (forall₂_imp_mem h fun t ht u _ h p hp => ih t ht u h hp) hp

theorem equivalent_iff {a b : Scheme} :
    a.equivalent b = true ↔ a.vars.size = b.vars.size ∧ a.Corresponds Eq b := by
  rw [equivalent, Bool.and_eq_true, beq_iff_eq, Option.isSome_iff_exists]
  refine and_congr_right fun _ => ⟨?_, ?_⟩
  · rintro ⟨p, h⟩
    obtain ⟨hgrows, hbody⟩ := faceOff_corresponds h
    exact ⟨p.Pairs, hgrows.2 ⟨nofun, nofun⟩, hbody⟩
  · rintro ⟨γ, hγ, hbody⟩
    obtain ⟨p, h, -⟩ := exists_faceOff (p := []) hγ hbody nofun
    exact ⟨p, h⟩

end Scheme

end LetPoly
