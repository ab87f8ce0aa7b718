import Mathlib.Data.List.Induction
import Mathlib.Data.List.Nodup
import Mathlib.Data.Set.Function
import LetPoly.Proofs.Correspondence
import LetPoly.Proofs.Environment
import LetPoly.Scheme.Printer

/-!
# Renaming the variables of a scheme

A renaming that keeps the variables of a scheme apart may rename the quantified variables as it likes:
two such renamings that agree on the free variables lead to equivalent schemes (`equivalent_rename`),
and one that leaves the free variables alone does not change the written form (`text_rename`). Types
that correspond along a one-to-one relation are renamings of each other
(`Ty.Corresponds.exists_rename`).
-/

namespace LetPoly

/-! ### Lists without repetitions -/

section Lists
variable {α β : Type} [DecidableEq α] [DecidableEq β] {f : α → β} {l : List α} {x : α}

theorem eraseDups_concat (l : List α) (x : α) :
    (l ++ [x]).eraseDups = if x ∈ l then l.eraseDups else l.eraseDups ++ [x] := by
  rw [List.eraseDups_append, List.cons_removeAll]
  split <;> simp_all [List.eraseDups_cons]

theorem nodup_eraseDups (l : List α) : l.eraseDups.Nodup := by
  induction l using List.reverseRecOn with
  | nil => simp
  | append_singleton l x ih =>
    rw [eraseDups_concat]
    split
    · exact ih
    · rename_i hx
      rw [← List.mem_eraseDups] at hx
      exact List.concat_eq_append ▸ ih.concat hx

theorem length_eraseDups_le (l : List α) : l.eraseDups.length ≤ l.length :=
  (nodup_eraseDups l).length_le_of_subset fun _ => List.mem_eraseDups.1

theorem eraseDups_of_nodup (h : l.Nodup) : l.eraseDups = l := by
  induction l using List.reverseRecOn with
  | nil => simp
  | append_singleton l x ih =>
    obtain ⟨hl, -, hdisj⟩ := List.nodup_append.1 h
    have hx : x ∉ l := fun hx => hdisj x hx x (by simp) rfl
    rw [eraseDups_concat, if_neg hx, ih hl]

theorem idxOf_map (hf : ∀ y ∈ l, f y = f x → y = x) : (l.map f).idxOf (f x) = l.idxOf x := by
  induction l with
  | nil => rfl
  | cons y l ih =>
    rw [List.map_cons, List.idxOf_cons, List.idxOf_cons,
      ih fun z hz => hf z (List.mem_cons_of_mem y hz)]
    have hiff : (f y == f x) = (y == x) := by
      rw [Bool.eq_iff_iff, beq_iff_eq, beq_iff_eq]
      exact ⟨hf y List.mem_cons_self, congrArg f⟩
    rw [hiff]

theorem eraseDups_map (hf : Set.InjOn f {x | x ∈ l}) : (l.map f).eraseDups = l.eraseDups.map f := by
  induction l using List.reverseRecOn with
  | nil => rfl
  | append_singleton l x ih =>
    have hmem : f x ∈ l.map f ↔ x ∈ l := by
      rw [List.mem_map]
      constructor
      · rintro ⟨y, hy, hyx⟩
        exact hf (by simp [hy]) (by simp) hyx ▸ hy
      · exact fun hx => ⟨x, hx, rfl⟩
    rw [List.map_append, List.map_singleton, eraseDups_concat, eraseDups_concat,
      ih (hf.mono fun y hy => List.mem_append_left _ hy)]
    simp only [hmem, apply_ite (List.map f), List.map_append, List.map_singleton]

end Lists

namespace Ty
variable {ρ σ : TyVar → TyVar} {t : Ty}

/-- Renames the variables of a type. -/
def rename (ρ : TyVar → TyVar) (t : Ty) : Ty := t.subst fun v => .var (ρ v)

@[simp] theorem rename_app (con : String) (args : List Ty) :
    (app con args).rename ρ = app con (args.map (rename ρ)) :=
  subst_app ..

theorem rename_arrow (a b : Ty) : (arrow a b).rename ρ = arrow (a.rename ρ) (b.rename ρ) := by
  simp [arrow]

theorem rename_id (t : Ty) : t.rename id = t := subst_var t

theorem rename_rename (ρ σ : TyVar → TyVar) (t : Ty) : (t.rename ρ).rename σ = t.rename (σ ∘ ρ) :=
  subst_subst ..

theorem rename_injective (hρ : Function.Injective ρ) : Function.Injective (rename ρ) := by
  obtain ⟨σ, hσ⟩ := hρ.hasLeftInverse
  have hinv : Function.LeftInverse (rename σ) (rename ρ) := fun t => by
    rw [rename_rename, hσ.comp_eq_id, rename_id]
  exact hinv.injective

theorem rename_congr (h : ∀ v ∈ t.occurrences, ρ v = σ v) : t.rename ρ = t.rename σ :=
  subst_congr fun v hv => congrArg var (h v hv)

theorem occurrencesAll_eq_flatMap (ts : List Ty) : occurrencesAll ts = ts.flatMap occurrences := by
  induction ts with
  | nil => rfl
  | cons t ts ih => rw [occurrencesAll, ih, List.flatMap_cons]

theorem occurrences_arrow (a b : Ty) : (arrow a b).occurrences = a.occurrences ++ b.occurrences := by
  rw [arrow, occurrences, occurrencesAll, occurrencesAll, occurrencesAll, List.append_nil]

theorem occurrences_rename (ρ : TyVar → TyVar) (t : Ty) :
    (t.rename ρ).occurrences = t.occurrences.map ρ := by
  induction t with
  | var v => rfl
  | alien a => rfl
  | app con args ih =>
    rw [rename_app, occurrences, occurrences, occurrencesAll_eq_flatMap, occurrencesAll_eq_flatMap,
      List.map_flatMap, List.flatMap_map]
    exact List.flatMap_congr ih

theorem mem_occurrences_rename {v : TyVar} (hρ : Function.Injective ρ) :
    ρ v ∈ (t.rename ρ).occurrences ↔ v ∈ t.occurrences := by
  rw [occurrences_rename, List.mem_map_of_injective hρ]

theorem Corresponds.exists_rename {β : TyVar → TyVar → Prop} {u : Ty} (hβ : Relator.RightUnique β)
    (h : t.Corresponds β u) : ∃ ρ, u = t.rename ρ ∧ ∀ v ∈ t.occurrences, β v (ρ v) := by
  choose! ρ hρ using fun v (hv : v ∈ t.occurrences) => h.exists_right hv
  have hrename : (t.subst Ty.var).Corresponds β (t.rename ρ) := by
    refine (refl (β := Eq) h.wellFormed_left fun v _ => rfl).subst ?_
    rintro v hv _ - rfl
    exact .var (hρ v hv).2
  rw [subst_var] at hrename
  exact ⟨ρ, rightUnique hβ h hrename, fun v hv => (hρ v hv).2⟩

/-! ### Written types -/

theorem isArrow_rename (ρ : TyVar → TyVar) (t : Ty) : (t.rename ρ).isArrow = t.isArrow := by
  cases t with
  | var v => rfl
  | alien a => rfl
  | app con args =>
    rw [rename_app]
    match args with
    | [] | [_] | [_, _] | _ :: _ :: _ :: _ => rfl

theorem arity?_rename (ρ : TyVar → TyVar) (t : Ty) : (t.rename ρ).arity? = t.arity? := by
  cases t with
  | var v => rfl
  | alien a => rfl
  | app con args => simp [arity?]

section Written
variable {name name' : TyVar → String} {ts : List Ty}

theorem sidesText_rename
    (h : ∀ t ∈ ts, ∀ parens, (t.rename ρ).textWith name' parens = t.textWith name parens) :
    sidesText name' (ts.map (rename ρ)) = sidesText name ts := by
  induction ts with
  | nil => rfl
  | cons t ts ih =>
    rw [List.map_cons, sidesText, sidesText, List.isEmpty_map, isArrow_rename, h t List.mem_cons_self,
      h t List.mem_cons_self, ih fun u hu => h u (List.mem_cons_of_mem t hu)]

theorem argsText_rename
    (h : ∀ t ∈ ts, ∀ parens, (t.rename ρ).textWith name' parens = t.textWith name parens) :
    argsText name' (ts.map (rename ρ)) = argsText name ts := by
  induction ts with
  | nil => rfl
  | cons t ts ih =>
    rw [List.map_cons, argsText, argsText, arity?_rename, h t List.mem_cons_self,
      ih fun u hu => h u (List.mem_cons_of_mem t hu)]

theorem textWith_rename (h : ∀ v ∈ t.occurrences, name' (ρ v) = name v) (parens : Bool) :
    (t.rename ρ).textWith name' parens = t.textWith name parens := by
  induction t generalizing parens with
  | var v => exact h v (mem_occurrences_var.2 rfl)
  | alien a => rfl
  | app con args ih =>
    have hargs : ∀ t ∈ args, ∀ parens, (t.rename ρ).textWith name' parens = t.textWith name parens :=
      fun t ht => ih t ht fun v hv => h v (mem_occurrences_app.2 ⟨t, ht, hv⟩)
    rw [rename_app, textWith, textWith, sidesText_rename hargs, argsText_rename hargs,
      List.length_map, List.isEmpty_map]

end Written

end Ty

namespace VarSet
variable {ρ : TyVar → TyVar} {s : VarSet} {x : TyVar}

/-- The set of the renamed members. -/
def map (ρ : TyVar → TyVar) (s : VarSet) : VarSet := .ofList (s.toList.map ρ)

@[simp] theorem mem_map : x ∈ s.map ρ ↔ ∃ v ∈ s, ρ v = x := by
  rw [map, mem_ofList, List.mem_map]
  rfl

theorem size_ofList {l : List TyVar} (h : l.Nodup) : (ofList l).size = l.length :=
  Nat.le_antisymm ((ofList l).nodup.length_le_of_subset fun _ hv => mem_ofList.1 hv)
    (h.length_le_of_subset fun _ hv => mem_ofList.2 hv)

theorem size_map (h : Set.InjOn ρ {v | v ∈ s}) : (s.map ρ).size = s.size := by
  rw [map, size_ofList (List.Nodup.map_on (fun v hv w hw e => h hv hw e) s.nodup), List.length_map]
  rfl

theorem map_id (s : VarSet) : s.map id = s := by
  ext v
  simp

end VarSet

namespace Scheme
variable {s : Scheme} {ρ σ : TyVar → TyVar} {v : TyVar}

/-- Renames the quantified variables of a scheme together with the free ones. -/
def rename (ρ : TyVar → TyVar) (s : Scheme) : Scheme := ⟨s.vars.map ρ, s.body.rename ρ⟩

/-- The renaming keeps the variables of the scheme apart. -/
abbrev Apart (s : Scheme) (ρ : TyVar → TyVar) : Prop := Set.InjOn ρ {v | s.Mentions v}

/-- `t` is `s` with the free variables renamed by `r`. Quantified variables may be renamed as well,
and where `r` takes a free variable to a quantified one they have to be. -/
def Renamed (r : TyVar → TyVar) (s t : Scheme) : Prop :=
  ∃ ρ, s.Apart ρ ∧ (∀ v ∈ s.free, ρ v = r v) ∧ t = s.rename ρ

theorem rename_id (s : Scheme) : s.rename id = s := by
  rw [rename, VarSet.map_id, Ty.rename_id]

theorem Apart.mem_map (hρ : s.Apart ρ) (hv : s.Mentions v) : ρ v ∈ s.vars.map ρ ↔ v ∈ s.vars := by
  rw [VarSet.mem_map]
  constructor
  · rintro ⟨w, hw, hwv⟩
    exact hρ (.inl hw) hv hwv ▸ hw
  · exact fun hv => ⟨v, hv, rfl⟩

theorem Apart.size_map (hρ : s.Apart ρ) : (s.vars.map ρ).size = s.vars.size :=
  VarSet.size_map (hρ.mono fun _ => .inl)

/-! ### Equivalence -/

/-- Renamings that agree on the free variables lead to equivalent schemes. -/
theorem equivalent_rename (hs : s.body.WellFormed) (hρ : s.Apart ρ) (hσ : s.Apart σ)
    (hfree : ∀ v ∈ s.free, ρ v = σ v) : (s.rename ρ).equivalent (s.rename σ) = true := by
  refine equivalent_iff.2 ⟨hρ.size_map.trans hσ.size_map.symm, ?_⟩
  -- the two new names of a quantified variable belong together
  refine ⟨fun x y => ∃ v ∈ s.vars, ρ v = x ∧ σ v = y, ⟨?_, ?_⟩, ?_⟩
  · rintro _ _ _ ⟨v, hv, rfl, rfl⟩ ⟨w, hw, rfl, he⟩
    rw [hσ (.inl hw) (.inl hv) he]
  · rintro _ _ _ ⟨v, hv, rfl, rfl⟩ ⟨w, hw, he, rfl⟩
    rw [hρ (.inl hw) (.inl hv) he]
  · refine (Ty.Corresponds.refl (β := Eq) hs fun v _ => rfl).subst ?_
    rintro v hv _ - rfl
    by_cases hq : v ∈ s.vars
    · exact .var (.inl ⟨(hρ.mem_map (.inr hv)).2 hq, (hσ.mem_map (.inr hv)).2 hq, v, hq, rfl, rfl⟩)
    · exact .var (.inr ⟨mt (hρ.mem_map (.inr hv)).1 hq, mt (hσ.mem_map (.inr hv)).1 hq,
        hfree v (mem_free.2 ⟨hv, hq⟩)⟩)

/-! ### Written schemes -/

theorem mem_order : v ∈ s.order ↔ v ∈ s.vars := by
  rw [order, List.mem_eraseDups, List.mem_append, List.mem_filter]
  simp [VarSet.mem_def]

theorem nodup_order (s : Scheme) : s.order.Nodup := nodup_eraseDups _

theorem length_order (s : Scheme) : s.order.length = s.vars.size :=
  Nat.le_antisymm (s.nodup_order.length_le_of_subset fun _ hv => mem_order.1 hv)
    (s.vars.nodup.length_le_of_subset fun _ hv => mem_order.2 hv)

/-- What stands in front of the body of a scheme that quantifies `n` variables. -/
def headText (n : Nat) : String := if n = 0 then "" else "forall" ++ namesText n ++ ". "

theorem isMono_iff : s.isMono = true ↔ s.vars.size = 0 := by
  rw [isMono, List.isEmpty_iff, VarSet.size, List.length_eq_zero_iff]

theorem nameIn_of_mem {l : List TyVar} (h : v ∈ l) : nameIn l v = TyVar.name (l.idxOf v) := by
  cases hi : l.idxOf? v with
  | none => exact absurd h (List.idxOf?_eq_none_iff.1 hi)
  | some i => rw [nameIn, List.idxOf_eq_getD_idxOf?, hi, Option.getD_some]

theorem nameIn_of_not_mem {l : List TyVar} (h : v ∉ l) : nameIn l v = v.text := by
  rw [nameIn, List.idxOf?_eq_none_iff.2 h]

/-- A scheme that quantifies nothing is written like the others, with nothing in front. -/
theorem text_eq (s : Scheme) :
    s.text = headText s.vars.size ++ s.body.textWith (nameIn s.order) false := by
  rw [text, headText, s.length_order]
  by_cases h : s.vars.size = 0
  · have horder : s.order = [] := List.length_eq_zero_iff.1 (s.length_order.trans h)
    rw [if_pos (isMono_iff.2 h), if_pos h, String.empty_append, horder]
    rfl
  · rw [if_neg (mt isMono_iff.1 h), if_neg h]

/-- The place of a variable that occurs in the body does not hang on those that do not occur. -/
theorem idxOf_order (hv : v ∈ s.body.occurrences) (hq : v ∈ s.vars) :
    s.order.idxOf v = (s.body.occurrences.filter (· ∈ s.vars)).eraseDups.idxOf v := by
  rw [order, List.eraseDups_append, List.idxOf_append_of_mem]
  exact List.mem_eraseDups.2 (List.mem_filter.2 ⟨hv, decide_eq_true hq⟩)

section Text
variable {t : Scheme}

theorem idxOf_order_rename (hbody : t.body = s.body.rename ρ)
    (hvars : ∀ v ∈ s.body.occurrences, ρ v ∈ t.vars ↔ v ∈ s.vars)
    (hρ : Set.InjOn ρ {v | v ∈ s.body.occurrences}) (hv : v ∈ s.body.occurrences) (hq : v ∈ s.vars) :
    t.order.idxOf (ρ v) = s.order.idxOf v := by
  have hoccs : t.body.occurrences = s.body.occurrences.map ρ := by rw [hbody, Ty.occurrences_rename]
  have hfilter : t.body.occurrences.filter (· ∈ t.vars) =
      (s.body.occurrences.filter (· ∈ s.vars)).map ρ := by
    rw [hoccs, List.filter_map]
    refine congrArg (List.map ρ) (List.filter_congr fun w hw => ?_)
    simp only [Function.comp_apply, hvars w hw]
  have hsub : ∀ w ∈ s.body.occurrences.filter (· ∈ s.vars), w ∈ s.body.occurrences :=
    fun w hw => List.mem_of_mem_filter hw
  rw [idxOf_order (hoccs ▸ List.mem_map_of_mem hv) ((hvars v hv).2 hq), idxOf_order hv hq, hfilter,
    eraseDups_map fun w hw x hx => hρ (hsub w hw) (hsub x hx)]
  exact idxOf_map fun w hw he => hρ (hsub w (List.mem_eraseDups.1 hw)) hv he

/-- The written form shows neither which numbers the quantified variables have nor, of those that do
not occur in the body, more than how many there are. -/
theorem text_eq_of_rename (hsize : t.vars.size = s.vars.size) (hbody : t.body = s.body.rename ρ)
    (hvars : ∀ v ∈ s.body.occurrences, ρ v ∈ t.vars ↔ v ∈ s.vars)
    (hρ : Set.InjOn ρ {v | v ∈ s.body.occurrences}) (hfree : ∀ v ∈ s.free, ρ v = v) :
    t.text = s.text := by
  have hname : ∀ v ∈ s.body.occurrences, nameIn t.order (ρ v) = nameIn s.order v := by
    intro v hv
    by_cases hq : v ∈ s.vars
    · rw [nameIn_of_mem (mem_order.2 ((hvars v hv).2 hq)), nameIn_of_mem (mem_order.2 hq),
        idxOf_order_rename hbody hvars hρ hv hq]
    · have hq' : ρ v ∉ t.order := fun h => hq ((hvars v hv).1 (mem_order.1 h))
      rw [nameIn_of_not_mem hq', nameIn_of_not_mem fun h => hq (mem_order.1 h),
        hfree v (mem_free.2 ⟨hv, hq⟩)]
  rw [text_eq, text_eq, hsize, hbody, Ty.textWith_rename hname]

theorem text_rename (hρ : s.Apart ρ) (hfree : ∀ v ∈ s.free, ρ v = v) :
    (s.rename ρ).text = s.text :=
  text_eq_of_rename hρ.size_map rfl (fun _ hv => hρ.mem_map (.inr hv)) (hρ.mono fun _ => .inr) hfree

end Text

end Scheme

end LetPoly
