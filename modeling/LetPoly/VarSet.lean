import LetPoly.TyVar

/-!
# Finite sets of type variables

A set is kept as the strictly ascending list of its members, so two sets are equal exactly when
they have the same members (`VarSet.ext`), and listing a set needs no sorting. Each operation
comes with one lemma that says what it does to membership.
-/

namespace LetPoly

/-- A finite set of type variables: its members in strictly ascending order. -/
structure VarSet where
  toList : List TyVar
  ascending : toList.Pairwise (· < ·)
deriving DecidableEq

namespace VarSet

instance : Membership TyVar VarSet := ⟨fun s v => v ∈ s.toList⟩

theorem mem_def {v : TyVar} {s : VarSet} : v ∈ s ↔ v ∈ s.toList := Iff.rfl

instance (v : TyVar) (s : VarSet) : Decidable (v ∈ s) :=
  inferInstanceAs (Decidable (v ∈ s.toList))

instance : EmptyCollection VarSet := ⟨⟨[], .nil⟩⟩

instance : Inhabited VarSet := ⟨∅⟩

/-- The number of members. -/
def size (s : VarSet) : Nat := s.toList.length

/-! ### Adding one member -/

/-- Puts `v` at its place in an ascending list that may hold it already. -/
def place (v : TyVar) : List TyVar → List TyVar
  | [] => [v]
  | w :: ws => if v < w then v :: w :: ws else if v = w then w :: ws else w :: place v ws

theorem mem_place {v x : TyVar} {l : List TyVar} : x ∈ place v l ↔ x = v ∨ x ∈ l := by
  induction l with
  | nil => simp [place]
  | cons w ws ih =>
    unfold place
    split
    · simp
    · split
      · rename_i h; subst h; simp
      · simp [ih]; grind

theorem place_ascending {v : TyVar} {l : List TyVar} (h : l.Pairwise (· < ·)) :
    (place v l).Pairwise (· < ·) := by
  induction l with
  | nil => simp [place]
  | cons w ws ih =>
    obtain ⟨hw, hws⟩ := List.pairwise_cons.mp h
    unfold place
    split
    · rename_i hvw
      refine List.pairwise_cons.mpr ⟨fun x hx => ?_, h⟩
      rcases List.mem_cons.mp hx with rfl | hx
      · exact hvw
      · exact Int64.lt_trans hvw (hw x hx)
    · split
      · exact h
      · rename_i hvw hne
        refine List.pairwise_cons.mpr ⟨fun x hx => ?_, ih hws⟩
        rcases mem_place.mp hx with rfl | hx
        · exact Int64.lt_of_le_of_ne (Int64.not_lt.mp hvw) (Ne.symm hne)
        · exact hw x hx

/-- Puts `v` into the set, whether it is there already or not. -/
def put (v : TyVar) (s : VarSet) : VarSet := ⟨place v s.toList, place_ascending s.ascending⟩

@[simp] theorem mem_put {v x : TyVar} {s : VarSet} : x ∈ s.put v ↔ x = v ∨ x ∈ s := mem_place

/-- The set with `v` added. A set that has `v` is returned as it is. -/
def insert (v : TyVar) (s : VarSet) : VarSet := if v ∈ s then s else s.put v

@[simp] theorem mem_insert {v x : TyVar} {s : VarSet} : x ∈ s.insert v ↔ x = v ∨ x ∈ s := by
  unfold insert
  split
  · rename_i h
    exact ⟨.inr, fun hx => hx.elim (fun e => e ▸ h) id⟩
  · exact mem_put

@[simp] theorem not_mem_empty (v : TyVar) : v ∉ (∅ : VarSet) := List.not_mem_nil

/-! ### Taking members away -/

/-- The members that satisfy `p`. -/
def filter (p : TyVar → Bool) (s : VarSet) : VarSet :=
  ⟨s.toList.filter p, s.ascending.filter p⟩

@[simp] theorem mem_filter {p : TyVar → Bool} {x : TyVar} {s : VarSet} :
    x ∈ s.filter p ↔ x ∈ s ∧ p x = true :=
  List.mem_filter

/-- The set without `v`. A set that lacks `v` is returned as it is. -/
def erase (s : VarSet) (v : TyVar) : VarSet := if v ∈ s then s.filter (· ≠ v) else s

@[simp] theorem mem_erase {v x : TyVar} {s : VarSet} : x ∈ s.erase v ↔ x ∈ s ∧ x ≠ v := by
  unfold erase
  split
  · simp
  · rename_i h
    exact ⟨fun hx => ⟨hx, fun e => h (e ▸ hx)⟩, And.left⟩

/-! ### Sets from lists, union, difference -/

/-- Adds the members of a list one by one. -/
def insertAll (s : VarSet) (vs : List TyVar) : VarSet := vs.foldl (fun s v => s.insert v) s

@[simp] theorem mem_insertAll {x : TyVar} {s : VarSet} {vs : List TyVar} :
    x ∈ s.insertAll vs ↔ x ∈ s ∨ x ∈ vs := by
  induction vs generalizing s with
  | nil => simp [insertAll]
  | cons v vs ih =>
    have : s.insertAll (v :: vs) = (s.insert v).insertAll vs := rfl
    rw [this, ih, mem_insert, List.mem_cons]
    grind

/-- Takes the members of a list away one by one. -/
def eraseAll (s : VarSet) (vs : List TyVar) : VarSet := vs.foldl erase s

@[simp] theorem mem_eraseAll {x : TyVar} {s : VarSet} {vs : List TyVar} :
    x ∈ s.eraseAll vs ↔ x ∈ s ∧ x ∉ vs := by
  induction vs generalizing s with
  | nil => simp [eraseAll]
  | cons v vs ih =>
    have : s.eraseAll (v :: vs) = (s.erase v).eraseAll vs := rfl
    rw [this, ih, mem_erase, List.mem_cons]
    grind

/-- The set of the members of a list. -/
def ofList (vs : List TyVar) : VarSet := vs.foldl (fun s v => s.put v) ∅

theorem mem_foldl_put {x : TyVar} {s : VarSet} {vs : List TyVar} :
    x ∈ vs.foldl (fun s v => s.put v) s ↔ x ∈ s ∨ x ∈ vs := by
  induction vs generalizing s with
  | nil => simp
  | cons v vs ih =>
    rw [List.foldl_cons, ih, mem_put, List.mem_cons]
    grind

@[simp] theorem mem_ofList {x : TyVar} {vs : List TyVar} : x ∈ ofList vs ↔ x ∈ vs := by
  rw [ofList, mem_foldl_put]
  simp

/-- The members of both sets. Those of the smaller one are added to the larger one. -/
def union (s o : VarSet) : VarSet :=
  if s.size < o.size then o.insertAll s.toList else s.insertAll o.toList

instance : Union VarSet := ⟨union⟩

@[simp] theorem mem_union {x : TyVar} {s o : VarSet} : x ∈ s ∪ o ↔ x ∈ s ∨ x ∈ o := by
  change x ∈ s.union o ↔ _
  unfold union
  split
  · exact mem_insertAll.trans or_comm
  · exact mem_insertAll

instance : SDiff VarSet := ⟨fun s o => s.eraseAll o.toList⟩

@[simp] theorem mem_sdiff {x : TyVar} {s o : VarSet} : x ∈ s \ o ↔ x ∈ s ∧ x ∉ o := mem_eraseAll

/-! ### Equality and size -/

/-- Whether two sets are of the same size and all members of the first are in the second. -/
def equal (s o : VarSet) : Bool := s.size == o.size && s.toList.all (· ∈ o)

theorem nodup (s : VarSet) : s.toList.Nodup := by
  refine List.Pairwise.imp ?_ s.ascending
  rintro v _ h rfl
  exact Int64.lt_irrefl h

/-- Ascending lists with the same members are equal. -/
theorem eq_of_ascending {l m : List TyVar} (hl : l.Pairwise (· < ·)) (hm : m.Pairwise (· < ·))
    (h : ∀ v, v ∈ l ↔ v ∈ m) : l = m := by
  induction l generalizing m with
  | nil =>
    cases m with
    | nil => rfl
    | cons w ws => exact absurd ((h w).mpr (List.mem_cons_self ..)) List.not_mem_nil
  | cons v vs ih =>
    cases m with
    | nil => exact absurd ((h v).mp (List.mem_cons_self ..)) List.not_mem_nil
    | cons w ws =>
      obtain ⟨hv, hvs⟩ := List.pairwise_cons.mp hl
      obtain ⟨hw, hws⟩ := List.pairwise_cons.mp hm
      have hvw : v = w := by
        rcases List.mem_cons.mp ((h v).mp (List.mem_cons_self ..)) with e | hmem
        · exact e
        · rcases List.mem_cons.mp ((h w).mpr (List.mem_cons_self ..)) with e | hmem'
          · exact e.symm
          · exact absurd (Int64.lt_trans (hv w hmem') (hw v hmem)) Int64.lt_irrefl
      subst hvw
      congr 1
      refine ih hvs hws fun x => ⟨fun hx => ?_, fun hx => ?_⟩
      · rcases List.mem_cons.mp ((h x).mp (List.mem_cons_of_mem _ hx)) with rfl | hx'
        · exact absurd (hv x hx) Int64.lt_irrefl
        · exact hx'
      · rcases List.mem_cons.mp ((h x).mpr (List.mem_cons_of_mem _ hx)) with rfl | hx'
        · exact absurd (hw x hx) Int64.lt_irrefl
        · exact hx'

/-- A set is determined by its members. -/
@[ext] theorem ext {s o : VarSet} (h : ∀ v, v ∈ s ↔ v ∈ o) : s = o := by
  obtain ⟨l, hl⟩ := s
  obtain ⟨m, hm⟩ := o
  have : l = m := eq_of_ascending hl hm h
  subst this
  rfl

theorem size_le_of_subset {s o : VarSet} (h : ∀ v, v ∈ s → v ∈ o) : s.size ≤ o.size :=
  s.nodup.length_le_of_subset fun _ hv => h _ hv

/-- A set that lacks a member of a larger one is smaller. -/
theorem size_lt_of_subset {s o : VarSet} {v : TyVar} (h : ∀ x, x ∈ s → x ∈ o) (hv : v ∈ o)
    (hn : v ∉ s) : s.size < o.size := by
  have hle : s.size ≤ (o.erase v).size :=
    size_le_of_subset fun x hx => mem_erase.mpr ⟨h x hx, fun e => hn (e ▸ hx)⟩
  have hlt : (o.erase v).size < o.size := by
    rw [erase, if_pos hv]
    refine Nat.lt_of_le_of_ne (List.length_filter_le ..) fun e => ?_
    have := List.length_filter_eq_length_iff.mp e v hv
    simp at this
  omega

end VarSet

end LetPoly
