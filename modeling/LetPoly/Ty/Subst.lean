import LetPoly.Ty.Basic

/-!
# Substitution

`Ty.subst` replaces all variables of a type at once, by any function from variables to types.
Replacing one variable and applying a finite substitution are traversals of their own, and each is a
case of `subst` (`replace_eq_subst`, `substitute_eq_subst`). Aliens stay where they are. `replace?` and
`substitute?` are the same operations for callers that want the leftmost alien reported instead.
-/

namespace LetPoly

namespace Ty

mutual
/-- Replaces every variable `v` by `f v`. -/
def subst (f : TyVar → Ty) : Ty → Ty
  | .var v => f v
  | .app con args => .app con (substAll f args)
  | .alien a => .alien a
/-- Replaces the variables of an argument list. -/
def substAll (f : TyVar → Ty) : List Ty → List Ty
  | [] => []
  | t :: ts => subst f t :: substAll f ts
end

@[simp] theorem substAll_eq_map (f : TyVar → Ty) (ts : List Ty) :
    substAll f ts = ts.map (subst f) := by
  induction ts with
  | nil => rfl
  | cons t ts ih => simp [substAll, ih]

@[simp] theorem subst_app (f : TyVar → Ty) (con : String) (args : List Ty) :
    (app con args).subst f = app con (args.map (subst f)) := by
  rw [subst, substAll_eq_map]

theorem subst_var (t : Ty) : t.subst var = t := by
  induction t with
  | var v => rfl
  | alien a => rfl
  | app con args ih => rw [subst_app, List.map_congr_left ih, List.map_id']

/-- Only the values at the variables of the type count. -/
theorem subst_congr {f g : TyVar → Ty} {t : Ty} (h : ∀ v ∈ t.occurrences, f v = g v) :
    t.subst f = t.subst g := by
  induction t with
  | var v => exact h v (by simp [occurrences])
  | alien a => rfl
  | app con args ih =>
    simp only [subst, substAll_eq_map]
    congr 1
    refine List.map_congr_left fun t ht => ih t ht fun v hv => h v ?_
    exact mem_occurrencesAll.mpr ⟨t, ht, hv⟩

theorem mem_occurrences_subst {f : TyVar → Ty} {x : TyVar} {t : Ty} :
    x ∈ (t.subst f).occurrences ↔ ∃ v ∈ t.occurrences, x ∈ (f v).occurrences := by
  induction t with
  | var v => simp [subst, occurrences]
  | alien a => simp [subst, occurrences]
  | app con args ih =>
    simp only [subst, substAll_eq_map, occurrences, mem_occurrencesAll, List.mem_map]
    constructor
    · rintro ⟨_, ⟨t, ht, rfl⟩, hx⟩
      obtain ⟨v, hv, hx⟩ := (ih t ht).mp hx
      exact ⟨v, ⟨t, ht, hv⟩, hx⟩
    · rintro ⟨v, ⟨t, ht, hv⟩, hx⟩
      exact ⟨_, ⟨t, ht, rfl⟩, (ih t ht).mpr ⟨v, hv, hx⟩⟩

/-! ### Replacing one variable -/

mutual
/-- Puts `u` in place of every occurrence of `v`. -/
def replace (t : Ty) (v : TyVar) (u : Ty) : Ty :=
  match t with
  | .var w => if w = v then u else .var w
  | .app con args => .app con (replaceAll args v u)
  | .alien a => .alien a
/-- Puts `u` in place of every occurrence of `v` in an argument list. -/
def replaceAll (ts : List Ty) (v : TyVar) (u : Ty) : List Ty :=
  match ts with
  | [] => []
  | t :: ts => t.replace v u :: replaceAll ts v u
end

theorem replaceAll_eq_map (ts : List Ty) (v : TyVar) (u : Ty) :
    replaceAll ts v u = ts.map (·.replace v u) := by
  induction ts with
  | nil => rfl
  | cons t ts ih => rw [replaceAll, ih, List.map_cons]

theorem replace_eq_subst (t : Ty) (v : TyVar) (u : Ty) :
    t.replace v u = t.subst fun w => if w = v then u else .var w := by
  induction t with
  | var w => rw [replace, subst]
  | alien a => rw [replace, subst]
  | app con args ih => rw [replace, replaceAll_eq_map, subst_app, List.map_congr_left ih]

theorem mem_occurrences_replace {t u : Ty} {v x : TyVar} :
    x ∈ (t.replace v u).occurrences ↔
      (v ∈ t.occurrences ∧ x ∈ u.occurrences) ∨ (x ∈ t.occurrences ∧ x ≠ v) := by
  rw [replace_eq_subst, mem_occurrences_subst]
  constructor
  · rintro ⟨w, hw, hx⟩
    split at hx
    · rename_i h; subst h; exact .inl ⟨hw, hx⟩
    · rename_i h
      have : x = w := by simpa [occurrences] using hx
      subst this; exact .inr ⟨hw, h⟩
  · rintro (⟨hv, hx⟩ | ⟨hx, hne⟩)
    · exact ⟨v, hv, by simpa using hx⟩
    · exact ⟨x, hx, by simp [hne, occurrences]⟩

/-- Replaces `v` by `u`, or reports the leftmost alien of `t`. -/
def replace? (t : Ty) (v : TyVar) (u : Ty) : Except Alien Ty := do
  let t ← t.checked
  return t.replace v u

end Ty

/-! ### Finite substitutions -/

/-- A finite substitution. Of two entries for one variable the first counts. -/
abbrev Subst := List (TyVar × Ty)

namespace Subst

/-- What a substitution puts in place of a variable: the variable itself if it has no entry. -/
def apply (m : Subst) (v : TyVar) : Ty := (m.lookup v).getD (.var v)

/-- The substitution in which the last entry for a variable counts. -/
def ofEntries (entries : List (TyVar × Ty)) : Subst := entries.reverse

end Subst

namespace Ty

mutual
/-- Applies a finite substitution to all variables at once. -/
def substitute (t : Ty) (m : Subst) : Ty :=
  if m.isEmpty then t
  else
    match t with
    | .var v =>
      match m.lookup v with
      | some u => u
      | none => .var v
    | .app con args => .app con (substituteAll args m)
    | .alien a => .alien a
/-- Applies a finite substitution to an argument list. -/
def substituteAll (ts : List Ty) (m : Subst) : List Ty :=
  match ts with
  | [] => []
  | t :: ts => t.substitute m :: substituteAll ts m
end

theorem substituteAll_eq_map (ts : List Ty) (m : Subst) :
    substituteAll ts m = ts.map (·.substitute m) := by
  induction ts with
  | nil => rfl
  | cons t ts ih => rw [substituteAll, ih, List.map_cons]

theorem substitute_eq_subst (t : Ty) (m : Subst) : t.substitute m = t.subst m.apply := by
  cases m with
  | nil =>
    have happly : Subst.apply [] = var := rfl
    rw [happly, subst_var]
    unfold substitute
    rfl
  | cons e m =>
    induction t with
    | var v =>
      rw [substitute, subst, Subst.apply]
      cases List.lookup v (e :: m) <;> simp
    | alien a =>
      rw [substitute, subst]
      rfl
    | app con args ih =>
      rw [substitute, substituteAll_eq_map, subst_app, List.map_congr_left ih]
      rfl

/-- Applies a finite substitution, or reports the leftmost alien of `t`. The empty substitution
leaves everything as it is, so it has nothing to report. -/
def substitute? (t : Ty) (m : Subst) : Except Alien Ty :=
  if m.isEmpty then .ok t
  else do
    let t ← t.checked
    return t.substitute m

end Ty

end LetPoly
