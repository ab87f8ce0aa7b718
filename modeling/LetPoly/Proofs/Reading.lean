import LetPoly.Ty.Subst

/-!
# Substitutions and readings of types

The laws of `Ty.subst`, and what an equation between types can mean. `Reading` collects what
unification relies on when it takes an equation apart: an application is read from its parts and
can be told from them, and is read as something larger than each of them. Substituting types for
variables is one reading (`Reading.ofSubst`); the types of the declarative system are another. What
is proved of unification is proved once, for every reading.
-/

namespace LetPoly

namespace Ty
variable {f g : TyVar → Ty} {t u : Ty} {v : TyVar}

/-! ### Laws of substitution -/

theorem subst_subst (f g : TyVar → Ty) (t : Ty) :
    (t.subst f).subst g = t.subst fun v => (f v).subst g := by
  induction t with
  | var v => rfl
  | alien a => rfl
  | app con args ih =>
    rw [subst_app, subst_app, subst_app, List.map_map]
    exact congrArg (app con) (List.map_congr_left ih)

theorem replace_subst (f : TyVar → Ty) (t : Ty) (v : TyVar) (u : Ty) :
    (t.subst f).replace v u = t.subst fun w => (f w).replace v u := by
  simp only [replace_eq_subst, subst_subst]

/-- Only a variable can become a variable. -/
theorem exists_of_subst_eq_var (h : t.subst f = var v) : ∃ w, t = var w ∧ f w = var v := by
  cases t with
  | var w => exact ⟨w, rfl, h⟩
  | app con args =>
    rw [subst_app] at h
    cases h
  | alien a => cases h

theorem replace_of_not_mem (h : v ∉ t.occurrences) : t.replace v u = t := by
  rw [replace_eq_subst, subst_congr (g := var), subst_var]
  intro w hw
  have hne : w ≠ v := fun e => h (e ▸ hw)
  rw [if_neg hne]

@[simp] theorem mem_occurrences_var {x : TyVar} : x ∈ (var v).occurrences ↔ x = v :=
  List.mem_singleton

theorem mem_occurrences_app {con : String} {args : List Ty} {x : TyVar} :
    x ∈ (app con args).occurrences ↔ ∃ t ∈ args, x ∈ t.occurrences :=
  mem_occurrencesAll

theorem mem_occurrences_arrow {a b : Ty} {x : TyVar} :
    x ∈ (arrow a b).occurrences ↔ x ∈ a.occurrences ∨ x ∈ b.occurrences := by
  rw [arrow, mem_occurrences_app]
  simp

/-! ### Well-formed types -/

theorem alienAmong?_eq_none {ts : List Ty} :
    alienAmong? ts = none ↔ ∀ t ∈ ts, t.WellFormed := by
  induction ts with
  | nil => simp [alienAmong?]
  | cons t ts ih => simp [alienAmong?, ih, WellFormed]

theorem wellFormed_var (v : TyVar) : (var v).WellFormed := rfl

theorem wellFormed_app {con : String} {args : List Ty} :
    (app con args).WellFormed ↔ ∀ t ∈ args, t.WellFormed :=
  alienAmong?_eq_none

theorem wellFormed_arrow {a b : Ty} : (arrow a b).WellFormed ↔ a.WellFormed ∧ b.WellFormed := by
  simp [arrow, wellFormed_app]

theorem not_wellFormed_alien (a : Alien) : ¬ (alien a).WellFormed := nofun

theorem wellFormed_subst_iff :
    (t.subst f).WellFormed ↔ t.WellFormed ∧ ∀ v ∈ t.occurrences, (f v).WellFormed := by
  induction t with
  | var v => simp [subst, wellFormed_var]
  | alien a => simp [subst, not_wellFormed_alien]
  | app con args ih =>
    simp only [subst_app, wellFormed_app, List.mem_map, mem_occurrences_app]
    constructor
    · intro h
      have hargs : ∀ t ∈ args, t.WellFormed ∧ ∀ v ∈ t.occurrences, (f v).WellFormed :=
        fun t ht => (ih t ht).1 (h _ ⟨t, ht, rfl⟩)
      refine ⟨fun t ht => (hargs t ht).1, ?_⟩
      rintro v ⟨t, ht, hv⟩
      exact (hargs t ht).2 v hv
    · rintro ⟨hargs, hf⟩ _ ⟨t, ht, rfl⟩
      exact (ih t ht).2 ⟨hargs t ht, fun v hv => hf v ⟨t, ht, hv⟩⟩

theorem WellFormed.replace (ht : t.WellFormed) (hu : u.WellFormed) : (t.replace v u).WellFormed := by
  rw [replace_eq_subst]
  refine wellFormed_subst_iff.2 ⟨ht, fun w _ => ?_⟩
  split
  · exact hu
  · exact wellFormed_var w

theorem checked_eq_ok : t.checked = .ok u ↔ t.WellFormed ∧ t = u := by
  unfold checked WellFormed
  cases t.alien? with
  | none => simp
  | some a => simp

end Ty

/-- A meaning of types in `D`, free in the constructors: applications mean the same only if they
have the same constructor and arguments of the same meaning, and nothing means a part of itself. -/
structure Reading (D : Type) where
  read : Ty → D
  weight : D → Nat
  app_inj {c d : String} {ts us : List Ty} :
    read (.app c ts) = read (.app d us) ↔ c = d ∧ ts.map read = us.map read
  weight_lt {c : String} {ts : List Ty} {t : Ty} :
    t ∈ ts → weight (read t) < weight (read (.app c ts))

namespace Reading
variable {D : Type} {R : Reading D} {t u : Ty} {v : TyVar}

theorem read_subst {f : TyVar → Ty} (h : ∀ v ∈ t.occurrences, R.read (f v) = R.read (.var v)) :
    R.read (t.subst f) = R.read t := by
  induction t with
  | var v => exact h v (Ty.mem_occurrences_var.2 rfl)
  | alien a => rfl
  | app con args ih =>
    rw [Ty.subst_app, R.app_inj, List.map_map]
    exact ⟨rfl, List.map_congr_left fun t ht =>
      ih t ht fun v hv => h v (Ty.mem_occurrences_app.2 ⟨t, ht, hv⟩)⟩

theorem read_replace (h : R.read (.var v) = R.read u) : R.read (t.replace v u) = R.read t := by
  rw [Ty.replace_eq_subst]
  refine read_subst fun w _ => ?_
  split
  · rename_i hw; rw [hw, h]
  · rfl

theorem weight_le (h : v ∈ t.occurrences) : R.weight (R.read (.var v)) ≤ R.weight (R.read t) := by
  induction t with
  | var w =>
    obtain rfl := Ty.mem_occurrences_var.1 h
    exact Nat.le_refl _
  | alien a => simp [Ty.occurrences] at h
  | app con args ih =>
    obtain ⟨t, ht, hv⟩ := Ty.mem_occurrences_app.1 h
    exact Nat.le_trans (ih t ht hv) (Nat.le_of_lt (R.weight_lt ht))

/-- No reading lets a variable mean a type that it occurs in, except for the variable itself. -/
theorem ne_of_occurs (h : v ∈ t.occurrences) (hne : t ≠ .var v) : R.read (.var v) ≠ R.read t := by
  intro e
  cases t with
  | var w => exact hne (by rw [Ty.mem_occurrences_var.1 h])
  | alien a => simp [Ty.occurrences] at h
  | app con args =>
    obtain ⟨t, ht, hv⟩ := Ty.mem_occurrences_app.1 h
    have hle := R.weight_le hv
    have hlt := R.weight_lt (c := con) ht
    rw [← e] at hlt
    omega

end Reading

theorem Ty.size_le_sizeAll {t : Ty} {ts : List Ty} (h : t ∈ ts) : t.size ≤ sizeAll ts := by
  induction ts with
  | nil => exact absurd h List.not_mem_nil
  | cons u us ih =>
    rw [sizeAll]
    rcases List.mem_cons.1 h with rfl | h
    · omega
    · have := ih h; omega

theorem Ty.subst_app_inj {θ : TyVar → Ty} {c d : String} {ts us : List Ty} :
    (app c ts).subst θ = (app d us).subst θ ↔ c = d ∧ ts.map (subst θ) = us.map (subst θ) := by
  rw [subst_app, subst_app, app.injEq]

theorem Ty.size_subst_lt {θ : TyVar → Ty} {c : String} {ts : List Ty} {t : Ty} (h : t ∈ ts) :
    (t.subst θ).size < ((app c ts).subst θ).size := by
  have := size_le_sizeAll (List.mem_map_of_mem (f := subst θ) h)
  rw [subst_app, size]
  omega

/-- The reading in which a variable means the type that is put in its place. -/
def Reading.ofSubst (θ : TyVar → Ty) : Reading Ty where
  read := Ty.subst θ
  weight := Ty.size
  app_inj := Ty.subst_app_inj
  weight_lt := Ty.size_subst_lt

end LetPoly
