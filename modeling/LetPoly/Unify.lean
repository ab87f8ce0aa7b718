import LetPoly.Aliases
import LetPoly.Ty.Printer

/-!
# Unification

Unification works through a list of equations from the front and records what it learns as
aliases. All equations in the list are canonical: when a variable is bound, it is replaced in the
equations that are left. So the list alone decides what happens next, and the work ends because a
binding takes a variable out of the equations for good and every other step makes them smaller.

A failure does not undo the aliases recorded on the way to it.
-/

namespace LetPoly

/-- Why types cannot be worked with. -/
inductive TypeError where
  /-- Two applications with different constructors or arities. -/
  | impossible (a b : Ty)
  /-- A variable that would have to stand for a type it occurs in. -/
  | recursive (t : Ty) (v : TyVar)
  /-- A variable that has an alias and still occurs in an equation. -/
  | rebound (v : TyVar)
  /-- An alien where a type was needed. -/
  | unexpected (a : Alien)
deriving DecidableEq, Repr

/-- The wording of a type error. -/
def TypeError.message : TypeError → String
  | .impossible a b => "cannot unify types '" ++ a.text ++ "' and '" ++ b.text ++ "'"
  | .recursive t v =>
    "unifying '" ++ t.text ++ "' and '" ++ v.text ++ "' would create a recursive type"
  | .rebound v => "type-variable " ++ v.text ++ " was aliased before canonicalization"
  | .unexpected a => "unexpected type " ++ a.label

/-- A list of equations between types. -/
abbrev Equations := List (Ty × Ty)

namespace Equations

/-- The variables of all equations. -/
def occurrences (eqs : Equations) : List TyVar :=
  eqs.flatMap fun e => e.1.occurrences ++ e.2.occurrences

/-- The set of the variables of all equations. -/
def vars (eqs : Equations) : VarSet := .ofList eqs.occurrences

/-- The number of nodes of all equations. -/
def size : Equations → Nat
  | [] => 0
  | (a, b) :: eqs => a.size + b.size + size eqs

/-- Replaces a variable in all equations. -/
def replace (eqs : Equations) (v : TyVar) (u : Ty) : Equations :=
  eqs.map fun e => (e.1.replace v u, e.2.replace v u)

theorem mem_vars {x : TyVar} {eqs : Equations} :
    x ∈ eqs.vars ↔ ∃ e ∈ eqs, x ∈ e.1.occurrences ∨ x ∈ e.2.occurrences := by
  simp [vars, occurrences]

theorem mem_vars_cons {x : TyVar} {a b : Ty} {eqs : Equations} :
    x ∈ vars ((a, b) :: eqs) ↔ x ∈ a.occurrences ∨ x ∈ b.occurrences ∨ x ∈ eqs.vars := by
  simp [vars, occurrences]

theorem mem_vars_append {x : TyVar} {e₁ e₂ : Equations} :
    x ∈ vars (e₁ ++ e₂) ↔ x ∈ e₁.vars ∨ x ∈ e₂.vars := by
  simp [vars, occurrences]

theorem mem_vars_replace {x v : TyVar} {u : Ty} {eqs : Equations} (h : x ∈ (eqs.replace v u).vars) :
    x ∈ u.occurrences ∨ (x ∈ eqs.vars ∧ x ≠ v) := by
  obtain ⟨_, he', hx⟩ := mem_vars.mp h
  obtain ⟨⟨a, b⟩, he, rfl⟩ := List.mem_map.mp he'
  rcases hx with hx | hx
  · rcases Ty.mem_occurrences_replace.mp hx with ⟨_, hx⟩ | ⟨hx, hne⟩
    · exact .inl hx
    · exact .inr ⟨mem_vars.mpr ⟨_, he, .inl hx⟩, hne⟩
  · rcases Ty.mem_occurrences_replace.mp hx with ⟨_, hx⟩ | ⟨hx, hne⟩
    · exact .inl hx
    · exact .inr ⟨mem_vars.mpr ⟨_, he, .inr hx⟩, hne⟩

theorem mem_vars_zip {x : TyVar} {ts us : List Ty} (h : x ∈ vars (ts.zip us)) :
    x ∈ Ty.occurrencesAll ts ∨ x ∈ Ty.occurrencesAll us := by
  obtain ⟨⟨a, b⟩, he, hx⟩ := mem_vars.mp h
  rw [Ty.mem_occurrencesAll, Ty.mem_occurrencesAll]
  exact hx.imp (fun hx => ⟨a, (List.of_mem_zip he).1, hx⟩) fun hx => ⟨b, (List.of_mem_zip he).2, hx⟩

theorem size_append (e₁ e₂ : Equations) : size (e₁ ++ e₂) = size e₁ + size e₂ := by
  induction e₁ with
  | nil => simp [size]
  | cons e e₁ ih => obtain ⟨a, b⟩ := e; simp only [List.cons_append, size, ih]; omega

theorem size_zip_le (ts us : List Ty) : size (ts.zip us) ≤ Ty.sizeAll ts + Ty.sizeAll us := by
  induction ts generalizing us with
  | nil => simp [size]
  | cons t ts ih =>
    cases us with
    | nil => simp [size]
    | cons u us =>
      have := ih us
      simp only [List.zip_cons_cons, size, Ty.sizeAll]
      omega

end Equations

/-- The variable on one side of an equation, the left one first, and the other side. -/
def orient : Ty → Ty → Option (TyVar × Ty)
  | .var v, b => some (v, b)
  | a, .var v => some (v, a)
  | _, _ => none

theorem orient_eq_some {a b t : Ty} {v : TyVar} (h : orient a b = some (v, t)) :
    (a = .var v ∧ b = t) ∨ (b = .var v ∧ a = t) := by
  unfold orient at h
  split at h <;> simp_all

/-- The order in which the equations get smaller: fewer variables, or no more variables and fewer
nodes. -/
theorem lex_of_le {m m' n n' : Nat} (hm : m ≤ m') (hn : n < n') :
    Prod.Lex (· < ·) (· < ·) (m, n) (m', n') := by
  rcases Nat.lt_or_eq_of_le hm with h | rfl
  · exact .left _ _ h
  · exact .right _ hn

namespace Aliases

/-- Works through canonical equations from the front, recording aliases. The first equation that
cannot hold ends the work; the aliases recorded before it stay. -/
def solve (A : Aliases) (eqs : Equations) : Aliases × Option TypeError :=
  match eqs with
  | [] => (A, none)
  | (a, b) :: rest =>
    if a = b then A.solve rest
    else
      match _hvar : orient a b with
      | some (v, t) =>
        if _hocc : t.occurs v then (A, some (.recursive t v))
        else if (A.lookup v).isSome then (A, some (.rebound v))
        else (A.record v t).solve (Equations.replace rest v t)
      | none =>
        match a, b with
        | .app con ts, .app con' us =>
          if con = con' ∧ ts.length = us.length then A.solve (ts.zip us ++ rest)
          else (A, some (.impossible (.app con ts) (.app con' us)))
        | a, b => (A, some (.impossible a b))
termination_by (eqs.vars.size, eqs.size)
decreasing_by
  · have hsize : Equations.size rest < Equations.size ((a, b) :: rest) := by
      have := a.size_pos
      simp only [Equations.size]; omega
    have hvars : (Equations.vars rest).size ≤ (Equations.vars ((a, b) :: rest)).size :=
      VarSet.size_le_of_subset fun x hx => Equations.mem_vars_cons.mpr (.inr (.inr hx))
    exact lex_of_le hvars hsize
  · refine Prod.Lex.left _ _ (VarSet.size_lt_of_subset (v := v) ?_ ?_ ?_)
    · intro x hx
      rw [Equations.mem_vars_cons]
      rcases Equations.mem_vars_replace hx with hx | ⟨hx, _⟩
      · rcases orient_eq_some _hvar with ⟨_, rfl⟩ | ⟨_, rfl⟩
        · exact .inr (.inl hx)
        · exact .inl hx
      · exact .inr (.inr hx)
    · rw [Equations.mem_vars_cons]
      rcases orient_eq_some _hvar with ⟨rfl, _⟩ | ⟨rfl, _⟩ <;> simp [Ty.occurrences]
    · intro hv
      rcases Equations.mem_vars_replace hv with hv | ⟨_, hne⟩
      · exact _hocc (Ty.occurs_iff_mem_occurrences.mpr hv)
      · exact hne rfl
  · have hsize : Equations.size (ts.zip us ++ rest) <
        Equations.size ((.app con ts, .app con' us) :: rest) := by
      have := Equations.size_zip_le ts us
      simp only [Equations.size_append, Equations.size, Ty.size]; omega
    refine lex_of_le (VarSet.size_le_of_subset fun x hx => ?_) hsize
    rw [Equations.mem_vars_cons]
    rcases Equations.mem_vars_append.mp hx with hx | hx
    · rcases Equations.mem_vars_zip hx with hx | hx
      · exact .inl hx
      · exact .inr (.inl hx)
    · exact .inr (.inr hx)

/-- Makes two types equal by recording aliases. -/
def unify (A : Aliases) (a b : Ty) : Aliases × Option TypeError :=
  A.solve [(A.canonicalize a, A.canonicalize b)]

/-- Makes two types equal, or reports the leftmost alien of their canonical forms without
recording anything. -/
def unify? (A : Aliases) (a b : Ty) : Aliases × Option TypeError :=
  match (A.canonicalize a).alien? <|> (A.canonicalize b).alien? with
  | some x => (A, some (.unexpected x))
  | none => A.unify a b

end Aliases

end LetPoly
