import Mathlib.Data.Finset.Image
import LetPoly.Env
import LetPoly.Expr.Basic
import LetPoly.Proofs.Reading

/-!
# The declarative type system

The Damas–Milner system that inference is measured against: rules for variables, application,
abstraction and `let`, where `let` quantifies variables that are not free in the assumptions.

Its types are built over the integers as type variables. The variables that inference works with
are among them, but there are always more: the rule for `let` may need a variable that no assumption
mentions, however many an assumption does mention. Quantified occurrences are marked (`Slot`), so
that substituting for the free variables of a polytype passes them by and captures nothing.
-/

namespace LetPoly

/-! ### Types -/

/-- Types over the variables `V`. -/
inductive Mono (V : Type) where
  | var (v : V)
  | app (con : String) (args : List (Mono V))

namespace Mono
variable {V W U : Type} {f g : V → Mono W} {t : Mono V} {v : V} {w : W}

mutual
theorem indOne {motive : Mono V → Prop} (var : ∀ v, motive (.var v))
    (app : ∀ con args, (∀ t ∈ args, motive t) → motive (.app con args)) : ∀ t, motive t
  | .var v => var v
  | .app con args => app con args (indAll var app args)
theorem indAll {motive : Mono V → Prop} (var : ∀ v, motive (.var v))
    (app : ∀ con args, (∀ t ∈ args, motive t) → motive (.app con args)) :
    ∀ (ts : List (Mono V)), ∀ t ∈ ts, motive t
  | [], _, h => absurd h List.not_mem_nil
  | u :: us, t, h =>
    (List.mem_cons.1 h).elim (fun e => e ▸ indOne var app u) fun h => indAll var app us t h
end

/-- To prove something of every type, prove it of an application from its arguments. -/
@[induction_eliminator]
theorem ind {motive : Mono V → Prop} (var : ∀ v, motive (.var v))
    (app : ∀ con args, (∀ t ∈ args, motive t) → motive (.app con args)) (t : Mono V) : motive t :=
  indOne var app t

/-- The type of functions from `a` to `b`. -/
def arrow (a b : Mono V) : Mono V := .app Ty.arrowName [a, b]

mutual
/-- Replaces every variable `v` by `f v`. -/
def bind (f : V → Mono W) : Mono V → Mono W
  | .var v => f v
  | .app con args => .app con (bindAll f args)
def bindAll (f : V → Mono W) : List (Mono V) → List (Mono W)
  | [] => []
  | t :: ts => bind f t :: bindAll f ts
end

@[simp] theorem bindAll_eq_map (f : V → Mono W) (ts : List (Mono V)) :
    bindAll f ts = ts.map (bind f) := by
  induction ts with
  | nil => rfl
  | cons t ts ih => rw [bindAll, ih, List.map_cons]

@[simp] theorem bind_app (f : V → Mono W) (con : String) (args : List (Mono V)) :
    (app con args).bind f = .app con (args.map (bind f)) := by
  rw [bind, bindAll_eq_map]

/-- `v` is a variable of the type. -/
inductive Occurs (v : V) : Mono V → Prop
  | var : Occurs v (.var v)
  | app {con : String} {args : List (Mono V)} {t : Mono V} : t ∈ args → Occurs v t →
    Occurs v (.app con args)

@[simp] theorem occurs_var {x : V} : Occurs x (.var v) ↔ x = v :=
  ⟨fun h => by cases h; rfl, fun h => h ▸ .var⟩

theorem occurs_app {con : String} {args : List (Mono V)} :
    Occurs v (.app con args) ↔ ∃ t ∈ args, Occurs v t :=
  ⟨fun h => by cases h with | app ht hv => exact ⟨_, ht, hv⟩, fun ⟨_, ht, hv⟩ => .app ht hv⟩

theorem bind_congr (h : ∀ v, t.Occurs v → f v = g v) : t.bind f = t.bind g := by
  induction t with
  | var v => exact h v .var
  | app con args ih =>
    rw [bind_app, bind_app]
    exact congrArg (app con) (List.map_congr_left fun t ht => ih t ht fun v hv => h v (.app ht hv))

theorem bind_var (t : Mono V) : t.bind var = t := by
  induction t with
  | var v => rfl
  | app con args ih => rw [bind_app, List.map_congr_left ih, List.map_id']

theorem bind_bind (f : V → Mono W) (g : W → Mono U) (t : Mono V) :
    (t.bind f).bind g = t.bind fun v => (f v).bind g := by
  induction t with
  | var v => rfl
  | app con args ih =>
    rw [bind_app, bind_app, bind_app, List.map_map]
    exact congrArg (app con) (List.map_congr_left ih)

theorem occurs_bind : (t.bind f).Occurs w ↔ ∃ v, t.Occurs v ∧ (f v).Occurs w := by
  induction t with
  | var v => simp [bind]
  | app con args ih =>
    simp only [bind_app, occurs_app, List.mem_map]
    constructor
    · rintro ⟨_, ⟨t, ht, rfl⟩, hw⟩
      obtain ⟨v, hv, hw⟩ := (ih t ht).1 hw
      exact ⟨v, ⟨t, ht, hv⟩, hw⟩
    · rintro ⟨v, ⟨t, ht, hv⟩, hw⟩
      exact ⟨_, ⟨t, ht, rfl⟩, (ih t ht).2 ⟨v, hv, hw⟩⟩

theorem exists_bound (t : Mono Int) : ∃ k, ∀ v, t.Occurs v → v < k := by
  induction t with
  | var v => exact ⟨v + 1, fun w hw => by rw [occurs_var.1 hw]; exact Int.lt_succ v⟩
  | app con args ih =>
    simp only [occurs_app]
    clear con
    induction args with
    | nil => exact ⟨0, fun v ⟨_, ht, _⟩ => absurd ht List.not_mem_nil⟩
    | cons t ts ihs =>
      obtain ⟨k, hk⟩ := ih t List.mem_cons_self
      obtain ⟨l, hl⟩ := ihs fun u hu => ih u (List.mem_cons_of_mem _ hu)
      refine ⟨max k l, fun v ⟨u, hu, hv⟩ => ?_⟩
      rcases List.mem_cons.1 hu with rfl | hu
      · exact lt_max_of_lt_left (hk v hv)
      · exact lt_max_of_lt_right (hl v ⟨u, hu, hv⟩)

end Mono

/-! ### Polytypes -/

/-- A variable occurrence in a polytype. -/
inductive Slot where
  | free (v : Int)
  | bound (v : Int)

/-- Free variables stay, and quantified ones become what `m` says. -/
def Slot.fill (m : Int → Mono Int) : Slot → Mono Int
  | .free v => .var v
  | .bound v => m v

/-- A type in which the occurrences of quantified variables are marked. -/
abbrev Poly := Mono Slot

namespace Mono

/-- Quantifies the variables in `Q`. -/
def generalize (Q : Finset Int) (τ : Mono Int) : Poly :=
  τ.bind fun v => .var (if v ∈ Q then .bound v else .free v)

/-- The polytype that quantifies nothing. -/
def toPoly (τ : Mono Int) : Poly := τ.generalize ∅

end Mono

namespace Poly

/-- `τ` arises from putting types in place of the quantified variables. -/
def Instance (p : Poly) (τ : Mono Int) : Prop :=
  ∃ m : Int → Mono Int, τ = p.bind (Slot.fill m)

/-- `v` occurs in `p` and is not quantified there. -/
def Free (p : Poly) (v : Int) : Prop := p.Occurs (.free v)

variable {Q : Finset Int} {τ σ : Mono Int} {w : Int}

theorem instance_generalize : Instance (τ.generalize Q) σ ↔
    ∃ m : Int → Mono Int, σ = τ.bind fun v => if v ∈ Q then m v else .var v := by
  refine exists_congr fun m => ?_
  rw [Mono.generalize, Mono.bind_bind]
  refine Eq.congr_right (Mono.bind_congr fun v _ => ?_)
  by_cases hv : v ∈ Q <;> simp [hv, Mono.bind, Slot.fill]

theorem free_generalize : Free (τ.generalize Q) w ↔ τ.Occurs w ∧ w ∉ Q := by
  rw [Free, Mono.generalize, Mono.occurs_bind]
  constructor
  · rintro ⟨v, hv, hw⟩
    rw [Mono.occurs_var] at hw
    by_cases hQ : v ∈ Q
    · rw [if_pos hQ] at hw; cases hw
    · rw [if_neg hQ] at hw; cases hw; exact ⟨hv, hQ⟩
  · rintro ⟨hw, hQ⟩
    exact ⟨w, hw, by rw [if_neg hQ]; exact .var⟩

theorem instance_toPoly : Instance τ.toPoly σ ↔ σ = τ := by
  rw [Mono.toPoly, instance_generalize]
  simp only [Finset.notMem_empty, if_false, Mono.bind_var]
  exact ⟨fun ⟨_, h⟩ => h, fun h => ⟨.var, h⟩⟩

theorem free_toPoly : Free τ.toPoly w ↔ τ.Occurs w := by
  rw [Mono.toPoly, free_generalize]
  simp

end Poly

/-! ### Typing -/

/-- What is assumed about names, most recent first. -/
abbrev Assumptions := List (String × Poly)

namespace Assumptions
variable {Γ : Assumptions} {x y : String} {p : Poly}

/-- `v` is free in what is assumed about some name. -/
def Free (Γ : Assumptions) (v : Int) : Prop := ∃ x p, Γ.lookup x = some p ∧ p.Free v

theorem lookup_cons_self : List.lookup x ((x, p) :: Γ) = some p := List.lookup_cons_self

theorem lookup_cons_of_ne (h : y ≠ x) : List.lookup y ((x, p) :: Γ) = Γ.lookup y := by
  rw [List.lookup_cons, beq_false_of_ne h]

theorem exists_bound (Γ : Assumptions) : ∃ k, ∀ v, Γ.Free v → v < k := by
  have hall : ∃ k, ∀ e ∈ Γ, ∀ v, Poly.Free e.2 v → v < k := by
    induction Γ with
    | nil => exact ⟨0, fun e he => absurd he List.not_mem_nil⟩
    | cons e Γ ih =>
      obtain ⟨k, hk⟩ := ih
      obtain ⟨l, hl⟩ := (e.2.bind (Slot.fill .var)).exists_bound
      refine ⟨max k l, fun e' he' v hv => ?_⟩
      rcases List.mem_cons.1 he' with rfl | he'
      · exact lt_max_of_lt_right (hl v (Mono.occurs_bind.2 ⟨_, hv, .var⟩))
      · exact lt_max_of_lt_left (hk e' he' v hv)
  obtain ⟨k, hk⟩ := hall
  refine ⟨k, fun v ⟨x, p, hp, hv⟩ => hk (x, p) ?_ v hv⟩
  obtain ⟨l₁, l₂, rfl, -⟩ := List.lookup_eq_some_iff.1 hp
  simp

end Assumptions

/-- The types of a term under assumptions. -/
inductive Typing : Assumptions → Expr → Mono Int → Prop
  | var {Γ : Assumptions} {x : String} {p : Poly} {τ : Mono Int} :
    Γ.lookup x = some p → p.Instance τ → Typing Γ (.var x) τ
  | call {Γ : Assumptions} {f a : Expr} {σ τ : Mono Int} :
    Typing Γ f (.arrow σ τ) → Typing Γ a σ → Typing Γ (.call f a) τ
  | func {Γ : Assumptions} {x : String} {b : Expr} {σ τ : Mono Int} :
    Typing ((x, σ.toPoly) :: Γ) b τ → Typing Γ (.func x b) (.arrow σ τ)
  | letIn {Γ : Assumptions} {x : String} {v b : Expr} {σ τ : Mono Int} (Q : Finset Int) :
    Typing Γ v σ → (∀ w ∈ Q, ¬ Γ.Free w) → Typing ((x, σ.generalize Q) :: Γ) b τ →
    Typing Γ (.letIn x v b) τ

/-- `x` is a free name of the term. -/
def Expr.HasFree (x : String) : Expr → Prop
  | .var y => x = y
  | .call f a => f.HasFree x ∨ a.HasFree x
  | .func y b => x ≠ y ∧ b.HasFree x
  | .letIn y v b => v.HasFree x ∨ (x ≠ y ∧ b.HasFree x)
  | .alien _ => False

end LetPoly
