import Mathlib.Data.Option.Basic
import LetPoly.Proofs.Completeness
import LetPoly.Proofs.Correspondence
import LetPoly.Proofs.Termination

/-!
# Runs side by side

Two runs of inference on one term, in different environments and from different contexts, do the same
up to the numbers of their variables (`inferType_matches`). A one-to-one relation between the variables
of the one run and those of the other is carried along. It grows by a pair whenever both hand out a
fresh variable; related variables have related aliases, so both runs take the same branches and
succeed or fail together.

Only the schemes that the term mentions have to correspond. Other variables of the environments come in
where a `let` leaves them unquantified; those that occur in the type of the value are reached from the
mentioned schemes, in both runs.
-/

namespace LetPoly

section OptionRel
variable {α β : Type} {R S : α → β → Prop} {x : Option α} {y : Option β}

theorem optionRel_imp (h : Option.Rel R x y) (himp : ∀ a b, R a b → S a b) : Option.Rel S x y := by
  cases h with
  | none => exact .none
  | some h => exact .some (himp _ _ h)

theorem exists_of_optionRel_left {a : α} (h : Option.Rel R x y) (hx : x = some a) :
    ∃ b, y = some b ∧ R a b := by
  cases h with
  | none => cases hx
  | some h => exact ⟨_, rfl, Option.some.inj hx ▸ h⟩

theorem exists_of_optionRel_right {b : β} (h : Option.Rel R x y) (hy : y = some b) :
    ∃ a, x = some a ∧ R a b := by
  cases h with
  | none => cases hy
  | some h => exact ⟨_, rfl, Option.some.inj hy ▸ h⟩

end OptionRel

/-! ### Kinds of errors -/

/-- What a type error says, without the types it shows. -/
inductive TypeError.Kind where
  | impossible
  | recursive
  | rebound
  | unexpected (a : Alien)
deriving DecidableEq

def TypeError.kind : TypeError → Kind
  | .impossible .. => .impossible
  | .recursive .. => .recursive
  | .rebound _ => .rebound
  | .unexpected a => .unexpected a

/-- What an inference error says, without the types it shows. -/
inductive InferError.Kind where
  | unknownVariable (name : String)
  | type (k : TypeError.Kind)
  | unhandled (a : Alien)
  | empty
deriving DecidableEq

def InferError.kind : InferError → Kind
  | .unknownVariable name => .unknownVariable name
  | .type e => .type e.kind
  | .unhandled a => .unhandled a
  | .empty => .empty

/-- The failures are of the same kind, and point at the same position. -/
def Failure.Alike (f g : Failure) : Prop := f.error.kind = g.error.kind ∧ f.position = g.position

/-! ### Aliases -/

namespace Aliases
variable {A B : Aliases} {β γ : TyVar → TyVar → Prop} {v w : TyVar} {t u a b c d : Ty}

/-- Related variables have no alias, or corresponding ones. -/
def Alike (β : TyVar → TyVar → Prop) (A B : Aliases) : Prop :=
  ∀ v w, β v w → Option.Rel (Ty.Corresponds β) (A.lookup v) (B.lookup w)

theorem Alike.isSome_iff (h : Alike β A B) (hvw : β v w) :
    (A.lookup v).isSome = true ↔ (B.lookup w).isSome = true := by
  have hrel := h v w hvw
  generalize A.lookup v = x at hrel
  generalize B.lookup w = y at hrel
  cases hrel <;> simp

theorem Alike.value (h : Alike β A B) (hA : A.Acyclic) (hB : B.Acyclic) (hvw : β v w) :
    (A.value v).Corresponds β (B.value w) := by
  induction v using hA.induction generalizing w with
  | step v ih =>
    have hrel := h v w hvw
    generalize hv : A.lookup v = x at hrel
    generalize hw : B.lookup w = y at hrel
    cases hrel with
    | none =>
      rw [value_of_none hv, value_of_none hw]
      exact .var hvw
    | some htu =>
      rw [hA.value_of_some hv, hB.value_of_some hw]
      exact htu.subst fun v' hv' w' _ h' => ih v' ⟨_, hv, hv'⟩ h'

theorem Alike.canonicalize (h : Alike β A B) (hA : A.Acyclic) (hB : B.Acyclic)
    (htu : t.Corresponds β u) : (A.canonicalize t).Corresponds β (B.canonicalize u) :=
  htu.subst fun _ _ _ _ hvw => h.value hA hB hvw

theorem Alike.record (h : Alike β A B) (hβ : Relator.BiUnique β) (hvw : β v w)
    (htu : t.Corresponds β u) : Alike β (A.record v t) (B.record w u) := by
  intro v' w' hvw'
  have hiff : v = v' ↔ w = w' := Relator.rel_eq hβ hvw hvw'
  rw [lookup_record, lookup_record]
  by_cases hv : v = v'
  · rw [if_pos hv, if_pos (hiff.1 hv)]
    exact .some htu
  · rw [if_neg hv, if_neg (mt hiff.2 hv)]
    exact h v' w' hvw'

end Aliases

/-! ### Unification -/

/-- The equations correspond side by side. -/
def Equations.Alike (β : TyVar → TyVar → Prop) : Equations → Equations → Prop :=
  List.Forall₂ fun e f => e.1.Corresponds β f.1 ∧ e.2.Corresponds β f.2

section Unify
variable {A B : Aliases} {β : TyVar → TyVar → Prop} {v w : TyVar} {t u a b c d : Ty}
  {eqs eqs' : Equations}

theorem Equations.Alike.replace (h : Alike β eqs eqs') (hβ : Relator.BiUnique β) (hvw : β v w)
    (htu : t.Corresponds β u) : Alike β (eqs.replace v t) (eqs'.replace w u) := by
  refine List.forall₂_map_left_iff.2 (List.forall₂_map_right_iff.2 (List.Forall₂.imp ?_ h))
  exact fun e f ⟨h₁, h₂⟩ => ⟨h₁.replace hβ hvw htu, h₂.replace hβ hvw htu⟩

theorem Equations.alike_zip {ts us ts' us' : List Ty} (ht : List.Forall₂ (Ty.Corresponds β) ts ts')
    (hu : List.Forall₂ (Ty.Corresponds β) us us') : Alike β (ts.zip us) (ts'.zip us') := by
  induction ht generalizing us us' with
  | nil => exact .nil
  | cons h _ ih =>
    cases hu with
    | nil => exact .nil
    | cons h' hu => exact .cons ⟨h, h'⟩ (ih hu)

theorem orient_alike (hac : a.Corresponds β c) (hbd : b.Corresponds β d) :
    Option.Rel (fun p q => β p.1 q.1 ∧ p.2.Corresponds β q.2) (orient a b) (orient c d) := by
  cases hac with
  | var hvw => exact .some ⟨hvw, hbd⟩
  | app hargs =>
    cases hbd with
    | var hvw => exact .some ⟨hvw, .app hargs⟩
    | app => exact .none

theorem exists_orient_alike (hac : a.Corresponds β c) (hbd : b.Corresponds β d)
    (ho : orient a b = some (v, t)) :
    ∃ w u, orient c d = some (w, u) ∧ β v w ∧ t.Corresponds β u := by
  obtain ⟨⟨w, u⟩, ho', h⟩ := exists_of_optionRel_left (orient_alike hac hbd) ho
  exact ⟨w, u, ho', h⟩

/-- Solving takes the same steps on corresponding equations. -/
theorem Aliases.Alike.solve (h : Alike β A B) (hβ : Relator.BiUnique β)
    (heqs : Equations.Alike β eqs eqs') :
    Alike β (A.solve eqs).1 (B.solve eqs').1 ∧
      Option.Rel (fun e f => e.kind = f.kind) (A.solve eqs).2 (B.solve eqs').2 := by
  have hcorr := Ty.Corresponds.biUnique hβ
  fun_induction A.solve eqs generalizing B eqs' with
  | case1 A =>
    cases heqs
    rw [Aliases.solve]
    exact ⟨h, .none⟩
  | case2 A a rest ih =>
    rcases heqs with _ | @⟨_, ⟨c, d⟩, _, rest', ⟨hac, had⟩, hrest⟩
    obtain rfl : c = d := hcorr.2 hac had
    rw [solve_cons_self]
    exact ih h hrest
  | case3 A a b rest hne v t ho hocc =>
    rcases heqs with _ | @⟨_, ⟨c, d⟩, _, rest', ⟨hac, hbd⟩, hrest⟩
    obtain ⟨w, u, ho', hvw, htu⟩ := exists_orient_alike hac hbd ho
    have hocc' : u.occurs w = true := (htu.occurs_iff hβ hvw).1 hocc
    rw [solve_cons_of_orient (mt (Relator.rel_eq hcorr hac hbd).2 hne) ho', bind, if_pos hocc']
    exact ⟨h, .some rfl⟩
  | case4 A a b rest hne v t ho hocc hv =>
    rcases heqs with _ | @⟨_, ⟨c, d⟩, _, rest', ⟨hac, hbd⟩, hrest⟩
    obtain ⟨w, u, ho', hvw, htu⟩ := exists_orient_alike hac hbd ho
    rw [solve_cons_of_orient (mt (Relator.rel_eq hcorr hac hbd).2 hne) ho', bind,
      if_neg (mt (htu.occurs_iff hβ hvw).2 hocc), if_pos ((h.isSome_iff hvw).1 hv)]
    exact ⟨h, .some rfl⟩
  | case5 A a b rest hne v t ho hocc hv ih =>
    rcases heqs with _ | @⟨_, ⟨c, d⟩, _, rest', ⟨hac, hbd⟩, hrest⟩
    obtain ⟨w, u, ho', hvw, htu⟩ := exists_orient_alike hac hbd ho
    rw [solve_cons_of_orient (mt (Relator.rel_eq hcorr hac hbd).2 hne) ho', bind,
      if_neg (mt (htu.occurs_iff hβ hvw).2 hocc), if_neg (mt (h.isSome_iff hvw).2 hv)]
    exact ih (h.record hβ hvw htu) (Equations.Alike.replace hrest hβ hvw htu)
  | case6 A rest con ts con' us ho hcon hne ih =>
    rcases heqs with _ | @⟨_, ⟨c, d⟩, _, rest', ⟨hac, hbd⟩, hrest⟩
    obtain ⟨rfl, hlen⟩ := hcon
    have hcd := mt (Relator.rel_eq hcorr hac hbd).2 hne
    cases hac with
    | @app _ _ ts' hts =>
      cases hbd with
      | @app _ _ us' hus =>
        rw [solve_cons_arguments (fun he => hcd (by rw [he])) (by rw [← hts.length_eq, ← hus.length_eq, hlen])]
        exact ih h (List.rel_append (Equations.alike_zip hts hus) hrest)
  | case7 A rest con ts con' us ho hcon hne =>
    rcases heqs with _ | @⟨_, ⟨c, d⟩, _, rest', ⟨hac, hbd⟩, hrest⟩
    cases hac with
    | @app _ _ ts' hts =>
      cases hbd with
      | @app _ _ us' hus =>
        rw [not_and_or, hts.length_eq, hus.length_eq] at hcon
        rw [solve_cons_clash hcon]
        exact ⟨h, .some rfl⟩
  | case8 A rest a b ho hno hne =>
    rcases heqs with _ | @⟨_, ⟨c, d⟩, _, rest', ⟨hac, hbd⟩, hrest⟩
    -- there is no variable on either side, so both are applications
    cases hac with
    | var => cases ho
    | app =>
      cases hbd with
      | var => cases ho
      | app => exact (hno _ _ _ _ rfl rfl rfl HEq.rfl).elim

theorem Aliases.Alike.unify? (h : Alike β A B) (hβ : Relator.BiUnique β) (hA : A.Acyclic)
    (hB : B.Acyclic) (hac : a.Corresponds β c) (hbd : b.Corresponds β d) :
    Alike β (A.unify? a b).1 (B.unify? c d).1 ∧
      Option.Rel (fun e f => e.kind = f.kind) (A.unify? a b).2 (B.unify? c d).2 := by
  have hac' := h.canonicalize hA hB hac
  have hbd' := h.canonicalize hA hB hbd
  rcases A.unify?_cases a b with ⟨-, -, hwf⟩ | ⟨hab, -⟩
  · exact absurd ⟨hac'.wellFormed_left, hbd'.wellFormed_left⟩ hwf
  rcases B.unify?_cases c d with ⟨-, -, hwf⟩ | ⟨hcd, -⟩
  · exact absurd ⟨hac'.wellFormed_right, hbd'.wellFormed_right⟩ hwf
  rw [hab, hcd]
  exact h.solve hβ (.cons ⟨hac', hbd'⟩ .nil)

end Unify

/-! ### Fresh variables -/

namespace Supply
variable {s : Supply} {i j n : Nat}

theorem not_old_after (hroom : s.next.toInt + n < 2 ^ 63) (hi : i < n) : ¬ s.Old (s.after i).next := by
  have hnext := next_toInt_after (s := s) (k := i) (by omega)
  exact not_old (by omega) (by omega)

theorem old_after (hroom : s.next.toInt + n < 2 ^ 63) (hi : i < n) :
    (s.after n).Old (s.after i).next := by
  have hnext := next_toInt_after (s := s) (k := i) (by omega)
  have hlast := next_toInt_after (s := s) (k := n) hroom
  exact .inl (by omega)

theorem after_inj (hroom : s.next.toInt + n < 2 ^ 63) (hi : i < n) (hj : j < n)
    (h : (s.after i).next = (s.after j).next) : i = j := by
  have hnext := next_toInt_after (s := s) (k := i) (by omega)
  have hnext' := next_toInt_after (s := s) (k := j) (by omega)
  rw [h] at hnext
  omega

end Supply

/-- The relation is one-to-one between old variables, and related variables have corresponding
aliases. -/
structure Context.Joined (β : TyVar → TyVar → Prop) (c d : Context) : Prop where
  unique : Relator.BiUnique β
  old : ∀ v w, β v w → c.supply.Old v ∧ d.supply.Old w
  alike : Aliases.Alike β c.aliases d.aliases

namespace Context.Joined
variable {β δ : TyVar → TyVar → Prop} {c d : Context} {s s' : Scheme} {m n : Nat}

/-- Pairs of variables that both supplies hand out can be added. -/
theorem advance (h : Joined β c d) (hc : c.Tidy) (hd : d.Tidy)
    (hm : c.supply.next.toInt + m < 2 ^ 63) (hn : d.supply.next.toInt + n < 2 ^ 63)
    (hδ : Relator.BiUnique δ)
    (hfresh : ∀ v w, δ v w →
      ∃ i < m, ∃ j < n, v = (c.supply.after i).next ∧ w = (d.supply.after j).next) :
    Joined (fun v w => β v w ∨ δ v w) { c with supply := c.supply.after m }
      { d with supply := d.supply.after n } := by
  have hnew : ∀ v w, δ v w → ¬ c.supply.Old v ∧ ¬ d.supply.Old w := by
    intro v w hvw
    obtain ⟨i, hi, j, hj, rfl, rfl⟩ := hfresh v w hvw
    exact ⟨Supply.not_old_after hm hi, Supply.not_old_after hn hj⟩
  have hlem := Supply.next_toInt_after hm
  have hlen := Supply.next_toInt_after hn
  refine ⟨biUnique_or h.unique hδ ?_ ?_, ?_, ?_⟩
  · exact fun v w w' hvw hvw' => (hnew v w' hvw').1 (h.old v w hvw).1
  · exact fun v v' w hvw hvw' => (hnew v' w hvw').2 (h.old v w hvw).2
  · rintro v w (hvw | hvw)
    · exact ⟨(h.old v w hvw).1.mono (by dsimp only; omega), (h.old v w hvw).2.mono (by dsimp only; omega)⟩
    · obtain ⟨i, hi, j, hj, rfl, rfl⟩ := hfresh v w hvw
      exact ⟨Supply.old_after hm hi, Supply.old_after hn hj⟩
  · rintro v w (hvw | hvw)
    · exact optionRel_imp (h.alike v w hvw) fun t u htu => htu.imp fun _ _ _ _ => .inl
    · show Option.Rel _ (c.aliases.lookup v) (d.aliases.lookup w)
      rw [hc.lookup_of_not_old (hnew v w hvw).1, hd.lookup_of_not_old (hnew v w hvw).2]
      exact .none

/-- Copies of corresponding schemes correspond. -/
theorem instantiate (h : Joined β c d) (hc : c.Tidy) (hd : d.Tidy)
    (hm : c.supply.next.toInt + s.vars.size < 2 ^ 63)
    (hn : d.supply.next.toInt + s'.vars.size < 2 ^ 63) (hs : s.Corresponds β s') :
    ∃ β', Joined β' { c with supply := c.supply.after s.vars.size }
        { d with supply := d.supply.after s'.vars.size } ∧ (∀ v w, β v w → β' v w) ∧
      (s.body.subst (c.rename s)).Corresponds β' (s'.body.subst (d.rename s')) := by
  obtain ⟨γ, hγ, hbody⟩ := hs
  let δ (v w : TyVar) : Prop := ∃ x ∈ s.vars, ∃ y ∈ s'.vars, γ x y ∧
    v = (c.supply.after (s.vars.toList.idxOf x)).next ∧
    w = (d.supply.after (s'.vars.toList.idxOf y)).next
  have hidx : ∀ (s : Scheme), ∀ x ∈ s.vars, s.vars.toList.idxOf x < s.vars.size :=
    fun s x hx => List.idxOf_lt_length_iff.2 hx
  have hδ : Relator.BiUnique δ := by
    constructor
    · rintro _ _ _ ⟨x, hx, y, hy, hxy, rfl, rfl⟩ ⟨x', hx', y', hy', hxy', rfl, he⟩
      obtain rfl : y = y' := (List.idxOf_inj hy).1 (Supply.after_inj hn (hidx s' y hy) (hidx s' y' hy') he)
      rw [hγ.1 hxy hxy']
    · rintro _ _ _ ⟨x, hx, y, hy, hxy, rfl, rfl⟩ ⟨x', hx', y', hy', hxy', he, rfl⟩
      obtain rfl : x = x' := (List.idxOf_inj hx).1 (Supply.after_inj hm (hidx s x hx) (hidx s x' hx') he)
      rw [hγ.2 hxy hxy']
  refine ⟨_, h.advance hc hd hm hn hδ ?_, fun v w => .inl, hbody.subst fun x _ y _ hxy => ?_⟩
  · rintro v w ⟨x, hx, y, hy, -, rfl, rfl⟩
    exact ⟨_, hidx s x hx, _, hidx s' y hy, rfl, rfl⟩
  · unfold Context.rename
    rcases hxy with ⟨hx, hy, hxy⟩ | ⟨hx, hy, hxy⟩
    · rw [if_pos hx, if_pos hy]
      exact .var (.inr ⟨x, hx, y, hy, hxy, rfl, rfl⟩)
    · rw [if_neg hx, if_neg hy]
      exact .var (.inl hxy)

/-- One fresh variable on each side. -/
theorem fresh (h : Joined β c d) (hc : c.Tidy) (hd : d.Tidy) (hm : c.supply.next.toInt + 1 < 2 ^ 63)
    (hn : d.supply.next.toInt + 1 < 2 ^ 63) :
    Joined (fun v w => β v w ∨ v = c.supply.next ∧ w = d.supply.next) c.fresh.2 d.fresh.2 := by
  refine h.advance (m := 1) (n := 1) hc hd hm hn (biUnique_pair _ _) ?_
  rintro v w ⟨rfl, rfl⟩
  exact ⟨0, by omega, 0, by omega, by rw [Supply.after_zero], by rw [Supply.after_zero]⟩

end Context.Joined

/-! ### Environments -/

section Environments
variable {β γ : TyVar → TyVar → Prop} {a b : Scheme} {env env' : Env} {e : Expr} {x : String}
  {v w : TyVar}

theorem Scheme.Corresponds.imp (h : a.Corresponds β b) (hβγ : ∀ v w, β v w → γ v w) :
    a.Corresponds γ b := by
  obtain ⟨δ, hδ, hbody⟩ := h
  refine ⟨δ, hδ, hbody.imp fun v _ w _ hvw => ?_⟩
  exact hvw.imp_right fun ⟨hv, hw, h⟩ => ⟨hv, hw, hβγ v w h⟩

theorem Scheme.Corresponds.exists_right (h : a.Corresponds β b) (hv : v ∈ a.free) :
    ∃ w ∈ b.free, β v w := by
  obtain ⟨δ, -, hbody⟩ := h
  obtain ⟨hv, hq⟩ := Scheme.mem_free.1 hv
  obtain ⟨w, hw, hvw⟩ := hbody.exists_right hv
  obtain ⟨-, hq', hvw⟩ := hvw.resolve_left fun h => hq h.1
  exact ⟨w, Scheme.mem_free.2 ⟨hw, hq'⟩, hvw⟩

theorem Scheme.Corresponds.exists_left (h : a.Corresponds β b) (hw : w ∈ b.free) :
    ∃ v ∈ a.free, β v w := by
  obtain ⟨δ, -, hbody⟩ := h
  obtain ⟨hw, hq⟩ := Scheme.mem_free.1 hw
  obtain ⟨v, hv, hvw⟩ := hbody.exists_left hw
  obtain ⟨hq', -, hvw⟩ := hvw.resolve_left fun h => hq h.2.1
  exact ⟨v, Scheme.mem_free.2 ⟨hv, hq'⟩, hvw⟩

/-- Each free name of `e` is bound in neither environment, or to corresponding schemes. -/
def Env.Alike (β : TyVar → TyVar → Prop) (env env' : Env) (e : Expr) : Prop :=
  ∀ x, e.HasFree x → Option.Rel (Scheme.Corresponds β) (env.lookup x) (env'.lookup x)

theorem Env.Alike.imp (h : Env.Alike β env env' e) (hβγ : ∀ v w, β v w → γ v w) :
    Env.Alike γ env env' e :=
  fun x hx => optionRel_imp (h x hx) fun _ _ h => h.imp hβγ

theorem Env.Alike.extend
    (h : ∀ y, y ≠ x → e.HasFree y → Option.Rel (Scheme.Corresponds β) (env.lookup y) (env'.lookup y))
    (hab : a.Corresponds β b) : Env.Alike β (env.extend x a) (env'.extend x b) e := by
  intro y hy
  by_cases hxy : y = x
  · subst hxy
    rw [lookup_extend_self, lookup_extend_self]
    exact .some hab
  · rw [lookup_extend_of_ne hxy, lookup_extend_of_ne hxy]
    exact h y hxy hy

theorem Scheme.Corresponds.mono {t u : Ty} (h : t.Corresponds β u) :
    (Scheme.mono t).Corresponds β (.mono u) :=
  ⟨Eq, biUnique_eq, h.imp fun _ _ _ _ hvw => .inr ⟨VarSet.not_mem_empty _, VarSet.not_mem_empty _, hvw⟩⟩

theorem Scheme.corresponds_generalize {t u : Ty} {F G : VarSet} (hβ : Relator.BiUnique β)
    (h : t.Corresponds β u)
    (hFG : ∀ v ∈ t.occurrences, ∀ w ∈ u.occurrences, β v w → (v ∈ F ↔ w ∈ G)) :
    (generalize t F).Corresponds β (generalize u G) := by
  refine ⟨β, hβ, h.imp fun v hv w hw hvw => ?_⟩
  have hiff := hFG v hv w hw hvw
  by_cases hvF : v ∈ F
  · exact .inr ⟨fun h => (mem_vars_generalize.1 h).2 hvF,
      fun h => (mem_vars_generalize.1 h).2 (hiff.1 hvF), hvw⟩
  · exact .inl ⟨mem_vars_generalize.2 ⟨hv, hvF⟩, mem_vars_generalize.2 ⟨hw, mt hiff.2 hvF⟩, hvw⟩

end Environments

/-! ### Runs -/

section Runs
variable {β γ : TyVar → TyVar → Prop} {env env' : Env} {e : Expr} {c d c' d' : Context} {t u : Ty}
  {k l : Int} {v w : TyVar}

/-- Both runs leave the same variables unquantified. -/
theorem Ready.mem_freeVars_iff (hr : Ready k env e c) (hr' : Ready l env' e d)
    (hrun : Infers env e c t c') (hrun' : Infers env' e d u d') (henv : Env.Alike γ env env' e)
    (hj : Context.Joined γ c' d') (hvw : γ v w) (hv : v ∈ (c'.aliases.canonicalize t).occurrences)
    (hw : w ∈ (d'.aliases.canonicalize u).occurrences) :
    v ∈ c'.freeVars env.free ↔ w ∈ d'.freeVars env'.free := by
  have hA := (hr.tidy_of_run hrun).1.acyclic
  have hB := (hr'.tidy_of_run hrun').1.acyclic
  rw [hr.mem_freeVars hrun hv, hr'.mem_freeVars hrun' hw]
  constructor
  · rintro ⟨x, s, hx, hs, y, hy, hvy⟩
    obtain ⟨s', hs', hss'⟩ := exists_of_optionRel_left (henv x hx) hs
    obtain ⟨z, hz, hyz⟩ := hss'.exists_right hy
    exact ⟨x, s', hx, hs', z, hz, ((hj.alike.value hA hB hyz).mem_iff hj.unique hvw).1 hvy⟩
  · rintro ⟨x, s', hx, hs', z, hz, hwz⟩
    obtain ⟨s, hs, hss'⟩ := exists_of_optionRel_right (henv x hx) hs'
    obtain ⟨y, hy, hyz⟩ := hss'.exists_left hz
    exact ⟨x, s, hx, hs, y, hy, ((hj.alike.value hA hB hyz).mem_iff hj.unique hvw).2 hwz⟩

/-- Both runs succeed, with corresponding types along a relation that extends the given one, or both
fail alike. -/
inductive Matches (β : TyVar → TyVar → Prop) :
    Except Failure (Ty × Context) → Except Failure (Ty × Context) → Prop
  | ok {γ : TyVar → TyVar → Prop} {t u : Ty} {c d : Context} : (∀ v w, β v w → γ v w) →
    Context.Joined γ c d → t.Corresponds γ u → Matches β (.ok (t, c)) (.ok (u, d))
  | error {f g : Failure} : f.Alike g → Matches β (.error f) (.error g)

theorem Failure.Alike.under {f g : Failure} (h : f.Alike g) (b : Expr.Branch) :
    (f.under b).Alike (g.under b) :=
  ⟨h.1, congrArg (b :: ·) h.2⟩

namespace Matches
variable {r r' : Except Failure (Ty × Context)}

theorem under (h : Matches β r r') (b : Expr.Branch) :
    Matches β (r.mapError (·.under b)) (r'.mapError (·.under b)) := by
  cases h with
  | ok hβγ hj htu => exact .ok hβγ hj htu
  | error h => exact .error (h.under b)

theorem of_imp (h : Matches γ r r') (hβγ : ∀ v w, β v w → γ v w) : Matches β r r' := by
  cases h with
  | ok hγδ hj htu => exact .ok (fun v w hvw => hγδ v w (hβγ v w hvw)) hj htu
  | error h => exact .error h

/-- Runs match if their first parts do, and so does what comes after these. -/
theorem bind {f g : Ty × Context → Except Failure (Ty × Context)} (h : Matches β r r')
    (b : Expr.Branch)
    (hnext : ∀ γ t u c d, r = .ok (t, c) → r' = .ok (u, d) → (∀ v w, β v w → γ v w) →
      Context.Joined γ c d → t.Corresponds γ u → Matches γ (f (t, c)) (g (u, d))) :
    Matches β (r.mapError (·.under b) >>= f) (r'.mapError (·.under b) >>= g) := by
  cases h with
  | error h => exact .error (h.under b)
  | @ok γ t u c d hβγ hj htu => exact (hnext γ t u c d rfl rfl hβγ hj htu).of_imp hβγ

end Matches

section Steps
variable {x : String} {f a b : Expr} {s s' : Scheme}

theorem Ready.room_var (hr : Ready k env (.var x) c) (hs : env.lookup x = some s) :
    c.supply.next.toInt + s.vars.size < 2 ^ 63 := by
  have hroom := hr.room
  have hstart := hr.start
  simp only [demand, hs] at hroom
  omega

theorem Context.Tidy.fresh (h : c.Tidy) (hroom : c.supply.next.toInt + 1 < 2 ^ 63) :
    c.fresh.2.Tidy := by
  have hnext := Supply.next_toInt_after (k := 1) hroom
  refine h.of_le rfl ?_
  show _ ≤ (c.supply.after 1).next.toInt
  omega

theorem Ready.room_func (hr : Ready k env (.func x b) c) : c.supply.next.toInt + 1 < 2 ^ 63 := by
  have hroom := hr.room
  have hstart := hr.start
  simp only [demand] at hroom
  omega

theorem Ready.room_call (hr : Ready k env (.call f a) c) (hf : Infers env f c t c')
    {t' : Ty} {c'' : Context} (ha : Infers env a c' t' c'') : c''.supply.next.toInt + 1 < 2 ^ 63 := by
  have hroom := hr.result hf ha
  have hstart := ha.from (hr.argument hf).start (by omega)
  omega

theorem matches_var (hr : Ready k env (.var x) c) (hr' : Ready l env' (.var x) d)
    (henv : Env.Alike β env env' (.var x)) (hj : Context.Joined β c d) :
    Matches β (inferType env (.var x) c) (inferType env' (.var x) d) := by
  have hrel := henv x rfl
  rw [inferType, inferType]
  generalize hs : env.lookup x = o at hrel
  generalize hs' : env'.lookup x = o' at hrel
  cases hrel with
  | none => exact .error ⟨rfl, rfl⟩
  | @some s s' hss' =>
    obtain ⟨t, c', ht⟩ := c.instantiate?_of_wellFormed (hr.wellFormed x s rfl hs)
    obtain ⟨u, d', hu⟩ := d.instantiate?_of_wellFormed (hr'.wellFormed x s' rfl hs')
    obtain ⟨γ, hjoined, hβγ, htu⟩ :=
      hj.instantiate hr.tidy hr'.tidy (hr.room_var hs) (hr'.room_var hs') hss'
    simp only [ht, hu]
    obtain ⟨rfl, rfl⟩ := Context.instantiate?_eq_ok ht
    obtain ⟨rfl, rfl⟩ := Context.instantiate?_eq_ok hu
    exact .ok hβγ hjoined htu

/-- Unifying corresponding types succeeds or fails on both sides. -/
theorem matches_unify {t' u' r r' : Ty} (hj : Context.Joined β c d) (hc : c.Tidy) (hd : d.Tidy)
    (ht : t.Corresponds β t') (hu : u.Corresponds β u') (hr : r.Corresponds β r') :
    Matches β
      (match c.unify t u with
        | (ctx, none) => .ok (r, ctx)
        | (_, some e) => .error ⟨.type e, []⟩)
      (match d.unify t' u' with
        | (ctx, none) => .ok (r', ctx)
        | (_, some e) => .error ⟨.type e, []⟩) := by
  obtain ⟨halike, herror⟩ := hj.alike.unify? hj.unique hc.acyclic hd.acyclic ht hu
  simp only [Context.unify]
  generalize (c.aliases.unify? t u).2 = o at herror
  generalize (d.aliases.unify? t' u').2 = o' at herror
  cases herror with
  | none => exact .ok (fun _ _ h => h) ⟨hj.unique, hj.old, halike⟩ hr
  | some hkind => exact .error ⟨congrArg InferError.Kind.type hkind, rfl⟩

/-- The type of a value is generalized to corresponding schemes. -/
theorem Ready.generalize_alike (hr : Ready k env e c) (hr' : Ready l env' e d)
    (hrun : Infers env e c t c') (hrun' : Infers env' e d u d') (henv : Env.Alike γ env env' e)
    (hj : Context.Joined γ c' d') (htu : t.Corresponds γ u) :
    ∃ s s', c'.generalize? t env.free = .ok s ∧ d'.generalize? u env'.free = .ok s' ∧
      s.Corresponds γ s' := by
  have hcan := hj.alike.canonicalize (hr.tidy_of_run hrun).1.acyclic (hr'.tidy_of_run hrun').1.acyclic htu
  refine ⟨_, _, Context.generalize?_eq_ok.2 ⟨hcan.wellFormed_left, rfl⟩,
    Context.generalize?_eq_ok.2 ⟨hcan.wellFormed_right, rfl⟩, ?_⟩
  refine Scheme.corresponds_generalize hj.unique hcan fun v hv w hw hvw => ?_
  exact hr.mem_freeVars_iff hr' hrun hrun' henv hj hvw hv hw

end Steps

/-- Runs on one term match, if the schemes it mentions correspond. -/
theorem inferType_matches (hr : Ready k env e c) (hr' : Ready l env' e d)
    (henv : Env.Alike β env env' e) (hj : Context.Joined β c d) :
    Matches β (inferType env e c) (inferType env' e d) := by
  induction e generalizing env env' c d β with
  | alien a => exact .error ⟨rfl, rfl⟩
  | var x => exact matches_var hr hr' henv hj
  | call f a ihf iha =>
    rw [inferType, inferType]
    refine (ihf hr.callee hr'.callee (fun x hx => henv x (.inl hx)) hj).bind .callee ?_
    intro γ tf uf c₁ d₁ hf hf' hβγ hj₁ htf
    have henva : Env.Alike γ env env' a := Env.Alike.imp (fun x hx => henv x (.inr hx)) hβγ
    rw [← infers_iff] at hf hf'
    have hra := hr.argument hf
    have hra' := hr'.argument hf'
    refine (iha hra hra' henva hj₁).bind .argument ?_
    intro δ ta ua c₂ d₂ ha ha' hγδ hj₂ hta
    rw [← infers_iff] at ha ha'
    obtain ⟨htidy, -⟩ := hra.tidy_of_run ha
    obtain ⟨htidy', -⟩ := hra'.tidy_of_run ha'
    have hm := hr.room_call hf ha
    have hn := hr'.room_call hf' ha'
    have hresult : (Ty.var c₂.supply.next).Corresponds
        (fun v w => δ v w ∨ v = c₂.supply.next ∧ w = d₂.supply.next) (.var d₂.supply.next) :=
      .var (.inr ⟨rfl, rfl⟩)
    refine Matches.of_imp (matches_unify (hj₂.fresh htidy htidy' hm hn) (htidy.fresh hm)
      (htidy'.fresh hn) ?_ (.arrow ?_ hresult) hresult) fun _ _ => .inl
    · exact htf.imp fun v _ w _ hvw => .inl (hγδ v w hvw)
    · exact hta.imp fun v _ w _ hvw => .inl hvw
  | func x b ih =>
    have hjb := hj.fresh hr.tidy hr'.tidy hr.room_func hr'.room_func
    have hparam : (Ty.var c.supply.next).Corresponds
        (fun v w => β v w ∨ v = c.supply.next ∧ w = d.supply.next) (.var d.supply.next) :=
      .var (.inr ⟨rfl, rfl⟩)
    have hbody := ih hr.body hr'.body (.extend (fun y hxy hy => ?_) (.mono hparam)) hjb
    · rw [inferType, inferType]
      refine (hbody.bind .body ?_).of_imp fun _ _ => .inl
      intro γ t u c' d' _ _ hβγ hj' htu
      exact .ok (fun _ _ h => h) hj' (.arrow (hparam.imp fun v _ w _ => hβγ v w) htu)
    · exact optionRel_imp (henv y ⟨hxy, hy⟩) fun _ _ h => h.imp fun _ _ => .inl
  | letIn x v b ihv ihb =>
    rw [inferType, inferType]
    refine (ihv hr.value hr'.value (fun x hx => henv x (.inl hx)) hj).bind .value ?_
    intro γ tv uv c₁ d₁ hv hv' hβγ hj₁ htv
    rw [← infers_iff] at hv hv'
    obtain ⟨s, s', hs, hs', hss'⟩ := hr.value.generalize_alike hr'.value hv hv'
      (Env.Alike.imp (fun x hx => henv x (.inl hx)) hβγ) hj₁ htv
    simp only [hs, hs']
    refine (ihb (hr.scope hv hs) (hr'.scope hv' hs') (.extend (fun y hxy hy => ?_) hss') hj₁).under .body
    exact optionRel_imp (henv y (.inr ⟨hxy, hy⟩)) fun _ _ h => h.imp hβγ

end Runs

end LetPoly
