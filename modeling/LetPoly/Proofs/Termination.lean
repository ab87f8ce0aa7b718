import LetPoly.Proofs.Unification

/-!
# Every call returns

Canonical forms and unification as recursive procedures, call by call. Following aliases from a
variable is a loop (`Resolves`); a canonical form is computed by following an alias to its end and
starting over with what is found there (`Canonicalizes`); two applications are unified by unifying
their arguments pair by pair, each pair canonicalized anew under the aliases that the pairs before it
have left (`Unifies`). A derivation of one of these relations is a finished run.

On acyclic aliases all three recursions are well-founded. Each hop and each alias that is followed
leads to variables with fewer aliased ones below them. A call of unification on a pair of arguments
has fewer variables left in its canonical operands if a pair before it has recorded an alias, and
otherwise the same operands less their roots (`UnifyCall.measure_lt`). So every call returns, and what
it returns is what `resolve`, `canonicalize?` and `unify?` compute.
-/

namespace LetPoly

/-- The equations with the canonical forms of their sides. -/
def Equations.canonicalize (eqs : Equations) (A : Aliases) : Equations :=
  eqs.map fun e => (A.canonicalize e.1, A.canonicalize e.2)

namespace Aliases
variable {A A' : Aliases} {v : TyVar} {a b t u : Ty} {ts us : List Ty} {con : String}
  {eqs rest : Equations} {e : TypeError}

/-! ### Following aliases -/

/-- The alias of `v` is the variable `w`. -/
def Hop (A : Aliases) (w v : TyVar) : Prop := A.lookup v = some (.var w)

/-- Following aliases from a variable ends at a type. -/
inductive Resolves (A : Aliases) : TyVar → Ty → Prop
  | unaliased {v : TyVar} : A.lookup v = none → Resolves A v (.var v)
  | hop {v w : TyVar} {t : Ty} : A.lookup v = some (.var w) → Resolves A w t → Resolves A v t
  | target {v : TyVar} {t : Ty} : A.lookup v = some t → (∀ w, t ≠ .var w) → Resolves A v t

theorem Resolves.unique (h : A.Resolves v t) (h' : A.Resolves v u) : t = u := by
  induction h with
  | unaliased hv =>
    cases h' with
    | unaliased => rfl
    | hop hv' => rw [hv] at hv'; cases hv'
    | target hv' => rw [hv] at hv'; cases hv'
  | hop hv _ ih =>
    cases h' with
    | unaliased hv' => rw [hv] at hv'; cases hv'
    | hop hv' h' =>
      rw [hv] at hv'
      cases hv'
      exact ih h'
    | target hv' hne =>
      rw [hv] at hv'
      cases hv'
      exact absurd rfl (hne _)
  | target hv hne =>
    cases h' with
    | unaliased hv' => rw [hv] at hv'; cases hv'
    | hop hv' =>
      rw [hv] at hv'
      cases hv'
      exact absurd rfl (hne _)
    | target hv' =>
      rw [hv] at hv'
      exact Option.some.inj hv'

theorem Acyclic.acc_hop (hA : A.Acyclic) (v : TyVar) : Acc A.Hop v := by
  induction v using hA.induction with
  | step v ih => exact .intro v fun w hw => ih w ⟨.var w, hw, Ty.mem_occurrences_var.2 rfl⟩

/-- As many hops as there are aliased variables below `v` lead to the end. -/
theorem Acyclic.resolves_chase (hA : A.Acyclic) {n : Nat} (h : (A.below v).card ≤ n) :
    A.Resolves v (A.chase n v) := by
  induction n generalizing v with
  | zero => exact .unaliased (lookup_of_card_below (Nat.le_zero.1 h))
  | succ n ih =>
    rw [chase]
    split
    · rename_i hv
      exact .unaliased hv
    · rename_i w hv
      have := hA.card_below_lt ⟨.var w, hv, Ty.mem_occurrences_var.2 rfl⟩
      exact .hop hv (ih (by omega))
    · rename_i t hne hv
      exact .target hv hne

theorem Acyclic.resolves_iff (hA : A.Acyclic) : A.Resolves v t ↔ t = A.resolve v := by
  have h : A.Resolves v (A.resolve v) := hA.resolves_chase (A.card_below_le_size v)
  exact ⟨fun h' => h'.unique h, fun e => e ▸ h⟩

/-- The end of a chain of aliases has the canonical form of its start. -/
theorem Resolves.canonicalize_eq (h : A.Resolves v t) (hA : A.Acyclic) :
    A.canonicalize t = A.value v := by
  induction h with
  | unaliased => rfl
  | hop hv _ ih => rw [ih, hA.value_of_some hv, canonicalize_var]
  | target hv => rw [hA.value_of_some hv]

/-! ### Canonical forms -/

mutual
/-- Computing the canonical form of a type ends with that form, or at an alien. -/
inductive Canonicalizes (A : Aliases) : Ty → Except Alien Ty → Prop
  | unaliased {v : TyVar} : A.lookup v = none → Canonicalizes A (.var v) (.ok (.var v))
  | aliased {v : TyVar} {t : Ty} {r : Except Alien Ty} : (A.lookup v).isSome = true →
    A.Resolves v t → Canonicalizes A t r → Canonicalizes A (.var v) r
  | app {con : String} {args : List Ty} {r : Except Alien (List Ty)} :
    CanonicalizesAll A args r → Canonicalizes A (.app con args) (r.map (.app con))
  | alien {x : Alien} : Canonicalizes A (.alien x) (.error x)
/-- Computing the canonical forms of an argument list from left to right ends with these forms, or
at the first alien. -/
inductive CanonicalizesAll (A : Aliases) : List Ty → Except Alien (List Ty) → Prop
  | nil : CanonicalizesAll A [] (.ok [])
  | cons {t u : Ty} {ts : List Ty} {r : Except Alien (List Ty)} : Canonicalizes A t (.ok u) →
    CanonicalizesAll A ts r → CanonicalizesAll A (t :: ts) (r.map (u :: ·))
  | alien {t : Ty} {ts : List Ty} {x : Alien} : Canonicalizes A t (.error x) →
    CanonicalizesAll A (t :: ts) (.error x)
end

/-- The calls for a canonical form: `CanonicalizeCall A t u` if that of `u` asks for that of `t`. -/
inductive CanonicalizeCall (A : Aliases) : Ty → Ty → Prop
  | target {v : TyVar} {t : Ty} : (A.lookup v).isSome = true → A.Resolves v t →
    CanonicalizeCall A t (.var v)
  | argument {con : String} {args : List Ty} {t : Ty} : t ∈ args → CanonicalizeCall A t (.app con args)

theorem acc_canonicalizeCall_of_vars (h : ∀ v ∈ t.occurrences, Acc A.CanonicalizeCall (.var v)) :
    Acc A.CanonicalizeCall t := by
  induction t with
  | var v => exact h v (Ty.mem_occurrences_var.2 rfl)
  | alien x => exact .intro _ nofun
  | app con args ih =>
    refine .intro _ fun u hu => ?_
    cases hu with
    | argument hu => exact ih u hu fun v hv => h v (Ty.mem_occurrences_app.2 ⟨u, hu, hv⟩)

theorem Acyclic.acc_canonicalizeCall_var (hA : A.Acyclic) (v : TyVar) :
    Acc A.CanonicalizeCall (.var v) := by
  induction v using hA.induction with
  | step v ih =>
    refine .intro _ fun t ht => ?_
    cases ht with
    | target hsome hr =>
      cases hr with
      | unaliased hv =>
        rw [hv] at hsome
        cases hsome
      | target hv => exact acc_canonicalizeCall_of_vars fun w hw => ih w ⟨t, hv, hw⟩
      | @hop _ w _ hv hr =>
        -- the chain from `w` ends where that from `v` does
        have hw := ih w ⟨.var w, hv, Ty.mem_occurrences_var.2 rfl⟩
        cases hl : A.lookup w with
        | none =>
          obtain rfl := hr.unique (.unaliased hl)
          exact hw
        | some u => exact hw.inv (.target (by rw [hl]; rfl) hr)

theorem Acyclic.acc_canonicalizeCall (hA : A.Acyclic) (t : Ty) : Acc A.CanonicalizeCall t :=
  acc_canonicalizeCall_of_vars fun v _ => hA.acc_canonicalizeCall_var v

theorem exists_canonicalizesAll (h : ∀ t ∈ ts, ∃ r, A.Canonicalizes t r) :
    ∃ r, A.CanonicalizesAll ts r := by
  induction ts with
  | nil => exact ⟨_, .nil⟩
  | cons t ts ih =>
    obtain ⟨r | u, ht⟩ := h t List.mem_cons_self
    · exact ⟨_, .alien ht⟩
    · obtain ⟨r, hts⟩ := ih fun t ht => h t (List.mem_cons_of_mem _ ht)
      exact ⟨_, .cons ht hts⟩

theorem exists_canonicalizes (h : Acc A.CanonicalizeCall t) (hA : A.Acyclic) :
    ∃ r, A.Canonicalizes t r := by
  induction h with
  | intro t _ ih =>
    cases t with
    | var v =>
      cases hv : A.lookup v with
      | none => exact ⟨_, .unaliased hv⟩
      | some t =>
        have hsome : (A.lookup v).isSome = true := by rw [hv]; rfl
        have hr : A.Resolves v (A.resolve v) := hA.resolves_iff.2 rfl
        obtain ⟨r, h⟩ := ih _ (.target hsome hr)
        exact ⟨r, .aliased hsome hr h⟩
    | alien x => exact ⟨_, .alien⟩
    | app con args =>
      obtain ⟨r, h⟩ := exists_canonicalizesAll fun t ht => ih t (.argument ht)
      exact ⟨_, .app h⟩

end Aliases

namespace Ty

/-- The types themselves, or the leftmost alien among them. -/
def checkedAll (ts : List Ty) : Except Alien (List Ty) :=
  match alienAmong? ts with
  | none => .ok ts
  | some x => .error x

theorem checked_app (con : String) (ts : List Ty) :
    (app con ts).checked = (checkedAll ts).map (.app con) := by
  unfold checked checkedAll
  rw [alien?]
  cases alienAmong? ts with
  | none => rfl
  | some x => rfl

theorem checkedAll_cons (t : Ty) (ts : List Ty) :
    checkedAll (t :: ts) = t.checked >>= fun t => (checkedAll ts).map (t :: ·) := by
  unfold checked checkedAll
  rw [alienAmong?]
  cases t.alien? with
  | some x => rfl
  | none => cases alienAmong? ts with
    | none => rfl
    | some x => rfl

theorem wellFormed_of_checked {t u : Ty} (h : t.checked = .ok u) : u.WellFormed := by
  obtain ⟨ht, rfl⟩ := checked_eq_ok.1 h
  exact ht

end Ty

namespace Aliases
variable {A A' : Aliases} {v : TyVar} {a b t u : Ty} {ts us : List Ty} {con : String}
  {eqs rest : Equations} {e : TypeError}

mutual
theorem Canonicalizes.eq (hA : A.Acyclic) : ∀ {t : Ty} {r : Except Alien Ty},
    A.Canonicalizes t r → A.canonicalize? t = r
  | _, _, .unaliased hv => by
    rw [canonicalize?, canonicalize_var, value_of_none hv]
    rfl
  | _, _, .aliased _ hr h => by
    rw [← h.eq hA, canonicalize?, canonicalize?, hr.canonicalize_eq hA, canonicalize_var]
  | _, _, .app h => by
    rw [← h.eq hA, ← Ty.checked_app, canonicalize?, canonicalize_app]
  | _, _, .alien => rfl
theorem CanonicalizesAll.eq (hA : A.Acyclic) : ∀ {ts : List Ty} {r : Except Alien (List Ty)},
    A.CanonicalizesAll ts r → Ty.checkedAll (ts.map A.canonicalize) = r
  | _, _, .nil => rfl
  | _, _, .cons ht hts => by
    rw [List.map_cons, Ty.checkedAll_cons, hts.eq hA]
    exact congrArg (· >>= _) (ht.eq hA)
  | _, _, .alien ht => by
    rw [List.map_cons, Ty.checkedAll_cons]
    exact congrArg (· >>= _) (ht.eq hA)
end

theorem Acyclic.canonicalizes_iff (hA : A.Acyclic) {r : Except Alien Ty} :
    A.Canonicalizes t r ↔ r = A.canonicalize? t := by
  obtain ⟨r', h⟩ := exists_canonicalizes (hA.acc_canonicalizeCall t) hA
  have hr' := h.eq hA
  constructor
  · exact fun h => (h.eq hA).symm
  · rintro rfl
    rwa [hr']

/-! ### Unification -/

/-- Records an alias, unless the variable occurs in the type or has an alias already. -/
def bind (A : Aliases) (v : TyVar) (t : Ty) : Aliases × Option TypeError :=
  if t.occurs v then (A, some (.recursive t v))
  else if (A.lookup v).isSome then (A, some (.rebound v))
  else (A.record v t, none)

mutual
/-- Unifying two types under some aliases ends with further aliases, and with an error if it fails. -/
inductive Unifies : Aliases → Ty → Ty → Aliases × Option TypeError → Prop
  | alienLeft {A : Aliases} {a b : Ty} {x : Alien} : A.Canonicalizes a (.error x) →
    Unifies A a b (A, some (.unexpected x))
  | alienRight {A : Aliases} {a b a' : Ty} {x : Alien} : A.Canonicalizes a (.ok a') →
    A.Canonicalizes b (.error x) → Unifies A a b (A, some (.unexpected x))
  | same {A : Aliases} {a b t : Ty} : A.Canonicalizes a (.ok t) → A.Canonicalizes b (.ok t) →
    Unifies A a b (A, none)
  | bindLeft {A : Aliases} {a b t : Ty} {v : TyVar} : A.Canonicalizes a (.ok (.var v)) →
    A.Canonicalizes b (.ok t) → t ≠ .var v → Unifies A a b (A.bind v t)
  | bindRight {A : Aliases} {a b : Ty} {con : String} {ts : List Ty} {v : TyVar} :
    A.Canonicalizes a (.ok (.app con ts)) → A.Canonicalizes b (.ok (.var v)) →
    Unifies A a b (A.bind v (.app con ts))
  | clash {A : Aliases} {a b : Ty} {c d : String} {ts us : List Ty} :
    A.Canonicalizes a (.ok (.app c ts)) → A.Canonicalizes b (.ok (.app d us)) →
    (c ≠ d ∨ ts.length ≠ us.length) →
    Unifies A a b (A, some (.impossible (.app c ts) (.app d us)))
  | arguments {A : Aliases} {a b : Ty} {c : String} {ts us : List Ty}
    {r : Aliases × Option TypeError} :
    A.Canonicalizes a (.ok (.app c ts)) → A.Canonicalizes b (.ok (.app c us)) →
    ts.length = us.length → ts ≠ us → UnifiesAll A (ts.zip us) r → Unifies A a b r
/-- Unifying pairs one after the other, up to the first that fails, each under the aliases that the
ones before it have left. -/
inductive UnifiesAll : Aliases → Equations → Aliases × Option TypeError → Prop
  | nil {A : Aliases} : UnifiesAll A [] (A, none)
  | cons {A A' : Aliases} {a b : Ty} {eqs : Equations} {r : Aliases × Option TypeError} :
    Unifies A a b (A', none) → UnifiesAll A' eqs r → UnifiesAll A ((a, b) :: eqs) r
  | fail {A A' : Aliases} {a b : Ty} {eqs : Equations} {e : TypeError} :
    Unifies A a b (A', some e) → UnifiesAll A ((a, b) :: eqs) (A', some e)
end

/-- The calls of unification: `UnifyCall p q` if unifying the types of `q` under its aliases comes to
unify those of `p` under the aliases of `p`. -/
inductive UnifyCall : Aliases × Ty × Ty → Aliases × Ty × Ty → Prop
  | mk {A A' : Aliases} {a b t u : Ty} {c : String} {ts us : List Ty} {done rest : Equations} :
    A.Canonicalizes a (.ok (.app c ts)) → A.Canonicalizes b (.ok (.app c us)) →
    ts.length = us.length → ts ≠ us → ts.zip us = done ++ (t, u) :: rest →
    UnifiesAll A done (A', none) → UnifyCall (A', t, u) (A, a, b)

/-! ### Pair by pair -/

theorem solve_cons_self (A : Aliases) (a : Ty) (rest : Equations) :
    A.solve ((a, a) :: rest) = A.solve rest := by
  rw [solve, if_pos rfl]

theorem solve_cons_of_orient (hne : a ≠ b) (ho : orient a b = some (v, t)) (rest : Equations) :
    A.solve ((a, b) :: rest) =
      match A.bind v t with
      | (A', none) => A'.solve (rest.replace v t)
      | (A', some e) => (A', some e) := by
  rw [solve, if_neg hne, bind]
  split
  · rename_i v' t' ho'
    obtain ⟨rfl, rfl⟩ : v' = v ∧ t' = t := by
      rw [ho] at ho'
      simpa [eq_comm] using ho'
    split
    · rfl
    · split
      · rfl
      · rfl
  · rename_i ho'
    rw [ho] at ho'
    cases ho'

theorem solve_cons_arguments (hne : ts ≠ us) (hl : ts.length = us.length) (con : String)
    (rest : Equations) :
    A.solve ((.app con ts, .app con us) :: rest) = A.solve (ts.zip us ++ rest) := by
  rw [solve, if_neg (by simpa using hne)]
  split
  · rename_i ho
    cases ho
  · simp [hl]

theorem solve_cons_clash {c d : String} (h : c ≠ d ∨ ts.length ≠ us.length) (rest : Equations) :
    A.solve ((.app c ts, .app d us) :: rest) =
      (A, some (.impossible (.app c ts) (.app d us))) := by
  have hne : Ty.app c ts ≠ Ty.app d us := by
    rintro h'
    cases h'
    simp at h
  rw [solve, if_neg hne]
  split
  · rename_i ho
    cases ho
  · have hne' : ¬ (c = d ∧ ts.length = us.length) := by rwa [not_and_or]
    simp [hne']

end Aliases

namespace Equations
variable {A A' : Aliases} {eqs e₁ e₂ : Equations} {X : TyVar → Prop}

theorem mem_vars_pair {a b : Ty} {x : TyVar} :
    x ∈ vars [(a, b)] ↔ x ∈ a.occurrences ∨ x ∈ b.occurrences := by
  simp [vars, occurrences]

theorem canonicalize_of_canonical (h : eqs.Canonical A) : eqs.canonicalize A = eqs := by
  have hside : ∀ e ∈ eqs, (A.canonicalize e.1, A.canonicalize e.2) = e := by
    intro e he
    have h₁ : A.Canonical e.1 := fun v hv => h v (mem_vars.2 ⟨e, he, .inl hv⟩)
    have h₂ : A.Canonical e.2 := fun v hv => h v (mem_vars.2 ⟨e, he, .inr hv⟩)
    rw [h₁.canonicalize_eq, h₂.canonicalize_eq]
  rw [canonicalize, List.map_congr_left hside, List.map_id']

theorem canonicalize_canonicalize (hg : Aliases.Grows X A A') (hA : A.Acyclic) (eqs : Equations) :
    (eqs.canonicalize A).canonicalize A' = eqs.canonicalize A' := by
  simp only [canonicalize, List.map_map]
  refine List.map_congr_left fun e _ => ?_
  simp only [Function.comp, hg.canonicalize_canonicalize hA]

theorem canonicalize_replace {v : TyVar} {t : Ty} (h : A.value v = A.canonicalize t)
    (eqs : Equations) : (eqs.replace v t).canonicalize A = eqs.canonicalize A := by
  have hvt : (Reading.ofSubst A.value).read (.var v) = (Reading.ofSubst A.value).read t := h
  simp only [canonicalize, replace, List.map_map]
  refine List.map_congr_left fun e _ => ?_
  exact Prod.ext (Reading.read_replace hvt) (Reading.read_replace hvt)

theorem Canonical.left (h : Canonical A (e₁ ++ e₂)) : Canonical A e₁ :=
  fun v hv => h v (mem_vars_append.2 (.inl hv))

theorem Canonical.right (h : Canonical A (e₁ ++ e₂)) : Canonical A e₂ :=
  fun v hv => h v (mem_vars_append.2 (.inr hv))

theorem wellFormed_append : WellFormed (e₁ ++ e₂) ↔ e₁.WellFormed ∧ e₂.WellFormed :=
  List.forall_mem_append

theorem canonical_canonicalize (hA : A.Acyclic) (eqs : Equations) :
    (eqs.canonicalize A).Canonical A := by
  intro v hv
  obtain ⟨_, he, hv⟩ := mem_vars.1 hv
  obtain ⟨e, -, rfl⟩ := List.mem_map.1 he
  rcases hv with hv | hv
  · exact hA.canonical_canonicalize e.1 v hv
  · exact hA.canonical_canonicalize e.2 v hv

end Equations

namespace Aliases
variable {A A' : Aliases} {v : TyVar} {a b t u : Ty} {ts us : List Ty} {con : String}
  {eqs e₁ e₂ rest : Equations} {e : TypeError}

theorem exists_app_of_orient (ha : a.WellFormed) (hb : b.WellFormed) (ho : orient a b = none) :
    ∃ c ts d us, a = .app c ts ∧ b = .app d us := by
  match a, b with
  | .var v, b => simp [orient] at ho
  | .app c ts, .var v => simp [orient] at ho
  | .app c ts, .app d us => exact ⟨c, ts, d, us, rfl, rfl⟩
  | .alien x, _ => exact absurd ha (Ty.not_wellFormed_alien x)
  | .app c ts, .alien x => exact absurd hb (Ty.not_wellFormed_alien x)

/-- Solving equations in two parts: the second part is solved in the canonical forms that the first
one leaves. -/
theorem solve_append (hA : A.Acyclic) (hwf : Equations.WellFormed (e₁ ++ e₂))
    (hcan : Equations.Canonical A (e₁ ++ e₂)) :
    A.solve (e₁ ++ e₂) =
      match A.solve e₁ with
      | (A', none) => A'.solve (e₂.canonicalize A')
      | (A', some e) => (A', some e) := by
  fun_induction solve A e₁ generalizing e₂ with
  | case1 A =>
    show A.solve e₂ = A.solve (e₂.canonicalize A)
    rw [Equations.canonicalize_of_canonical hcan.right]
  | case2 A a rest ih =>
    rw [List.cons_append, solve_cons_self]
    exact ih hA (Equations.wellFormed_cons.1 hwf).2 hcan.tail
  | case3 A a b rest hne v t ho hocc =>
    rw [List.cons_append, solve_cons_of_orient hne ho, bind, if_pos hocc]
  | case4 A a b rest hne v t ho hocc hv =>
    rw [List.cons_append, solve_cons_of_orient hne ho, bind, if_neg hocc, if_pos hv]
  | case5 A a b rest hne v t ho hocc hv ih =>
    rw [List.cons_append] at hwf hcan ⊢
    rw [solve_cons_of_orient hne ho, bind, if_neg hocc, if_neg hv]
    have hvn : A.lookup v = none := by simpa using hv
    have ht : A.Canonical t := fun x hx => hcan x (Equations.mem_vars_of_orient ho (.inr hx))
    have hf : v ∉ t.occurrences := fun h => hocc (Ty.occurs_iff_mem_occurrences.2 h)
    have hA₁ : (A.record v t).Acyclic := hA.record hvn (by rwa [ht.canonicalize_eq])
    have hrep : Equations.replace (rest ++ e₂) v t =
        Equations.replace rest v t ++ Equations.replace e₂ v t := List.map_append
    have hwf' := (Equations.wellFormed_cons.1 hwf).2.replace (v := v) (hwf.of_orient ho)
    have hcan' := canonical_record hcan.tail ht hf
    rw [hrep] at hwf' hcan'
    have hg : Grows (fun _ => True) (A.record v t)
        ((A.record v t).solve (Equations.replace rest v t)).1 :=
      solve_grows (Equations.wellFormed_append.1 hwf').1 hcan'.left fun _ _ => trivial
    have hlook := hg.lookup_of_some (lookup_record_self A v t)
    show (A.record v t).solve (Equations.replace (rest ++ e₂) v t) = _
    rw [hrep, ih hA₁ hwf' hcan']
    split
    · rename_i A' hs
      rw [hs] at hg hlook
      rw [Equations.canonicalize_replace ((hg.acyclic hA₁).solvedBy_value _ _ hlook)]
    · rfl
  | case6 A rest con ts con' us ho hcon hne ih =>
    obtain ⟨rfl, hl⟩ := hcon
    rw [List.cons_append] at hwf hcan ⊢
    rw [solve_cons_arguments (by simpa using hne) hl, ← List.append_assoc]
    have hwf' := hwf.zip_append
    rw [← List.append_assoc] at hwf'
    refine ih hA hwf' fun x hx => hcan x (Equations.mem_vars_of_zip_append ?_)
    rwa [← List.append_assoc]
  | case7 A rest con ts con' us ho hcon hne =>
    rw [List.cons_append, solve_cons_clash (by rwa [not_and_or] at hcon)]
  | case8 A rest a b ho hno hne =>
    obtain ⟨⟨ha, hb⟩, -⟩ := Equations.wellFormed_cons.1 hwf
    obtain ⟨c, ts, d, us, rfl, rfl⟩ := exists_app_of_orient ha hb ho
    exact (hno c ts d us rfl rfl rfl .rfl).elim

theorem Grows.wellFormed_canonicalize {X : TyVar → Prop} (h : Grows X A A') (hA : A.Acyclic)
    (ht : (A.canonicalize t).WellFormed) : (A'.canonicalize t).WellFormed := by
  induction h with
  | refl => exact ht
  | @bind A A' v u hv hf hc hu _ _ _ ih =>
    have hf' : v ∉ (A.canonicalize u).occurrences := by rwa [hc.canonicalize_eq]
    refine ih (hA.record hv hf') ?_
    rw [hA.canonicalize_record hv hf', hc.canonicalize_eq]
    exact ht.replace hu

theorem Grows.wellFormed_equations {X : TyVar → Prop} (h : Grows X A A') (hA : A.Acyclic)
    (hwf : (eqs.canonicalize A).WellFormed) : (eqs.canonicalize A').WellFormed := by
  intro e' he'
  obtain ⟨e, he, rfl⟩ := List.mem_map.1 he'
  have := hwf _ (List.mem_map_of_mem he)
  exact ⟨h.wellFormed_canonicalize hA this.1, h.wellFormed_canonicalize hA this.2⟩

theorem unify?_of_ok {a' b' : Ty} (ha : A.canonicalize? a = .ok a') (hb : A.canonicalize? b = .ok b') :
    A.unify? a b = A.solve [(a', b')] := by
  obtain ⟨hawf, rfl⟩ := Ty.checked_eq_ok.1 ha
  obtain ⟨hbwf, rfl⟩ := Ty.checked_eq_ok.1 hb
  rcases A.unify?_cases a b with ⟨x, -, hn⟩ | ⟨h, -⟩
  · exact absurd ⟨hawf, hbwf⟩ hn
  · exact h

theorem unify?_of_error {x : Alien}
    (h : (A.canonicalize? a >>= fun _ => A.canonicalize? b) = .error x) :
    A.unify? a b = (A, some (.unexpected x)) := by
  unfold canonicalize? Ty.checked at h
  unfold unify?
  cases ha : (A.canonicalize a).alien? with
  | some y =>
    rw [ha] at h
    cases h
    rfl
  | none =>
    cases hb : (A.canonicalize b).alien? with
    | some y =>
      rw [ha, hb] at h
      cases h
      rfl
    | none =>
      rw [ha, hb] at h
      cases h

/-- The arguments of canonical forms are canonical. -/
theorem canonical_zip (hA : A.Acyclic) {c d : String} (ha : A.canonicalize? a = .ok (.app c ts))
    (hb : A.canonicalize? b = .ok (.app d us)) :
    Equations.Canonical A (ts.zip us) ∧ Equations.WellFormed (ts.zip us) := by
  obtain ⟨hawf, ha⟩ := Ty.checked_eq_ok.1 ha
  obtain ⟨hbwf, hb⟩ := Ty.checked_eq_ok.1 hb
  have hcan := canonical_pair hA a b
  rw [ha] at hawf hcan
  rw [hb] at hbwf hcan
  have hwf : Equations.WellFormed [(.app c ts, .app d us)] :=
    Equations.wellFormed_cons.2 ⟨⟨hawf, hbwf⟩, nofun⟩
  constructor
  · intro x hx
    exact hcan x (Equations.mem_vars_of_zip_append (by rwa [List.append_nil]))
  · simpa using hwf.zip_append

theorem solve_pair_orient (hne : a ≠ b) (ho : orient a b = some (v, t)) :
    A.solve [(a, b)] = A.bind v t := by
  rw [solve_cons_of_orient hne ho]
  split
  · rename_i h
    rw [h, Equations.replace, List.map_nil, solve]
  · rename_i h
    rw [h]

theorem unify?_of_wellFormed
    (hwf : Equations.WellFormed ((A.canonicalize a, A.canonicalize b) :: rest)) :
    A.unify? a b = A.solve [(A.canonicalize a, A.canonicalize b)] := by
  obtain ⟨⟨ha, hb⟩, -⟩ := Equations.wellFormed_cons.1 hwf
  exact unify?_of_ok (Ty.checked_eq_ok.2 ⟨ha, rfl⟩) (Ty.checked_eq_ok.2 ⟨hb, rfl⟩)

theorem Acyclic.grows_unify? {o : Option TypeError} (hA : A.Acyclic)
    (h : A.unify? a b = (A', o)) : Grows (fun _ => True) A A' := by
  have hg : Grows (fun _ => True) A (A.unify? a b).1 :=
    unify?_grows hA (fun _ _ => trivial) fun _ _ => trivial
  rwa [h] at hg

/-- Solving the canonical forms of equations starts with unifying the first two types and goes on
with the canonical forms of the others. -/
theorem solve_canonicalize_cons (hA : A.Acyclic)
    (hwf : (Equations.canonicalize ((a, b) :: eqs) A).WellFormed) :
    A.solve (Equations.canonicalize ((a, b) :: eqs) A) =
      match A.unify? a b with
      | (A', none) => A'.solve (eqs.canonicalize A')
      | (A', some e) => (A', some e) := by
  have hsplit : Equations.canonicalize ((a, b) :: eqs) A =
      [(A.canonicalize a, A.canonicalize b)] ++ eqs.canonicalize A := rfl
  have happend := solve_append hA (hsplit ▸ hwf) (hsplit ▸ Equations.canonical_canonicalize hA _)
  rw [hsplit, happend, ← unify?_of_wellFormed (a := a) (b := b) hwf]
  cases h : A.unify? a b with
  | mk A' o =>
    cases o with
    | none =>
      show A'.solve ((eqs.canonicalize A).canonicalize A') = A'.solve (eqs.canonicalize A')
      rw [Equations.canonicalize_canonicalize (hA.grows_unify? h) hA]
    | some e => rfl

mutual
theorem Unifies.eq : ∀ {A : Aliases} {a b : Ty} {r : Aliases × Option TypeError},
    A.Acyclic → Unifies A a b r → A.unify? a b = r
  | _, _, _, _, hA, .alienLeft ha => unify?_of_error (by rw [ha.eq hA]; rfl)
  | _, _, _, _, hA, .alienRight ha hb => unify?_of_error (by rw [ha.eq hA, hb.eq hA]; rfl)
  | _, _, _, _, hA, .same ha hb => by
    rw [unify?_of_ok (ha.eq hA) (hb.eq hA), solve_cons_self, solve]
  | _, _, _, _, hA, .bindLeft ha hb hne => by
    rw [unify?_of_ok (ha.eq hA) (hb.eq hA), solve_pair_orient (Ne.symm hne) rfl]
  | _, _, _, _, hA, .bindRight ha hb => by
    rw [unify?_of_ok (ha.eq hA) (hb.eq hA), solve_pair_orient (by simp) rfl]
  | _, _, _, _, hA, .clash ha hb h => by
    rw [unify?_of_ok (ha.eq hA) (hb.eq hA), solve_cons_clash h]
  | _, _, _, _, hA, .arguments ha hb hl hne h => by
    obtain ⟨hcan, hwf⟩ := canonical_zip hA (ha.eq hA) (hb.eq hA)
    have hz := Equations.canonicalize_of_canonical hcan
    have hs := h.eq hA (by rwa [hz])
    rw [hz] at hs
    rw [unify?_of_ok (ha.eq hA) (hb.eq hA), solve_cons_arguments hne hl, List.append_nil, hs]
theorem UnifiesAll.eq : ∀ {A : Aliases} {eqs : Equations} {r : Aliases × Option TypeError},
    A.Acyclic → (eqs.canonicalize A).WellFormed → UnifiesAll A eqs r →
    A.solve (eqs.canonicalize A) = r
  | _, _, _, _, _, .nil => by
    rw [Equations.canonicalize, List.map_nil, solve]
  | _, _, _, hA, hwf, .cons h hs => by
    have hg := hA.grows_unify? (h.eq hA)
    rw [solve_canonicalize_cons hA hwf, h.eq hA]
    exact hs.eq (hg.acyclic hA) (hg.wellFormed_equations hA (Equations.wellFormed_cons.1 hwf).2)
  | _, _, _, hA, hwf, .fail h => by
    rw [solve_canonicalize_cons hA hwf, h.eq hA]
end

/-! ### The calls of unification get smaller -/

theorem Grows.eq_or_exists {X : TyVar → Prop} (h : Grows X A A') :
    A' = A ∨ ∃ v t, X v ∧ A'.lookup v = some t := by
  cases h with
  | refl => exact .inl rfl
  | bind _ _ _ _ hX _ h => exact .inr ⟨_, _, hX, h.lookup_of_some (lookup_record_self ..)⟩

/-- The number of variables, and the number of nodes, of the canonical forms of two types. -/
def unifyMeasure (p : Aliases × Ty × Ty) : Nat × Nat :=
  let eqs : Equations := [(p.1.canonicalize p.2.1, p.1.canonicalize p.2.2)]
  (eqs.vars.size, eqs.size)

/-- A call for a pair of arguments comes after aliases between the variables of the caller's canonical
forms, and its operands are arguments of these forms. -/
theorem UnifyCall.grows (h : UnifyCall (A', t, u) (A, a, b)) (hA : A.Acyclic) :
    Grows (· ∈ Equations.vars [(A.canonicalize a, A.canonicalize b)]) A A' ∧
      (∃ c ts, A.canonicalize a = .app c ts ∧ t ∈ ts) ∧
      ∃ d us, A.canonicalize b = .app d us ∧ u ∈ us := by
  cases h with
  | @mk _ _ _ _ _ _ c ts us done rest ha hb _ _ hz hdone =>
    obtain ⟨hcan, hwf⟩ := canonical_zip hA (ha.eq hA) (hb.eq hA)
    have ha' : A.canonicalize a = .app c ts := (Ty.checked_eq_ok.1 (ha.eq hA)).2
    have hb' : A.canonicalize b = .app c us := (Ty.checked_eq_ok.1 (hb.eq hA)).2
    rw [ha', hb']
    have hX : ∀ x ∈ Equations.vars (ts.zip us), x ∈ Equations.vars [(.app c ts, .app c us)] :=
      fun x hx => Equations.mem_vars_of_zip_append (by rwa [List.append_nil])
    have hmem : (t, u) ∈ ts.zip us := by rw [hz]; simp
    rw [hz] at hcan hwf hX
    have hsolve : A.solve done = (A', none) := by
      have hc := Equations.canonicalize_of_canonical hcan.left
      have := hdone.eq hA (by rw [hc]; exact (Equations.wellFormed_append.1 hwf).1)
      rwa [hc] at this
    have hg := solve_grows (Equations.wellFormed_append.1 hwf).1 hcan.left
      fun x hx => hX x (Equations.mem_vars_append.2 (.inl hx))
    rw [hsolve] at hg
    obtain ⟨ht, hu⟩ := List.of_mem_zip hmem
    exact ⟨hg, ⟨c, ts, rfl, ht⟩, ⟨c, us, rfl, hu⟩⟩

theorem Acyclic.canonical_argument (hA : A.Acyclic) (ha : A.canonicalize a = .app con ts)
    (ht : t ∈ ts) :
    A.canonicalize t = t ∧ t.size < (A.canonicalize a).size ∧
      ∀ x ∈ t.occurrences, x ∈ (A.canonicalize a).occurrences := by
  have hsub : ∀ x ∈ t.occurrences, x ∈ (A.canonicalize a).occurrences := fun x hx => by
    rw [ha]
    exact Ty.mem_occurrences_app.2 ⟨t, ht, hx⟩
  have hcan : A.Canonical t := fun x hx => hA.canonical_canonicalize a x (hsub x hx)
  refine ⟨hcan.canonicalize_eq, ?_, hsub⟩
  have := Ty.size_le_sizeAll ht
  rw [ha, Ty.size]
  omega

/-- The call for a pair of arguments is on acyclic aliases again, and it is smaller than the call that
makes it. -/
theorem UnifyCall.measure_lt (h : UnifyCall (A', t, u) (A, a, b)) (hA : A.Acyclic) :
    A'.Acyclic ∧
      Prod.Lex (· < ·) (· < ·) (unifyMeasure (A', t, u)) (unifyMeasure (A, a, b)) := by
  obtain ⟨hg, ⟨c, ts, ha, ht⟩, d, us, hb, hu⟩ := h.grows hA
  obtain ⟨htcan, htsize, htvars⟩ := hA.canonical_argument ha ht
  obtain ⟨hucan, husize, huvars⟩ := hA.canonical_argument hb hu
  have hA' := hg.acyclic hA
  have hvars : ∀ x ∈ Equations.vars [(A'.canonicalize t, A'.canonicalize u)],
      x ∈ Equations.vars [(A.canonicalize a, A.canonicalize b)] := by
    intro x hx
    rcases Equations.mem_vars_pair.1 hx with hx | hx
    · refine hg.mem_canonicalize hA (fun w hw => ?_) x hx
      rw [htcan] at hw
      exact Equations.mem_vars_pair.2 (.inl (htvars w hw))
    · refine hg.mem_canonicalize hA (fun w hw => ?_) x hx
      rw [hucan] at hw
      exact Equations.mem_vars_pair.2 (.inr (huvars w hw))
  refine ⟨hA', ?_⟩
  rcases hg.eq_or_exists with rfl | ⟨v, s, hv, hvs⟩
  · refine lex_of_le (VarSet.size_le_of_subset hvars) ?_
    simp only [Equations.size, htcan, hucan]
    omega
  · refine .left _ _ (VarSet.size_lt_of_subset hvars hv fun hv' => ?_)
    -- the aliased variable is gone from the canonical forms
    rw [canonical_pair hA' t u v hv'] at hvs
    cases hvs

theorem Acyclic.acc_unifyCall (hA : A.Acyclic) (a b : Ty) : Acc UnifyCall (A, a, b) := by
  have hwf : WellFounded (Prod.Lex (· < ·) (· < ·) : Nat × Nat → Nat × Nat → Prop) :=
    WellFounded.prod_lex Nat.lt_wfRel.wf Nat.lt_wfRel.wf
  induction hp : unifyMeasure (A, a, b) using hwf.induction generalizing A a b with
  | _ p ih =>
    refine .intro _ fun ⟨A', t, u⟩ h => ?_
    obtain ⟨hA', hlt⟩ := h.measure_lt hA
    exact ih _ (hp ▸ hlt) hA' t u rfl

/-! ### Every call of unification returns -/

/-- If every call for a pair returns, the pairs are worked through. -/
theorem exists_unifiesAll (h : ∀ done t u rest A', eqs = done ++ (t, u) :: rest →
      UnifiesAll A done (A', none) → ∃ r, Unifies A' t u r) : ∃ r, UnifiesAll A eqs r := by
  induction eqs generalizing A with
  | nil => exact ⟨_, .nil⟩
  | cons e eqs ih =>
    obtain ⟨a, b⟩ := e
    obtain ⟨⟨A', o⟩, hab⟩ := h [] a b eqs A rfl .nil
    cases o with
    | some e => exact ⟨_, .fail hab⟩
    | none =>
      obtain ⟨r, hr⟩ := ih (A := A') fun done t u rest A'' heq hdone =>
        h ((a, b) :: done) t u rest A'' (by rw [heq, List.cons_append]) (.cons hab hdone)
      exact ⟨r, .cons hab hr⟩

theorem exists_unifies (h : Acc UnifyCall (A, a, b)) (hA : A.Acyclic) : ∃ r, Unifies A a b r := by
  generalize hp : (A, a, b) = p at h
  induction h generalizing A a b with
  | intro p _ ih =>
    subst hp
    cases ha : A.canonicalize? a with
    | error x => exact ⟨_, .alienLeft (hA.canonicalizes_iff.2 ha.symm)⟩
    | ok a' =>
      have ha' := hA.canonicalizes_iff.2 ha.symm
      cases hb : A.canonicalize? b with
      | error x => exact ⟨_, .alienRight ha' (hA.canonicalizes_iff.2 hb.symm)⟩
      | ok b' =>
        have hb' := hA.canonicalizes_iff.2 hb.symm
        by_cases hab : a' = b'
        · subst hab
          exact ⟨_, .same ha' hb'⟩
        · have hawf : a'.WellFormed := Ty.wellFormed_of_checked ha
          have hbwf : b'.WellFormed := Ty.wellFormed_of_checked hb
          match a', b' with
          | .var v, t => exact ⟨_, .bindLeft ha' hb' (Ne.symm hab)⟩
          | .app c ts, .var v => exact ⟨_, .bindRight ha' hb'⟩
          | .alien x, _ => exact absurd hawf (Ty.not_wellFormed_alien x)
          | .app c ts, .alien x => exact absurd hbwf (Ty.not_wellFormed_alien x)
          | .app c ts, .app d us =>
            by_cases hroot : c = d ∧ ts.length = us.length
            · obtain ⟨rfl, hl⟩ := hroot
              have hne : ts ≠ us := fun h => hab (h ▸ rfl)
              have hall : ∃ r, UnifiesAll A (ts.zip us) r :=
                exists_unifiesAll fun done t u rest A' hz hdone => by
                  have hcall : UnifyCall (A', t, u) (A, a, b) := .mk ha' hb' hl hne hz hdone
                  exact ih _ hcall (hcall.measure_lt hA).1 rfl
              obtain ⟨r, hr⟩ := hall
              exact ⟨r, .arguments ha' hb' hl hne hr⟩
            · exact ⟨_, .clash ha' hb' (not_and_or.1 hroot)⟩

theorem Acyclic.unifies_iff (hA : A.Acyclic) {r : Aliases × Option TypeError} :
    Unifies A a b r ↔ r = A.unify? a b := by
  obtain ⟨r', h⟩ := exists_unifies (hA.acc_unifyCall a b) hA
  have hr' := h.eq hA
  constructor
  · exact fun h => (h.eq hA).symm
  · rintro rfl
    rwa [hr']

/-- On acyclic aliases following aliases, computing canonical forms and unification return on all
arguments. Their recursive calls are well-founded, and the one result that a run can have is the one
that `resolve`, `canonicalize?` and `unify?` compute. -/
theorem Acyclic.runs_terminate (hA : A.Acyclic) (v : TyVar) (a b : Ty) :
    (Acc A.Hop v ∧ ∀ t, A.Resolves v t ↔ t = A.resolve v) ∧
    (Acc A.CanonicalizeCall a ∧ ∀ r, A.Canonicalizes a r ↔ r = A.canonicalize? a) ∧
    (Acc UnifyCall (A, a, b) ∧ ∀ r, Unifies A a b r ↔ r = A.unify? a b) :=
  ⟨⟨hA.acc_hop v, fun _ => hA.resolves_iff⟩,
    ⟨hA.acc_canonicalizeCall a, fun _ => hA.canonicalizes_iff⟩,
    ⟨hA.acc_unifyCall a b, fun _ => hA.unifies_iff⟩⟩

/-- With `t0` aliased to `List t1`, unifying `Pair t1 t0` and `Pair Int (List t2)` first records an
alias for `t1` and then works on `List Int`, which is what `t0` has become. -/
theorem Acyclic.runs_terminate_regrown :
    ((∅ : Aliases).record 0 (.app "List" [.var 1])).Acyclic ∧
    Acc UnifyCall ((∅ : Aliases).record 0 (.app "List" [.var 1]),
      .app "Pair" [.var 1, .var 0], .app "Pair" [.const "Int", .app "List" [.var 2]]) ∧
    Unifies ((∅ : Aliases).record 0 (.app "List" [.var 1]))
      (.app "Pair" [.var 1, .var 0]) (.app "Pair" [.const "Int", .app "List" [.var 2]])
      ((((∅ : Aliases).record 0 (.app "List" [.var 1])).record 1 (.const "Int")).record 2
        (.const "Int"), none) := by
  have hA : ((∅ : Aliases).record 0 (.app "List" [.var 1])).Acyclic :=
    acyclic_empty.record (lookup_empty 0) (by decide)
  have hrun := (hA.runs_terminate 0 (.app "Pair" [.var 1, .var 0])
    (.app "Pair" [.const "Int", .app "List" [.var 2]])).2.2
  refine ⟨hA, hrun.1, (hrun.2 _).2 ?_⟩
  cbv

end Aliases

end LetPoly
