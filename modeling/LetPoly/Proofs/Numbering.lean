import Mathlib.Algebra.Group.Nat.Defs
import LetPoly.Proofs.Renaming
import LetPoly.Scheme.Parser

/-!
# The numbers of names

The parser of schemes numbers the quantified names from zero, and the other names after them in the
order in which it meets them for the first time. So the number of a name is its place in one list, the
roster: the quantified names, then the unquantified ones without repetitions. `Scheme.Numbered` says
that the names met so far have these numbers; it is kept by quantifying a name (`Numbered.quantify`)
and by asking for the number of one (`Numbered.resolve`). Numbers wrap around, so places are told apart
by them only in a roster that is not too long (`TyVar.ofNat_idxOf_injOn`).
-/

namespace LetPoly

namespace TyVar

theorem toBitVec_toNat_ofNat (n : Nat) : (Int64.ofNat n).toBitVec.toNat = n % 2 ^ 64 := by
  rw [Int64.toBitVec_ofNat', BitVec.toNat_ofNat]

theorem ofNat_inj {m n : Nat} (hm : m < 2 ^ 64) (hn : n < 2 ^ 64)
    (h : Int64.ofNat m = Int64.ofNat n) : m = n := by
  have := congrArg (fun v : Int64 => v.toBitVec.toNat) h
  simp only [toBitVec_toNat_ofNat] at this
  omega

/-- Places in a list that is not too long are told apart by their numbers. -/
theorem ofNat_idxOf_injOn {α : Type} [DecidableEq α] {l : List α} (hl : l.length ≤ 2 ^ 64) :
    Set.InjOn (fun x => Int64.ofNat (l.idxOf x)) {x | x ∈ l} := by
  intro x hx y hy he
  have hidx := ofNat_inj (Nat.lt_of_lt_of_le (List.idxOf_lt_length_of_mem hx) hl)
    (Nat.lt_of_lt_of_le (List.idxOf_lt_length_of_mem hy) hl) he
  exact (List.idxOf_inj hx).1 hidx

theorem ofNat_mod (n : Nat) : Int64.ofNat (n % 2 ^ 64) = Int64.ofNat n := by
  refine Int64.toBitVec_inj.1 (BitVec.eq_of_toNat_eq ?_)
  rw [toBitVec_toNat_ofNat, toBitVec_toNat_ofNat, Nat.mod_mod]

theorem ofNat_nonneg_iff {n : Nat} : 0 ≤ Int64.ofNat n ↔ n % 2 ^ 64 < 2 ^ 63 := by
  have hzero : (0 : Int64).toInt = 0 := rfl
  have hsize : Int64.size = 2 ^ 64 := rfl
  rw [Int64.le_iff_toInt_le, hzero, Int64.toInt_ofNat', Int.bmod_def, hsize]
  split <;> omega

theorem length_le_of_lt {l : List Nat} {n : Nat} (h : l.Nodup) (hl : ∀ i ∈ l, i < n) :
    l.length ≤ n := by
  have := h.length_le_of_subset fun i hi => List.mem_range.2 (hl i hi)
  rwa [List.length_range] at this

theorem length_le_of_nodup {l : List TyVar} (h : l.Nodup) : l.length ≤ 2 ^ 64 := by
  have hinj : ∀ v ∈ l, ∀ w ∈ l, v.toBitVec.toNat = w.toBitVec.toNat → v = w :=
    fun v _ w _ he => Int64.toBitVec_inj.1 (BitVec.eq_of_toNat_eq he)
  have hlt : ∀ i ∈ l.map (·.toBitVec.toNat), i < 2 ^ 64 := by
    intro i hi
    obtain ⟨v, -, rfl⟩ := List.mem_map.1 hi
    exact v.toBitVec.isLt
  have := length_le_of_lt (h.map_on hinj) hlt
  rwa [List.length_map] at this

end TyVar

/-- The number of a name in a roster: its place, as a type variable. -/
def numberIn (roster : List String) (x : String) : TyVar := .ofNat (roster.idxOf x)

/-- The names in the order of their numbers, if `qs` are quantified and `xs` are met after that. -/
def roster (qs xs : List String) : List String := qs ++ (xs.filter (· ∉ qs)).eraseDups

section Roster
variable {qs xs zs zs' : List String} {x : String}

theorem mem_roster : x ∈ roster qs xs ↔ x ∈ qs ∨ x ∈ xs := by
  rw [roster, List.mem_append, List.mem_eraseDups, List.mem_filter]
  by_cases hx : x ∈ qs <;> simp [hx]

theorem prefix_roster (qs xs : List String) : qs <+: roster qs xs := List.prefix_append ..

theorem nodup_roster (hqs : qs.Nodup) (xs : List String) : (roster qs xs).Nodup := by
  refine List.nodup_append.2 ⟨hqs, nodup_eraseDups _, fun x hx y hy => ?_⟩
  rintro rfl
  simp [hx] at hy

theorem length_roster_le (qs xs : List String) :
    (roster qs xs).length ≤ qs.length + xs.length := by
  have hdups : (xs.filter (· ∉ qs)).eraseDups.length ≤ xs.length :=
    Nat.le_trans (length_eraseDups_le _) (List.length_filter_le ..)
  rw [roster, List.length_append]
  omega

theorem roster_concat (qs xs : List String) (x : String) :
    roster qs (xs ++ [x]) = if x ∈ roster qs xs then roster qs xs else roster qs xs ++ [x] := by
  by_cases hq : x ∈ qs
  · have hfilter : (xs ++ [x]).filter (· ∉ qs) = xs.filter (· ∉ qs) := by simp [hq]
    rw [if_pos (mem_roster.2 (.inl hq)), roster, roster, hfilter]
  · have hfilter : (xs ++ [x]).filter (· ∉ qs) = xs.filter (· ∉ qs) ++ [x] := by simp [hq]
    have hmem : x ∈ xs.filter (· ∉ qs) ↔ x ∈ roster qs xs := by simp [mem_roster, hq]
    rw [roster, roster, hfilter, eraseDups_concat]
    simp only [hmem, roster]
    split
    · rfl
    · rw [List.append_assoc]

theorem roster_grows (qs xs ys : List String) : roster qs xs <+: roster qs (xs ++ ys) := by
  rw [roster, roster, List.filter_append, List.eraseDups_append, ← List.append_assoc]
  exact List.prefix_append ..

theorem numberIn_stable (h : zs <+: zs') (hx : x ∈ zs) : numberIn zs x = numberIn zs' x := by
  obtain ⟨ys, rfl⟩ := h
  rw [numberIn, numberIn, List.idxOf_append_of_mem hx]

theorem numberIn_concat (hx : x ∉ zs) : numberIn (zs ++ [x]) x = .ofNat zs.length := by
  rw [numberIn, List.idxOf_append_of_notMem hx, List.idxOf_cons_self, Nat.add_zero]

end Roster

theorem TyVar.next_ofNat (n : Nat) : TyVar.next (.ofNat n) = .ofNat (n + 1) :=
  (Int64.ofNat_add n 1).symm

section Lookup
variable {α : Type} {l : List (String × α)} {x y : String}

theorem lookup_cons_ite (p : String × α) (l : List (String × α)) (x : String) :
    (p :: l).lookup x = if x = p.1 then some p.2 else l.lookup x := by
  rw [List.lookup_cons]
  by_cases h : x = p.1
  · simp [h]
  · simp [beq_false_of_ne h, h]

theorem lookup_map (qs : List String) (f : String → α) (x : String) :
    (qs.map fun y => (y, f y)).lookup x = if x ∈ qs then some (f x) else none := by
  induction qs with
  | nil => rfl
  | cons y qs ih =>
    rw [List.map_cons, lookup_cons_ite, ih]
    by_cases h : x = y <;> simp [h]

theorem lookup_filter_ne (h : y ≠ x) : (l.filter (·.1 != x)).lookup y = l.lookup y := by
  induction l with
  | nil => rfl
  | cons p l ih =>
    rw [lookup_cons_ite, List.filter_cons]
    split
    · rw [lookup_cons_ite, ih]
    · rename_i hp
      have hp : p.1 = x := by simpa using hp
      rw [if_neg (hp ▸ h), ih]

end Lookup

namespace NameTable
variable {names : NameTable} {x y : String} {v : TyVar}

theorem find?_assign (names : NameTable) (x y : String) (v : TyVar) :
    (names.assign x v).find? y = if y = x then some v else names.find? y := by
  rw [find?, assign, lookup_cons_ite]
  split
  · rfl
  · rename_i h
    exact lookup_filter_ne h

/-! ### Meeting names -/

variable {bound : List (String × TyVar)} {xs ys : List String} {number : String → TyVar}

/-- The number of a name: the one it is quantified with, or else the one in the table. -/
def number? (names : NameTable) (bound : List (String × TyVar)) (x : String) : Option TyVar :=
  (bound.lookup x).or (names.find? x)

/-- The table after a name was met. -/
def meet (names : NameTable) (bound : List (String × TyVar)) (x : String) : NameTable :=
  if (bound.lookup x).isSome then names else (names.intern x).2

/-- The table after several names were met. -/
def meetAll (names : NameTable) (bound : List (String × TyVar)) (xs : List String) : NameTable :=
  xs.foldl (·.meet bound ·) names

theorem meetAll_append (names : NameTable) (bound : List (String × TyVar)) (xs ys : List String) :
    names.meetAll bound (xs ++ ys) = (names.meetAll bound xs).meetAll bound ys :=
  List.foldl_append

theorem find?_intern (names : NameTable) (x y : String) :
    (names.intern x).2.find? y = if y = x then some (names.intern x).1 else names.find? y := by
  unfold intern
  split
  · rename_i v hv
    split
    · rename_i hyx
      rw [hyx, hv]
    · rfl
  · exact find?_assign ..

theorem find?_meet_of_some (h : names.find? y = some v) : (names.meet bound x).find? y = some v := by
  unfold meet
  split
  · exact h
  · rw [find?_intern]
    split
    · rename_i hyx
      rw [← hyx, intern, h]
    · exact h

theorem find?_meetAll_of_some (h : names.find? y = some v) :
    (names.meetAll bound xs).find? y = some v := by
  induction xs generalizing names with
  | nil => exact h
  | cons x xs ih => exact ih (find?_meet_of_some h)

theorem number?_meetAll_of_some (h : names.number? bound x = some v) :
    (names.meetAll bound xs).number? bound x = some v := by
  rcases Option.or_eq_some_iff.1 h with hx | ⟨hx, hv⟩
  · rw [number?, hx, Option.some_or]
  · rw [number?, hx, Option.none_or, find?_meetAll_of_some hv]

theorem exists_number?_meet (names : NameTable) (bound : List (String × TyVar)) (x : String) :
    ∃ v, (names.meet bound x).number? bound x = some v := by
  cases hx : bound.lookup x with
  | some v => exact ⟨v, by rw [number?, hx, Option.some_or]⟩
  | none =>
    refine ⟨(names.intern x).1, ?_⟩
    rw [number?, hx, Option.none_or, meet, hx, if_neg (by simp), find?_intern, if_pos rfl]

/-- Every name that was met has a number. -/
theorem exists_number?_meetAll (names : NameTable) (bound : List (String × TyVar)) (hx : x ∈ xs) :
    ∃ v, (names.meetAll bound xs).number? bound x = some v := by
  obtain ⟨ys, zs, rfl⟩ := List.append_of_mem hx
  obtain ⟨v, hv⟩ := exists_number?_meet (names.meetAll bound ys) bound x
  refine ⟨v, ?_⟩
  rw [meetAll_append]
  change (((names.meetAll bound ys).meet bound x).meetAll bound zs).number? bound x = some v
  exact number?_meetAll_of_some hv

/-- When the names `xs` have been met, their numbers are those that `number` says. -/
def Fits (number : String → TyVar) (names : NameTable) (bound : List (String × TyVar))
    (xs : List String) : Prop :=
  ∀ x ∈ xs, (names.meetAll bound xs).number? bound x = some (number x)

theorem Fits.append_left (h : names.Fits number bound (xs ++ ys)) : names.Fits number bound xs := by
  intro x hx
  obtain ⟨v, hv⟩ := exists_number?_meetAll names bound hx
  have hnumber := h x (List.mem_append_left ys hx)
  rw [meetAll_append, number?_meetAll_of_some hv] at hnumber
  rw [hv, hnumber]

theorem Fits.append_right (h : names.Fits number bound (xs ++ ys)) :
    (names.meetAll bound xs).Fits number bound ys := by
  intro x hx
  rw [← meetAll_append]
  exact h x (List.mem_append_right xs hx)

/-! ### Quantifying names -/

/-- The table after a number of numbers have been taken. -/
def skip (names : NameTable) (n : Nat) : NameTable := { names with next := names.next + .ofNat n }

/-- The names after `forall` with their numbers, which are the next ones of the table in turn. -/
def quantified (names : NameTable) (qs : List String) : List (String × TyVar) :=
  qs.eraseDups.map fun x => (x, names.next + numberIn qs.eraseDups x)

variable {qs : List String}

theorem skip_zero (names : NameTable) : names.skip 0 = names := by
  have hnext : names.next + .ofNat 0 = names.next := Int64.add_zero _
  rw [skip, hnext]

theorem advance_skip (names : NameTable) (n : Nat) : (names.skip n).advance = names.skip (n + 1) := by
  have hnext : (names.next + .ofNat n : TyVar).next = names.next + .ofNat (n + 1) := by
    rw [← TyVar.next_ofNat, TyVar.next, TyVar.next, Int64.add_assoc]
  rw [advance, skip, hnext]
  rfl

theorem lookup_quantified (names : NameTable) (qs : List String) (x : String) :
    (names.quantified qs).lookup x =
      if x ∈ qs then some (names.next + numberIn qs.eraseDups x) else none := by
  rw [quantified, lookup_map]
  simp only [List.mem_eraseDups]

theorem quantified_concat_of_mem (hx : x ∈ qs) :
    names.quantified (qs ++ [x]) = names.quantified qs := by
  rw [quantified, eraseDups_concat, if_pos hx]
  rfl

theorem quantified_concat_of_not_mem (hx : x ∉ qs) : names.quantified (qs ++ [x]) =
    names.quantified qs ++ [(x, names.next + .ofNat qs.eraseDups.length)] := by
  have hx' : x ∉ qs.eraseDups := mt List.mem_eraseDups.1 hx
  have hold : ∀ y ∈ qs.eraseDups, (y, names.next + numberIn (qs.eraseDups ++ [x]) y) =
      (y, names.next + numberIn qs.eraseDups y) :=
    fun y hy => by rw [numberIn_stable (List.prefix_append _ [x]) hy]
  rw [quantified, eraseDups_concat, if_neg hx, List.map_append, List.map_congr_left hold,
    List.map_singleton, numberIn_concat hx']
  rfl

end NameTable

namespace Scheme

theorem Reading.exists_resolve (r : Reading) (x : String) :
    ∃ v, r.resolve x = (.var v, r.names.meet r.bound x) ∧
      (r.names.meet r.bound x).number? r.bound x = some v := by
  obtain ⟨v, hv⟩ := r.names.exists_number?_meet r.bound x
  refine ⟨v, ?_, hv⟩
  unfold NameTable.meet NameTable.number? at hv
  unfold NameTable.meet resolve
  cases hx : r.bound.lookup x with
  | some w =>
    rw [hx, Option.some_or] at hv
    rw [Option.some.inj hv]
    rfl
  | none =>
    rw [hx, Option.none_or, if_neg (by simp), NameTable.find?_intern, if_pos rfl] at hv
    rw [← Option.some.inj hv]
    rfl

/-- The quantified names `qs`, and the names `xs` met after them, have the numbers of the roster. -/
structure Numbered (qs xs : List String) (bound : List (String × TyVar)) (names : NameTable) :
    Prop where
  nodup : qs.Nodup
  bound_eq : bound = qs.map fun x => (x, numberIn qs x)
  find? : ∀ x ∉ qs,
    names.find? x = if x ∈ roster qs xs then some (numberIn (roster qs xs) x) else none
  next : names.next = .ofNat (roster qs xs).length

namespace Numbered
variable {qs xs : List String} {r : Reading} {x : String}

theorem nil : Numbered [] [] [] {} :=
  ⟨List.nodup_nil, rfl, fun _ _ => rfl, rfl⟩

/-- A table with nothing in it numbers the quantified names from zero. -/
theorem of_quantified (qs : List String) :
    Numbered qs.eraseDups [] (({} : NameTable).quantified qs)
      (({} : NameTable).skip qs.eraseDups.length) := by
  have hroster : roster qs.eraseDups [] = qs.eraseDups := List.append_nil _
  refine ⟨nodup_eraseDups qs, ?_, fun x hx => ?_, ?_⟩
  · exact List.map_congr_left fun x _ => by rw [Int64.zero_add]
  · rw [hroster, if_neg hx]
    rfl
  · rw [hroster]
    exact Int64.zero_add _

theorem lookup_bound (h : Numbered qs xs r.bound r.names) (x : String) :
    r.bound.lookup x = if x ∈ qs then some (numberIn qs x) else none := by
  rw [h.bound_eq, lookup_map]

/-- Meeting a name again changes nothing. -/
theorem again (h : Numbered qs xs r.bound r.names) (hx : x ∈ roster qs xs) :
    Numbered qs (xs ++ [x]) r.bound r.names := by
  have hroster : roster qs (xs ++ [x]) = roster qs xs := by rw [roster_concat, if_pos hx]
  refine ⟨h.nodup, h.bound_eq, ?_, ?_⟩
  · rw [hroster]
    exact h.find?
  · rw [hroster]
    exact h.next

theorem intern (h : Numbered qs xs r.bound r.names) (hx : x ∉ qs) :
    (r.names.intern x).1 = numberIn (roster qs (xs ++ [x])) x ∧
      Numbered qs (xs ++ [x]) r.bound (r.names.intern x).2 := by
  rw [NameTable.intern, h.find? x hx]
  by_cases hmem : x ∈ roster qs xs
  · rw [if_pos hmem, roster_concat, if_pos hmem]
    exact ⟨rfl, h.again hmem⟩
  · have hroster : roster qs (xs ++ [x]) = roster qs xs ++ [x] := by rw [roster_concat, if_neg hmem]
    rw [if_neg hmem]
    have hnext : r.names.next = numberIn (roster qs (xs ++ [x])) x := by
      rw [hroster, numberIn_concat hmem, h.next]
    refine ⟨hnext, h.nodup, h.bound_eq, fun y hy => ?_, ?_⟩
    · rw [NameTable.find?_assign]
      split
      · rename_i hyx
        rw [hyx, if_pos (by rw [hroster]; simp), hnext]
      · rename_i hyx
        have hiff : y ∈ roster qs (xs ++ [x]) ↔ y ∈ roster qs xs := by rw [hroster]; simp [hyx]
        refine (h.find? y hy).trans ?_
        simp only [hiff]
        split
        · rename_i hy'
          rw [numberIn_stable (roster_grows qs xs [x]) hy']
        · rfl
    · rw [hroster, List.length_append, List.length_singleton, ← TyVar.next_ofNat, ← h.next]
      rfl

/-- Asking for the number of a name meets it. -/
theorem resolve (h : Numbered qs xs r.bound r.names) (x : String) :
    ∃ names, r.resolve x = (.var (numberIn (roster qs (xs ++ [x])) x), names) ∧
      Numbered qs (xs ++ [x]) r.bound names := by
  rw [Reading.resolve, h.lookup_bound]
  by_cases hx : x ∈ qs
  · refine ⟨r.names, ?_, h.again (mem_roster.2 (.inl hx))⟩
    rw [if_pos hx, numberIn_stable (prefix_roster ..) hx]
  · obtain ⟨hv, hN⟩ := h.intern hx
    exact ⟨_, by rw [if_neg hx, ← hv], hN⟩

theorem meetAll (h : Numbered qs xs r.bound r.names) (ys : List String) :
    Numbered qs (xs ++ ys) r.bound (r.names.meetAll r.bound ys) := by
  induction ys generalizing xs r with
  | nil => rwa [List.append_nil]
  | cons y ys ih =>
    obtain ⟨v, hv, -⟩ := r.exists_resolve y
    obtain ⟨names, hres, hN⟩ := h.resolve y
    rw [hv] at hres
    obtain rfl := (Prod.mk.inj hres).2
    rw [List.append_cons]
    exact ih (r := { r with names := r.names.meet r.bound y }) hN

/-- The names that are met get the numbers of the roster. -/
theorem fits (h : Numbered qs [] r.bound r.names) (xs : List String) :
    r.names.Fits (numberIn (roster qs xs)) r.bound xs := by
  intro x hx
  have hxs := h.meetAll xs
  rw [NameTable.number?, h.lookup_bound]
  by_cases hq : x ∈ qs
  · rw [if_pos hq, Option.some_or, numberIn_stable (prefix_roster ..) hq]
  · rw [if_neg hq, Option.none_or, hxs.find? x hq, List.nil_append, if_pos (mem_roster.2 (.inr hx))]

theorem quantify_of_mem (h : Numbered qs xs r.bound r.names) (hx : x ∈ qs) : r.quantify x = r := by
  rw [Reading.quantify, h.lookup_bound, if_pos hx]

theorem quantify (h : Numbered qs [] r.bound r.names) (hx : x ∉ qs) :
    Numbered (qs ++ [x]) [] (r.quantify x).bound (r.quantify x).names := by
  have hroster : ∀ qs : List String, roster qs [] = qs := List.append_nil
  have hnext : r.names.next = .ofNat qs.length := by rw [h.next, hroster]
  rw [Reading.quantify, h.lookup_bound, if_neg hx]
  refine ⟨List.concat_eq_append ▸ h.nodup.concat hx, ?_, fun y hy => ?_, ?_⟩
  · have hold : ∀ y ∈ qs, (y, numberIn qs y) = (y, numberIn (qs ++ [x]) y) :=
      fun y hy => by rw [numberIn_stable (List.prefix_append qs [x]) hy]
    rw [List.map_append, List.map_singleton, numberIn_concat hx, ← hnext, h.bound_eq,
      List.map_congr_left hold]
  · have hy' : y ∉ qs := fun hy' => hy (List.mem_append_left _ hy')
    rw [hroster, if_neg hy]
    refine (h.find? y hy').trans ?_
    rw [hroster, if_neg hy']
  · rw [hroster, List.length_append, List.length_singleton, ← TyVar.next_ofNat, ← hnext]
    rfl

end Numbered

end Scheme

end LetPoly
