import LetPoly.Proofs.SchemeAcceptance

/-!
# What the source of a scheme denotes

Once its free names have numbers, a source denotes a scheme up to the numbers of the quantified names
(`Scheme.Tree.Denotes`), and any two schemes that it denotes are equivalent.

The parser takes these numbers from a table. If the table has given out the numbers below `n` and no
others (`NameTable.Counts`), then after the next scheme it has given out those below some `n'`, names
that it knew keep their numbers (`NameTable.Grows`), and the scheme mentions every number from `n` on:
first those of its quantified names, then those of the free names that are met for the first time.
-/

namespace LetPoly

open Token (Lexeme idents)

/-! ### Tables that count -/

namespace NameTable
variable {N N' N'' : NameTable} {n n' n'' k : Nat} {x y : String} {v : TyVar} {xs : List String}
  {bound : List (String × TyVar)}

/-- The next number is `n`, and different names have different numbers below it. -/
structure Counts (N : NameTable) (n : Nat) : Prop where
  next : N.next = .ofNat n
  lt {x : String} {v : TyVar} : N.find? x = some v → ∃ i < n, v = .ofNat i
  inj {x y : String} {v : TyVar} : N.find? x = some v → N.find? y = some v → x = y

/-- `N'` knows what `N` knows, and gives new names numbers from `n` on. -/
structure Grows (N : NameTable) (n : Nat) (N' : NameTable) (n' : Nat) : Prop where
  le : n ≤ n'
  counts : N'.Counts n'
  kept {x : String} {v : TyVar} : N.find? x = some v → N'.find? x = some v
  new {x : String} {v : TyVar} :
    N'.find? x = some v → N.find? x = some v ∨ ∃ i, n ≤ i ∧ i < n' ∧ v = .ofNat i

theorem counts_empty : Counts {} 0 := ⟨rfl, nofun, nofun⟩

theorem Counts.skip (h : N.Counts n) (k : Nat) : (N.skip k).Counts (n + k) := by
  refine ⟨?_, fun hv => ?_, h.inj⟩
  · rw [NameTable.skip, h.next, ← Int64.ofNat_add]
  · obtain ⟨i, hi, rfl⟩ := h.lt hv
    exact ⟨i, by omega, rfl⟩

theorem Counts.grows_refl (h : N.Counts n) : N.Grows n N n :=
  ⟨Nat.le_refl n, h, id, .inl⟩

theorem Grows.trans (h : N.Grows n N' n') (h' : N'.Grows n' N'' n'') : N.Grows n N'' n'' := by
  refine ⟨h.le.trans h'.le, h'.counts, fun hv => h'.kept (h.kept hv), fun hv => ?_⟩
  rcases h'.new hv with hv | ⟨i, hi, hin, rfl⟩
  · rcases h.new hv with hv | ⟨i, hi, hin, rfl⟩
    · exact .inl hv
    · exact .inr ⟨i, hi, hin.trans_le h'.le, rfl⟩
  · exact .inr ⟨i, h.le.trans hi, hin, rfl⟩

theorem Counts.grows_intern (h : N.Counts n) (hn : n < 2 ^ 64) (hx : N.find? x = none) :
    N.Grows n (N.intern x).2 (n + 1) ∧ (N.intern x).2.find? x = some (.ofNat n) := by
  have hfind : ∀ y, (N.intern x).2.find? y = if y = x then some (.ofNat n) else N.find? y := by
    intro y
    rw [find?_intern, intern, hx, h.next]
  -- the number that `x` gets is not the one of another name
  have hfresh : ∀ y, N.find? y ≠ some (.ofNat n) := by
    intro y hy
    obtain ⟨i, hi, he⟩ := h.lt hy
    have := TyVar.ofNat_inj hn (by omega) he
    omega
  refine ⟨⟨Nat.le_succ n, ⟨?_, fun {y v} hy => ?_, fun {y z v} hy hz => ?_⟩, fun {y v} hy => ?_,
    fun {y v} hy => ?_⟩, by rw [hfind, if_pos rfl]⟩
  · rw [intern, hx]
    change N.next.next = _
    rw [h.next, TyVar.next_ofNat]
  · rw [hfind] at hy
    split at hy
    · cases hy
      exact ⟨n, Nat.lt_succ_self n, rfl⟩
    · obtain ⟨i, hi, rfl⟩ := h.lt hy
      exact ⟨i, by omega, rfl⟩
  · rw [hfind] at hy hz
    split at hy <;> split at hz
    · simp_all
    · cases hy
      exact absurd hz (hfresh z)
    · cases hz
      exact absurd hy (hfresh y)
    · exact h.inj hy hz
  · rw [hfind, if_neg, hy]
    rintro rfl
    rw [hx] at hy
    cases hy
  · rw [hfind] at hy
    split at hy
    · cases hy
      exact .inr ⟨n, Nat.le_refl n, Nat.lt_succ_self n, rfl⟩
    · exact .inl hy

theorem Counts.exists_meet (h : N.Counts n) (hn : n < 2 ^ 64) (bound : List (String × TyVar))
    (x : String) : ∃ n' ≤ n + 1, N.Grows n (N.meet bound x) n' ∧ ∀ i, n ≤ i → i < n' →
      bound.lookup x = none ∧ (N.meet bound x).find? x = some (.ofNat i) := by
  have hsame : N.meet bound x = N → ∃ n' ≤ n + 1, N.Grows n (N.meet bound x) n' ∧ ∀ i, n ≤ i → i < n' →
      bound.lookup x = none ∧ (N.meet bound x).find? x = some (.ofNat i) := by
    intro he
    rw [he]
    exact ⟨n, Nat.le_succ n, h.grows_refl, fun i hi hin => absurd hi (Nat.not_le.2 hin)⟩
  cases hb : bound.lookup x with
  | some v => exact hb ▸ hsame (by rw [meet, hb]; rfl)
  | none =>
    cases hx : N.find? x with
    | some v => exact hb ▸ hsame (by rw [meet, hb, if_neg (by simp), intern, hx])
    | none =>
      obtain ⟨hgrows, hfind⟩ := h.grows_intern hn hx
      rw [meet, hb, if_neg (by simp)]
      refine ⟨n + 1, Nat.le_refl _, hgrows, fun i hi hin => ⟨rfl, ?_⟩⟩
      obtain rfl : i = n := by omega
      exact hfind

/-- Of the numbers that are given out, each is the number of a name that was met. -/
theorem Counts.exists_meetAll (h : N.Counts n) (hn : n + xs.length ≤ 2 ^ 64)
    (bound : List (String × TyVar)) : ∃ n' ≤ n + xs.length, N.Grows n (N.meetAll bound xs) n' ∧
      ∀ i, n ≤ i → i < n' → ∃ x ∈ xs, bound.lookup x = none ∧
        (N.meetAll bound xs).find? x = some (.ofNat i) := by
  induction xs generalizing N n with
  | nil => exact ⟨n, Nat.le_refl n, h.grows_refl, fun i hi hin => absurd hi (Nat.not_le.2 hin)⟩
  | cons x xs ih =>
    rw [List.length_cons] at hn
    obtain ⟨m, hm, hgrows, hnew⟩ := h.exists_meet (by omega) bound x
    obtain ⟨n', hn', hgrows', hnew'⟩ := ih hgrows.counts (by omega)
    refine ⟨n', by rw [List.length_cons]; omega, hgrows.trans hgrows', fun i hi hin => ?_⟩
    by_cases him : i < m
    · obtain ⟨hb, hx⟩ := hnew i hi him
      exact ⟨x, List.mem_cons_self, hb, hgrows'.kept hx⟩
    · obtain ⟨y, hy, hb, hfind⟩ := hnew' i (by omega) hin
      exact ⟨y, List.mem_cons_of_mem x hy, hb, hfind⟩

end NameTable

/-! ### The names of a tree -/

theorem VarSet.size_ofList_map {f : String → TyVar} {xs : List String} (h : Set.InjOn f {x | x ∈ xs}) :
    (VarSet.ofList (xs.map f)).size = xs.eraseDups.length := by
  have hdups : VarSet.ofList (xs.map f) = VarSet.ofList (xs.eraseDups.map f) := by
    ext v
    simp only [VarSet.mem_ofList, List.mem_map, List.mem_eraseDups]
  have hinj : ∀ x ∈ xs.eraseDups, ∀ y ∈ xs.eraseDups, f x = f y → x = y :=
    fun x hx y hy => h (List.mem_eraseDups.1 hx) (List.mem_eraseDups.1 hy)
  rw [hdups, VarSet.size_ofList ((nodup_eraseDups xs).map_on hinj), List.length_map]

namespace Scheme
namespace Tree
variable {d : Tree} {N : NameTable} {n : Nat} {x : String} {v : TyVar} {s s' : Scheme}
  {ρ number : String → TyVar}

/-- All names, the quantified ones first. -/
def names (d : Tree) : List String := d.quantified ++ idents d.body.lexemes

/-- The names that are not quantified. -/
def free (d : Tree) : List String := (idents d.body.lexemes).filter (· ∉ d.quantified)

theorem mem_names : x ∈ d.names ↔ x ∈ d.quantified ∨ x ∈ idents d.body.lexemes := List.mem_append

theorem mem_free : x ∈ d.free ↔ x ∈ idents d.body.lexemes ∧ x ∉ d.quantified := by
  rw [free, List.mem_filter, decide_eq_true_iff]

theorem mem_names_iff : x ∈ d.names ↔ x ∈ d.quantified ∨ x ∈ d.free := by
  rw [mem_names, mem_free]
  tauto

theorem length_names_le (d : Tree) : d.names.length ≤ d.lexemes.length := by
  have hbody : (idents d.body.lexemes).length ≤ d.body.lexemes.length := List.length_filterMap_le ..
  rw [names, List.length_append]
  cases d with
  | mono t => simpa [quantified, body, lexemes] using hbody
  | forAll f x xs dot t =>
    simp only [quantified, body, lexemes, List.length_cons, List.length_append, List.length_map]
      at hbody ⊢
    omega

theorem mentions_scheme : (d.scheme number).Mentions v ↔ ∃ x ∈ d.names, number x = v := by
  rw [Mentions, scheme, Scheme.forAll, VarSet.mem_ofList, Ty.Tree.occurrences_ty, ← List.mem_append,
    ← List.map_append, List.mem_map]
  rfl

/-! ### Denoted schemes -/

/-- The tree stands for `s` if its free names have the numbers that `ρ` says. The quantified ones may
have any numbers, as long as no two names of the tree have the same. -/
def Denotes (d : Tree) (ρ : String → TyVar) (s : Scheme) : Prop :=
  ∃ number, Set.InjOn number {x | x ∈ d.names} ∧ (∀ x ∈ d.free, number x = ρ x) ∧ s = d.scheme number

theorem mem_vars_scheme (h : Set.InjOn number {x | x ∈ d.names}) (hx : x ∈ d.names) :
    number x ∈ (d.scheme number).vars ↔ x ∈ d.quantified := by
  rw [scheme, Scheme.forAll, VarSet.mem_ofList, List.mem_map]
  constructor
  · rintro ⟨y, hy, he⟩
    exact h (mem_names.2 (.inl hy)) hx he ▸ hy
  · exact fun hq => ⟨x, hq, rfl⟩

theorem Denotes.equivalent (h : d.Denotes ρ s) (h' : d.Denotes ρ s') : s.equivalent s' = true := by
  obtain ⟨f, hf, hfρ, rfl⟩ := h
  obtain ⟨g, hg, hgρ, rfl⟩ := h'
  have hquantified : {x | x ∈ d.quantified} ⊆ {x | x ∈ d.names} := fun x hx => mem_names.2 (.inl hx)
  refine equivalent_iff.2 ⟨?_, fun v w => ∃ x ∈ d.quantified, f x = v ∧ g x = w, ⟨?_, ?_⟩, ?_⟩
  · exact (VarSet.size_ofList_map (hf.mono hquantified)).trans
      (VarSet.size_ofList_map (hg.mono hquantified)).symm
  · rintro _ _ _ ⟨x, hx, rfl, rfl⟩ ⟨y, hy, rfl, he⟩
    rw [hg (hquantified hy) (hquantified hx) he]
  · rintro _ _ _ ⟨x, hx, rfl, rfl⟩ ⟨y, hy, he, rfl⟩
    rw [hf (hquantified hy) (hquantified hx) he]
  · refine d.body.corresponds fun x hx => ?_
    have hxd : x ∈ d.names := mem_names.2 (.inr hx)
    by_cases hq : x ∈ d.quantified
    · exact .inl ⟨(mem_vars_scheme hf hxd).2 hq, (mem_vars_scheme hg hxd).2 hq, x, hq, rfl, rfl⟩
    · have hfree : x ∈ d.free := mem_free.2 ⟨hx, hq⟩
      exact .inr ⟨mt (mem_vars_scheme hf hxd).1 hq, mt (mem_vars_scheme hg hxd).1 hq,
        (hfρ x hfree).trans (hgρ x hfree).symm⟩

/-! ### The scheme that is read -/

/-- The numbers from `n` on are given to the quantified names of the tree first, and then up to `n'` to
free names that are new. -/
structure Numbers (d : Tree) (N : NameTable) (n n' : Nat) : Prop where
  counts : N.Counts n
  grows : (N.skip d.quantified.eraseDups.length).Grows (n + d.quantified.eraseDups.length)
    (d.namesAfter N) n'
  new : ∀ i, n + d.quantified.eraseDups.length ≤ i → i < n' →
    ∃ x ∈ d.free, d.numberWith N x = .ofNat i
  le : n' ≤ 2 ^ 64

theorem exists_numbers (h : N.Counts n) (hn : n + d.lexemes.length ≤ 2 ^ 64) :
    ∃ n' ≤ n + d.lexemes.length, d.Numbers N n n' := by
  have hdups := length_eraseDups_le d.quantified
  have hlength := d.length_names_le
  rw [names, List.length_append] at hlength
  have hroom : n + d.quantified.eraseDups.length + (idents d.body.lexemes).length ≤
      n + d.lexemes.length := by omega
  obtain ⟨n', hn', hgrows, hnew⟩ := (h.skip d.quantified.eraseDups.length).exists_meetAll
    (hroom.trans hn) (N.quantified d.quantified)
  refine ⟨n', hn'.trans hroom, h, hgrows, fun i hi hin => ?_, by omega⟩
  obtain ⟨x, hx, hb, hfind⟩ := hnew i hi hin
  have hq : x ∉ d.quantified := by
    intro hq
    rw [NameTable.lookup_quantified, if_pos hq] at hb
    cases hb
  have hnumber := (find?_namesAfter (N := N) hx hq).symm.trans hfind
  exact ⟨x, mem_free.2 ⟨hx, hq⟩, Option.some.inj hnumber⟩

namespace Numbers
variable {n' : Nat} {y : String}

theorem quantified (h : d.Numbers N n n') (hx : x ∈ d.quantified) : ∃ i,
    d.numberWith N x = .ofNat (n + i) ∧ i = d.quantified.eraseDups.idxOf x ∧
      i < d.quantified.eraseDups.length := by
  refine ⟨_, ?_, rfl, List.idxOf_lt_length_of_mem (List.mem_eraseDups.2 hx)⟩
  rw [numberWith_of_mem hx, h.counts.next, numberIn, ← Int64.ofNat_add]

/-- The number of a free name is older than those of the quantified names, or later. -/
theorem free (h : d.Numbers N n n') (hx : x ∈ d.free) : ∃ i < n', d.numberWith N x = .ofNat i ∧
    (i < n ∨ n + d.quantified.eraseDups.length ≤ i) := by
  obtain ⟨hx, hq⟩ := mem_free.1 hx
  have hle := h.grows.le
  rcases h.grows.new (find?_namesAfter hx hq) with hv | ⟨i, hi, hin, hv⟩
  · obtain ⟨i, hi, hv⟩ := h.counts.lt hv
    exact ⟨i, by omega, hv, .inl hi⟩
  · exact ⟨i, hin, hv, .inr hi⟩

theorem ne_of_quantified_of_free (h : d.Numbers N n n') (hx : x ∈ d.quantified) (hy : y ∈ d.free) :
    d.numberWith N x ≠ d.numberWith N y := by
  obtain ⟨i, hi, -, hiq⟩ := h.quantified hx
  obtain ⟨j, hj, hj', hjn⟩ := h.free hy
  have hle := h.grows.le
  have hmax := h.le
  intro he
  have := TyVar.ofNat_inj (by omega) (by omega) (hi.symm.trans (he.trans hj'))
  omega

theorem injOn (h : d.Numbers N n n') : Set.InjOn (d.numberWith N) {x | x ∈ d.names} := by
  intro x hx y hy he
  have hle := h.grows.le
  have hmax := h.le
  rcases mem_names_iff.1 hx with hx | hx <;> rcases mem_names_iff.1 hy with hy | hy
  · obtain ⟨i, hi, hix, hiq⟩ := h.quantified hx
    obtain ⟨j, hj, hjy, hjq⟩ := h.quantified hy
    have := TyVar.ofNat_inj (by omega) (by omega) (hi.symm.trans (he.trans hj))
    refine (List.idxOf_inj (List.mem_eraseDups.2 hx)).1 ?_
    omega
  · exact absurd he (h.ne_of_quantified_of_free hx hy)
  · exact absurd he.symm (h.ne_of_quantified_of_free hy hx)
  · obtain ⟨hx, hxq⟩ := mem_free.1 hx
    obtain ⟨hy, hyq⟩ := mem_free.1 hy
    have hfind := find?_namesAfter (N := N) hx hxq
    rw [he] at hfind
    exact h.grows.counts.inj hfind (find?_namesAfter hy hyq)

theorem grows_names (h : d.Numbers N n n') : N.Grows n (d.namesAfter N) n' := by
  have hle := h.grows.le
  refine ⟨by omega, h.grows.counts, h.grows.kept, fun hv => ?_⟩
  rcases h.grows.new hv with hv | ⟨i, hi, hin, hv⟩
  · exact .inl hv
  · exact .inr ⟨i, by omega, hin, hv⟩

theorem lt_of_mentions (h : d.Numbers N n n') (hv : (d.scheme (d.numberWith N)).Mentions v) :
    ∃ i < n', v = .ofNat i := by
  obtain ⟨x, hx, rfl⟩ := mentions_scheme.1 hv
  have hle := h.grows.le
  rcases mem_names_iff.1 hx with hx | hx
  · obtain ⟨i, hi, -, hiq⟩ := h.quantified hx
    exact ⟨n + i, by omega, hi⟩
  · obtain ⟨i, hin, hi, -⟩ := h.free hx
    exact ⟨i, hin, hi⟩

/-- The scheme mentions every number that was given out while it was read. -/
theorem mentions (h : d.Numbers N n n') {i : Nat} (hi : n ≤ i) (hin : i < n') :
    (d.scheme (d.numberWith N)).Mentions (.ofNat i) := by
  rw [mentions_scheme]
  by_cases hq : i < n + d.quantified.eraseDups.length
  · have hlt : i - n < d.quantified.eraseDups.length := by omega
    have hmem := d.quantified.eraseDups.getElem_mem hlt
    have hx := List.mem_eraseDups.1 hmem
    refine ⟨_, mem_names_iff.2 (.inl hx), ?_⟩
    obtain ⟨j, hj, hidx, -⟩ := h.quantified hx
    rw [(nodup_eraseDups d.quantified).idxOf_getElem (i - n) hlt] at hidx
    rw [hj, hidx, Nat.add_sub_cancel' hi]
  · obtain ⟨x, hx, hnumber⟩ := h.new i (by omega) hin
    exact ⟨x, mem_names_iff.2 (.inr hx), hnumber⟩

end Numbers

end Tree
end Scheme

end LetPoly
