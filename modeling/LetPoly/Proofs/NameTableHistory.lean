import LetPoly.Proofs.SchemeDenotation

/-!
# Histories of a table of names

One table of names serves any number of sources, and a source that is refused half-way leaves behind
the numbers it has taken. `NameTable.Consistent` is what a table promises all the same: different names
have different numbers, all below the next one. Unlike `NameTable.Counts` it does not say where the
numbers began. `NameTable.Extends` is how a table may change: entries stay, and new ones have numbers
from the old next one on.

`Scheme.Reading.Tracks` carries both through the tokens of one source, together with what sets the
quantified numbers apart: they are taken from the same counter, but never entered. It is kept by every
step of the parser (`Tracks.step`), so it holds wherever the parser stops (`Tracks.parseFrom`), and
`NameTable.Consistent.keeps` is what that says of a whole source. The main statement,
`NameTable.history_consistent`, puts sources one after the other.
-/

namespace LetPoly

open Token (idents)

theorem TyVar.next_ne (v : TyVar) : v.next ≠ v := by
  intro h
  have := congrArg Int64.toBitVec h
  simp [TyVar.next] at this

namespace NameTable
variable {N N' N'' : NameTable} {x : String} {v : TyVar}

/-! ### Consistent tables -/

/-- Different names have different numbers, and all of them are below the next one. -/
structure Consistent (N : NameTable) : Prop where
  inj {x y : String} {v : TyVar} : N.find? x = some v → N.find? y = some v → x = y
  lt {x : String} {v : TyVar} : N.find? x = some v → v < N.next

/-- `N'` has what `N` has, and other names have numbers from the next one of `N` on. -/
structure Extends (N N' : NameTable) : Prop where
  le : N.next ≤ N'.next
  kept {x : String} {v : TyVar} : N.find? x = some v → N'.find? x = some v
  new {x : String} {v : TyVar} : N'.find? x = some v → N.find? x = some v ∨ N.next ≤ v

theorem Extends.refl (N : NameTable) : N.Extends N := ⟨Int64.le_refl _, id, .inl⟩

theorem Extends.trans (h : N.Extends N') (h' : N'.Extends N'') : N.Extends N'' := by
  refine ⟨Int64.le_trans h.le h'.le, fun hv => h'.kept (h.kept hv), fun hv => ?_⟩
  rcases h'.new hv with hv | hv
  · exact h.new hv
  · exact .inr (Int64.le_trans h.le hv)

/-- The number was taken after `N` and before `N'`, and no name has it. -/
structure Withheld (N N' : NameTable) (v : TyVar) : Prop where
  le : N.next ≤ v
  lt : v < N'.next
  find?_ne (x : String) : N'.find? x ≠ some v

/-- A number that is withheld is not given to a name later. -/
theorem Withheld.extend (hv : N.Withheld N' v) (h : N'.Extends N'') : N.Withheld N'' v := by
  refine ⟨hv.le, Int64.lt_of_lt_of_le hv.lt h.le, fun x hx => ?_⟩
  rcases h.new hx with hx | hle
  · exact hv.find?_ne x hx
  · exact Int64.lt_irrefl (Int64.lt_of_lt_of_le hv.lt hle)

/-- There is room for one more number. -/
def HasNext (N : NameTable) : Prop := N.next.toInt < 2 ^ 63 - 1

theorem HasNext.toInt_advance (h : N.HasNext) : N.advance.next.toInt = N.next.toInt + 1 :=
  Env.toInt_next h

theorem HasNext.lt_advance (h : N.HasNext) : N.next < N.advance.next := by
  rw [Int64.lt_iff_toInt_lt, h.toInt_advance]
  omega

theorem Consistent.advance (hN : N.Consistent) (h : N.HasNext) : N.advance.Consistent :=
  ⟨hN.inj, fun hv => Int64.lt_trans (hN.lt hv) h.lt_advance⟩

theorem HasNext.extends_advance (h : N.HasNext) : N.Extends N.advance :=
  ⟨Int64.le_of_lt h.lt_advance, id, .inl⟩

theorem next_intern_of_none (hx : N.find? x = none) : (N.intern x).2.next = N.advance.next := by
  rw [intern, hx]
  rfl

theorem find?_intern_of_none (hx : N.find? x = none) (y : String) :
    (N.intern x).2.find? y = if y = x then some N.next else N.find? y := by
  rw [find?_intern, intern, hx]

theorem Consistent.intern (hN : N.Consistent) (h : N.HasNext) (hx : N.find? x = none) :
    (N.intern x).2.Consistent := by
  -- The new number differs from all others, as those are below it.
  have hnew : ∀ y, N.find? y ≠ some N.next := fun y hy => Int64.lt_irrefl (hN.lt hy)
  constructor
  · intro y z v hy hz
    rw [find?_intern_of_none hx] at hy hz
    split at hy <;> split at hz
    · rename_i hyx hzx
      rw [hyx, hzx]
    · cases hy
      exact absurd hz (hnew z)
    · cases hz
      exact absurd hy (hnew y)
    · exact hN.inj hy hz
  · intro y v hy
    rw [find?_intern_of_none hx] at hy
    rw [next_intern_of_none hx]
    split at hy
    · cases hy
      exact h.lt_advance
    · exact Int64.lt_trans (hN.lt hy) h.lt_advance

theorem HasNext.extends_intern (h : N.HasNext) (hx : N.find? x = none) :
    N.Extends (N.intern x).2 := by
  refine ⟨?_, fun hy => ?_, fun hy => ?_⟩
  · rw [next_intern_of_none hx]
    exact Int64.le_of_lt h.lt_advance
  · rw [find?_intern_of_none hx]
    split
    · rename_i hyx
      rw [hyx, hx] at hy
      cases hy
    · exact hy
  · rw [find?_intern_of_none hx] at hy
    split at hy
    · cases hy
      exact .inr (Int64.le_refl _)
    · exact .inl hy

theorem meet_cases (N : NameTable) (bound : List (String × TyVar)) (x : String) :
    N.meet bound x = N ∨ N.find? x = none ∧ N.meet bound x = (N.intern x).2 := by
  unfold meet
  split
  · exact .inl rfl
  · cases hx : N.find? x with
    | some v => exact .inl (by rw [intern, hx])
    | none => exact .inr ⟨rfl, rfl⟩

end NameTable

/-! ### Reading one source -/

namespace Scheme.Reading
variable {N : NameTable} {r r' : Reading} {k : Token.Kind} {x : String} {v : TyVar}

/-- The reading began with the table `N`, and has withheld the numbers of the quantified names. -/
structure Tracks (N : NameTable) (r : Reading) : Prop where
  consistent : r.names.Consistent
  extends_names : N.Extends r.names
  withheld {v : TyVar} : v ∈ r.bound.map Prod.snd → N.Withheld r.names v

theorem Tracks.start (hN : N.Consistent) : Tracks N { names := N } := ⟨hN, .refl N, nofun⟩

theorem Tracks.extend (h : Tracks N r) (hbound : r'.bound = r.bound) (hN : r'.names.Consistent)
    (hext : r.names.Extends r'.names) : Tracks N r' := by
  refine ⟨hN, h.extends_names.trans hext, fun hv => ?_⟩
  rw [hbound] at hv
  exact (h.withheld hv).extend hext

theorem Tracks.quantify (h : Tracks N r) (hroom : r.names.HasNext) : Tracks N (r.quantify x) := by
  unfold Reading.quantify
  split
  · exact h
  · have hold : Tracks N { r with names := r.names.advance } :=
      h.extend rfl (h.consistent.advance hroom) hroom.extends_advance
    refine ⟨hold.consistent, hold.extends_names, fun hv => ?_⟩
    rw [List.map_append, List.mem_append] at hv
    rcases hv with hv | hv
    · exact hold.withheld hv
    · rw [List.mem_singleton.1 hv]
      -- The number just taken is not in the table, as those that are were taken before.
      exact ⟨h.extends_names.le, hroom.lt_advance, fun y hy => Int64.lt_irrefl (h.consistent.lt hy)⟩

/-- What a lexeme can do to the names: nothing, quantify one, or enter one in the table. -/
theorem Step.names_cases (h : Step r (k, x) r') :
    (r'.bound = r.bound ∧ r'.names = r.names) ∨
    (r' = r.quantify x ∧ r.bound.lookup x = none) ∨
    (r'.bound = r.bound ∧ r.names.find? x = none ∧ r'.names = (r.names.intern x).2) := by
  by_cases hk : k = .ident
  · subst hk
    have hmeet {t : Ty} {M : NameTable} (hres : r.resolve x = (t, M)) :
        M = r.names ∨ r.names.find? x = none ∧ M = (r.names.intern x).2 := by
      obtain ⟨v, hv, -⟩ := r.exists_resolve x
      rw [← (Prod.mk.inj (hv.symm.trans hres)).2]
      exact r.names.meet_cases r.bound x
    cases h with
    | quantify hp =>
      cases hx : r.bound.lookup x with
      | some v => exact .inl (by rw [Reading.quantify, hx]; exact ⟨rfl, rfl⟩)
      | none => exact .inr (.inl ⟨rfl, rfl⟩)
    | var hp hres | argVar hp hres =>
      rcases hmeet hres with hM | hM
      · exact .inl ⟨rfl, hM⟩
      · exact .inr (.inr ⟨rfl, hM⟩)
  · exact .inl (h.names_eq hk)

theorem Step.next_cases (h : Step r (k, x) r') :
    r'.names = r.names ∨ r'.names.next = r.names.advance.next := by
  rcases h.names_cases with ⟨-, hN⟩ | ⟨rfl, hx⟩ | ⟨-, hx, hN⟩
  · exact .inl hN
  · exact .inr (by rw [Reading.quantify, hx])
  · exact .inr (by rw [hN, NameTable.next_intern_of_none hx])

theorem Tracks.step (h : Tracks N r) (hstep : Step r (k, x) r')
    (hroom : r'.names.next ≠ r.names.next → r.names.HasNext) : Tracks N r' := by
  rcases hstep.names_cases with ⟨hbound, hN⟩ | ⟨rfl, hx⟩ | ⟨hbound, hx, hN⟩
  · exact h.extend hbound (hN ▸ h.consistent) (hN ▸ .refl _)
  · refine h.quantify (hroom ?_)
    rw [Reading.quantify, hx]
    exact TyVar.next_ne _
  · have hnext : r.names.HasNext := by
      refine hroom ?_
      rw [hN, NameTable.next_intern_of_none hx]
      exact TyVar.next_ne _
    exact h.extend hbound (hN ▸ h.consistent.intern hnext hx) (hN ▸ hnext.extends_intern hx)

/-- How many numbers are taken while tokens are read, up to one that is refused. -/
def taken (r : Reading) : List Token → Nat
  | [] => 0
  | t :: ts =>
    match r.advance? t.kind t.text with
    | some r' => (if r'.names.next = r.names.next then 0 else 1) + r'.taken ts
    | none => 0

/-- Wherever the parser stops, it leaves the table of a reading that is tracked. -/
theorem Tracks.parseFrom {ts : List Token} {eof : Token} (h : Tracks N r)
    (hroom : r.names.next.toInt + r.taken ts < 2 ^ 63) :
    ∃ r', Tracks N r' ∧ (Scheme.parseFrom r ts eof).2 = r'.names ∧
      r'.names.next.toInt = r.names.next.toInt + r.taken ts ∧
      ∀ s, (Scheme.parseFrom r ts eof).1 = .ok s → r'.complete? = some s := by
  induction ts generalizing r with
  | nil =>
    refine ⟨r, h, ?_, by simp [taken], ?_⟩ <;> rw [Scheme.parseFrom] <;> cases r.complete? <;> simp
  | cons t ts ih =>
    rw [taken] at hroom ⊢
    rw [Scheme.parseFrom]
    cases hadvance : r.advance? t.kind t.text with
    | none => exact ⟨r, h, rfl, by simp, fun s hs => by cases hs⟩
    | some r₁ =>
      rw [hadvance] at hroom
      dsimp only at hroom ⊢
      have hstep := step_of_advance? hadvance
      by_cases hsame : r₁.names.next = r.names.next
      · have h₁ := h.step hstep fun hne => absurd hsame hne
        rw [if_pos hsame, Nat.zero_add, ← hsame] at hroom ⊢
        exact ih h₁ hroom
      · -- A number is taken, and the room for all of them has room for this one.
        have hnext : r.names.HasNext := by
          rw [if_neg hsame] at hroom
          unfold NameTable.HasNext
          omega
        have hone : r₁.names.next.toInt = r.names.next.toInt + 1 := by
          rcases hstep.next_cases with hN | hN
          · exact absurd (hN ▸ rfl) hsame
          · rw [hN, hnext.toInt_advance]
        rw [if_neg hsame] at hroom ⊢
        obtain ⟨r', h', hN, hcount, hs⟩ := ih (h.step hstep fun _ => hnext) (by omega)
        exact ⟨r', h', hN, by omega, hs⟩

theorem mem_vars_of_complete? {s : Scheme} (h : r.complete? = some s) :
    v ∈ s.vars ↔ v ∈ r.bound.map Prod.snd := by
  obtain ⟨t, -, h⟩ := Option.bind_eq_some_iff.1 h
  split at h
  · cases h
    exact VarSet.mem_ofList
  · cases h

end Scheme.Reading

namespace NameTable
variable {N : NameTable} {src : Source} {srcs : List Source} {s : Scheme} {v : TyVar}

/-- How many numbers are taken by a source, also if it is refused. -/
def taken (N : NameTable) (src : Source) : Nat :=
  match Token.scan 0 src with
  | (_, some _) => 0
  | (tokens, none) => Scheme.Reading.taken { names := N } tokens

/-- The table after a source was read. -/
def read (N : NameTable) (src : Source) : NameTable := (Scheme.parseWith N src).2

/-- What reading a source does to the table, and which numbers the scheme quantifies if there is one. -/
structure Keeps (N : NameTable) (src : Source) : Prop where
  consistent : (N.read src).Consistent
  extends_read : N.Extends (N.read src)
  toInt_next : (N.read src).next.toInt = N.next.toInt + N.taken src
  withheld {s : Scheme} {v : TyVar} :
    (Scheme.parseWith N src).1 = .ok s → v ∈ s.vars → N.Withheld (N.read src) v

theorem Consistent.exists_tracks (hN : N.Consistent)
    (hroom : N.next.toInt + N.taken src < 2 ^ 63) : ∃ r, Scheme.Reading.Tracks N r ∧
      N.read src = r.names ∧ r.names.next.toInt = N.next.toInt + N.taken src ∧
      ∀ s, (Scheme.parseWith N src).1 = .ok s → r.complete? = some s := by
  have hstart := Scheme.Reading.Tracks.start hN
  unfold taken at hroom ⊢
  unfold read Scheme.parseWith
  generalize Token.scan 0 src = scanned at hroom ⊢
  obtain ⟨tokens, _ | e⟩ := scanned
  · exact hstart.parseFrom hroom
  · exact ⟨{ names := N }, hstart, rfl, by simp, nofun⟩

theorem Consistent.keeps (hN : N.Consistent) (hroom : N.next.toInt + N.taken src < 2 ^ 63) :
    N.Keeps src := by
  obtain ⟨r, h, hread, hcount, hs⟩ := hN.exists_tracks hroom
  rw [← hread] at hcount
  refine ⟨hread ▸ h.consistent, hread ▸ h.extends_names, hcount, fun hok hv => ?_⟩
  rw [hread]
  exact h.withheld ((Scheme.Reading.mem_vars_of_complete? (hs _ hok)).1 hv)

theorem find?_read {d : Scheme.Tree} {x : String} (hd : src.HasLexemes d.lexemes)
    (hx : x ∈ d.free) : (N.read src).find? x = some (d.numberWith N x) := by
  obtain ⟨hbody, hq⟩ := Scheme.Tree.mem_free.1 hx
  rw [read, Scheme.Tree.parseWith_eq N hd]
  exact Scheme.Tree.find?_namesAfter hbody hq

/-- The free variables of a scheme are the numbers that the names not quantified have, in the table as
it was left or at any time later. -/
theorem Keeps.mem_free {d : Scheme.Tree} {N' : NameTable} (h : N.Keeps src)
    (hd : src.HasLexemes d.lexemes) (hext : (N.read src).Extends N') :
    v ∈ (d.scheme (d.numberWith N)).free ↔ ∃ x ∈ d.free, N'.find? x = some v := by
  have hok : (Scheme.parseWith N src).1 = .ok (d.scheme (d.numberWith N)) := by
    rw [Scheme.Tree.parseWith_eq N hd]
  have hbody : (d.scheme (d.numberWith N)).body.occurrences =
      (idents d.body.lexemes).map (d.numberWith N) := d.body.occurrences_ty _
  rw [Scheme.mem_free, hbody, List.mem_map]
  constructor
  · rintro ⟨⟨x, hx, rfl⟩, hv⟩
    have hq : x ∉ d.quantified :=
      fun hq => hv (VarSet.mem_ofList.2 (List.mem_map_of_mem hq))
    have hfree := Scheme.Tree.mem_free.2 ⟨hx, hq⟩
    exact ⟨x, hfree, hext.kept (find?_read hd hfree)⟩
  · rintro ⟨x, hx, hv⟩
    have hentry := find?_read (N := N) hd hx
    rw [hext.kept hentry] at hv
    cases hv
    exact ⟨⟨x, (Scheme.Tree.mem_free.1 hx).1, rfl⟩,
      fun hq => (h.withheld hok hq).find?_ne x hentry⟩

/-- A scheme mentions the numbers that it quantifies, and others that stand in the table. -/
theorem Keeps.mentions_cases (h : N.Keeps src) (hs : (Scheme.parseWith N src).1 = .ok s)
    (hv : s.Mentions v) : v ∈ s.vars ∨ ∃ x, (N.read src).find? x = some v := by
  by_cases hq : v ∈ s.vars
  · exact .inl hq
  · obtain ⟨d, hd⟩ := Scheme.exists_tree_of_parseWith hs
    rw [Scheme.Tree.parseWith_eq N hd] at hs
    cases hs
    have hfree := Scheme.mem_free.2 ⟨hv.resolve_left hq, hq⟩
    obtain ⟨x, -, hx⟩ := (h.mem_free hd (.refl _)).1 hfree
    exact .inr ⟨x, hx⟩

theorem Keeps.lt_of_mentions (h : N.Keeps src) (hs : (Scheme.parseWith N src).1 = .ok s)
    (hv : s.Mentions v) : v < (N.read src).next := by
  rcases h.mentions_cases hs hv with hq | ⟨x, hx⟩
  · exact (h.withheld hs hq).lt
  · exact h.consistent.lt hx

/-! ### Reading several sources -/

/-- The table after sources were read one after the other. -/
def after (N : NameTable) (srcs : List Source) : NameTable := srcs.foldl read N

/-- How many numbers are taken by sources that are read one after the other. -/
def demand : NameTable → List Source → Nat
  | _, [] => 0
  | N, src :: srcs => N.taken src + (N.read src).demand srcs

/-- The numbers do not wrap around while the sources are read. -/
def HasRoom (N : NameTable) (srcs : List Source) : Prop := N.next.toInt + N.demand srcs < 2 ^ 63

theorem demand_append (N : NameTable) (srcs srcs' : List Source) :
    N.demand (srcs ++ srcs') = N.demand srcs + (N.after srcs).demand srcs' := by
  induction srcs generalizing N with
  | nil => exact (Nat.zero_add _).symm
  | cons src srcs ih =>
    rw [List.cons_append, demand, demand, ih, Nat.add_assoc]
    rfl

theorem Consistent.after (hN : N.Consistent) (hroom : N.HasRoom srcs) :
    (N.after srcs).Consistent ∧ (N.after srcs).next.toInt = N.next.toInt + N.demand srcs := by
  unfold HasRoom at hroom
  induction srcs generalizing N with
  | nil => exact ⟨hN, (Int.add_zero _).symm⟩
  | cons src srcs ih =>
    rw [demand] at hroom ⊢
    have h : N.Keeps src := hN.keeps (by omega)
    have hnext := h.toInt_next
    obtain ⟨hafter, hcount⟩ := ih h.consistent (by omega)
    exact ⟨hafter, by rw [NameTable.after, List.foldl_cons]; exact hcount.trans (by omega)⟩

variable {i j : Nat}

/-- What is said of reading one source holds of every source of a history. -/
theorem Consistent.keeps_at (hN : N.Consistent) (hroom : N.HasRoom srcs)
    (hi : srcs[i]? = some src) : (N.after (srcs.take i)).Keeps src := by
  obtain ⟨hlt, rfl⟩ := List.getElem?_eq_some_iff.1 hi
  have hdemand := N.demand_append (srcs.take i) (srcs.drop i)
  rw [List.take_append_drop, List.drop_eq_getElem_cons hlt, demand] at hdemand
  have hbefore : N.HasRoom (srcs.take i) := by
    unfold HasRoom at hroom ⊢
    omega
  unfold HasRoom at hroom
  obtain ⟨hafter, hcount⟩ := hN.after hbefore
  exact hafter.keeps (by omega)

theorem after_take_succ (hi : srcs[i]? = some src) :
    N.after (srcs.take (i + 1)) = (N.after (srcs.take i)).read src := by
  rw [List.take_add_one, hi, after, List.foldl_append]
  rfl

theorem Consistent.extends_take (hN : N.Consistent) (hroom : N.HasRoom srcs) (hij : i ≤ j) :
    (N.after (srcs.take i)).Extends (N.after (srcs.take j)) := by
  induction j, hij using Nat.le_induction with
  | base => exact .refl _
  | succ j _ ih =>
    cases hj : srcs[j]? with
    | none => rwa [List.take_add_one, hj, Option.toList_none, List.append_nil]
    | some src =>
      rw [after_take_succ hj]
      exact ih.trans (hN.keeps_at hroom hj).extends_read

theorem Consistent.extends_read_at (hN : N.Consistent) (hroom : N.HasRoom srcs)
    (hi : srcs[i]? = some src) (hij : i < j) :
    ((N.after (srcs.take i)).read src).Extends (N.after (srcs.take j)) := by
  rw [← after_take_succ hi]
  exact hN.extends_take hroom hij

/-- No other source of a history gives a scheme that mentions a number which this one withheld. -/
theorem Consistent.not_mentions (hN : N.Consistent) (hroom : N.HasRoom srcs)
    (hi : srcs[i]? = some src) (hs : (Scheme.parseWith (N.after (srcs.take i)) src).1 = .ok s)
    (hv : v ∈ s.vars) {src' : Source} {s' : Scheme} (hji : j ≠ i) (hj : srcs[j]? = some src')
    (hs' : (Scheme.parseWith (N.after (srcs.take j)) src').1 = .ok s') : ¬ s'.Mentions v := by
  intro hmentions
  have hwithheld := (hN.keeps_at hroom hi).withheld hs hv
  have hkeeps := hN.keeps_at hroom hj
  rcases Nat.lt_or_gt_of_ne hji with hlt | hlt
  · -- What an earlier scheme mentions had been taken before.
    have hle := (hN.extends_read_at hroom hj hlt).le
    have hbefore := Int64.lt_of_lt_of_le (hkeeps.lt_of_mentions hs' hmentions) hle
    exact Int64.lt_irrefl (Int64.lt_of_lt_of_le hbefore hwithheld.le)
  · -- A later scheme quantifies numbers taken after, and the others stand in the table.
    have hlater := hwithheld.extend (hN.extends_read_at hroom hi hlt)
    rcases hkeeps.mentions_cases hs' hmentions with hq | ⟨x, hx⟩
    · exact Int64.lt_irrefl (Int64.lt_of_lt_of_le hlater.lt (hkeeps.withheld hs' hq).le)
    · exact (hlater.extend hkeeps.extends_read).find?_ne x hx

/-- A consistent table stays so, whatever sources are read with it and wherever they are refused, as
long as numbers do not wrap around: no entry changes and the next number does not decrease. Every scheme
that is returned on the way is the one that its source spells; its free variables are exactly the numbers
that the table has for its names that are not quantified. The numbers it quantifies had not been taken
when it began, and are neither in the table nor in any other scheme returned. -/
theorem history_consistent (hN : N.Consistent) (hroom : N.HasRoom srcs) :
    (N.after srcs).Consistent ∧
    (∀ x v, N.find? x = some v → (N.after srcs).find? x = some v) ∧
    N.next ≤ (N.after srcs).next ∧
    ∀ i src s, srcs[i]? = some src →
      (Scheme.parseWith (N.after (srcs.take i)) src).1 = .ok s →
      (∃ (d : Scheme.Tree) (number : String → TyVar), src.HasLexemes d.lexemes ∧
        s = d.scheme number ∧
        (∀ x ∈ d.free, (N.after srcs).find? x = some (number x)) ∧
        ∀ v, v ∈ s.free ↔ ∃ x ∈ d.free, (N.after srcs).find? x = some v) ∧
      ∀ v ∈ s.vars, (N.after (srcs.take i)).next ≤ v ∧
        (∀ x, (N.after srcs).find? x ≠ some v) ∧
        ∀ j src' s', j ≠ i → srcs[j]? = some src' →
          (Scheme.parseWith (N.after (srcs.take j)) src').1 = .ok s' → ¬ s'.Mentions v := by
  have hext : N.Extends (N.after srcs) := by
    have := hN.extends_take hroom (Nat.zero_le srcs.length)
    rwa [List.take_length] at this
  refine ⟨(hN.after hroom).1, fun x v => hext.kept, hext.le, fun i src s hi hs => ?_⟩
  have hkeeps := hN.keeps_at hroom hi
  have hlast : ((N.after (srcs.take i)).read src).Extends (N.after srcs) := by
    have := hN.extends_read_at hroom hi (List.getElem?_eq_some_iff.1 hi).1
    rwa [List.take_length] at this
  refine ⟨?_, fun v hv => ?_⟩
  · obtain ⟨d, hd⟩ := Scheme.exists_tree_of_parseWith hs
    rw [Scheme.Tree.parseWith_eq _ hd] at hs
    cases hs
    exact ⟨d, _, hd, rfl, fun x hx => hlast.kept (find?_read hd hx),
      fun v => hkeeps.mem_free hd hlast⟩
  · have hwithheld := hkeeps.withheld hs hv
    exact ⟨hwithheld.le, (hwithheld.extend hlast).find?_ne,
      fun j src' s' hji hj hs' => hN.not_mentions hroom hi hs hv hji hj hs'⟩

/-- The second source is refused at its end and leaves a number for `e` behind. The name `c` is free in
the first source and quantified in the second, and `b` is free in the first and quantified in the
third. -/
theorem history_consistent_refused :
    let N : NameTable := { ids := [("b", 3)], next := 5 }
    let srcs : List Source := [.ofString "forall a . a -> b -> c", .ofString "forall c d . ( e",
      .ofString "forall b . b -> c -> e"]
    let s : Scheme := .forAll [10] (.arrow (.var 10) (.arrow (.var 6) (.var 9)))
    N.Consistent ∧ N.HasRoom srcs ∧ (N.after srcs).Consistent ∧
    N.after srcs = { ids := [("e", 9), ("c", 6), ("b", 3)], next := 11 } ∧
    (Scheme.parseWith (N.after (srcs.take 2)) (.ofString "forall b . b -> c -> e")).1 = .ok s ∧
    (∀ v ∈ s.free, ∃ x, (N.after srcs).find? x = some v) ∧
    ∀ j src' s', j ≠ 2 → srcs[j]? = some src' →
      (Scheme.parseWith (N.after (srcs.take j)) src').1 = .ok s' → ¬ s'.Mentions 10 := by
  intro N srcs s
  have honly {x : String} {v : TyVar} (h : N.find? x = some v) : x = "b" ∧ v = 3 := by
    rw [find?, lookup_cons_ite] at h
    split at h
    · rename_i hx
      exact ⟨hx, (Option.some.inj h).symm⟩
    · cases h
  have hN : N.Consistent := by
    refine ⟨fun hx hy => (honly hx).1.trans (honly hy).1.symm, fun hx => ?_⟩
    rw [(honly hx).2]
    decide
  have hroom : N.HasRoom srcs := by
    have hdemand : N.demand srcs = 6 := by decide +kernel
    rw [HasRoom, hdemand]
    decide
  have hafter : N.after srcs = { ids := [("e", 9), ("c", 6), ("b", 3)], next := 11 } := by
    decide +kernel
  have hs : (Scheme.parseWith (N.after (srcs.take 2)) (.ofString "forall b . b -> c -> e")).1 =
      .ok s := by
    decide +kernel
  obtain ⟨hcons, -, -, hreturned⟩ := history_consistent hN hroom
  obtain ⟨⟨d, number, -, -, -, hfree⟩, hquantified⟩ := hreturned 2 _ s rfl hs
  refine ⟨hN, hroom, hcons, hafter, hs, fun v hv => ?_, (hquantified 10 (by decide)).2.2⟩
  obtain ⟨x, -, hx⟩ := (hfree v).1 hv
  exact ⟨x, hx⟩

end NameTable

end LetPoly
