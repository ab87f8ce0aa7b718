import LetPoly.Prelude
import LetPoly.Proofs.Refusals
import LetPoly.Proofs.SchemeDenotation

/-!
# What the environment of a prelude keeps of it

A prelude is loaded if every entry has a name and a type that the grammar accepts, and otherwise its
first bad entry is reported. The environment has the names of the entries in their order, and there is
one assignment of numbers to the free names of all types together under which every binding has the
scheme that its source denotes (`Prelude.env_preserves_document`).

The table of names and the environment both count: the next number of the one is the next variable of
the other, and the environment mentions every number below it (`Loads.exists_inStep`).
-/

namespace LetPoly

open Token (idents)

namespace Env
variable {env : Env} {x : String} {s : Scheme} {n n' : Nat}

theorem next_extend_eq (hnext : env.next = .ofNat n) (hle : n ≤ n') (hn' : n' < 2 ^ 63)
    (hlt : ∀ v, s.Mentions v → ∃ i < n', v = .ofNat i)
    (hall : ∀ i, n ≤ i → i < n' → s.Mentions (.ofNat i)) : (env.extend x s).next = .ofNat n' := by
  have hn : env.next.toInt = n := by rw [hnext, Int64.toInt_ofNat_of_lt (by omega)]
  have hbelow : ∀ v, s.Mentions v → v.toInt < n' := by
    intro v hv
    obtain ⟨i, hi, rfl⟩ := hlt v hv
    rw [Int64.toInt_ofNat_of_lt (by omega)]
    omega
  have hbelow' : ∀ v, s.Mentions v → v.toInt < 2 ^ 63 - 1 := by
    intro v hv
    have := hbelow v hv
    omega
  have hupper : (env.extend x s).next.toInt ≤ n' := next_extend_le (by omega) (by omega) hbelow
  have hlower : env.next.toInt ≤ (env.extend x s).next.toInt := (le_next_extend hbelow').1
  have hmentioned : ∀ v, s.Mentions v → v.toInt < (env.extend x s).next.toInt :=
    (le_next_extend hbelow').2
  apply Int64.toInt_inj.1
  rw [Int64.toInt_ofNat_of_lt hn']
  -- the last number below `n'` is mentioned, unless there is no new one
  rcases Nat.eq_or_lt_of_le hle with rfl | hlt'
  · omega
  · have hlast := hmentioned _ (hall (n' - 1) (by omega) (by omega))
    rw [Int64.toInt_ofNat_of_lt (by omega)] at hlast
    omega

end Env

namespace Prelude
variable {E E' : Env} {N : NameTable} {e : Entry} {es : List Entry} {err : EntryError} {i n : Nat}

namespace Entry

/-- The tree of the type of an entry. -/
def HasTree (e : Entry) (d : Scheme.Tree) : Prop := e.type.HasLexemes d.lexemes

/-- The entry has a name, and a type that the grammar accepts. -/
def Good (e : Entry) : Prop := e.name ≠ "" ∧ ∃ d, e.HasTree d

/-- What is wrong with the entry at the index `i`: it has no name, or else its type is not accepted, for
the reason that is found if it is parsed on its own. -/
inductive Blamed (i : Nat) (e : Entry) : EntryError → Prop
  | missingName : e.name = "" → Blamed i e (.missingName i)
  | badType {err : ParseError} : e.name ≠ "" → (¬ ∃ d, e.HasTree d) →
    Scheme.parse e.type = .error err → Blamed i e (.badType i e.name err)

theorem HasTree.unique {d d' : Scheme.Tree} (h : e.HasTree d) (h' : e.HasTree d') : d = d' :=
  Scheme.Tree.lexemes_injective (Source.HasLexemes.unique h h')

theorem Blamed.not_good (h : e.Blamed i err) : ¬ e.Good := by
  rintro ⟨hname, hd⟩
  cases h with
  | missingName h => exact hname h
  | badType _ h _ => exact h hd

end Entry

/-- Adding the entries to `E` with the table `N` leads to the environment `E'`. -/
inductive Loads : Env → NameTable → List Entry → Env → Prop
  | nil {E : Env} {N : NameTable} : Loads E N [] E
  | cons {E E' : Env} {N : NameTable} {e : Entry} {es : List Entry} {d : Scheme.Tree} : e.name ≠ "" →
    e.HasTree d → Loads (E.extend e.name (d.scheme (d.numberWith N))) (d.namesAfter N) es E' →
    Loads E N (e :: es) E'

theorem loads_of_extend (h : extend E N i es = .ok E') : Loads E N es E' := by
  induction es generalizing E N i with
  | nil =>
    cases h
    exact .nil
  | cons e es ih =>
    rw [extend] at h
    split at h
    · cases h
    · rename_i hname
      split at h
      · cases h
      · rename_i s N' hparse
        obtain ⟨d, hd⟩ := Scheme.exists_tree_of_parseWith (congrArg Prod.fst hparse)
        rw [Scheme.Tree.parseWith_eq N hd] at hparse
        cases hparse
        exact .cons hname hd (ih h)

/-- An entry that is refused is the first bad one. -/
theorem blamed_of_extend (h : extend E N i es = .error err) : ∃ j e, es[j]? = some e ∧
    e.Blamed (i + j) err ∧ ∀ e' ∈ es.take j, e'.Good := by
  induction es generalizing E N i with
  | nil => cases h
  | cons e es ih =>
    rw [extend] at h
    split at h
    · rename_i hname
      cases h
      exact ⟨0, e, rfl, .missingName hname, nofun⟩
    · rename_i hname
      split at h
      · rename_i perr N' hparse
        cases h
        refine ⟨0, e, rfl, .badType hname ?_ ?_, nofun⟩
        · rintro ⟨d, hd⟩
          rw [Scheme.Tree.parseWith_eq N hd] at hparse
          cases hparse
        · exact Scheme.parseWith_error_congr (congrArg Prod.fst hparse) {}
      · rename_i s N' hparse
        obtain ⟨d, hd⟩ := Scheme.exists_tree_of_parseWith (congrArg Prod.fst hparse)
        obtain ⟨j, e', hj, hblamed, hgood⟩ := ih h
        refine ⟨j + 1, e', hj, ?_, ?_⟩
        · rwa [Nat.add_assoc, Nat.add_comm 1 j] at hblamed
        · rw [List.take_succ_cons]
          intro e'' he
          rcases List.mem_cons.1 he with rfl | he
          · exact ⟨hname, d, hd⟩
          · exact hgood e'' he

namespace Loads

theorem good (h : Loads E N es E') : ∀ e ∈ es, e.Good := by
  induction h with
  | nil => exact nofun
  | @cons _ _ _ e es d hname hd _ ih =>
    intro e' he'
    rcases List.mem_cons.1 he' with rfl | he'
    · exact ⟨hname, d, hd⟩
    · exact ih e' he'

theorem names (h : Loads E N es E') :
    E'.bindings.map (·.name) = E.bindings.map (·.name) ++ es.map (·.name) := by
  induction h with
  | nil => rw [List.map_nil, List.append_nil]
  | cons _ _ _ ih =>
    rw [ih, Env.bindings_extend, List.map_append, List.append_assoc]
    rfl

end Loads

/-! ### The counters stay in step -/

/-- The table and the environment both count up to `n`, and the environment mentions what was counted.
-/
structure InStep (E : Env) (N : NameTable) (n : Nat) : Prop where
  counts : N.Counts n
  next : E.next = .ofNat n
  mentions : ∀ v, (∃ b ∈ E.bindings, b.scheme.Mentions v) ↔ ∃ i < n, v = .ofNat i

theorem inStep_empty : InStep ∅ {} 0 := by
  refine ⟨NameTable.counts_empty, rfl, fun v => ⟨?_, ?_⟩⟩
  · rintro ⟨b, hb, -⟩
    cases hb
  · rintro ⟨i, hi, -⟩
    cases hi

theorem InStep.extend {d : Scheme.Tree} {x : String} {n' : Nat} (h : InStep E N n)
    (hd : d.Numbers N n n') (hn' : n' < 2 ^ 63) :
    InStep (E.extend x (d.scheme (d.numberWith N))) (d.namesAfter N) n' := by
  have hle := hd.grows_names.le
  refine ⟨hd.grows.counts, ?_, fun v => ?_⟩
  · exact Env.next_extend_eq h.next hle hn' (fun v => hd.lt_of_mentions) fun i => hd.mentions
  · simp only [Env.bindings_extend, List.mem_append, List.mem_singleton, or_and_right, exists_or,
      exists_eq_left, h.mentions v]
    constructor
    · rintro (⟨i, hi, rfl⟩ | hv)
      · exact ⟨i, by omega, rfl⟩
      · exact hd.lt_of_mentions hv
    · rintro ⟨i, hi, rfl⟩
      by_cases hin : i < n
      · exact .inl ⟨i, hin, rfl⟩
      · exact .inr (hd.mentions (by omega) hi)

/-- The numbers of the names in a table. -/
def numbering (N : NameTable) (x : String) : TyVar := (N.find? x).getD 0

/-- The binding has the name of the entry and the scheme that its source denotes, if free names have the
numbers of the table. -/
def Keeps (N : NameTable) (e : Entry) (b : Binding) : Prop :=
  b.name = e.name ∧ ∃ d, e.HasTree d ∧ d.Denotes (numbering N) b.scheme ∧
    ∀ x ∈ d.free, (N.find? x).isSome

/-- The sum of the widths of all types. -/
def typesWidth : List Entry → Nat
  | [] => 0
  | e :: es => e.type.width + typesWidth es

theorem keeps_read {d : Scheme.Tree} {N' : NameTable} {n' n'' : Nat} (hd : e.HasTree d)
    (hnumbers : d.Numbers N n n') (hN' : (d.namesAfter N).Grows n' N' n'') :
    Keeps N' e ⟨e.name, d.scheme (d.numberWith N)⟩ := by
  have hfind : ∀ x ∈ d.free, N'.find? x = some (d.numberWith N x) := by
    intro x hx
    obtain ⟨hx, hq⟩ := Scheme.Tree.mem_free.1 hx
    exact hN'.kept (Scheme.Tree.find?_namesAfter hx hq)
  refine ⟨rfl, d, hd, ⟨d.numberWith N, hnumbers.injOn, fun x hx => ?_, rfl⟩, fun x hx => ?_⟩
  · rw [numbering, hfind x hx, Option.getD_some]
  · rw [hfind x hx, Option.isSome_some]

theorem Loads.exists_inStep (h : Loads E N es E') (hE : InStep E N n)
    (hn : n + typesWidth es < 2 ^ 63) : ∃ N' n' bs, n' < 2 ^ 63 ∧ N.Grows n N' n' ∧ InStep E' N' n' ∧
      E'.bindings = E.bindings ++ bs ∧ List.Forall₂ (Keeps N') es bs := by
  induction h generalizing n with
  | @nil E N => exact ⟨N, n, [], by omega, hE.counts.grows_refl, hE, (List.append_nil _).symm, .nil⟩
  | @cons E E' N e es d _ hd _ ih =>
    rw [typesWidth] at hn
    have hwidth := Source.HasLexemes.length_le hd
    obtain ⟨m, hm, hnumbers⟩ := Scheme.Tree.exists_numbers (d := d) hE.counts (by omega)
    obtain ⟨N', n', bs, hn', hgrows, hE', hbindings, hbs⟩ :=
      ih (hE.extend (x := e.name) hnumbers (by omega)) (by omega)
    refine ⟨N', n', ⟨e.name, _⟩ :: bs, hn', hnumbers.grows_names.trans hgrows, hE', ?_,
      .cons (keeps_read hd hnumbers hgrows) hbs⟩
    rw [hbindings, Env.bindings_extend, List.append_assoc]
    rfl

/-! ### The document -/

theorem mem_range_iff {v : TyVar} (hn : n < 2 ^ 63) :
    (∃ i < n, v = .ofNat i) ↔ 0 ≤ v ∧ v < .ofNat n := by
  have hzero : (0 : TyVar).toInt = 0 := rfl
  rw [Int64.le_iff_toInt_le, Int64.lt_iff_toInt_lt, hzero, Int64.toInt_ofNat_of_lt hn]
  constructor
  · rintro ⟨i, hi, rfl⟩
    rw [Int64.toInt_ofNat_of_lt (by omega)]
    omega
  · rintro ⟨hv, hvn⟩
    refine ⟨v.toInt.toNat, by omega, Int64.toInt_inj.1 ?_⟩
    rw [Int64.toInt_ofNat_of_lt (by omega)]
    omega

theorem numbering_injOn {N' : NameTable} {bs : List Binding} (hN' : N'.Counts n)
    (h : List.Forall₂ (Keeps N') es bs) :
    Set.InjOn (numbering N') {x | ∃ e ∈ es, ∃ d, e.HasTree d ∧ x ∈ d.free} := by
  have hknown : ∀ x, (∃ e ∈ es, ∃ d, e.HasTree d ∧ x ∈ d.free) →
      N'.find? x = some (numbering N' x) := by
    rintro x ⟨e, he, d, hd, hx⟩
    obtain ⟨b, -, -, d', hd', -, hknown⟩ := exists_of_forall₂_mem h he
    obtain rfl := hd.unique hd'
    obtain ⟨v, hv⟩ := Option.isSome_iff_exists.1 (hknown x hx)
    rw [numbering, hv, Option.getD_some]
  intro x hx y hy he
  have hfind := hknown x hx
  rw [he] at hfind
  exact hN'.inj hfind (hknown y hy)

theorem exists_env_iff (es : List Entry) : (∃ E, env es = .ok E) ↔ ∀ e ∈ es, e.Good := by
  constructor
  · rintro ⟨E, h⟩
    exact (loads_of_extend h).good
  · intro hgood
    cases h : env es with
    | ok E => exact ⟨E, rfl⟩
    | error err =>
      obtain ⟨i, e, hi, hblamed, -⟩ := blamed_of_extend h
      exact absurd (hgood e (List.mem_of_getElem? hi)) hblamed.not_good

/-- A prelude is loaded exactly if all its entries are good; otherwise the first bad one is blamed.
Its environment has the same names in the same order, of which the last of a name counts. Every
binding has the scheme that its source denotes, for one assignment of numbers to all free names of the
prelude; and the variables of the environment are those below its next one. -/
theorem env_preserves_document (es : List Entry) :
    ((∃ E, env es = .ok E) ↔ ∀ e ∈ es, e.Good) ∧
    (∀ err, env es = .error err → ∃ i e, es[i]? = some e ∧ e.Blamed i err ∧
      ∀ e' ∈ es.take i, e'.Good) ∧
    ∀ E, env es = .ok E →
      E.bindings.map (·.name) = es.map (·.name) ∧
      (∀ bs b bs', E.bindings = bs ++ b :: bs' → (∀ b' ∈ bs', b'.name ≠ b.name) →
        E.lookup b.name = some b.scheme) ∧
      (∀ x, (∀ b ∈ E.bindings, b.name ≠ x) → E.lookup x = none) ∧
      (typesWidth es < 2 ^ 63 →
        (∃ ρ : String → TyVar, Set.InjOn ρ {x | ∃ e ∈ es, ∃ d, e.HasTree d ∧ x ∈ d.free} ∧
          List.Forall₂ (fun e b => ∃ d, e.HasTree d ∧ d.Denotes ρ b.scheme ∧
            ∀ s, d.Denotes ρ s → b.scheme.equivalent s = true) es E.bindings) ∧
        ∀ v, (∃ b ∈ E.bindings, b.scheme.Mentions v) ↔ 0 ≤ v ∧ v < E.next) := by
  refine ⟨exists_env_iff es, fun err h => ?_, fun E h => ⟨?_, ?_, ?_, fun hwidth => ?_⟩⟩
  · obtain ⟨i, e, hi, hblamed, hgood⟩ := blamed_of_extend h
    rw [Nat.zero_add] at hblamed
    exact ⟨i, e, hi, hblamed, hgood⟩
  · exact (loads_of_extend h).names
  · exact fun bs b bs' => Env.lookup_of_bindings
  · exact fun x => Env.lookup_eq_none
  · obtain ⟨N', n', bs, hn', hgrows, hE, hbindings, hbs⟩ :=
      (loads_of_extend h).exists_inStep inStep_empty (by omega)
    have hbindings : E.bindings = bs := hbindings
    refine ⟨⟨numbering N', numbering_injOn hgrows.counts hbs, ?_⟩, fun v => ?_⟩
    · rw [hbindings]
      refine hbs.imp fun e b hkeeps => ?_
      obtain ⟨-, d, hd, hdenotes, -⟩ := hkeeps
      exact ⟨d, hd, hdenotes, fun s => hdenotes.equivalent⟩
    · rw [hE.mentions v, hE.next, mem_range_iff hn']

/-- The second type has a free name that the first one quantifies, and the name of the first entry is
bound once more. -/
theorem env_preserves_document_reused_names :
    let es : List Entry :=
      [⟨"f", .ofString "forall a . b"⟩, ⟨"g", .ofString "a"⟩, ⟨"f", .ofString "b"⟩]
    ∃ E, env es = .ok E ∧ typesWidth es < 2 ^ 63 ∧
      E.bindings.map (·.name) = ["f", "g", "f"] ∧
      (∃ (ρ : String → TyVar) (s s' : Scheme), ρ "a" ≠ ρ "b" ∧
        E.lookup "f" = some s ∧ s.equivalent (.mono (.var (ρ "b"))) = true ∧
        E.lookup "g" = some s' ∧ s'.equivalent (.mono (.var (ρ "a"))) = true) ∧
      ∀ v, (∃ b ∈ E.bindings, b.scheme.Mentions v) ↔ 0 ≤ v ∧ v < E.next := by
  intro es
  have ha : Token.ReadsAs "a" [(.ident, "a")] :=
    .word (w := "a") ⟨'a', [], rfl, by decide, rfl, by decide, rfl⟩
  have hb : Token.ReadsAs "b" [(.ident, "b")] :=
    .word (w := "b") ⟨'b', [], rfl, by decide, rfl, by decide, rfl⟩
  have hforAll : Token.ReadsAs "forall" [(.forAll, "forall")] := .reserved rfl
  have hdot : Token.ReadsAs "." [(.dot, ".")] := Token.ReadsAs.sign (c := '.') (by decide) rfl
  have hf : Entry.HasTree ⟨"f", .ofString "forall a . b"⟩
      (.forAll "forall" "a" [] "." (.operand (.var "b"))) :=
    Token.hasLexemes_iff_reads.2 (hforAll.spaced (ha.spaced (hdot.spaced hb))).reads
  have hg : Entry.HasTree ⟨"g", .ofString "a"⟩ (.mono (.operand (.var "a"))) :=
    Token.hasLexemes_iff_reads.2 ha.reads
  have hf' : Entry.HasTree ⟨"f", .ofString "b"⟩ (.mono (.operand (.var "b"))) :=
    Token.hasLexemes_iff_reads.2 hb.reads
  have h := env_preserves_document es
  have hgood : ∀ e ∈ es, e.Good := by
    simp only [es, List.forall_mem_cons]
    exact ⟨⟨by decide, _, hf⟩, ⟨by decide, _, hg⟩, ⟨by decide, _, hf'⟩, List.forall_mem_nil _⟩
  have hwidth : typesWidth es < 2 ^ 63 := by decide
  obtain ⟨E, hE⟩ := h.1.2 hgood
  obtain ⟨hnames, hlookup, -, hids⟩ := h.2.2 E hE
  obtain ⟨⟨ρ, hinj, hbs⟩, hmentions⟩ := hids hwidth
  have hdenotes : ∀ x, (Scheme.Tree.mono (.operand (.var x))).Denotes ρ (.mono (.var (ρ x))) := by
    refine fun x => ⟨ρ, ?_, fun _ _ => rfl, rfl⟩
    simp [Scheme.Tree.names, Scheme.Tree.quantified, Scheme.Tree.body, Ty.Tree.lexemes,
      Ty.OperandTree.lexemes, idents]
  obtain ⟨b₁, bs₁, -, hbs₁, hE₁⟩ := List.forall₂_cons_left_iff.1 hbs
  obtain ⟨b₂, bs₂, ⟨d₂, hd₂, -, hb₂⟩, hbs₂, rfl⟩ := List.forall₂_cons_left_iff.1 hbs₁
  obtain ⟨b₃, bs₃, ⟨d₃, hd₃, -, hb₃⟩, hbs₃, rfl⟩ := List.forall₂_cons_left_iff.1 hbs₂
  cases hbs₃
  obtain rfl := hg.unique hd₂
  obtain rfl := hf'.unique hd₃
  have hnames' := hnames
  rw [hE₁] at hnames'
  obtain ⟨-, h₂, h₃⟩ : b₁.name = "f" ∧ b₂.name = "g" ∧ b₃.name = "f" := by simpa [es] using hnames'
  refine ⟨E, hE, hwidth, hnames, ⟨ρ, b₃.scheme, b₂.scheme, fun he => ?_, ?_, hb₃ _ (hdenotes "b"), ?_,
    hb₂ _ (hdenotes "a")⟩, hmentions⟩
  · have hab : "a" = "b" := hinj ⟨_, by simp [es], _, hg, by decide⟩ ⟨_, by simp [es], _, hf', by decide⟩ he
    exact absurd hab (by decide)
  · exact h₃ ▸ hlookup [b₁, b₂] b₃ [] hE₁ (by simp)
  · exact h₂ ▸ hlookup [b₁] b₂ [b₃] hE₁ (by simp [h₂, h₃])

end Prelude

end LetPoly
