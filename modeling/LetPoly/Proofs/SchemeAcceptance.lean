import LetPoly.Proofs.DerivationTrees

/-!
# What the parser of schemes accepts

A source is accepted as a scheme exactly if its lexemes have a derivation, whatever table of names it is
read with, and the scheme is the one that the derivation stands for (`Scheme.parseWith_ok_iff_tree`).

As for terms, the state of the parser accounts for the lexemes that have been read (`Reading.Spells`).
Here it does so by trees alone: neither the numbers nor the types in the state matter for what is
accepted. That the right type comes out is the other direction, where the lexemes of a tree are followed
through the parser (`Tree.run`).
-/

namespace LetPoly

open Token (Lexeme idents)

theorem Ty.ArgTrees.exists_concat : ∀ (as : ArgTrees) (a : AtomTree),
    ∃ as' : ArgTrees, as'.lexemes = as.lexemes ++ a.lexemes
  | .nil, a => ⟨.cons a .nil, List.append_nil _⟩
  | .cons b as, a => by
    obtain ⟨as', h⟩ := as.exists_concat a
    exact ⟨.cons b as', by rw [lexemes, h, lexemes, List.append_assoc]⟩

namespace Scheme

open Ty (ArgTrees AtomTree OperandTree)

/-- The lexemes in front of a type: none, or `forall` with names. -/
inductive SpellsHead : List Lexeme → Prop
  | none : SpellsHead []
  | forAll {f x d : String} {xs : List String} :
    SpellsHead ((.forAll, f) :: ((x :: xs).map (Prod.mk .ident) ++ [(.dot, d)]))

/-- The lexemes from which an open construct has been read. -/
inductive Frame.Spells : Frame → List Lexeme → Prop
  | arrow {t : Ty} {p : OperandTree} {x : String} : Spells (.arrow t) (p.lexemes ++ [(.arrow, x)])
  | paren {x : String} : Spells .paren [(.lparen, x)]
  | argument {c x : String} {ts : List Ty} {as : ArgTrees} :
    Spells (.argument c ts) ((.capIdent, c) :: as.lexemes ++ [(.lparen, x)])

/-- The lexemes of all open constructs, of the outermost first. -/
inductive FramesSpell : List Frame → List Lexeme → Prop
  | nil : FramesSpell [] []
  | cons {f : Frame} {fs : List Frame} {ls ls' : List Lexeme} : FramesSpell fs ls → f.Spells ls' →
    FramesSpell (f :: fs) (ls ++ ls')

/-- The lexemes of what has been read of the innermost construct of a type. -/
inductive Point.Spells : Point → List Lexeme → Prop
  | start : Spells .start []
  | spine {c : String} {ts : List Ty} (as : ArgTrees) :
    Spells (.spine c ts) ((.capIdent, c) :: as.lexemes)
  | whole {t : Ty} {p : OperandTree} : Spells (.whole t) p.lexemes

/-- Closing arrows turns their lexemes into lexemes of the type. -/
theorem FramesSpell.settle {fs fs' : List Frame} {t t' : Ty} {ls : List Lexeme}
    (hfs : FramesSpell fs ls) (d : Ty.Tree) (h : Reading.settle fs t = (fs', t')) :
    ∃ ls' d', ls ++ d.lexemes = ls' ++ Ty.Tree.lexemes d' ∧ FramesSpell fs' ls' := by
  fun_induction Reading.settle fs t generalizing ls d with
  | case1 a fs t ih =>
    cases hfs with
    | cons hfs hf =>
      cases hf with
      | @arrow _ p x =>
        obtain ⟨ls', d', heq, hfs'⟩ := ih hfs (.arrow p x d) h
        refine ⟨ls', d', ?_, hfs'⟩
        rw [← heq]
        simp [Ty.Tree.lexemes]
  | case2 fs t =>
    cases h
    exact ⟨ls, d, rfl, hfs⟩

namespace Reading

/-- The lexemes that have been read. -/
inductive Spells : Reading → List Lexeme → Prop
  | scheme {r : Reading} : r.point = .scheme → r.frames = [] → r.bound = [] → Spells r []
  | names {r : Reading} {f : String} (xs : List String) : r.point = .names → r.frames = [] →
    (xs = [] → r.bound = []) → Spells r ((.forAll, f) :: xs.map (Prod.mk .ident))
  | type {r : Reading} {ls₀ ls₁ ls₂ : List Lexeme} : SpellsHead ls₀ → FramesSpell r.frames ls₁ →
    r.point.Spells ls₂ → Spells r (ls₀ ++ ls₁ ++ ls₂)

variable {r r' : Reading} {fs : List Frame} {k : Token.Kind} {x : String} {l : Lexeme}
  {ls ls' : List Lexeme} {s : Scheme} {t : Ty}

theorem Spells.of_opens (h : r.Spells ls) (hp : r.point.Opens) :
    ∃ ls₀ ls₁, SpellsHead ls₀ ∧ FramesSpell r.frames ls₁ ∧ ls = ls₀ ++ ls₁ := by
  cases h with
  | scheme _ hfs => exact ⟨[], [], .none, hfs ▸ .nil, rfl⟩
  | names _ hp' => rcases hp with hp | hp <;> cases hp.symm.trans hp'
  | type h₀ h₁ h₂ =>
    rcases hp with hp | hp
    · rw [hp] at h₂
      cases h₂
    · rw [hp] at h₂
      cases h₂
      exact ⟨_, _, h₀, h₁, List.append_nil _⟩

theorem Spells.of_operand (h : r.Spells ls) (ht : operand? r.point = some t) :
    ∃ ls₀ ls₁ p, SpellsHead ls₀ ∧ FramesSpell r.frames ls₁ ∧
      ls = ls₀ ++ ls₁ ++ OperandTree.lexemes p := by
  cases h with
  | scheme hp => rw [hp] at ht; cases ht
  | names _ hp => rw [hp] at ht; cases ht
  | type h₀ h₁ h₂ =>
    revert h₂ ht
    generalize r.point = p
    intro ht h₂
    cases h₂ with
    | start => cases ht
    | @spine c ts as => exact ⟨_, _, .app c as, h₀, h₁, rfl⟩
    | @whole t p => exact ⟨_, _, p, h₀, h₁, rfl⟩

theorem Spells.of_spine {c : String} {ts : List Ty} (h : r.Spells ls) (hp : r.point = .spine c ts) :
    ∃ ls₀ ls₁ as, SpellsHead ls₀ ∧ FramesSpell r.frames ls₁ ∧
      ls = ls₀ ++ ls₁ ++ (.capIdent, c) :: ArgTrees.lexemes as := by
  cases h with
  | scheme hp' => cases hp.symm.trans hp'
  | names _ hp' => cases hp.symm.trans hp'
  | type h₀ h₁ h₂ =>
    rw [hp] at h₂
    cases h₂
    exact ⟨_, _, _, h₀, h₁, rfl⟩

theorem spells_push {f : Frame} {ls₀ : List Lexeme} (h₀ : SpellsHead ls₀)
    (hfs : FramesSpell r.frames ls) (hf : f.Spells ls') :
    Spells { r with point := .start, frames := f :: r.frames } (ls₀ ++ ls ++ ls') := by
  have h := Spells.type (r := { r with point := .start, frames := f :: r.frames }) h₀ (hfs.cons hf)
    .start
  rwa [List.append_nil, ← List.append_assoc] at h

theorem Step.spells (h : Step r l r') (hr : r.Spells ls) : r'.Spells (ls ++ [l]) := by
  cases h with
  | @forAll f hp =>
    cases hr with
    | scheme _ hfs hb => exact .names [] rfl hfs fun _ => hb
    | names _ hp' => cases hp.symm.trans hp'
    | type _ _ h₂ => rw [hp] at h₂; cases h₂
  | @quantify x hp =>
    cases hr with
    | scheme hp' => cases hp.symm.trans hp'
    | @names f xs _ hfs =>
      obtain ⟨hpoint, hframes⟩ := r.quantify_point x
      have h := Spells.names (f := f) (xs ++ [x]) (hpoint.trans hp) (hframes.trans hfs) (by simp)
      rwa [List.map_append] at h
    | type _ _ h₂ => rw [hp] at h₂; cases h₂
  | @dot d hp hb =>
    cases hr with
    | scheme hp' => cases hp.symm.trans hp'
    | @names f xs _ hfs hxs =>
      cases xs with
      -- `forall .` is refused, which is why the state says whether a name has been read
      | nil => rw [hxs rfl] at hb; cases hb
      | cons x xs =>
        have hhead : SpellsHead ((.forAll, f) :: ((x :: xs).map (Prod.mk .ident) ++ [(.dot, d)])) :=
          .forAll
        have h := Spells.type (r := { r with point := .start }) hhead (hfs ▸ FramesSpell.nil) .start
        rwa [List.append_nil, List.append_nil] at h
    | type _ _ h₂ => rw [hp] at h₂; cases h₂
  | @con c hp =>
    obtain ⟨ls₀, ls₁, h₀, h₁, rfl⟩ := hr.of_opens hp
    exact .type h₀ h₁ (.spine .nil)
  | @var x t N hp hres =>
    obtain ⟨ls₀, ls₁, h₀, h₁, rfl⟩ := hr.of_opens hp
    exact .type h₀ h₁ (.whole (p := .var x))
  | lparen hp =>
    obtain ⟨ls₀, ls₁, h₀, h₁, rfl⟩ := hr.of_opens hp
    exact spells_push h₀ h₁ .paren
  | @argVar c x args t N hp hres =>
    obtain ⟨ls₀, ls₁, as, h₀, h₁, rfl⟩ := hr.of_spine hp
    obtain ⟨as', has⟩ := as.exists_concat (.var x)
    have h := Spells.type (r := { r with point := .spine c (args ++ [t]), names := N }) h₀ h₁
      (.spine as')
    rw [has] at h
    simpa [AtomTree.lexemes] using h
  | @argCon c x args hp =>
    obtain ⟨ls₀, ls₁, as, h₀, h₁, rfl⟩ := hr.of_spine hp
    obtain ⟨as', has⟩ := as.exists_concat (.con x)
    have h := Spells.type (r := { r with point := .spine c (args ++ [.const x]) }) h₀ h₁
      (.spine as')
    rw [has] at h
    simpa [AtomTree.lexemes] using h
  | @argParen c x args hp =>
    obtain ⟨ls₀, ls₁, as, h₀, h₁, rfl⟩ := hr.of_spine hp
    rw [List.append_assoc]
    exact spells_push h₀ h₁ .argument
  | arrow ht =>
    obtain ⟨ls₀, ls₁, p, h₀, h₁, rfl⟩ := hr.of_operand ht
    rw [List.append_assoc]
    exact spells_push h₀ h₁ .arrow
  | @rparen q t t' fs ht hset =>
    obtain ⟨ls₀, ls₁, p, h₀, h₁, rfl⟩ := hr.of_operand ht
    -- the arrows inside the parentheses end here, and `d` is the tree of all that is between them
    obtain ⟨ls', d, heq, hfs'⟩ := h₁.settle (.operand p) hset
    cases hfs' with
    | cons hfs' hf =>
      cases hf with
      | @paren x =>
        have h := Spells.type (r := { r with point := .whole t', frames := fs }) h₀ hfs'
          (.whole (p := .paren x d q))
        rw [Ty.Tree.lexemes] at heq
        rw [List.append_assoc ls₀, heq]
        simpa [OperandTree.lexemes] using h
  | @argEnd c q args t t' fs ht hset =>
    obtain ⟨ls₀, ls₁, p, h₀, h₁, rfl⟩ := hr.of_operand ht
    obtain ⟨ls', d, heq, hfs'⟩ := h₁.settle (.operand p) hset
    cases hfs' with
    | cons hfs' hf =>
      cases hf with
      | @argument _ x _ as =>
        obtain ⟨as', has⟩ := as.exists_concat (.paren x d q)
        have h := Spells.type (r := { r with point := .spine c (args ++ [t']), frames := fs }) h₀ hfs'
          (.spine as')
        rw [Ty.Tree.lexemes] at heq
        rw [has] at h
        rw [List.append_assoc ls₀, heq]
        simpa [AtomTree.lexemes] using h

theorem Spells.run (hr : r.Spells ls) (h : r.run ls' = some r') : r'.Spells (ls ++ ls') := by
  induction ls' generalizing r ls with
  | nil =>
    cases h
    rwa [List.append_nil]
  | cons l ls' ih =>
    obtain ⟨r₁, hr₁, h⟩ := Option.bind_eq_some_iff.1 h
    rw [List.append_cons]
    exact ih ((step_of_advance? hr₁).spells hr) h

theorem Spells.exists_tree (hr : r.Spells ls) (h : r.complete? = some s) :
    ∃ d : Tree, d.lexemes = ls := by
  obtain ⟨t, ht, hs⟩ := Option.bind_eq_some_iff.1 h
  split at hs
  · rename_i hset
    obtain ⟨ls₀, ls₁, p, h₀, h₁, rfl⟩ := hr.of_operand ht
    obtain ⟨ls', d, heq, hfs'⟩ := h₁.settle (.operand p) hset
    cases hfs'
    rw [Ty.Tree.lexemes, List.nil_append] at heq
    rw [List.append_assoc, heq]
    cases h₀ with
    | none => exact ⟨.mono d, rfl⟩
    | @forAll f x dot xs =>
      refine ⟨.forAll f x xs dot d, ?_⟩
      simp [Tree.lexemes]
  · cases hs

end Reading

/-! ### The lexemes of a tree -/

namespace Tree

/-- The table after a scheme was read. -/
def namesAfter (d : Tree) (N : NameTable) : NameTable :=
  (N.skip d.quantified.eraseDups.length).meetAll (N.quantified d.quantified) (idents d.body.lexemes)

/-- The numbers of the names in a scheme that is read with the table `N`. -/
def numberWith (d : Tree) (N : NameTable) (x : String) : TyVar :=
  ((d.namesAfter N).number? (N.quantified d.quantified) x).getD 0

variable {N : NameTable} {x : String} {v : TyVar} {d : Tree} {src : Source}

theorem fits (d : Tree) (N : NameTable) : (N.skip d.quantified.eraseDups.length).Fits (d.numberWith N)
    (N.quantified d.quantified) (idents d.body.lexemes) := by
  intro x hx
  obtain ⟨v, hv⟩ := NameTable.exists_number?_meetAll (N.skip d.quantified.eraseDups.length)
    (N.quantified d.quantified) hx
  have hnumber : d.numberWith N x = v := by
    rw [numberWith, namesAfter, hv, Option.getD_some]
  rw [hv, hnumber]

theorem numberWith_of_mem (hx : x ∈ d.quantified) :
    d.numberWith N x = N.next + numberIn d.quantified.eraseDups x := by
  rw [numberWith, NameTable.number?, NameTable.lookup_quantified, if_pos hx]
  rfl

theorem find?_namesAfter (hx : x ∈ idents d.body.lexemes) (hq : x ∉ d.quantified) :
    (d.namesAfter N).find? x = some (d.numberWith N x) := by
  have h := d.fits N x hx
  rwa [NameTable.number?, NameTable.lookup_quantified, if_neg hq, Option.none_or] at h

theorem find?_namesAfter_of_some (h : N.find? x = some v) : (d.namesAfter N).find? x = some v :=
  NameTable.find?_meetAll_of_some h

theorem numberWith_injOn (N : NameTable) (h : d.quantified.length ≤ 2 ^ 64) :
    Set.InjOn (d.numberWith N) {x | x ∈ d.quantified} := by
  intro x hx y hy he
  have hlength : d.quantified.eraseDups.length ≤ 2 ^ 64 :=
    Nat.le_trans (length_eraseDups_le d.quantified) h
  rw [numberWith_of_mem hx, numberWith_of_mem hy] at he
  exact TyVar.ofNat_idxOf_injOn hlength (List.mem_eraseDups.2 hx) (List.mem_eraseDups.2 hy)
    ((Int64.add_right_inj _).1 he)

theorem vars_scheme (d : Tree) (N : NameTable) :
    VarSet.ofList ((N.quantified d.quantified).map Prod.snd) = (d.scheme (d.numberWith N)).vars := by
  have hnumber : ∀ y ∈ d.quantified.eraseDups,
      N.next + numberIn d.quantified.eraseDups y = d.numberWith N y :=
    fun y hy => (numberWith_of_mem (List.mem_eraseDups.1 hy)).symm
  ext v
  rw [scheme, Scheme.forAll, VarSet.mem_ofList, VarSet.mem_ofList, NameTable.quantified, List.map_map]
  simp only [Function.comp_def]
  rw [List.map_congr_left hnumber]
  simp only [List.mem_map, List.mem_eraseDups]

/-- The state in which the type is read, after what is in front of it. -/
theorem exists_head (d : Tree) (N : NameTable) : ∃ r : Reading, r.point.Opens ∧ r.frames = [] ∧
    r.bound = N.quantified d.quantified ∧ r.names = N.skip d.quantified.eraseDups.length ∧
    Reading.run { names := N } d.lexemes = r.run d.body.lexemes := by
  cases d with
  | mono t => exact ⟨{ names := N }, .inl rfl, rfl, rfl, N.skip_zero.symm, rfl⟩
  | forAll f x xs dot t =>
    exact ⟨.quantifying N (x :: xs), .inr rfl, rfl, rfl, rfl, Reading.run_head N f dot (by simp) _⟩

theorem run (d : Tree) (N : NameTable) : ∃ r, Reading.run { names := N } d.lexemes = some r ∧
    r.complete? = some (d.scheme (d.numberWith N)) ∧ r.names = d.namesAfter N := by
  obtain ⟨r, hp, hfs, hbound, hnames, hrun⟩ := d.exists_head N
  have hfits : r.Fits (d.numberWith N) d.body.lexemes := by
    rw [Reading.Fits, hbound, hnames]
    exact d.fits N
  obtain ⟨r', u, hgo, hu, hset⟩ := (d.body.derives (d.numberWith N)).goes hp hfits
  refine ⟨r', hrun.trans hgo.run, ?_, ?_⟩
  · rw [hfs] at hset
    rw [Reading.complete?_eq hu hset, hgo.bound, hbound, Scheme.forAll, d.vars_scheme N]
    rfl
  · rw [hgo.names, hbound, hnames]
    rfl

/-- A source with the lexemes of a tree is read as the scheme of the tree. -/
theorem parseWith_eq (N : NameTable) (h : src.HasLexemes d.lexemes) :
    parseWith N src = (.ok (d.scheme (d.numberWith N)), d.namesAfter N) := by
  obtain ⟨tokens, hscan, hls⟩ := Source.hasLexemes_iff.1 h
  rw [parseWith, hscan]
  refine parseFrom_eq.2 ?_
  rw [hls]
  exact d.run N

end Tree

theorem exists_tree_of_parseWith {N : NameTable} {src : Source} {s : Scheme}
    (h : (parseWith N src).1 = .ok s) : ∃ d : Tree, src.HasLexemes d.lexemes := by
  unfold parseWith at h
  split at h
  · cases h
  · rename_i tokens hscan
    obtain ⟨r, hrun, hr⟩ := parseFrom_eq_ok.1 h
    have hstart : Reading.Spells { names := N } [] := .scheme rfl rfl rfl
    obtain ⟨d, hd⟩ := (hstart.run hrun).exists_tree hr
    exact ⟨d, Source.hasLexemes_iff.2 ⟨tokens, hscan, hd.symm⟩⟩

/-- Whatever table of names a scheme is read with, a source is accepted exactly if the grammar derives
its lexemes. The derivation is unique, and the scheme is the one it stands for, each name with its
number: those after `forall` have the next numbers of the table in turn, all others those that the table
has for them afterwards, and there the names that it knew before have kept theirs. -/
theorem parseWith_ok_iff_tree (N : NameTable) (src : Source) :
    ((∃ s, (parseWith N src).1 = .ok s) ↔ ∃ d : Tree, src.HasLexemes d.lexemes) ∧
    (∀ d d' : Tree, d.lexemes = d'.lexemes → d = d') ∧
    ∀ d : Tree, src.HasLexemes d.lexemes → ∃ number N',
      parseWith N src = (.ok (d.scheme number), N') ∧
      (∀ x ∈ d.quantified, number x = N.next + numberIn d.quantified.eraseDups x) ∧
      (∀ x ∈ idents d.body.lexemes, x ∉ d.quantified → N'.find? x = some (number x)) ∧
      (∀ x v, N.find? x = some v → N'.find? x = some v) ∧
      (src.width ≤ 2 ^ 64 → Set.InjOn number {x | x ∈ d.quantified}) := by
  refine ⟨⟨?_, ?_⟩, fun d d' h => Tree.lexemes_injective h, fun d h => ?_⟩
  · rintro ⟨s, hs⟩
    exact exists_tree_of_parseWith hs
  · rintro ⟨d, hd⟩
    exact ⟨_, by rw [Tree.parseWith_eq N hd]⟩
  · refine ⟨d.numberWith N, d.namesAfter N, Tree.parseWith_eq N h, fun x => Tree.numberWith_of_mem,
      fun x => Tree.find?_namesAfter, fun x v => Tree.find?_namesAfter_of_some, fun hwidth => ?_⟩
    refine Tree.numberWith_injOn N ?_
    exact (d.length_quantified_le.trans h.length_le).trans hwidth

/-- The table has a number for `b`, but here `b` is quantified; the second `a` after `forall` is the
first one again. -/
theorem parseWith_ok_iff_tree_shadowed :
    ∃ N', parseWith { ids := [("b", 0), ("c", 7)], next := 8 }
        (.ofString "forall a b a . Map a ( b -> c )") =
          (.ok (.forAll [8, 9] (.app "Map" [.var 8, .arrow (.var 9) (.var 7)])), N') ∧
      N'.find? "b" = some 0 := by
  have ha : Token.ReadsAs "a" [(.ident, "a")] :=
    .word (w := "a") ⟨'a', [], rfl, by decide, rfl, by decide, rfl⟩
  have hb : Token.ReadsAs "b" [(.ident, "b")] :=
    .word (w := "b") ⟨'b', [], rfl, by decide, rfl, by decide, rfl⟩
  have hc : Token.ReadsAs "c" [(.ident, "c")] :=
    .word (w := "c") ⟨'c', [], rfl, by decide, rfl, by decide, rfl⟩
  have hMap : Token.ReadsAs "Map" [(.capIdent, "Map")] :=
    .word (w := "Map") ⟨'M', ['a', 'p'], rfl, by decide, rfl, by decide, by decide⟩
  have hforAll : Token.ReadsAs "forall" [(.forAll, "forall")] := .reserved rfl
  have hdot : Token.ReadsAs "." [(.dot, ".")] := Token.ReadsAs.sign (c := '.') (by decide) rfl
  have hl : Token.ReadsAs "(" [(.lparen, "(")] := Token.ReadsAs.sign (c := '(') (by decide) rfl
  have hr : Token.ReadsAs ")" [(.rparen, ")")] := Token.ReadsAs.sign (c := ')') (by decide) rfl
  have hparen := hl.spaced (hb.spaced (Token.ReadsAs.arrow.spaced (hc.spaced hr)))
  have hsrc := (hforAll.spaced (ha.spaced (hb.spaced (ha.spaced (hdot.spaced
    (hMap.spaced (ha.spaced hparen))))))).reads
  obtain ⟨tokens, hscan, hls⟩ := hsrc 0
  have hd : Source.HasLexemes (.ofString "forall a b a . Map a ( b -> c )")
      (Tree.forAll "forall" "a" ["b", "a"] "." (.operand (.app "Map" (.cons (.var "a") (.cons
        (.paren "(" (.arrow (.var "b") "->" (.operand (.var "c"))) ")") .nil))))).lexemes :=
    Source.hasLexemes_iff.2 ⟨tokens, hscan, hls⟩
  obtain ⟨number, N', hparse, hquantified, hother, hold, -⟩ := (parseWith_ok_iff_tree
    { ids := [("b", 0), ("c", 7)], next := 8 }
    (.ofString "forall a b a . Map a ( b -> c )")).2.2 _ hd
  have hna : number "a" = 8 := by rw [hquantified "a" (by simp [Tree.quantified])]; decide
  have hnb : number "b" = 9 := by rw [hquantified "b" (by simp [Tree.quantified])]; decide
  have hnc : number "c" = 7 := by
    have hfind := hother "c" (by decide) (by simp [Tree.quantified])
    rw [hold "c" 7 rfl] at hfind
    exact (Option.some.inj hfind).symm
  refine ⟨N', ?_, hold "b" 0 rfl⟩
  simp only [hparse, Tree.scheme, Tree.quantified, Tree.body, Ty.Tree.ty, Ty.OperandTree.ty,
    Ty.ArgTrees.tys, Ty.AtomTree.ty, List.map, hna, hnb, hnc]
  rfl

end Scheme

end LetPoly
