import LetPoly.Proofs.SchemeGrammar

/-!
# Derivation trees of types and schemes

A derivation in the grammar of types, as data. The leaves of a tree from left to right are the lexemes
that it derives (`Ty.Tree.lexemes`), and the type that it stands for is read off it once the names are
numbered (`Ty.Tree.ty`). It follows the rules of `Ty.Derives`. That lexemes have one derivation at most
is the statement that trees with the same leaves are equal (`Scheme.Tree.lexemes_injective`).

A type ends where the next lexeme neither starts an atom nor is an arrow, so the leaves of a tree can be
split off from whatever follows such a place (`Ty.Tree.eq_of_append_eq`). One lexeme decides which rule
was used at every node.
-/

namespace LetPoly

open Token (Lexeme idents)

theorem Token.idents_paren (p q : String) (ls : List Lexeme) :
    idents ((.lparen, p) :: (ls ++ [(.rparen, q)])) = idents ls := by
  rw [idents_cons_of_ne (by decide), idents_append, idents_cons_of_ne (by decide), idents_nil,
    List.append_nil]

namespace Ty

mutual
/-- `T ::= P | P -> T` -/
inductive Tree where
  | operand (p : OperandTree)
  | arrow (p : OperandTree) (sign : String) (t : Tree)
/-- `P ::= C A* | x | ( T )` -/
inductive OperandTree where
  | app (con : String) (args : ArgTrees)
  | var (x : String)
  | paren (left : String) (t : Tree) (right : String)
/-- `A*` -/
inductive ArgTrees where
  | nil
  | cons (a : AtomTree) (as : ArgTrees)
/-- `A ::= x | C | ( T )` -/
inductive AtomTree where
  | var (x : String)
  | con (c : String)
  | paren (left : String) (t : Tree) (right : String)
end

mutual
/-- The lexemes that a tree derives: its leaves from left to right. -/
def Tree.lexemes : Tree → List Lexeme
  | .operand p => p.lexemes
  | .arrow p sign t => p.lexemes ++ (.arrow, sign) :: t.lexemes
def OperandTree.lexemes : OperandTree → List Lexeme
  | .app con args => (.capIdent, con) :: args.lexemes
  | .var x => [(.ident, x)]
  | .paren left t right => (.lparen, left) :: (t.lexemes ++ [(.rparen, right)])
def ArgTrees.lexemes : ArgTrees → List Lexeme
  | .nil => []
  | .cons a as => a.lexemes ++ as.lexemes
def AtomTree.lexemes : AtomTree → List Lexeme
  | .var x => [(.ident, x)]
  | .con c => [(.capIdent, c)]
  | .paren left t right => (.lparen, left) :: (t.lexemes ++ [(.rparen, right)])
end

mutual
/-- The type that a tree stands for when a name stands for the variable that `number` says. -/
def Tree.ty (number : String → TyVar) : Tree → Ty
  | .operand p => p.ty number
  | .arrow p _ t => .arrow (p.ty number) (t.ty number)
def OperandTree.ty (number : String → TyVar) : OperandTree → Ty
  | .app con args => .app con (args.tys number)
  | .var x => .var (number x)
  | .paren _ t _ => t.ty number
def ArgTrees.tys (number : String → TyVar) : ArgTrees → List Ty
  | .nil => []
  | .cons a as => a.ty number :: as.tys number
def AtomTree.ty (number : String → TyVar) : AtomTree → Ty
  | .var x => .var (number x)
  | .con c => .const c
  | .paren _ t _ => t.ty number
end

/-! ### Trees follow the rules -/

section Derives
variable (number : String → TyVar)

mutual
theorem Tree.derives : ∀ d : Tree, Derives number d.lexemes (d.ty number)
  | .operand p => .operand p.derives
  | .arrow p _ t => .arrow p.derives t.derives
theorem OperandTree.derives : ∀ p : OperandTree, DerivesOperand number p.lexemes (p.ty number)
  | .app _ args => .app (args.derives .con)
  | .var _ => .var
  | .paren _ t _ => .paren t.derives
/-- Arguments may follow any constructor that has some already. -/
theorem ArgTrees.derives : ∀ (as : ArgTrees) {ls : List Lexeme} {c : String} {ts : List Ty},
    DerivesSpine number ls c ts → DerivesSpine number (ls ++ as.lexemes) c (ts ++ as.tys number)
  | .nil, _, _, _, h => by rwa [ArgTrees.lexemes, ArgTrees.tys, List.append_nil, List.append_nil]
  | .cons a as, _, _, _, h => by
    have hspine := as.derives (h.arg a.derives)
    rwa [List.append_assoc, List.append_assoc] at hspine
theorem AtomTree.derives : ∀ a : AtomTree, DerivesAtom number a.lexemes (a.ty number)
  | .var _ => .var
  | .con _ => .const
  | .paren _ t _ => .paren t.derives
end

end Derives

/-! ### The variables of a tree -/

section Variables
variable (number : String → TyVar)

mutual
theorem Tree.occurrences_ty : ∀ d : Tree, (d.ty number).occurrences = (idents d.lexemes).map number
  | .operand p => p.occurrences_ty
  | .arrow p sign t => by
    rw [Tree.ty, occurrences_arrow, p.occurrences_ty, t.occurrences_ty, ← List.map_append, Tree.lexemes,
      Token.idents_append, Token.idents_cons_of_ne (by decide)]
theorem OperandTree.occurrences_ty : ∀ p : OperandTree,
    (p.ty number).occurrences = (idents p.lexemes).map number
  | .app con args => args.occurrences_tys
  | .var x => rfl
  | .paren left t right => by
    rw [OperandTree.ty, t.occurrences_ty, OperandTree.lexemes, Token.idents_paren]
theorem ArgTrees.occurrences_tys : ∀ as : ArgTrees,
    occurrencesAll (as.tys number) = (idents as.lexemes).map number
  | .nil => rfl
  | .cons a as => by
    rw [ArgTrees.tys, occurrencesAll, a.occurrences_ty, as.occurrences_tys, ← List.map_append,
      ArgTrees.lexemes, Token.idents_append]
theorem AtomTree.occurrences_ty : ∀ a : AtomTree,
    (a.ty number).occurrences = (idents a.lexemes).map number
  | .var x => rfl
  | .con c => rfl
  | .paren left t right => by
    rw [AtomTree.ty, t.occurrences_ty, AtomTree.lexemes, Token.idents_paren]
end

end Variables

section Corresponds
variable {f g : String → TyVar} {β : TyVar → TyVar → Prop}

mutual
/-- Two numberings of the names lead to the same tree of types, with the two numbers of each name at the
same places. -/
theorem Tree.corresponds : ∀ d : Tree, (∀ x ∈ idents d.lexemes, β (f x) (g x)) →
    (d.ty f).Corresponds β (d.ty g)
  | .operand p, h => p.corresponds h
  | .arrow p sign t, h => by
    rw [Tree.lexemes, Token.idents_append, Token.idents_cons_of_ne (by decide)] at h
    exact (p.corresponds fun x hx => h x (List.mem_append_left _ hx)).arrow
      (t.corresponds fun x hx => h x (List.mem_append_right _ hx))
theorem OperandTree.corresponds : ∀ p : OperandTree, (∀ x ∈ idents p.lexemes, β (f x) (g x)) →
    (p.ty f).Corresponds β (p.ty g)
  | .app con args, h => .app (args.corresponds h)
  | .var x, h => .var (h x List.mem_cons_self)
  | .paren left t right, h => t.corresponds (by rwa [OperandTree.lexemes, Token.idents_paren] at h)
theorem ArgTrees.corresponds : ∀ as : ArgTrees, (∀ x ∈ idents as.lexemes, β (f x) (g x)) →
    List.Forall₂ (Ty.Corresponds β) (as.tys f) (as.tys g)
  | .nil, _ => .nil
  | .cons a as, h => by
    rw [ArgTrees.lexemes, Token.idents_append] at h
    exact .cons (a.corresponds fun x hx => h x (List.mem_append_left _ hx))
      (as.corresponds fun x hx => h x (List.mem_append_right _ hx))
theorem AtomTree.corresponds : ∀ a : AtomTree, (∀ x ∈ idents a.lexemes, β (f x) (g x)) →
    (a.ty f).Corresponds β (a.ty g)
  | .var x, h => .var (h x List.mem_cons_self)
  | .con c, _ => .app .nil
  | .paren left t right, h => t.corresponds (by rwa [AtomTree.lexemes, Token.idents_paren] at h)
end

end Corresponds

/-! ### Trees are unique -/

/-- No argument goes on into the lexemes. -/
def EndsArgs (ls : List Lexeme) : Prop :=
  ∀ l ∈ ls.head?, l.1 ≠ .ident ∧ l.1 ≠ .capIdent ∧ l.1 ≠ .lparen

/-- No type goes on into the lexemes. -/
def EndsType (ls : List Lexeme) : Prop := EndsArgs ls ∧ ∀ l ∈ ls.head?, l.1 ≠ .arrow

section Unique
variable {r r' : List Lexeme}

theorem endsType_nil : EndsType [] := ⟨nofun, nofun⟩

theorem endsArgs_cons {k : Token.Kind} (hk : k ≠ .ident ∧ k ≠ .capIdent ∧ k ≠ .lparen) (x : String)
    (r : List Lexeme) : EndsArgs ((k, x) :: r) := by
  intro l hl
  obtain rfl := Option.some.inj hl
  exact hk

theorem endsArgs_arrow (x : String) (r : List Lexeme) : EndsArgs ((.arrow, x) :: r) :=
  endsArgs_cons (by decide) x r

theorem endsType_rparen (q : String) (r : List Lexeme) : EndsType ((.rparen, q) :: r) := by
  refine ⟨endsArgs_cons (by decide) q r, fun l hl => ?_⟩
  obtain rfl := Option.some.inj hl
  exact nofun

theorem AtomTree.not_endsArgs (a : AtomTree) (r : List Lexeme) : ¬ EndsArgs (a.lexemes ++ r) := by
  intro h
  cases a with
  | var x => exact (h _ rfl).1 rfl
  | con c => exact (h _ rfl).2.1 rfl
  | paren left t right => exact (h _ rfl).2.2 rfl

/-- What is between parentheses ends at the closing one. -/
theorem Tree.paren_inj {p p' q q' : String} {t t' : Tree}
    (ht : ∀ {r r' : List Lexeme}, EndsType r → EndsType r' → t.lexemes ++ r = t'.lexemes ++ r' →
      t = t' ∧ r = r')
    (h : (Token.Kind.lparen, p) :: (t.lexemes ++ [(.rparen, q)]) ++ r =
      (.lparen, p') :: (t'.lexemes ++ [(.rparen, q')]) ++ r') :
    p = p' ∧ t = t' ∧ q = q' ∧ r = r' := by
  rw [List.cons_append, List.cons_append, List.append_assoc, List.append_assoc] at h
  obtain ⟨hp, htail⟩ := List.cons.inj h
  obtain ⟨htree, hrest⟩ := ht (endsType_rparen q r) (endsType_rparen q' r') htail
  obtain ⟨hq, hr⟩ := List.cons.inj hrest
  exact ⟨(Prod.mk.inj hp).2, htree, (Prod.mk.inj hq).2, hr⟩

mutual
/-- The leaves of a tree tell the tree, and where it ends. -/
theorem Tree.eq_of_append_eq : ∀ (d d' : Tree) {r r' : List Lexeme}, EndsType r → EndsType r' →
    d.lexemes ++ r = d'.lexemes ++ r' → d = d' ∧ r = r'
  | .operand p, .operand p', r, r', hr, hr', h => by
    obtain ⟨rfl, rfl⟩ := p.eq_of_append_eq p' hr.1 hr'.1 h
    exact ⟨rfl, rfl⟩
  -- the operands end at the same place, where one rest has an arrow and the other none
  | .operand p, .arrow p' x t', r, r', hr, hr', h => by
    rw [Tree.lexemes, Tree.lexemes, List.append_assoc, List.cons_append] at h
    obtain ⟨-, rfl⟩ := p.eq_of_append_eq p' hr.1 (endsArgs_arrow x _) h
    exact absurd rfl (hr.2 _ rfl)
  | .arrow p x t, .operand p', r, r', hr, hr', h => by
    rw [Tree.lexemes, Tree.lexemes, List.append_assoc, List.cons_append] at h
    obtain ⟨-, rfl⟩ := p.eq_of_append_eq p' (endsArgs_arrow x _) hr'.1 h
    exact absurd rfl (hr'.2 _ rfl)
  | .arrow p x t, .arrow p' x' t', r, r', hr, hr', h => by
    rw [Tree.lexemes, Tree.lexemes, List.append_assoc, List.append_assoc, List.cons_append,
      List.cons_append] at h
    obtain ⟨rfl, hrest⟩ := p.eq_of_append_eq p' (endsArgs_arrow x _) (endsArgs_arrow x' _) h
    obtain ⟨hx, htail⟩ := List.cons.inj hrest
    obtain ⟨-, rfl⟩ := Prod.mk.inj hx
    obtain ⟨rfl, rfl⟩ := t.eq_of_append_eq t' hr hr' htail
    exact ⟨rfl, rfl⟩
theorem OperandTree.eq_of_append_eq : ∀ (p p' : OperandTree) {r r' : List Lexeme}, EndsArgs r →
    EndsArgs r' → p.lexemes ++ r = p'.lexemes ++ r' → p = p' ∧ r = r'
  | .app c as, .app c' as', r, r', hr, hr', h => by
    obtain ⟨hc, htail⟩ := List.cons.inj h
    obtain ⟨-, rfl⟩ := Prod.mk.inj hc
    obtain ⟨rfl, rfl⟩ := as.eq_of_append_eq as' hr hr' htail
    exact ⟨rfl, rfl⟩
  | .var x, .var x', r, r', hr, hr', h => by
    obtain ⟨hx, rfl⟩ := List.cons.inj h
    obtain ⟨-, rfl⟩ := Prod.mk.inj hx
    exact ⟨rfl, rfl⟩
  | .paren p t q, .paren p' t' q', r, r', hr, hr', h => by
    obtain ⟨rfl, rfl, rfl, rfl⟩ := Tree.paren_inj (t.eq_of_append_eq t') h
    exact ⟨rfl, rfl⟩
  | .app .., .var .., _, _, _, _, h | .app .., .paren .., _, _, _, _, h
  | .var .., .app .., _, _, _, _, h | .var .., .paren .., _, _, _, _, h
  | .paren .., .app .., _, _, _, _, h | .paren .., .var .., _, _, _, _, h => by
    exact absurd (Prod.mk.inj (List.cons.inj h).1).1 (by decide)
theorem ArgTrees.eq_of_append_eq : ∀ (as as' : ArgTrees) {r r' : List Lexeme}, EndsArgs r →
    EndsArgs r' → as.lexemes ++ r = as'.lexemes ++ r' → as = as' ∧ r = r'
  | .nil, .nil, r, r', hr, hr', h => ⟨rfl, h⟩
  -- what follows the shorter list would start with an argument
  | .nil, .cons a' as', r, r', hr, hr', h => by
    rw [ArgTrees.lexemes, ArgTrees.lexemes, List.append_assoc, List.nil_append] at h
    exact absurd (h ▸ hr) (a'.not_endsArgs _)
  | .cons a as, .nil, r, r', hr, hr', h => by
    rw [ArgTrees.lexemes, ArgTrees.lexemes, List.append_assoc, List.nil_append] at h
    exact absurd (h ▸ hr') (a.not_endsArgs _)
  | .cons a as, .cons a' as', r, r', hr, hr', h => by
    rw [ArgTrees.lexemes, ArgTrees.lexemes, List.append_assoc, List.append_assoc] at h
    obtain ⟨rfl, htail⟩ := a.eq_of_append_eq a' h
    obtain ⟨rfl, rfl⟩ := as.eq_of_append_eq as' hr hr' htail
    exact ⟨rfl, rfl⟩
theorem AtomTree.eq_of_append_eq : ∀ (a a' : AtomTree) {r r' : List Lexeme},
    a.lexemes ++ r = a'.lexemes ++ r' → a = a' ∧ r = r'
  | .var x, .var x', r, r', h | .con x, .con x', r, r', h => by
    obtain ⟨hx, rfl⟩ := List.cons.inj h
    obtain ⟨-, rfl⟩ := Prod.mk.inj hx
    exact ⟨rfl, rfl⟩
  | .paren p t q, .paren p' t' q', r, r', h => by
    obtain ⟨rfl, rfl, rfl, rfl⟩ := Tree.paren_inj (t.eq_of_append_eq t') h
    exact ⟨rfl, rfl⟩
  | .var .., .con .., _, _, h | .var .., .paren .., _, _, h
  | .con .., .var .., _, _, h | .con .., .paren .., _, _, h
  | .paren .., .var .., _, _, h | .paren .., .con .., _, _, h => by
    exact absurd (Prod.mk.inj (List.cons.inj h).1).1 (by decide)
end

end Unique

theorem Tree.not_endsArgs (d : Tree) (r : List Lexeme) : ¬ EndsArgs (d.lexemes ++ r) := by
  have hoperand : ∀ (p : OperandTree) (r : List Lexeme), ¬ EndsArgs (p.lexemes ++ r) := by
    intro p r h
    cases p with
    | app con args => exact (h _ rfl).2.1 rfl
    | var x => exact (h _ rfl).1 rfl
    | paren left t right => exact (h _ rfl).2.2 rfl
  cases d with
  | operand p => exact hoperand p r
  | arrow p sign t =>
    rw [Tree.lexemes, List.append_assoc]
    exact hoperand p _

end Ty

namespace Scheme

/-- `S ::= forall x x* . T | T` -/
inductive Tree where
  | mono (t : Ty.Tree)
  | forAll (sign x : String) (xs : List String) (dot : String) (t : Ty.Tree)

namespace Tree

/-- The lexemes that a tree derives. -/
def lexemes : Tree → List Lexeme
  | mono t => t.lexemes
  | forAll sign x xs dot t =>
    (.forAll, sign) :: ((x :: xs).map (Prod.mk .ident) ++ (.dot, dot) :: t.lexemes)

/-- The names after `forall`, as often as they are written there. -/
def quantified : Tree → List String
  | mono _ => []
  | forAll _ x xs _ _ => x :: xs

/-- The tree of the type. -/
def body : Tree → Ty.Tree
  | mono t => t
  | forAll _ _ _ _ t => t

/-- The scheme that a tree stands for when a name stands for the variable that `number` says. -/
def scheme (number : String → TyVar) (d : Tree) : Scheme :=
  .forAll (d.quantified.map number) (d.body.ty number)

theorem length_quantified_le (d : Tree) : d.quantified.length ≤ d.lexemes.length := by
  cases d with
  | mono t => exact Nat.zero_le _
  | forAll f x xs dot t =>
    simp only [quantified, lexemes, List.length_cons, List.length_append, List.length_map]
    omega

theorem names_inj {xs xs' : List String} {d d' : String} {ls ls' : List Lexeme}
    (h : xs.map (Prod.mk Token.Kind.ident) ++ (.dot, d) :: ls =
      xs'.map (Prod.mk .ident) ++ (.dot, d') :: ls') : xs = xs' ∧ d = d' ∧ ls = ls' := by
  induction xs generalizing xs' with
  | nil =>
    cases xs' with
    | nil =>
      obtain ⟨hd, hls⟩ := List.cons.inj h
      exact ⟨rfl, (Prod.mk.inj hd).2, hls⟩
    | cons x' xs' => exact absurd (Prod.mk.inj (List.cons.inj h).1).1 (by decide)
  | cons x xs ih =>
    cases xs' with
    | nil => exact absurd (Prod.mk.inj (List.cons.inj h).1).1 (by decide)
    | cons x' xs' =>
      obtain ⟨hx, htail⟩ := List.cons.inj h
      obtain ⟨rfl, rfl, rfl⟩ := ih htail
      exact ⟨by rw [(Prod.mk.inj hx).2], rfl, rfl⟩

/-- Lexemes have no more than one derivation. -/
theorem lexemes_injective : Function.Injective lexemes := by
  have hbody : ∀ t t' : Ty.Tree, t.lexemes = t'.lexemes → t = t' := by
    intro t t' h
    refine (t.eq_of_append_eq t' Ty.endsType_nil Ty.endsType_nil ?_).1
    rw [h]
  have hhead : ∀ (t : Ty.Tree) (f : String) (ls : List Lexeme), t.lexemes ≠ (.forAll, f) :: ls := by
    intro t f ls h
    refine t.not_endsArgs [] ?_
    rw [h, List.append_nil]
    exact Ty.endsArgs_cons (by decide) f ls
  intro d d' h
  cases d with
  | mono t =>
    cases d' with
    | mono t' => rw [hbody t t' h]
    | forAll f' x' xs' dot' t' => exact absurd h (hhead t _ _)
  | forAll f x xs dot t =>
    cases d' with
    | mono t' => exact absurd h.symm (hhead t' _ _)
    | forAll f' x' xs' dot' t' =>
      obtain ⟨hf, htail⟩ := List.cons.inj h
      obtain ⟨hxs, rfl, ht⟩ := names_inj htail
      obtain ⟨rfl, rfl⟩ := List.cons.inj hxs
      rw [(Prod.mk.inj hf).2, hbody t t' ht]

end Tree

end Scheme

end LetPoly
