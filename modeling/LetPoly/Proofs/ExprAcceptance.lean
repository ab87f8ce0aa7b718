import LetPoly.Proofs.ExprGrammar

/-!
# What the parser accepts

The converse of `Derives.takes`: lexemes that lead the parser from the beginning to a complete term
derive that term. Between two lexemes the state of the parser accounts for everything that has been
read so far (`Reading.Spells`): each open construct for the lexemes that opened it, from the outside
in, and the point for those after the innermost of them. A step adds its lexeme at the end
(`Step.spells`). The steps with work in them are those that close constructs: an abstraction or a
binding that ends together with the term in hand becomes a part of the derivation of that term
(`FramesSpell.settle`).

Since the parser has no choice, lexemes derive at most one term (`Derives.unique`).
-/

namespace LetPoly

namespace Expr

open Token (Lexeme tokenize_eq_ok)

/-- The lexemes from which an open construct has been read. -/
inductive Frame.Spells : Frame → List Lexeme → Prop
  | lambda {k : Token.Kind} {l x d : String} : k.isName = true →
    Spells (.lambda x) [(.lambda, l), (k, x), (.dot, d)]
  | value {k : Token.Kind} {l x q : String} : k.isName = true →
    Spells (.value x) [(.letKw, l), (k, x), (.equals, q)]
  | body {k : Token.Kind} {l x q i : String} {ls : List Lexeme} {v : Expr} : k.isName = true →
    Derives ls v → Spells (.body x v) ((.letKw, l) :: (k, x) :: (.equals, q) :: (ls ++ [(.inKw, i)]))
  | paren {p : String} : Spells (.paren none) [(.lparen, p)]
  | argument {p : String} {ls : List Lexeme} {f : Expr} : DerivesCalls ls f →
    Spells (.paren (some f)) (ls ++ [(.lparen, p)])

/-- The lexemes of all open constructs, of the outermost first. -/
inductive FramesSpell : List Frame → List Lexeme → Prop
  | nil : FramesSpell [] []
  | cons {f : Frame} {fs : List Frame} {ls ls' : List Lexeme} : FramesSpell fs ls → f.Spells ls' →
    FramesSpell (f :: fs) (ls ++ ls')

/-- The lexemes of what has been read of the innermost construct. -/
inductive Point.Spells : Point → List Lexeme → Prop
  | start : Spells .start []
  | lambda {l : String} : Spells .lambda [(.lambda, l)]
  | param {k : Token.Kind} {l x : String} : k.isName = true →
    Spells (.param x) [(.lambda, l), (k, x)]
  | letKw {l : String} : Spells .letKw [(.letKw, l)]
  | name {k : Token.Kind} {l x : String} : k.isName = true → Spells (.name x) [(.letKw, l), (k, x)]
  | spine {ls : List Lexeme} {e : Expr} : DerivesCalls ls e → Spells (.spine e) ls

/-- Closing constructs turns their lexemes into lexemes of the term. -/
theorem FramesSpell.settle {fs fs' : List Frame} {e e' : Expr} {ls ls' : List Lexeme}
    (hfs : FramesSpell fs ls) (he : Derives ls' e) (h : Reading.settle fs e = (fs', e')) :
    ∃ ls₁ ls₂, ls ++ ls' = ls₁ ++ ls₂ ∧ FramesSpell fs' ls₁ ∧ Derives ls₂ e' := by
  fun_induction Reading.settle fs e generalizing ls ls' with
  | case1 x fs e ih =>
    cases hfs with
    | cons hfs hf =>
      cases hf with
      | lambda hk =>
        obtain ⟨ls₁, ls₂, heq, hfs', he'⟩ := ih hfs (.func hk he) h
        refine ⟨ls₁, ls₂, ?_, hfs', he'⟩
        rw [← heq, List.append_assoc]
        rfl
  | case2 x v fs e ih =>
    cases hfs with
    | cons hfs hf =>
      cases hf with
      | @body k l _ q i _ _ hk hv =>
        have hlet := Derives.letIn (l := l) (x := x) (q := q) (i := i) hk hv he
        obtain ⟨ls₁, ls₂, heq, hfs', he'⟩ := ih hfs hlet h
        refine ⟨ls₁, ls₂, ?_, hfs', he'⟩
        rw [← heq]
        simp
  | case3 fs e =>
    cases h
    exact ⟨ls, ls', rfl, hfs, he⟩

namespace Reading

/-- The lexemes that have been read. -/
inductive Spells : Reading → List Lexeme → Prop
  | intro {p : Point} {fs : List Frame} {ls ls' : List Lexeme} : FramesSpell fs ls → p.Spells ls' →
    Spells ⟨p, fs⟩ (ls ++ ls')

variable {r r' : Reading} {fs fs' : List Frame} {e e' : Expr} {l : Lexeme} {ls ls' : List Lexeme}

theorem spells_start : Spells {} [] := .intro .nil .start

theorem spells_push {f : Frame} (hfs : FramesSpell fs ls) (hf : f.Spells ls') :
    Spells ⟨.start, f :: fs⟩ (ls ++ ls') := by
  have h := Spells.intro (hfs.cons hf) .start
  rwa [List.append_nil] at h

theorem Step.spells (h : Step r l r') (hr : r.Spells ls) : r'.Spells (ls ++ [l]) := by
  obtain ⟨hfs, hp⟩ := hr
  rw [List.append_assoc]
  cases h with
  | lambda =>
    cases hp
    exact .intro hfs .lambda
  | letKw =>
    cases hp
    exact .intro hfs .letKw
  | lparen =>
    cases hp
    exact spells_push hfs .paren
  | name hk =>
    cases hp
    exact .intro hfs (.spine (.atom (.var hk)))
  | param hk =>
    cases hp
    exact .intro hfs (.param hk)
  | dot =>
    cases hp with
    | param hk => exact spells_push hfs (.lambda hk)
  | bound hk =>
    cases hp
    exact .intro hfs (.name hk)
  | equals =>
    cases hp with
    | name hk => exact spells_push hfs (.value hk)
  | argument hk =>
    cases hp with
    | spine hf => exact .intro hfs (.spine (.call hf (.var hk)))
  | argumentParen =>
    cases hp with
    | spine hf => exact spells_push hfs (.argument hf)
  | @inKw _ _ i x _ _ hset =>
    cases hp with
    | spine he =>
      -- the value is what `in` ends, and the binding is open again as one with a body
      obtain ⟨ls₁, ls₂, heq, hfs', hv⟩ := hfs.settle (.calls he) hset
      rw [← List.append_assoc, heq]
      cases hfs' with
      | cons hfs' hf =>
        cases hf with
        | @value k l _ q hk =>
          have hbody := Frame.Spells.body (l := l) (x := x) (q := q) (i := i) hk hv
          simpa using spells_push hfs' hbody
  | rparen hset =>
    cases hp with
    | spine he =>
      obtain ⟨ls₁, ls₂, heq, hfs', he'⟩ := hfs.settle (.calls he) hset
      rw [← List.append_assoc, heq]
      cases hfs' with
      | cons hfs' hf =>
        cases hf with
        | paren =>
          simpa [applied] using Spells.intro hfs' (.spine (.atom (.paren he')))
        | argument hf =>
          simpa [applied] using Spells.intro hfs' (.spine (.call hf (.paren he')))

theorem Spells.run (hr : r.Spells ls) (h : r.run ls' = some r') : r'.Spells (ls ++ ls') := by
  induction ls' generalizing r ls with
  | nil =>
    cases h
    rwa [List.append_nil]
  | cons l ls' ih =>
    obtain ⟨r₁, hr₁, h⟩ := Option.bind_eq_some_iff.1 h
    have hstep := (step_of_advance? hr₁).spells hr
    rw [List.append_cons]
    exact ih hstep h

theorem Spells.derives (hr : r.Spells ls) (h : r.complete? = some e) : Derives ls e := by
  obtain ⟨hfs, hp⟩ := hr
  unfold complete? at h
  split at h
  · rename_i e' hpoint
    cases hpoint
    cases hp with
    | spine he =>
      split at h
      · rename_i hset
        cases h
        obtain ⟨ls₁, ls₂, heq, hfs', he'⟩ := hfs.settle (.calls he) hset
        cases hfs'
        rwa [heq]
      · cases h
  · cases h

end Reading

/-! ### The grammar and the parser -/

theorem Derives.unique {ls : List Lexeme} {e e' : Expr} (h : Derives ls e) (h' : Derives ls e') :
    e = e' := by
  obtain ⟨u, fs, hrun, hset⟩ := h.takes []
  obtain ⟨u', fs', hrun', hset'⟩ := h'.takes []
  rw [hrun] at hrun'
  cases hrun'
  have hpair := hset.symm.trans hset'
  exact congrArg Prod.snd hpair

theorem parseFrom_eq_ok_iff_derives {tokens : List Token} {eof : Token} {e : Expr} :
    parseFrom {} tokens eof = .ok e ↔ Derives (tokens.map Token.lexeme) e := by
  rw [parseFrom_eq_ok]
  constructor
  · rintro ⟨r, hrun, hr⟩
    exact (Reading.spells_start.run hrun).derives hr
  · intro h
    obtain ⟨e', fs, hrun, hset⟩ := h.takes []
    refine ⟨_, hrun, ?_⟩
    simp only [Reading.complete?, hset]
    rfl

/-- A source is read as a term exactly if it is made of tokens whose lexemes derive the term; and
lexemes derive no more than one term. -/
theorem parse_eq_ok_iff_derives (src : Source) :
    (∀ e, parse src = .ok e ↔
      ∃ tokens, Token.tokenize src = .ok (tokens ++ [.endOfInput src.width]) ∧
        Derives (tokens.map Token.lexeme) e) ∧
    ∀ ls e e', Derives ls e → Derives ls e' → e = e' := by
  refine ⟨fun e => ?_, fun ls e e' h h' => h.unique h'⟩
  simp only [tokenize_eq_ok]
  unfold parse
  constructor
  · intro h
    split at h
    · cases h
    · rename_i tokens hscan
      exact ⟨tokens, hscan, parseFrom_eq_ok_iff_derives.1 h⟩
  · rintro ⟨tokens, hscan, h⟩
    rw [hscan]
    exact parseFrom_eq_ok_iff_derives.2 h

/-- The value `lambda x . x` is open at its right end until `in` closes it. -/
theorem parse_eq_ok_iff_derives_open_value :
    parse (.ofString "let f = lambda x . x in f f") =
      .ok (letIn "f" (func "x" (var "x")) (call (var "f") (var "f"))) ∧
    ∀ e, Derives [(.letKw, "let"), (.ident, "f"), (.equals, "="), (.lambda, "lambda"), (.ident, "x"),
        (.dot, "."), (.ident, "x"), (.inKw, "in"), (.ident, "f"), (.ident, "f")] e →
      e = letIn "f" (func "x" (var "x")) (call (var "f") (var "f")) := by
  have hx : Token.ReadsAs "x" [(.ident, "x")] :=
    .word (w := "x") ⟨'x', [], rfl, by decide, rfl, by decide, rfl⟩
  have hf : Token.ReadsAs "f" [(.ident, "f")] :=
    .word (w := "f") ⟨'f', [], rfl, by decide, rfl, by decide, rfl⟩
  have hlet : Token.ReadsAs "let" [(.letKw, "let")] := .reserved rfl
  have hin : Token.ReadsAs "in" [(.inKw, "in")] := .reserved rfl
  have hlambda : Token.ReadsAs "lambda" [(.lambda, "lambda")] := .reserved rfl
  have hdot : Token.ReadsAs "." [(.dot, ".")] := Token.ReadsAs.sign (c := '.') (by decide) rfl
  have hequals : Token.ReadsAs "=" [(.equals, "=")] := Token.ReadsAs.sign (c := '=') (by decide) rfl
  have hvalue := hlambda.spaced (hx.spaced (hdot.spaced hx))
  have hsrc := (hlet.spaced (hf.spaced (hequals.spaced
    (hvalue.spaced (hin.spaced (hf.spaced hf)))))).reads
  obtain ⟨tokens, hscan, hls⟩ := hsrc 0
  have hderives : Derives (tokens.map Token.lexeme)
      (letIn "f" (func "x" (var "x")) (call (var "f") (var "f"))) := by
    have hname : DerivesAtom [(.ident, "f")] (var "f") := .var rfl
    have hbody := DerivesCalls.call (.atom hname) hname
    have hvalue : Derives [(.lambda, "lambda"), (.ident, "x"), (.dot, "."), (.ident, "x")]
        (func "x" (var "x")) := .func rfl (.calls (.atom (.var rfl)))
    rw [hls]
    exact .letIn rfl hvalue (.calls hbody)
  have h := parse_eq_ok_iff_derives (.ofString "let f = lambda x . x in f f")
  refine ⟨(h.1 _).2 ⟨tokens, tokenize_eq_ok.2 hscan, hderives⟩, fun e he => h.2 _ e _ ?_ hderives⟩
  rw [hls]
  exact he

end Expr

end LetPoly
