import LetPoly.Expr.Printer
import LetPoly.Proofs.ExprGrammar

/-!
# Reading written terms

The written form of a term is read as that term again (`Named.parse_text`). It is read as the lexemes
that the printer means to write (`Named.readsAs_text`), and these derive the term: an abstraction or a
binding stands in parentheses where an atom follows it, and so does an argument that is no atom by
itself (`Named.derives`).
-/

namespace LetPoly

namespace Expr
variable {e : Expr} {x : String}

open Token (Lexeme kindOf ReadsAs)

/-- The lexemes of the written form of a term. -/
def lexemes : Expr → List Lexeme
  | .var x => [(kindOf x, x)]
  | .call f a =>
    (if f.extendsRight then Token.enclosed f.lexemes else f.lexemes) ++
      (if a.isVar then a.lexemes else Token.enclosed a.lexemes)
  | .func x b => (.lambda, "lambda") :: (kindOf x, x) :: (.dot, ".") :: b.lexemes
  | .letIn x v b =>
    (.letKw, "let") :: (kindOf x, x) :: (.equals, "=") :: (v.lexemes ++ (.inKw, "in") :: b.lexemes)
  | .alien _ => []

theorem Named.imp {p q : String → Prop} (h : ∀ x, p x → q x) (he : e.Named p) : e.Named q := by
  induction e with
  | var x => exact h x he
  | call f a ihf iha => exact ⟨ihf he.1, iha he.2⟩
  | func x b ih => exact ⟨h x he.1, ih he.2⟩
  | letIn x v b ihv ihb => exact ⟨h x he.1, ihv he.2.1, ihb he.2.2⟩
  | alien a => exact he

theorem text_func (x : String) (b : Expr) :
    (func x b).text = "lambda" ++ " " ++ (x ++ " " ++ ("." ++ " " ++ b.text)) := by
  have hl : "lambda " = "lambda" ++ " " := by decide
  have hd : " . " = " " ++ ("." ++ " ") := by decide
  rw [text, hl, hd]
  simp only [String.append_assoc]

theorem text_letIn (x : String) (v b : Expr) :
    (letIn x v b).text =
      "let" ++ " " ++ (x ++ " " ++ ("=" ++ " " ++ (v.text ++ " " ++ ("in" ++ " " ++ b.text)))) := by
  have hl : "let " = "let" ++ " " := by decide
  have hq : " = " = " " ++ ("=" ++ " ") := by decide
  have hi : " in " = " " ++ ("in" ++ " ") := by decide
  rw [text, hl, hq, hi]
  simp only [String.append_assoc]

theorem Named.readsAs_text (h : e.Named Token.IsWord) : ReadsAs e.text e.lexemes := by
  induction e with
  | var x => exact ReadsAs.word h
  | call f a ihf iha =>
    rw [text, lexemes]
    refine ReadsAs.spaced ?_ ?_
    · split
      · exact (ihf h.1).enclosed
      · exact ihf h.1
    · split
      · exact iha h.2
      · exact (iha h.2).enclosed
  | func x b ih =>
    rw [text_func]
    have hl : ReadsAs "lambda" [(.lambda, "lambda")] := ReadsAs.reserved rfl
    have hd : ReadsAs "." [(.dot, ".")] := ReadsAs.sign (c := '.') (by decide) rfl
    exact hl.spaced ((ReadsAs.word h.1).spaced (hd.spaced (ih h.2)))
  | letIn x v b ihv ihb =>
    rw [text_letIn]
    have hl : ReadsAs "let" [(.letKw, "let")] := ReadsAs.reserved rfl
    have hq : ReadsAs "=" [(.equals, "=")] := ReadsAs.sign (c := '=') (by decide) rfl
    have hi : ReadsAs "in" [(.inKw, "in")] := ReadsAs.reserved rfl
    exact hl.spaced ((ReadsAs.word h.1).spaced
      (hq.spaced ((ihv h.2.1).spaced (hi.spaced (ihb h.2.2)))))
  | alien a => exact h.elim

/-- The lexemes of a term derive it; and where they do not end in an abstraction or a binding, they
derive it as a term that an atom may follow. -/
theorem Named.derives (h : e.Named fun x => (kindOf x).isName = true) :
    Derives e.lexemes e ∧ (e.extendsRight = false → DerivesCalls e.lexemes e) := by
  induction e with
  | var x =>
    have hcalls : DerivesCalls [(kindOf x, x)] (.var x) := .atom (.var h)
    exact ⟨.calls hcalls, fun _ => hcalls⟩
  | call f a ihf iha =>
    have hf : DerivesCalls (if f.extendsRight then Token.enclosed f.lexemes else f.lexemes) f := by
      split
      · exact .atom (.paren (ihf h.1).1)
      · rename_i hext
        exact (ihf h.1).2 (by simpa using hext)
    have ha : DerivesAtom (if a.isVar then a.lexemes else Token.enclosed a.lexemes) a := by
      split
      · rename_i hvar
        cases a with
        | var x => exact .var h.2
        | call | func | letIn | alien => cases hvar
      · exact .paren (iha h.2).1
    exact ⟨.calls (.call hf ha), fun _ => .call hf ha⟩
  | func x b ih => exact ⟨.func h.1 (ih h.2).1, nofun⟩
  | letIn x v b ihv ihb => exact ⟨.letIn h.1 (ihv h.2.1).1 (ihb h.2.2).1, nofun⟩
  | alien a => exact h.elim

/-- A name of a term: one token by itself. -/
def IsName (x : String) : Prop := ∃ k : Token.Kind, k.isName = true ∧ Token.IsOne k x

theorem isName_iff : IsName x ↔ Token.IsWord x ∧ (kindOf x).isName = true := by
  constructor
  · rintro ⟨k, hk, h⟩
    obtain ⟨hw, rfl⟩ := (Token.isOne_iff hk).1 h
    exact ⟨hw, hk⟩
  · rintro ⟨hw, hk⟩
    exact ⟨_, hk, (Token.isOne_iff hk).2 ⟨hw, rfl⟩⟩

theorem Named.parse_text (h : e.Named IsName) : parse (.ofString e.text) = .ok e := by
  have hword : e.Named Token.IsWord := h.imp fun x hx => (isName_iff.1 hx).1
  have hkind : e.Named fun x => (kindOf x).isName = true := h.imp fun x hx => (isName_iff.1 hx).2
  exact parse_of_derives hword.readsAs_text.reads hkind.derives.1

theorem named_isName_of_parse {src : Source} (h : parse src = .ok e) : e.Named IsName := by
  refine named_of_parse (fun t ht hk => ?_) h
  exact ⟨t.kind, hk, (Token.isOne_iff hk).2 (Token.isWord_of_mem_scan ht hk)⟩

/-- The written form of a term is read as that term, if each of its names is a token by itself; and
this is so for every term that was read from a source. -/
theorem parse_ofString_text :
    (∀ e : Expr, e.Named IsName → parse (.ofString e.text) = .ok e) ∧
      ∀ (src : Source) (e : Expr), parse src = .ok e → parse (.ofString e.text) = .ok e :=
  ⟨fun _ h => h.parse_text, fun _ _ h => (named_isName_of_parse h).parse_text⟩

/-- A binding of an abstraction, with an abstraction as callee and an application as argument: all of
`let id = lambda x . x in (lambda y . y) (id id)` is read back. So is what was read from a source with
parentheses that the written form does without. -/
theorem parse_ofString_text_nested :
    (letIn "id" (func "x" (var "x")) (call (func "y" (var "y")) (call (var "id") (var "id")))).Named
        IsName ∧
      parse (.ofString (letIn "id" (func "x" (var "x"))
          (call (func "y" (var "y")) (call (var "id") (var "id")))).text) =
        .ok (letIn "id" (func "x" (var "x"))
          (call (func "y" (var "y")) (call (var "id") (var "id")))) ∧
      parse (.ofString "λx.(x)") = .ok (func "x" (var "x")) ∧
      parse (.ofString (func "x" (var "x")).text) = .ok (func "x" (var "x")) := by
  have hid : IsName "id" :=
    isName_iff.2 ⟨⟨'i', ['d'], rfl, by decide, rfl, by decide, by decide⟩, by decide⟩
  have hx : IsName "x" := isName_iff.2 ⟨⟨'x', [], rfl, by decide, rfl, by decide, rfl⟩, by decide⟩
  have hy : IsName "y" := isName_iff.2 ⟨⟨'y', [], rfl, by decide, rfl, by decide, rfl⟩, by decide⟩
  have hnamed : (letIn "id" (func "x" (var "x"))
      (call (func "y" (var "y")) (call (var "id") (var "id")))).Named IsName :=
    ⟨hid, ⟨hx, hx⟩, ⟨hy, hy⟩, hid, hid⟩
  have hsrc : Token.Reads (.ofString "λx.(x)")
      [(.lambda, "λ"), (.ident, "x"), (.dot, "."), (.lparen, "("), (.ident, "x"), (.rparen, ")")] := by
    have hsplit : Source.ofString "λx.(x)" = .char 'λ' :: (Source.ofString "x" ++
        .char '.' :: .char '(' :: (Source.ofString "x" ++ [.char ')'])) := by decide
    have hword := (isName_iff.1 hx).1
    have harg := Token.reads_nil.rparen.word hword (Source.stops_cons (by decide))
    have hbody := (harg.lparen.sign (c := '.') (by decide) rfl).word hword
      (Source.stops_cons (by decide))
    rw [hsplit]
    exact hbody.sign (by decide) rfl
  have hparse : parse (.ofString "λx.(x)") = .ok (func "x" (var "x")) :=
    parse_of_derives hsrc (.func rfl (.calls (.atom (.paren (.calls (.atom (.var rfl)))))))
  exact ⟨hnamed, parse_ofString_text.1 _ hnamed, hparse, parse_ofString_text.2 _ _ hparse⟩

end Expr

end LetPoly
