import LetPoly.Expr.Parser
import LetPoly.Proofs.Lexing

/-!
# The grammar of terms

`Expr.Derives` is the grammar of terms over lexemes, as rules. The parser accepts what the grammar
derives: from a point where a term must start, the lexemes of a derivation lead to a point where that
term has been read (`Derives.takes`). Abstractions and bindings at its right end are then still open, as
they would take in what follows; they are closed together with whatever ends the term
(`Reading.settle`), so the statement is about the term that is there once they are closed.

The grammar also bounds what is accepted: every name of a term that was read is the text of a token
(`named_of_parse`).
-/

namespace LetPoly

namespace Expr

open Token (Lexeme)

mutual
/-- `E ::= lambda x . E | let x = E in E | A A*` -/
inductive Derives : List Lexeme → Expr → Prop
  | func {k : Token.Kind} {l x d : String} {ls : List Lexeme} {b : Expr} : k.isName = true →
    Derives ls b → Derives ((.lambda, l) :: (k, x) :: (.dot, d) :: ls) (.func x b)
  | letIn {k : Token.Kind} {l x q i : String} {ls ls' : List Lexeme} {v b : Expr} :
    k.isName = true → Derives ls v → Derives ls' b →
    Derives ((.letKw, l) :: (k, x) :: (.equals, q) :: (ls ++ (.inKw, i) :: ls')) (.letIn x v b)
  | calls {ls : List Lexeme} {e : Expr} : DerivesCalls ls e → Derives ls e
/-- `A A*`, an application for each atom after the first. -/
inductive DerivesCalls : List Lexeme → Expr → Prop
  | atom {ls : List Lexeme} {e : Expr} : DerivesAtom ls e → DerivesCalls ls e
  | call {ls ls' : List Lexeme} {f a : Expr} : DerivesCalls ls f → DerivesAtom ls' a →
    DerivesCalls (ls ++ ls') (.call f a)
/-- `A ::= x | ( E )` -/
inductive DerivesAtom : List Lexeme → Expr → Prop
  | var {k : Token.Kind} {x : String} : k.isName = true → DerivesAtom [(k, x)] (.var x)
  | paren {p q : String} {ls : List Lexeme} {e : Expr} : Derives ls e →
    DerivesAtom ((.lparen, p) :: (ls ++ [(.rparen, q)])) e
end

namespace Reading
variable {r r' : Reading} {fs : List Frame} {l : Lexeme} {ls ls' : List Lexeme} {e : Expr}
  {k : Token.Kind} {x : String}

/-! ### Single lexemes -/

/-- What the parser can do with a lexeme. -/
inductive Step : Reading → Lexeme → Reading → Prop
  | lambda {fs : List Frame} {x : String} : Step ⟨.start, fs⟩ (.lambda, x) ⟨.lambda, fs⟩
  | letKw {fs : List Frame} {x : String} : Step ⟨.start, fs⟩ (.letKw, x) ⟨.letKw, fs⟩
  | lparen {fs : List Frame} {x : String} :
    Step ⟨.start, fs⟩ (.lparen, x) ⟨.start, .paren none :: fs⟩
  | name {fs : List Frame} {k : Token.Kind} {x : String} : k.isName = true →
    Step ⟨.start, fs⟩ (k, x) ⟨.spine (.var x), fs⟩
  | param {fs : List Frame} {k : Token.Kind} {x : String} : k.isName = true →
    Step ⟨.lambda, fs⟩ (k, x) ⟨.param x, fs⟩
  | dot {fs : List Frame} {x y : String} :
    Step ⟨.param y, fs⟩ (.dot, x) ⟨.start, .lambda y :: fs⟩
  | bound {fs : List Frame} {k : Token.Kind} {x : String} : k.isName = true →
    Step ⟨.letKw, fs⟩ (k, x) ⟨.name x, fs⟩
  | equals {fs : List Frame} {x y : String} :
    Step ⟨.name y, fs⟩ (.equals, x) ⟨.start, .value y :: fs⟩
  | argument {fs : List Frame} {k : Token.Kind} {x : String} {f : Expr} : k.isName = true →
    Step ⟨.spine f, fs⟩ (k, x) ⟨.spine (.call f (.var x)), fs⟩
  | argumentParen {fs : List Frame} {x : String} {f : Expr} :
    Step ⟨.spine f, fs⟩ (.lparen, x) ⟨.start, .paren (some f) :: fs⟩
  | inKw {fs fs' : List Frame} {x y : String} {e v : Expr} : settle fs e = (.value y :: fs', v) →
    Step ⟨.spine e, fs⟩ (.inKw, x) ⟨.start, .body y v :: fs'⟩
  | rparen {fs fs' : List Frame} {x : String} {callee : Option Expr} {e e' : Expr} :
    settle fs e = (.paren callee :: fs', e') →
    Step ⟨.spine e, fs⟩ (.rparen, x) ⟨.spine (applied callee e'), fs'⟩

theorem Step.advance? (h : Step r (k, x) r') : r.advance? k x = some r' := by
  cases h with
  | lambda | letKw | lparen | dot | equals | argumentParen => rfl
  | name hk | param hk | bound hk | argument hk => cases k <;> first | rfl | cases hk
  | inKw hset => simp only [Reading.advance?, hset]
  | rparen hset => simp only [Reading.advance?, hset]

theorem step_of_advance? (h : r.advance? k x = some r') : Step r (k, x) r' := by
  obtain ⟨point, fs⟩ := r
  cases point with
  | start =>
    cases k with
    | lambda => cases h; exact .lambda
    | letKw => cases h; exact .letKw
    | lparen => cases h; exact .lparen
    | ident | capIdent => cases h; exact .name rfl
    | _ => cases h
  | lambda =>
    cases k with
    | ident | capIdent => cases h; exact .param rfl
    | _ => cases h
  | param y =>
    cases k with
    | dot => cases h; exact .dot
    | _ => cases h
  | letKw =>
    cases k with
    | ident | capIdent => cases h; exact .bound rfl
    | _ => cases h
  | name y =>
    cases k with
    | equals => cases h; exact .equals
    | _ => cases h
  | spine e =>
    cases k with
    | ident | capIdent => cases h; exact .argument rfl
    | lparen => cases h; exact .argumentParen
    | inKw =>
      simp only [advance?] at h
      split at h
      · rename_i hset
        cases h
        exact .inKw hset
      · cases h
    | rparen =>
      simp only [advance?] at h
      split at h
      · rename_i hset
        cases h
        exact .rparen hset
      · cases h
    | _ => cases h

/-- Goes on with lexemes, if a term can. -/
def run (r : Reading) (ls : List Lexeme) : Option Reading := Token.runWith advance? r ls

theorem Step.run (h : Step r l r') (ls : List Lexeme) : r.run (l :: ls) = r'.run ls := by
  rw [Reading.run, Token.runWith, h.advance?]
  rfl

theorem run_append (h : r.run ls = some r') (ls' : List Lexeme) :
    r.run (ls ++ ls') = r'.run ls' :=
  Token.runWith_append h ls'

end Reading

/-! ### Derivations are accepted -/

/-- The lexemes lead from where a term must start to where `e` has been read, up to the constructs
that are still open at its right end. -/
def Reading.Takes (ls : List Lexeme) (e : Expr) : Prop :=
  ∀ fs, ∃ e' fs', run ⟨.start, fs⟩ ls = some ⟨.spine e', fs'⟩ ∧ settle fs' e' = settle fs e

open Reading in
mutual
theorem Derives.takes : ∀ {ls : List Lexeme} {e : Expr}, Derives ls e → Takes ls e
  | _, _, .func hk hb => by
    intro fs
    obtain ⟨e', fs', hrun, hset⟩ := hb.takes (.lambda _ :: fs)
    refine ⟨e', fs', ?_, hset⟩
    rw [Step.lambda.run, (Step.param hk).run, Step.dot.run, hrun]
  | _, _, .letIn hk hv hb => by
    intro fs
    -- `in` closes whatever the value left open, so it is found above the frame of the binding
    obtain ⟨v', fs', hrunv, hsetv⟩ := hv.takes (.value _ :: fs)
    obtain ⟨e', fs'', hrunb, hsetb⟩ := hb.takes (.body _ _ :: fs)
    refine ⟨e', fs'', ?_, hsetb⟩
    rw [Step.letKw.run, (Step.bound hk).run, Step.equals.run, run_append hrunv,
      (Step.inKw hsetv).run, hrunb]
  | _, _, .calls h => fun fs => ⟨_, fs, h.run fs, rfl⟩
theorem DerivesCalls.run : ∀ {ls : List Lexeme} {e : Expr}, DerivesCalls ls e → ∀ fs,
    Reading.run ⟨.start, fs⟩ ls = some ⟨.spine e, fs⟩
  | _, _, .atom h => h.run_start
  | _, _, .call hf ha => by
    intro fs
    rw [run_append (hf.run fs)]
    exact ha.run_spine _ fs
theorem DerivesAtom.run_start : ∀ {ls : List Lexeme} {e : Expr}, DerivesAtom ls e → ∀ fs,
    Reading.run ⟨.start, fs⟩ ls = some ⟨.spine e, fs⟩
  | _, _, .var hk => by
    intro fs
    rw [(Step.name hk).run]
    rfl
  | _, _, .paren h => by
    intro fs
    obtain ⟨e', fs', hrun, hset⟩ := h.takes (.paren none :: fs)
    rw [Step.lparen.run, run_append hrun, (Step.rparen hset).run]
    rfl
theorem DerivesAtom.run_spine : ∀ {ls : List Lexeme} {a : Expr}, DerivesAtom ls a → ∀ f fs,
    Reading.run ⟨.spine f, fs⟩ ls = some ⟨.spine (.call f a), fs⟩
  | _, _, .var hk => by
    intro f fs
    rw [(Step.argument hk).run]
    rfl
  | _, _, .paren h => by
    intro f fs
    obtain ⟨e', fs', hrun, hset⟩ := h.takes (.paren (some f) :: fs)
    rw [Step.argumentParen.run, run_append hrun, (Step.rparen hset).run]
    rfl
end

/-! ### Parsing tokens -/

theorem parseFrom_eq_driveWith (r : Reading) (tokens : List Token) (eof : Token) :
    parseFrom r tokens eof =
      Token.driveWith Reading.advance? Reading.complete? Reading.refuse r tokens eof := by
  induction tokens generalizing r with
  | nil =>
    rw [parseFrom, Token.driveWith]
    cases r.complete? <;> rfl
  | cons t ts ih =>
    rw [parseFrom, Token.driveWith]
    cases r.advance? t.kind t.text with
    | none => rfl
    | some r' => exact ih r'

theorem parseFrom_eq_ok {r : Reading} {tokens : List Token} {eof : Token} {e : Expr} :
    parseFrom r tokens eof = .ok e ↔
      ∃ r', r.run (tokens.map Token.lexeme) = some r' ∧ r'.complete? = some e := by
  rw [parseFrom_eq_driveWith]
  exact Token.driveWith_eq_ok

/-- A source is parsed as what its lexemes derive. -/
theorem parse_of_derives {src : Source} {ls : List Lexeme} {e : Expr} (hsrc : Token.Reads src ls)
    (h : Derives ls e) : parse src = .ok e := by
  obtain ⟨tokens, hscan, hls⟩ := hsrc 0
  obtain ⟨e', fs', hrun, hset⟩ := h.takes []
  rw [parse, hscan]
  refine parseFrom_eq_ok.2 ⟨⟨.spine e', fs'⟩, by rw [hls]; exact hrun, ?_⟩
  simp only [Reading.complete?, hset]
  rfl

/-! ### The names of a term that was read -/

/-- The term is well-formed, and each of its names, those of variables and those that are bound,
satisfies `p`. -/
def Named (p : String → Prop) : Expr → Prop
  | .var x => p x
  | .call f a => f.Named p ∧ a.Named p
  | .func x b => p x ∧ b.Named p
  | .letIn x v b => p x ∧ v.Named p ∧ b.Named p
  | .alien _ => False

/-- The names in a construct satisfy `p`. -/
def Frame.Named (p : String → Prop) : Frame → Prop
  | .lambda x => p x
  | .value x => p x
  | .body x v => p x ∧ v.Named p
  | .paren callee => ∀ f ∈ callee, f.Named p

/-- The names in what has been read of a construct satisfy `p`. -/
def Point.Named (p : String → Prop) : Point → Prop
  | .start | .lambda | .letKw => True
  | .param x | .name x => p x
  | .spine e => e.Named p

namespace Reading

/-- All names that have been read satisfy `p`. -/
structure Named (p : String → Prop) (r : Reading) : Prop where
  point : r.point.Named p
  frames : ∀ f ∈ r.frames, f.Named p

variable {p : String → Prop} {r r' : Reading} {fs fs' : List Frame} {e e' : Expr}
  {ls : List Lexeme} {k : Token.Kind} {x : String}

theorem settle_named (h : settle fs e = (fs', e')) (hfs : ∀ f ∈ fs, f.Named p) (he : e.Named p) :
    (∀ f ∈ fs', f.Named p) ∧ e'.Named p := by
  fun_induction settle fs e with
  | case1 y fs e ih =>
    obtain ⟨hy, hfs⟩ := List.forall_mem_cons.1 hfs
    exact ih h hfs ⟨hy, he⟩
  | case2 y v fs e ih =>
    obtain ⟨⟨hy, hv⟩, hfs⟩ := List.forall_mem_cons.1 hfs
    exact ih h hfs ⟨hy, hv, he⟩
  | case3 fs e =>
    cases h
    exact ⟨hfs, he⟩

theorem applied_named {callee : Option Expr} (hc : ∀ f ∈ callee, f.Named p) (he : e.Named p) :
    (applied callee e).Named p := by
  cases callee with
  | none => exact he
  | some f => exact ⟨hc f rfl, he⟩

theorem Step.named (h : Step r (k, x) r') (hr : r.Named p) (hx : k.isName = true → p x) :
    r'.Named p := by
  obtain ⟨hpoint, hfs⟩ := hr
  cases h with
  | lambda | letKw => exact ⟨trivial, hfs⟩
  | lparen => exact ⟨trivial, List.forall_mem_cons.2 ⟨nofun, hfs⟩⟩
  | name hk | param hk | bound hk => exact ⟨hx hk, hfs⟩
  | dot | equals => exact ⟨trivial, List.forall_mem_cons.2 ⟨hpoint, hfs⟩⟩
  | argument hk => exact ⟨⟨hpoint, hx hk⟩, hfs⟩
  | argumentParen =>
    refine ⟨trivial, List.forall_mem_cons.2 ⟨fun f hf => ?_, hfs⟩⟩
    obtain rfl := Option.some.inj hf
    exact hpoint
  | inKw hset =>
    obtain ⟨hfs', hv⟩ := settle_named hset hfs hpoint
    obtain ⟨hy, hfs'⟩ := List.forall_mem_cons.1 hfs'
    exact ⟨trivial, List.forall_mem_cons.2 ⟨⟨hy, hv⟩, hfs'⟩⟩
  | rparen hset =>
    obtain ⟨hfs', he'⟩ := settle_named hset hfs hpoint
    obtain ⟨hcallee, hfs'⟩ := List.forall_mem_cons.1 hfs'
    exact ⟨applied_named hcallee he', hfs'⟩

theorem Named.run (hr : r.Named p) (hls : ∀ l ∈ ls, l.1.isName = true → p l.2)
    (h : r.run ls = some r') : r'.Named p :=
  Token.runWith_invariant (fun _ _ _ _ hl hr h => (step_of_advance? h).named hr (hls _ hl)) hr h

theorem Named.complete (hr : r.Named p) (h : r.complete? = some e) : e.Named p := by
  obtain ⟨point, fs⟩ := r
  unfold complete? at h
  split at h
  · rename_i e' hp
    cases hp
    split at h
    · rename_i hset
      cases h
      exact (settle_named hset hr.frames hr.point).2
    · cases h
  · cases h

end Reading

/-- The names of a term that was read are texts of tokens. -/
theorem named_of_parse {p : String → Prop} {src : Source} {e : Expr}
    (hp : ∀ t ∈ (Token.scan 0 src).1, t.kind.isName = true → p t.text) (h : parse src = .ok e) :
    e.Named p := by
  unfold parse at h
  split at h
  · cases h
  · rename_i tokens hscan
    rw [hscan] at hp
    obtain ⟨r, hrun, hr⟩ := parseFrom_eq_ok.1 h
    have hnamed : Reading.Named p {} := ⟨trivial, nofun⟩
    refine (hnamed.run (fun l hl hk => ?_) hrun).complete hr
    obtain ⟨t, ht, rfl⟩ := List.mem_map.1 hl
    exact hp t ht hk

end Expr

end LetPoly
