import LetPoly.Proofs.ExprGrammar
import LetPoly.Proofs.SchemeGrammar

/-!
# Where a source is refused

Both parsers refuse a source at the first token with which no accepted source can go on, and at its
end if all tokens are fine but some must follow (`parse_error_located`). What can be accepted is said
of sources here, not of the states of a parser (`Accepts`, `Viable`).

The parsers have the same shape (`Stepper`): a state goes on with one token after the other, and at
the first token with which it cannot go on the source is refused. That this is the place asked for
needs one fact about the states: from each of them some lexemes lead to a complete text (`Completes`).
They put an `x` wherever something must start, and close one open construct after the other; the
number of those that need a closing lexeme gets smaller (`pending`).
-/

namespace LetPoly

open Token (Lexeme Spellable runWith)

section Located
variable {α : Type}

/-- Some source with these lexemes is accepted. -/
def Accepts (parse : Source → Except ParseError α) (ls : List Lexeme) : Prop :=
  ∃ (src : Source) (a : α), src.HasLexemes ls ∧ parse src = .ok a

/-- An accepted source can start with these lexemes. -/
def Viable (parse : Source → Except ParseError α) (ls : List Lexeme) : Prop :=
  ∃ ls', Accepts parse (ls ++ ls')

/-- The error is where the source with these tokens first differs from everything that is accepted: at
its end, if the tokens are a proper prefix of accepted ones, and otherwise at the first token that is
one too many. -/
structure ParseError.Located (parse : Source → Except ParseError α) (src : Source)
    (tokens : List Token) (e : ParseError) : Prop where
  end_iff : e.kind = .unexpectedEnd ↔ ∃ ls, ls ≠ [] ∧ Accepts parse (tokens.map Token.lexeme ++ ls)
  end_offset : e.kind = .unexpectedEnd → e.offset = src.width
  token : e.kind ≠ .unexpectedEnd → ∃ k t, tokens[k]? = some t ∧
    ¬ Viable parse ((tokens.take (k + 1)).map Token.lexeme) ∧
    (∀ j < k, Viable parse ((tokens.take (j + 1)).map Token.lexeme)) ∧
    e.offset = t.offset ∧ e.found = t.describe ∧
    (Accepts parse ((tokens.take k).map Token.lexeme) → e.kind = .trailingTokens) ∧
    (¬ Accepts parse ((tokens.take k).map Token.lexeme) → e.kind = .unexpectedToken)

end Located

/-! ### Reading token by token -/

section Stepper
variable {σ α : Type} {advance? : σ → Token.Kind → String → Option σ} {complete? : σ → Option α}

/-- Some lexemes lead from the state to a complete text. -/
def Completes (advance? : σ → Token.Kind → String → Option σ) (complete? : σ → Option α) (r : σ) :
    Prop :=
  ∃ ls r' a, (∀ l ∈ ls, Spellable l) ∧ runWith advance? r ls = some r' ∧ complete? r' = some a

theorem Completes.done {r : σ} {a : α} (h : complete? r = some a) : Completes advance? complete? r :=
  ⟨[], r, a, nofun, rfl, h⟩

theorem Completes.step {k : Token.Kind} {x : String} {r r' : σ} (hl : Spellable (k, x))
    (h : advance? r k x = some r') (hr' : Completes advance? complete? r') :
    Completes advance? complete? r := by
  obtain ⟨ls, r'', a, hls, hrun, ha⟩ := hr'
  refine ⟨(k, x) :: ls, r'', a, ?_, ?_, ha⟩
  · intro l hl'
    rcases List.mem_cons.1 hl' with rfl | hl'
    · exact hl
    · exact hls l hl'
  · rw [runWith, h]
    exact hrun

/-- A parser that reads one token after the other. A token, or the end of input, with which it does not
go on is one too many if what was read is complete, and otherwise not the expected one. -/
structure Stepper (σ α : Type) where
  advance? : σ → Token.Kind → String → Option σ
  complete? : σ → Option α
  refuse : σ → Token → ParseError
  refuse_complete {r : σ} {a : α} (t : Token) : complete? r = some a → refuse r t = .trailing t
  refuse_open {r : σ} (t : Token) : complete? r = none → ∃ x, refuse r t = .unexpected t x
  completes (r : σ) : Completes advance? complete? r

namespace Stepper
variable {m : Stepper σ α} {r r' : σ} {a : α} {e : ParseError} {t : Token} {ts tokens : List Token}
  {eof : Token} {ls ls' : List Lexeme} {src : Source}

/-- The parser of sources starts in the state `r` with the tokens. -/
def Parses (m : Stepper σ α) (r : σ) (parse : Source → Except ParseError α) : Prop :=
  ∀ src tokens, Token.scan 0 src = (tokens, none) →
    parse src = Token.driveWith m.advance? m.complete? m.refuse r tokens (.endOfInput src.width)

variable {parse : Source → Except ParseError α}

theorem accepts_iff (hm : m.Parses r parse) : Accepts parse ls ↔ (∀ l ∈ ls, Spellable l) ∧
    ∃ r' a, runWith m.advance? r ls = some r' ∧ m.complete? r' = some a := by
  constructor
  · rintro ⟨src, a, hsrc, hparse⟩
    refine ⟨Token.exists_hasLexemes_iff.1 ⟨src, hsrc⟩, ?_⟩
    obtain ⟨tokens, hscan, rfl⟩ := Source.hasLexemes_iff.1 hsrc
    rw [hm src tokens hscan] at hparse
    obtain ⟨r', hr'⟩ := Token.driveWith_eq_ok.1 hparse
    exact ⟨r', a, hr'⟩
  · rintro ⟨hls, r', a, hr'⟩
    obtain ⟨src, hsrc⟩ := Token.exists_hasLexemes_iff.2 hls
    obtain ⟨tokens, hscan, rfl⟩ := Source.hasLexemes_iff.1 hsrc
    refine ⟨src, a, hsrc, ?_⟩
    rw [hm src tokens hscan]
    exact Token.driveWith_eq_ok.2 ⟨r', hr'⟩

theorem accepts_iff_isSome (hm : m.Parses r parse) (hls : ∀ l ∈ ls, Spellable l)
    (hrun : runWith m.advance? r ls = some r') : Accepts parse ls ↔ (m.complete? r').isSome := by
  rw [accepts_iff hm, Option.isSome_iff_exists, hrun]
  constructor
  · rintro ⟨-, r'', a, heq, ha⟩
    obtain rfl := Option.some.inj heq
    exact ⟨a, ha⟩
  · rintro ⟨a, ha⟩
    exact ⟨hls, r', a, rfl, ha⟩

theorem accepts_append_of_completes (hm : m.Parses r parse) (hls : ∀ l ∈ ls, Spellable l)
    (hrun : runWith m.advance? r ls = some r') : ∃ ls' r'' a,
      Accepts parse (ls ++ ls') ∧ runWith m.advance? r' ls' = some r'' ∧ m.complete? r'' = some a := by
  obtain ⟨ls', r'', a, hls', hrun', ha⟩ := m.completes r'
  refine ⟨ls', r'', a, (accepts_iff hm).2 ⟨?_, r'', a, ?_, ha⟩, hrun', ha⟩
  · intro l hl
    exact (List.mem_append.1 hl).elim (hls l) (hls' l)
  · rw [Token.runWith_append hrun, hrun']

/-- Lexemes are viable exactly if the parser can go on with all of them. -/
theorem viable_iff (hm : m.Parses r parse) (hls : ∀ l ∈ ls, Spellable l) :
    Viable parse ls ↔ ∃ r', runWith m.advance? r ls = some r' := by
  constructor
  · rintro ⟨ls', h⟩
    obtain ⟨-, r'', a, hrun, -⟩ := (accepts_iff hm).1 h
    exact Token.exists_runWith_of_append hrun
  · rintro ⟨r', hrun⟩
    obtain ⟨ls', -, -, h, -⟩ := accepts_append_of_completes hm hls hrun
    exact ⟨ls', h⟩

theorem located_at_end (hm : m.Parses r parse) (hls : ∀ l ∈ tokens.map Token.lexeme, Spellable l)
    (hrun : runWith m.advance? r (tokens.map Token.lexeme) = some r') (hr' : m.complete? r' = none) :
    (m.refuse r' (.endOfInput src.width)).Located parse src tokens := by
  obtain ⟨x, hx⟩ := m.refuse_open (.endOfInput src.width) hr'
  have hkind : (m.refuse r' (.endOfInput src.width)).kind = .unexpectedEnd := by rw [hx]; rfl
  have hoffset : (m.refuse r' (.endOfInput src.width)).offset = src.width := by rw [hx]; rfl
  refine ⟨⟨fun _ => ?_, fun _ => hkind⟩, fun _ => hoffset, fun h => absurd hkind h⟩
  obtain ⟨ls, r'', a, h, hrun', ha⟩ := accepts_append_of_completes hm hls hrun
  refine ⟨ls, ?_, h⟩
  rintro rfl
  cases hrun'
  rw [hr'] at ha
  cases ha

theorem runWith_refused (hrun : runWith m.advance? r ls = some r')
    (h : m.advance? r' t.kind t.text = none) (ls' : List Lexeme) :
    runWith m.advance? r (ls ++ t.lexeme :: ls') = none := by
  rw [Token.runWith_append hrun, Token.lexeme, runWith, h]
  rfl

theorem refuse_token (m : Stepper σ α) (r : σ) (ht : t.kind ≠ .eof) :
    (m.refuse r t).offset = t.offset ∧ (m.refuse r t).found = t.describe ∧
      (m.refuse r t).kind =
        if (m.complete? r).isSome then .trailingTokens else .unexpectedToken := by
  cases hr : m.complete? r with
  | some a =>
    rw [m.refuse_complete t hr]
    exact ⟨rfl, rfl, rfl⟩
  | none =>
    obtain ⟨x, hx⟩ := m.refuse_open t hr
    rw [hx, ParseError.unexpected, if_neg ht]
    exact ⟨rfl, rfl, rfl⟩

theorem located_at_token {ts' : List Token} (hm : m.Parses r parse)
    (hls : ∀ l ∈ (ts ++ t :: ts').map Token.lexeme, Spellable l) (ht : t.kind ≠ .eof)
    (hrun : runWith m.advance? r (ts.map Token.lexeme) = some r')
    (h : m.advance? r' t.kind t.text = none) :
    (m.refuse r' t).Located parse src (ts ++ t :: ts') := by
  obtain ⟨hoffset, hfound, hkind⟩ := m.refuse_token r' ht
  have hend : (m.refuse r' t).kind ≠ .unexpectedEnd := by
    rw [hkind]
    split <;> nofun
  have hspellable : ∀ n, ∀ l ∈ ((ts ++ t :: ts').take n).map Token.lexeme, Spellable l :=
    fun n l hl => hls l (List.map_subset _ (List.take_subset n _) hl)
  have htake : (ts ++ t :: ts').take ts.length = ts := List.take_left
  have hstop : (ts ++ t :: ts').take (ts.length + 1) = ts ++ [t] := List.take_length_add_append 1
  have haccepts : Accepts parse (((ts ++ t :: ts').take ts.length).map Token.lexeme) ↔
      (m.complete? r').isSome := accepts_iff_isSome hm (hspellable _) (by rw [htake, hrun])
  refine ⟨⟨fun hk => absurd hk hend, ?_⟩, fun hk => absurd hk hend, fun _ => ?_⟩
  · rintro ⟨ls, -, hacc⟩
    obtain ⟨-, r'', a, hrun', -⟩ := (accepts_iff hm).1 hacc
    rw [List.map_append, List.map_cons, List.append_assoc, List.cons_append, runWith_refused hrun h]
      at hrun'
    cases hrun'
  · refine ⟨ts.length, t, by simp, ?_, fun j hj => ?_, hoffset, hfound, fun hacc => ?_, fun hacc => ?_⟩
    · rw [viable_iff hm (hspellable _), hstop, List.map_append, List.map_singleton,
        runWith_refused hrun h]
      nofun
    · rw [viable_iff hm (hspellable _)]
      have hsplit : ts = ts.take (j + 1) ++ ts.drop (j + 1) := (List.take_append_drop ..).symm
      have htake' : (ts ++ t :: ts').take (j + 1) = ts.take (j + 1) :=
        List.take_append_of_le_length hj
      rw [htake']
      rw [hsplit, List.map_append] at hrun
      exact Token.exists_runWith_of_append hrun
    · rw [hkind, if_pos (haccepts.1 hacc)]
    · rw [hkind, if_neg fun hr => hacc (haccepts.2 hr)]

theorem located (hm : m.Parses r parse) (hscan : Token.scan 0 src = (tokens, none))
    (h : parse src = .error e) : e.Located parse src tokens := by
  have hls : ∀ l ∈ tokens.map Token.lexeme, Spellable l :=
    Token.exists_hasLexemes_iff.1 ⟨src, Source.hasLexemes_iff.2 ⟨tokens, hscan, rfl⟩⟩
  rw [hm src tokens hscan] at h
  rcases Token.driveWith_eq_error h with ⟨r', hrun, hr', rfl⟩ | ⟨ts, t, ts', r', rfl, hrun, hr', rfl⟩
  · exact located_at_end hm hls hrun hr'
  · have ht : t ∈ (Token.scan 0 src).1 := by simp [hscan]
    exact located_at_token hm hls (Token.ne_eof_of_mem_scan ht) hrun hr'

end Stepper
end Stepper

/-! ### Lexemes to complete a text with -/

section Lexemes

theorem Token.ReadsAs.spellable {s : String} {l : Lexeme} (h : Token.ReadsAs s [l]) : Spellable l :=
  ⟨_, Token.hasLexemes_iff_reads.2 h.reads⟩

theorem spellable_name : Spellable (.ident, "x") :=
  Token.ReadsAs.spellable (.word (w := "x") ⟨'x', [], rfl, by decide, rfl, by decide, rfl⟩)

theorem spellable_in : Spellable (.inKw, "in") := Token.ReadsAs.spellable (.reserved rfl)

theorem spellable_dot : Spellable (.dot, ".") :=
  Token.ReadsAs.spellable (.sign (c := '.') (by decide) rfl)

theorem spellable_equals : Spellable (.equals, "=") :=
  Token.ReadsAs.spellable (.sign (c := '=') (by decide) rfl)

theorem spellable_rparen : Spellable (.rparen, ")") :=
  Token.ReadsAs.spellable (.sign (c := ')') (by decide) rfl)

end Lexemes

/-! ### Terms -/

namespace Expr
namespace Reading
variable {fs fs' : List Frame} {e e' : Expr} {f : Frame}

/-- The number of open constructs that end with a lexeme of their own. -/
def pending : List Frame → Nat
  | [] => 0
  | .value _ :: fs => pending fs + 1
  | .paren _ :: fs => pending fs + 1
  | .lambda _ :: fs => pending fs
  | .body _ _ :: fs => pending fs

theorem pending_settle (h : settle fs e = (fs', e')) : pending fs' = pending fs := by
  fun_induction settle fs e with
  | case1 x fs e ih => exact ih h
  | case2 x v fs e ih => exact ih h
  | case3 fs e =>
    cases h
    rfl

/-- What is left open after closing ends with a lexeme of its own. -/
theorem settle_head (h : settle fs e = (f :: fs', e')) : (∃ x, f = .value x) ∨ ∃ c, f = .paren c := by
  fun_induction settle fs e with
  | case1 x fs e ih => exact ih h
  | case2 x v fs e ih => exact ih h
  | case3 fs e hlambda hbody =>
    cases h
    cases f with
    | lambda x => exact absurd rfl (hlambda x fs')
    | body x v => exact absurd rfl (hbody x v fs')
    | value x => exact .inl ⟨x, rfl⟩
    | paren c => exact .inr ⟨c, rfl⟩

theorem completes_spine (e : Expr) (fs : List Frame) : Completes advance? complete? ⟨.spine e, fs⟩ := by
  induction hn : pending fs using Nat.strong_induction_on generalizing e fs with
  | _ n ih =>
    obtain ⟨fs', e', hset⟩ : ∃ fs' e', settle fs e = (fs', e') := ⟨_, _, rfl⟩
    -- a lexeme that closes what is left open leaves one less pending
    have hpending := pending_settle hset
    cases fs' with
    | nil =>
      have hdone : complete? ⟨.spine e, fs⟩ = some e' := by simp only [complete?, hset]
      exact .done hdone
    | cons f fs' =>
      rcases settle_head hset with ⟨x, rfl⟩ | ⟨c, rfl⟩
      · refine .step spellable_in (Step.inKw hset).advance? ?_
        refine .step spellable_name (Step.name rfl).advance? ?_
        exact ih (pending fs') (by rw [pending] at hpending; omega) _ _ rfl
      · refine .step spellable_rparen (Step.rparen hset).advance? ?_
        exact ih (pending fs') (by rw [pending] at hpending; omega) _ _ rfl

theorem completes_start (fs : List Frame) : Completes advance? complete? ⟨.start, fs⟩ :=
  .step spellable_name (Step.name rfl).advance? (completes_spine _ fs)

theorem completes (r : Reading) : Completes advance? complete? r := by
  obtain ⟨p, fs⟩ := r
  cases p with
  | start => exact completes_start fs
  | lambda =>
    exact .step spellable_name (Step.param rfl).advance?
      (.step spellable_dot Step.dot.advance? (completes_start _))
  | param x => exact .step spellable_dot Step.dot.advance? (completes_start _)
  | letKw =>
    exact .step spellable_name (Step.bound rfl).advance?
      (.step spellable_equals Step.equals.advance? (completes_start _))
  | name x => exact .step spellable_equals Step.equals.advance? (completes_start _)
  | spine e => exact completes_spine e fs

theorem refuse_complete {r : Reading} (t : Token) (h : r.complete? = some e) :
    r.refuse t = .trailing t := by
  unfold complete? at h
  split at h
  · rename_i hp
    split at h
    · rename_i hset
      simp only [refuse, hp, hset]
    · cases h
  · cases h

theorem refuse_open {r : Reading} (t : Token) (h : r.complete? = none) :
    ∃ x, r.refuse t = .unexpected t x := by
  obtain ⟨p, fs⟩ := r
  cases p with
  | spine e =>
    obtain ⟨fs', e', hset⟩ : ∃ fs' e', settle fs e = (fs', e') := ⟨_, _, rfl⟩
    simp only [complete?, hset] at h
    cases fs' with
    | nil => cases h
    | cons f fs' =>
      rcases settle_head hset with ⟨x, rfl⟩ | ⟨c, rfl⟩ <;>
        exact ⟨_, by simp only [refuse, hset]; rfl⟩
  | _ => exact ⟨_, rfl⟩

end Reading

/-- The parser of terms. -/
def stepper : Stepper Reading Expr where
  advance? := Reading.advance?
  complete? := Reading.complete?
  refuse := Reading.refuse
  refuse_complete := Reading.refuse_complete
  refuse_open := Reading.refuse_open
  completes := Reading.completes

theorem stepper_parses : stepper.Parses {} parse := by
  intro src tokens hscan
  rw [parse, hscan]
  exact parseFrom_eq_driveWith {} tokens _

end Expr

/-! ### Schemes -/

namespace Scheme
namespace Reading
variable {r : Reading} {fs fs' : List Frame} {t t' : Ty} {f : Frame} {s : Scheme}

/-- The number of open constructs that end with a lexeme of their own. -/
def pending : List Frame → Nat
  | [] => 0
  | .paren :: fs => pending fs + 1
  | .argument _ _ :: fs => pending fs + 1
  | .arrow _ :: fs => pending fs

theorem pending_settle (h : settle fs t = (fs', t')) : pending fs' = pending fs := by
  fun_induction settle fs t with
  | case1 a fs t ih => exact ih h
  | case2 fs t =>
    cases h
    rfl

theorem settle_head (h : settle fs t = (f :: fs', t')) :
    f = .paren ∨ ∃ c ts, f = .argument c ts := by
  fun_induction settle fs t with
  | case1 a fs t ih => exact ih h
  | case2 fs t harrow =>
    cases h
    cases f with
    | arrow a => exact absurd rfl (harrow a fs')
    | paren => exact .inl rfl
    | argument c ts => exact .inr ⟨c, ts, rfl⟩

theorem completes_operand (r : Reading) (ht : operand? r.point = some t) :
    Completes advance? complete? r := by
  induction hn : pending r.frames using Nat.strong_induction_on generalizing r t with
  | _ n ih =>
    obtain ⟨fs, u, hset⟩ : ∃ fs u, settle r.frames t = (fs, u) := ⟨_, _, rfl⟩
    have hpending := pending_settle hset
    cases fs with
    | nil => exact .done (complete?_eq ht hset)
    | cons f fs =>
      rcases settle_head hset with rfl | ⟨c, ts, rfl⟩
      · refine .step spellable_rparen (Step.rparen ht hset).advance? ?_
        exact ih (pending fs) (by rw [pending] at hpending; omega) _ rfl rfl
      · refine .step spellable_rparen (Step.argEnd ht hset).advance? ?_
        exact ih (pending fs) (by rw [pending] at hpending; omega) _ rfl rfl

theorem completes_opens (hp : r.point.Opens) : Completes advance? complete? r :=
  .step spellable_name (Step.var hp rfl).advance? (completes_operand _ rfl)

theorem completes (r : Reading) : Completes advance? complete? r := by
  cases hp : r.point with
  | scheme => exact completes_opens (.inl hp)
  | start => exact completes_opens (.inr hp)
  | spine c ts => exact completes_operand r (t := .app c ts) (by rw [hp]; rfl)
  | whole t => exact completes_operand r (t := t) (by rw [hp]; rfl)
  | names =>
    have hp' : (r.quantify "x").point = .names := (r.quantify_point "x").1.trans hp
    have hdot := Step.dot (x := ".") hp' (r.bound_quantify "x")
    exact .step spellable_name (Step.quantify hp).advance?
      (.step spellable_dot hdot.advance? (completes_opens (.inr rfl)))

theorem refuse_complete (k : Token) (h : r.complete? = some s) : r.refuse k = .trailing k := by
  obtain ⟨t, ht, hs⟩ := Option.bind_eq_some_iff.1 h
  split at hs
  · rename_i hset
    simp only [refuse, ht, hset]
  · cases hs

theorem refuse_open (k : Token) (h : r.complete? = none) : ∃ x, r.refuse k = .unexpected k x := by
  unfold refuse
  split
  · rename_i t ht
    split
    · rename_i hset
      rw [complete?_eq ht hset] at h
      cases h
    · exact ⟨_, rfl⟩
  · split
    · split <;> exact ⟨_, rfl⟩
    · exact ⟨_, rfl⟩

end Reading

/-- The parser of schemes, without the table of names. -/
def stepper : Stepper Reading Scheme where
  advance? := Reading.advance?
  complete? := Reading.complete?
  refuse := Reading.refuse
  refuse_complete := Reading.refuse_complete
  refuse_open := Reading.refuse_open
  completes := Reading.completes

theorem stepper_parses : stepper.Parses { names := {} } parse := by
  intro src tokens hscan
  rw [parse, parseWith, hscan]
  exact parseFrom_eq_driveWith _ tokens _

end Scheme

/-- If all of a source is made of tokens and yet refused, as a term or as a scheme, then at the first of
its tokens that no accepted source has there after the same tokens; or at its end, if there is no such
token. -/
theorem parse_error_located (src : Source) (tokens : List Token) (e : ParseError)
    (htokens : Token.tokenize src = .ok (tokens ++ [.endOfInput src.width])) :
    (Expr.parse src = .error e → e.Located Expr.parse src tokens) ∧
    (Scheme.parse src = .error e → e.Located Scheme.parse src tokens) := by
  have hscan := Token.tokenize_eq_ok.1 htokens
  exact ⟨Stepper.located Expr.stepper_parses hscan, Stepper.located Scheme.stepper_parses hscan⟩

/-- A term that goes on after its last token, and no scheme from the parenthesis on. -/
theorem parse_error_located_open_paren : ∃ tokens e e',
    Token.tokenize (.ofString "x ( y") = .ok (tokens ++ [.endOfInput 5]) ∧
    Expr.parse (.ofString "x ( y") = .error e ∧ e.kind = .unexpectedEnd ∧
    e.Located Expr.parse (.ofString "x ( y") tokens ∧
    Scheme.parse (.ofString "x ( y") = .error e' ∧ e'.kind = .trailingTokens ∧
    e'.Located Scheme.parse (.ofString "x ( y") tokens := by
  have hx : Token.ReadsAs "x" [(.ident, "x")] :=
    .word (w := "x") ⟨'x', [], rfl, by decide, rfl, by decide, rfl⟩
  have hy : Token.ReadsAs "y" [(.ident, "y")] :=
    .word (w := "y") ⟨'y', [], rfl, by decide, rfl, by decide, rfl⟩
  have hl : Token.ReadsAs "(" [(.lparen, "(")] := Token.ReadsAs.sign (c := '(') (by decide) rfl
  have hsrc : Token.Reads (.ofString "x ( y") [(.ident, "x"), (.lparen, "("), (.ident, "y")] :=
    (hx.spaced (hl.spaced hy)).reads
  obtain ⟨tokens, hscan, hls⟩ := hsrc 0
  have htokens := Token.tokenize_eq_ok.2 hscan
  obtain ⟨⟨k₁, x₁, o₁⟩, ts₁, rfl, h₁, hls⟩ := List.map_eq_cons_iff.1 hls
  obtain ⟨⟨k₂, x₂, o₂⟩, ts₂, rfl, h₂, hls⟩ := List.map_eq_cons_iff.1 hls
  obtain ⟨⟨k₃, x₃, o₃⟩, ts₃, rfl, h₃, hls⟩ := List.map_eq_cons_iff.1 hls
  obtain rfl := List.map_eq_nil_iff.1 hls
  cases h₁
  cases h₂
  cases h₃
  have hexpr : Expr.parse (.ofString "x ( y") =
      .error (.unexpected (.endOfInput 5) "')'") := by
    rw [Expr.parse, hscan]
    rfl
  have hscheme : Scheme.parse (.ofString "x ( y") = .error (.trailing ⟨.lparen, "(", o₂⟩) := by
    rw [Scheme.parse, Scheme.parseWith, hscan]
    rfl
  exact ⟨_, _, _, htokens, hexpr, rfl, (parse_error_located _ _ _ htokens).1 hexpr, hscheme, rfl,
    (parse_error_located _ _ _ htokens).2 hscheme⟩

end LetPoly
