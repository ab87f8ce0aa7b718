import LetPoly.Proofs.Lexing
import LetPoly.Proofs.Numbering

/-!
# The grammar of types and schemes

`Ty.Derives` is the grammar of types over lexemes, as rules, for a given numbering of the names. The
parser accepts what the grammar derives, when the names are numbered by the roster of those it meets
(`Scheme.parse_of_derives`). As with terms, the arrows at the right end of a type are still open when
all of its lexemes have been read, and are closed together with whatever ends the type.

Whatever the parser accepts, its variables are the numbers of the names in the roster
(`Scheme.numbered_of_parse`).
-/

namespace LetPoly

open Token (Lexeme)

/-- The identifiers among lexemes. -/
def Token.idents (ls : List Lexeme) : List String :=
  ls.filterMap fun l => if l.1 = .ident then some l.2 else none

open Token (idents)

theorem Token.idents_nil : idents [] = [] := rfl

theorem Token.idents_append (ls ls' : List Lexeme) : idents (ls ++ ls') = idents ls ++ idents ls' :=
  List.filterMap_append

theorem Token.idents_cons_of_ne {k : Kind} (hk : k ≠ .ident) (x : String) (ls : List Lexeme) :
    idents ((k, x) :: ls) = idents ls :=
  List.filterMap_cons_none (if_neg hk)

namespace Ty

mutual
/-- `T ::= P | P -> T` -/
inductive Derives (number : String → TyVar) : List Lexeme → Ty → Prop
  | operand {ls : List Lexeme} {t : Ty} : DerivesOperand number ls t → Derives number ls t
  | arrow {x : String} {ls ls' : List Lexeme} {a b : Ty} : DerivesOperand number ls a →
    Derives number ls' b → Derives number (ls ++ (.arrow, x) :: ls') (.arrow a b)
/-- `P ::= C A* | x | ( T )` -/
inductive DerivesOperand (number : String → TyVar) : List Lexeme → Ty → Prop
  | app {ls : List Lexeme} {c : String} {args : List Ty} : DerivesSpine number ls c args →
    DerivesOperand number ls (.app c args)
  | var {x : String} : DerivesOperand number [(.ident, x)] (.var (number x))
  | paren {p q : String} {ls : List Lexeme} {t : Ty} : Derives number ls t →
    DerivesOperand number ((.lparen, p) :: (ls ++ [(.rparen, q)])) t
/-- `C A*` -/
inductive DerivesSpine (number : String → TyVar) : List Lexeme → String → List Ty → Prop
  | con {c : String} : DerivesSpine number [(.capIdent, c)] c []
  | arg {ls ls' : List Lexeme} {c : String} {args : List Ty} {a : Ty} :
    DerivesSpine number ls c args → DerivesAtom number ls' a →
    DerivesSpine number (ls ++ ls') c (args ++ [a])
/-- `A ::= x | C | ( T )` -/
inductive DerivesAtom (number : String → TyVar) : List Lexeme → Ty → Prop
  | var {x : String} : DerivesAtom number [(.ident, x)] (.var (number x))
  | const {c : String} : DerivesAtom number [(.capIdent, c)] (.const c)
  | paren {p q : String} {ls : List Lexeme} {t : Ty} : Derives number ls t →
    DerivesAtom number ((.lparen, p) :: (ls ++ [(.rparen, q)])) t
end

end Ty

namespace Scheme

/-- A type must start at this point. -/
def Point.Opens (p : Point) : Prop := p = .scheme ∨ p = .start

namespace Reading
variable {r r' r'' : Reading} {fs fs' : List Frame} {l : Lexeme} {ls ls' : List Lexeme}
  {k : Token.Kind} {x : String} {qs xs : List String}

/-! ### Single lexemes -/

/-- What the parser can do with a lexeme. -/
inductive Step : Reading → Lexeme → Reading → Prop
  | forAll {r : Reading} {x : String} : r.point = .scheme →
    Step r (.forAll, x) { r with point := .names }
  | quantify {r : Reading} {x : String} : r.point = .names → Step r (.ident, x) (r.quantify x)
  | dot {r : Reading} {x : String} : r.point = .names → r.bound.isEmpty = false →
    Step r (.dot, x) { r with point := .start }
  | con {r : Reading} {x : String} : r.point.Opens →
    Step r (.capIdent, x) { r with point := .spine x [] }
  | var {r : Reading} {x : String} {t : Ty} {N : NameTable} : r.point.Opens →
    r.resolve x = (t, N) → Step r (.ident, x) { r with point := .whole t, names := N }
  | lparen {r : Reading} {x : String} : r.point.Opens →
    Step r (.lparen, x) { r with point := .start, frames := .paren :: r.frames }
  | argVar {r : Reading} {c x : String} {args : List Ty} {t : Ty} {N : NameTable} :
    r.point = .spine c args → r.resolve x = (t, N) →
    Step r (.ident, x) { r with point := .spine c (args ++ [t]), names := N }
  | argCon {r : Reading} {c x : String} {args : List Ty} : r.point = .spine c args →
    Step r (.capIdent, x) { r with point := .spine c (args ++ [.const x]) }
  | argParen {r : Reading} {c x : String} {args : List Ty} : r.point = .spine c args →
    Step r (.lparen, x) { r with point := .start, frames := .argument c args :: r.frames }
  | arrow {r : Reading} {x : String} {t : Ty} : operand? r.point = some t →
    Step r (.arrow, x) { r with point := .start, frames := .arrow t :: r.frames }
  | rparen {r : Reading} {x : String} {t t' : Ty} {fs : List Frame} :
    operand? r.point = some t → settle r.frames t = (.paren :: fs, t') →
    Step r (.rparen, x) { r with point := .whole t', frames := fs }
  | argEnd {r : Reading} {c x : String} {args : List Ty} {t t' : Ty} {fs : List Frame} :
    operand? r.point = some t → settle r.frames t = (.argument c args :: fs, t') →
    Step r (.rparen, x) { r with point := .spine c (args ++ [t']), frames := fs }

theorem advance?_of_opens (hp : r.point.Opens) (hk : k ≠ .forAll) :
    r.advance? k x = r.start? k x := by
  obtain ⟨p, fs, b, N⟩ := r
  obtain rfl | rfl : p = .scheme ∨ p = .start := hp
  · simp only [advance?, if_neg hk]
  · rfl

theorem advance?_of_operand {t : Ty} (ht : operand? r.point = some t)
    (hk : k = .arrow ∨ k = .rparen) : r.advance? k x = r.close? t k := by
  obtain ⟨p, fs, b, N⟩ := r
  cases p with
  | spine c args =>
    obtain rfl := Option.some.inj ht
    obtain rfl | rfl := hk <;> rfl
  | whole u =>
    obtain rfl := Option.some.inj ht
    rfl
  | scheme | names | start => cases ht

theorem Step.advance? (h : Step r (k, x) r') : r.advance? k x = some r' := by
  cases h with
  | forAll hp => simp only [Reading.advance?, hp, if_true]
  | quantify hp => simp only [Reading.advance?, hp]
  | dot hp hb => simp [Reading.advance?, hp, hb]
  | con hp => exact advance?_of_opens hp (by decide)
  | var hp hres => rw [advance?_of_opens hp (by decide), start?, hres]
  | lparen hp => exact advance?_of_opens hp (by decide)
  | argVar hp hres => simp only [Reading.advance?, hp, hres]
  | argCon hp => simp only [Reading.advance?, hp]
  | argParen hp => simp only [Reading.advance?, hp]
  | arrow ht => exact advance?_of_operand ht (.inl rfl)
  | rparen ht hset => simp only [advance?_of_operand ht (.inr rfl), close?, hset]
  | argEnd ht hset => simp only [advance?_of_operand ht (.inr rfl), close?, hset]

theorem step_of_start? (hp : r.point.Opens) (h : r.start? k x = some r') : Step r (k, x) r' := by
  cases k with
  | capIdent => cases h; exact .con hp
  | ident => cases h; exact .var hp rfl
  | lparen => cases h; exact .lparen hp
  | _ => cases h

theorem step_of_close? {t : Ty} (ht : operand? r.point = some t) (h : r.close? t k = some r') :
    Step r (k, x) r' := by
  cases k with
  | arrow => cases h; exact .arrow ht
  | rparen =>
    simp only [close?] at h
    split at h
    · rename_i hset
      cases h
      exact .rparen ht hset
    · rename_i hset
      cases h
      exact .argEnd ht hset
    · cases h
  | _ => cases h

theorem step_of_advance? (h : r.advance? k x = some r') : Step r (k, x) r' := by
  cases hp : r.point with
  | scheme =>
    by_cases hk : k = .forAll
    · subst hk
      simp only [advance?, hp, if_true] at h
      cases h
      exact .forAll hp
    · exact step_of_start? (.inl hp) (by rwa [advance?_of_opens (.inl hp) hk] at h)
  | names =>
    simp only [advance?, hp] at h
    cases k with
    | ident => cases h; exact .quantify hp
    | dot =>
      simp only at h
      split at h
      · cases h
      · rename_i hb
        cases h
        exact .dot hp (by simpa using hb)
    | _ => cases h
  | start =>
    simp only [advance?, hp] at h
    exact step_of_start? (.inr hp) h
  | spine c args =>
    have ht : operand? r.point = some (.app c args) := by rw [hp]; rfl
    simp only [advance?, hp] at h
    cases k with
    | ident => cases h; exact .argVar hp rfl
    | capIdent => cases h; exact .argCon hp
    | lparen => cases h; exact .argParen hp
    | _ => exact step_of_close? ht h
  | whole t =>
    have ht : operand? r.point = some t := by rw [hp]; rfl
    simp only [advance?, hp] at h
    exact step_of_close? ht h

/-- Goes on with lexemes, if a scheme can. -/
def run (r : Reading) (ls : List Lexeme) : Option Reading := Token.runWith advance? r ls

theorem Step.run (h : Step r l r') (ls : List Lexeme) : r.run (l :: ls) = r'.run ls := by
  rw [Reading.run, Token.runWith, h.advance?]
  rfl

theorem run_append (h : r.run ls = some r') (ls' : List Lexeme) :
    r.run (ls ++ ls') = r'.run ls' :=
  Token.runWith_append h ls'

/-! ### Derivations are accepted -/

/-- No names are met but by identifiers. -/
theorem Step.names_eq (h : Step r (k, x) r') (hk : k ≠ .ident) :
    r'.bound = r.bound ∧ r'.names = r.names := by
  cases h with
  | quantify | var | argVar => exact absurd rfl hk
  | _ => exact ⟨rfl, rfl⟩

/-- The lexemes lead from `r` to `r'`, and the table has met the names among them. -/
structure Goes (r : Reading) (ls : List Lexeme) (r' : Reading) : Prop where
  run : r.run ls = some r'
  bound : r'.bound = r.bound
  names : r'.names = r.names.meetAll r.bound (idents ls)

theorem Goes.trans (h : Goes r ls r') (h' : Goes r' ls' r'') : Goes r (ls ++ ls') r'' := by
  refine ⟨(run_append h.run ls').trans h'.run, h'.bound.trans h.bound, ?_⟩
  rw [h'.names, h.bound, h.names, Token.idents_append, NameTable.meetAll_append]

theorem Goes.step (h : Step r (k, x) r') (hk : k ≠ .ident) : Goes r [(k, x)] r' := by
  obtain ⟨hbound, hnames⟩ := h.names_eq hk
  refine ⟨h.run [], hbound, ?_⟩
  rw [hnames, Token.idents_cons_of_ne hk]
  rfl

theorem Goes.cons (hstep : Step r (k, x) r') (hk : k ≠ .ident) (h : Goes r' ls r'') :
    Goes r ((k, x) :: ls) r'' :=
  (Goes.step hstep hk).trans h

theorem Goes.concat (h : Goes r ls r') (hstep : Step r' (k, x) r'') (hk : k ≠ .ident) :
    Goes r (ls ++ [(k, x)]) r'' :=
  h.trans (.step hstep hk)

theorem Goes.numbered (h : Goes r ls r') (hn : Numbered qs xs r.bound r.names) :
    Numbered qs (xs ++ idents ls) r'.bound r'.names := by
  rw [h.bound, h.names]
  exact hn.meetAll _

variable {number : String → TyVar}

/-- The names among the lexemes will get the numbers that `number` says. -/
def Fits (number : String → TyVar) (r : Reading) (ls : List Lexeme) : Prop :=
  r.names.Fits number r.bound (idents ls)

theorem Fits.append_left (h : r.Fits number (ls ++ ls')) : r.Fits number ls := by
  unfold Fits at h
  rw [Token.idents_append] at h
  exact h.append_left

theorem Fits.append_right (h : r.Fits number (ls ++ ls')) (hgo : Goes r ls r') :
    r'.Fits number ls' := by
  unfold Fits at h ⊢
  rw [Token.idents_append] at h
  rw [hgo.bound, hgo.names]
  exact h.append_right

theorem Fits.tail (h : r.Fits number ((k, x) :: ls)) (hstep : Step r (k, x) r') (hk : k ≠ .ident) :
    r'.Fits number ls := by
  have h : r.Fits number ([(k, x)] ++ ls) := h
  exact h.append_right (.step hstep hk)

theorem Fits.resolve (h : r.Fits number [(.ident, x)]) :
    r.resolve x = (.var (number x), r.names.meetAll r.bound [x]) := by
  obtain ⟨v, hres, hv⟩ := r.exists_resolve x
  have hx : (r.names.meet r.bound x).number? r.bound x = some (number x) := h x List.mem_cons_self
  rw [hres, Option.some.inj (hv.symm.trans hx)]
  rfl

end Reading

end Scheme

namespace Ty
variable {number : String → TyVar}

open Scheme.Reading (Fits Goes Step operand? settle)

mutual
/-- What has been read at the end of a type is the type, once its arrows are closed. -/
theorem Derives.goes : ∀ {ls : List Lexeme} {t : Ty}, Derives number ls t →
    ∀ {r : Scheme.Reading}, r.point.Opens → r.Fits number ls →
    ∃ r' u, Goes r ls r' ∧ operand? r'.point = some u ∧ settle r'.frames u = settle r.frames t
  | _, _, .operand h, _, hp, hr => by
    obtain ⟨r', hgo, ht, hfs⟩ := h.goes hp hr
    exact ⟨r', _, hgo, ht, by rw [hfs]⟩
  | _, _, .arrow ha hb, _, hp, hr => by
    obtain ⟨r₁, hgo₁, ht, hfs⟩ := ha.goes hp hr.append_left
    have hr₁ := (hr.append_right hgo₁).tail (.arrow ht) (by decide)
    obtain ⟨r₂, u, hgo₂, hu, hset⟩ := hb.goes (.inr rfl) hr₁
    refine ⟨r₂, u, hgo₁.trans (.cons (.arrow ht) (by decide) hgo₂), hu, hset.trans ?_⟩
    rw [hfs]
    rfl
theorem DerivesOperand.goes : ∀ {ls : List Lexeme} {t : Ty}, DerivesOperand number ls t →
    ∀ {r : Scheme.Reading}, r.point.Opens → r.Fits number ls →
    ∃ r', Goes r ls r' ∧ operand? r'.point = some t ∧ r'.frames = r.frames
  | _, _, .app h, _, hp, hr => by
    obtain ⟨r', hgo, hpt, hfs⟩ := h.goes hp hr
    exact ⟨r', hgo, by rw [hpt]; rfl, hfs⟩
  | _, _, .var, _, hp, hr => by
    exact ⟨_, ⟨(Step.var hp hr.resolve).run [], rfl, rfl⟩, rfl, rfl⟩
  | _, _, .paren h, _, hp, hr => by
    have hr₁ := (hr.tail (.lparen hp) (by decide)).append_left
    obtain ⟨r', u, hgo, hu, hset⟩ := h.goes (.inr rfl) hr₁
    exact ⟨_, .cons (.lparen hp) (by decide) (hgo.concat (.rparen hu hset) (by decide)), rfl, rfl⟩
theorem DerivesSpine.goes : ∀ {ls : List Lexeme} {c : String} {args : List Ty},
    DerivesSpine number ls c args → ∀ {r : Scheme.Reading}, r.point.Opens → r.Fits number ls →
    ∃ r', Goes r ls r' ∧ r'.point = .spine c args ∧ r'.frames = r.frames
  | _, _, _, .con, _, hp, _ => ⟨_, .step (.con hp) (by decide), rfl, rfl⟩
  | _, _, _, .arg h ha, _, hp, hr => by
    obtain ⟨r₁, hgo₁, hpt₁, hfs₁⟩ := h.goes hp hr.append_left
    obtain ⟨r₂, hgo₂, hpt₂, hfs₂⟩ := ha.goes hpt₁ (hr.append_right hgo₁)
    exact ⟨r₂, hgo₁.trans hgo₂, hpt₂, hfs₂.trans hfs₁⟩
theorem DerivesAtom.goes : ∀ {ls : List Lexeme} {a : Ty}, DerivesAtom number ls a →
    ∀ {r : Scheme.Reading} {c : String} {args : List Ty},
    r.point = .spine c args → r.Fits number ls →
    ∃ r', Goes r ls r' ∧ r'.point = .spine c (args ++ [a]) ∧ r'.frames = r.frames
  | _, _, .var, _, _, _, hp, hr => by
    exact ⟨_, ⟨(Step.argVar hp hr.resolve).run [], rfl, rfl⟩, rfl, rfl⟩
  | _, _, .const, _, _, _, hp, _ => ⟨_, .step (.argCon hp) (by decide), rfl, rfl⟩
  | _, _, .paren h, _, _, _, hp, hr => by
    have hr₁ := (hr.tail (.argParen hp) (by decide)).append_left
    obtain ⟨r', u, hgo, hu, hset⟩ := h.goes (.inr rfl) hr₁
    exact ⟨_, .cons (.argParen hp) (by decide) (hgo.concat (.argEnd hu hset) (by decide)), rfl, rfl⟩
end

end Ty

namespace Scheme

/-- `S ::= forall x x* . T | T`. Repeating a quantified name changes nothing. -/
inductive Derives : List Lexeme → Scheme → Prop
  | mono {ls : List Lexeme} {t : Ty} : Ty.Derives (numberIn (roster [] (idents ls))) ls t →
    Derives ls (.mono t)
  | forAll {f d : String} {qs : List String} {ls : List Lexeme} {t : Ty} : qs ≠ [] →
    Ty.Derives (numberIn (roster qs.eraseDups (idents ls))) ls t →
    Derives ((.forAll, f) :: (qs.map (Prod.mk .ident) ++ (.dot, d) :: ls))
      (.forAll (qs.eraseDups.map (numberIn qs.eraseDups)) t)

namespace Reading
variable {r r' : Reading} {qs xs zs : List String} {ls : List Lexeme} {s : Scheme} {t : Ty}

theorem quantify_point (r : Reading) (x : String) :
    (r.quantify x).point = r.point ∧ (r.quantify x).frames = r.frames := by
  rw [quantify]
  split <;> exact ⟨rfl, rfl⟩

theorem bound_quantify (r : Reading) (x : String) : (r.quantify x).bound.isEmpty = false := by
  unfold quantify
  split
  · rename_i v hv
    cases hb : r.bound with
    | nil =>
      rw [hb] at hv
      cases hv
    | cons p bound => rfl
  · simp

/-- The names between `forall` and the full stop. -/
theorem run_names (N : NameTable) (qs : List String) :
    run { point := .names, names := N } (qs.map (Prod.mk .ident)) =
      some { point := .names, bound := N.quantified qs, names := N.skip qs.eraseDups.length } := by
  induction qs using List.reverseRecOn with
  | nil =>
    have hskip : N.skip ([] : List String).eraseDups.length = N := N.skip_zero
    rw [hskip]
    rfl
  | append_singleton qs x ih =>
    rw [List.map_append, run_append ih, List.map_singleton, (Step.quantify rfl).run, quantify]
    simp only [NameTable.lookup_quantified]
    by_cases hx : x ∈ qs
    · rw [if_pos hx, NameTable.quantified_concat_of_mem hx, eraseDups_concat, if_pos hx]
      rfl
    · rw [if_neg hx, NameTable.quantified_concat_of_not_mem hx, eraseDups_concat, if_neg hx,
        List.length_append, List.length_singleton, ← NameTable.advance_skip]
      rfl

/-- What the type is read with, if the names `qs` are quantified in front of it. -/
def quantifying (N : NameTable) (qs : List String) : Reading where
  point := .start
  bound := N.quantified qs
  names := N.skip qs.eraseDups.length

/-- What is in front of the type. The full stop is accepted only after a name. -/
theorem run_head (N : NameTable) (f d : String) (hqs : qs ≠ []) (ls : List Lexeme) :
    run { names := N } ((.forAll, f) :: (qs.map (Prod.mk .ident) ++ (.dot, d) :: ls)) =
      (quantifying N qs).run ls := by
  have hforAll : Step { names := N } (.forAll, f) { point := .names, names := N } := .forAll rfl
  have hbound : (N.quantified qs).isEmpty = false := by
    obtain ⟨x, hx⟩ := List.exists_mem_of_ne_nil qs hqs
    have hne := List.ne_nil_of_mem (List.mem_eraseDups.2 hx)
    rw [NameTable.quantified, List.isEmpty_map]
    simpa using hne
  rw [hforAll.run, run_append (run_names N qs), (Step.dot rfl hbound).run]
  rfl

theorem complete?_eq {u : Ty} (hu : operand? r.point = some u) (hset : settle r.frames u = ([], t)) :
    r.complete? = some (.forAll (r.bound.map Prod.snd) t) := by
  simp only [complete?, hu, Option.bind_eq_bind, Option.bind_some, hset]

theorem complete?_of_settle {u : Ty} (hn : Numbered qs xs r.bound r.names)
    (hu : operand? r.point = some u) (hset : settle r.frames u = ([], t)) :
    r.complete? = some (.forAll (qs.map (numberIn qs)) t) := by
  have hbound : r.bound.map Prod.snd = qs.map (numberIn qs) := by rw [hn.bound_eq, List.map_map]; rfl
  rw [complete?_eq hu hset, hbound]

end Reading

/-! ### Parsing tokens -/

theorem parseFrom_eq {r : Reading} {tokens : List Token} {eof : Token} {s : Scheme}
    {N : NameTable} : parseFrom r tokens eof = (.ok s, N) ↔
      ∃ r', r.run (tokens.map Token.lexeme) = some r' ∧ r'.complete? = some s ∧ r'.names = N := by
  induction tokens generalizing r with
  | nil =>
    rw [parseFrom, List.map_nil, Reading.run, Token.runWith]
    cases h : r.complete? with
    | none => simp [h]
    | some s' => simp [h]
  | cons t ts ih =>
    rw [parseFrom, List.map_cons, Token.lexeme, Reading.run, Token.runWith]
    cases r.advance? t.kind t.text with
    | none => simp
    | some r' => exact ih

theorem parseFrom_eq_driveWith (r : Reading) (tokens : List Token) (eof : Token) :
    (parseFrom r tokens eof).1 =
      Token.driveWith Reading.advance? Reading.complete? Reading.refuse r tokens eof := by
  induction tokens generalizing r with
  | nil =>
    rw [parseFrom, Token.driveWith]
    cases r.complete? <;> rfl
  | cons t ts ih =>
    rw [parseFrom, Token.driveWith]
    cases r.advance? t.kind t.text with
    | none => rfl
    | some r' => exact ih r'

theorem parseFrom_eq_ok {r : Reading} {tokens : List Token} {eof : Token} {s : Scheme} :
    (parseFrom r tokens eof).1 = .ok s ↔
      ∃ r', r.run (tokens.map Token.lexeme) = some r' ∧ r'.complete? = some s := by
  rw [parseFrom_eq_driveWith]
  exact Token.driveWith_eq_ok

theorem Derives.run {ls : List Lexeme} {s : Scheme} (h : Derives ls s) :
    ∃ r', Reading.run { names := {} } ls = some r' ∧ r'.complete? = some s := by
  cases h with
  | mono h =>
    obtain ⟨r', u, hgo, hu, hset⟩ :=
      h.goes (r := { names := {} }) (.inl rfl) (Numbered.nil.fits _)
    exact ⟨r', hgo.run, Reading.complete?_of_settle (hgo.numbered Numbered.nil) hu hset⟩
  | @forAll f d qs ls t hqs h =>
    have hn := Numbered.of_quantified qs
    obtain ⟨r', u, hgo, hu, hset⟩ := h.goes (r := .quantifying {} qs) (.inr rfl) (hn.fits _)
    refine ⟨r', ?_, Reading.complete?_of_settle (hgo.numbered hn) hu hset⟩
    rw [Reading.run_head {} f d hqs, hgo.run]

/-- A source is parsed as what its lexemes derive. -/
theorem parse_of_derives {src : Source} {ls : List Lexeme} {s : Scheme} (hsrc : Token.Reads src ls)
    (h : Derives ls s) : parse src = .ok s := by
  obtain ⟨tokens, hscan, rfl⟩ := hsrc 0
  rw [parse, parseWith, hscan]
  exact parseFrom_eq_ok.2 h.run

/-! ### The variables of a scheme that was read -/

/-- The quantified variables are the numbers of the names `qs`, and the variables of the body those of
the names `xs` that were met after them. -/
structure NumberedBy (s : Scheme) (qs xs : List String) : Prop where
  nodup : qs.Nodup
  vars : s.vars = .ofList (qs.map (numberIn qs))
  occurrences : s.body.occurrences = xs.map (numberIn (roster qs xs))

/-- The variables in a construct. -/
def Frame.occurrences : Frame → List TyVar
  | .arrow t => t.occurrences
  | .paren => []
  | .argument _ args => Ty.occurrencesAll args

namespace Reading
variable {r r' : Reading} {fs fs' : List Frame} {qs xs : List String} {k : Token.Kind} {x : String}
  {ls : List Lexeme} {t t' : Ty}

/-- The variables from left to right, so those of the outermost construct first. -/
def occurrences (r : Reading) : List TyVar :=
  r.frames.reverse.flatMap Frame.occurrences ++ (operand? r.point).elim [] Ty.occurrences

theorem occurrences_of_operand (h : operand? r.point = some t) :
    r.occurrences = r.frames.reverse.flatMap Frame.occurrences ++ t.occurrences := by
  rw [occurrences, h, Option.elim_some]

theorem occurrences_of_opens (h : r.point.Opens) :
    r.occurrences = r.frames.reverse.flatMap Frame.occurrences := by
  obtain h | h := h <;> rw [occurrences, h] <;> exact List.append_nil _

theorem settle_occurrences (h : settle fs t = (fs', t')) :
    fs.reverse.flatMap Frame.occurrences ++ t.occurrences =
      fs'.reverse.flatMap Frame.occurrences ++ t'.occurrences := by
  fun_induction settle fs t with
  | case1 a fs t ih =>
    rw [← ih h]
    simp [Frame.occurrences, Ty.occurrences_arrow]
  | case2 fs t => cases h; rfl

theorem Step.occurrences_eq (h : Step r (k, x) r') (hk : k ≠ .ident) :
    r'.occurrences = r.occurrences := by
  cases h with
  | quantify | var | argVar => exact absurd rfl hk
  | forAll hp | dot hp hb => rw [occurrences, occurrences, hp]; rfl
  | con hp | lparen hp =>
    rw [occurrences_of_opens hp, occurrences]
    simp [operand?, Ty.occurrences, Ty.occurrencesAll, Frame.occurrences]
  | argCon hp =>
    rw [occurrences, occurrences, hp]
    simp [operand?, Ty.occurrences, Ty.occurrencesAll_eq_flatMap, Ty.const]
  | argParen hp =>
    rw [occurrences, occurrences, hp]
    simp [operand?, Ty.occurrences, Frame.occurrences]
  | arrow ht =>
    rw [occurrences_of_operand ht, occurrences]
    simp [operand?, Frame.occurrences]
  | rparen ht hset =>
    rw [occurrences_of_operand ht, settle_occurrences hset, occurrences]
    simp [operand?, Frame.occurrences]
  | argEnd ht hset =>
    rw [occurrences_of_operand ht, settle_occurrences hset, occurrences]
    simp [operand?, Ty.occurrences, Frame.occurrences, Ty.occurrencesAll_eq_flatMap]

/-- The names met have their numbers, and the variables read so far are those numbers. -/
structure Met (qs xs : List String) (r : Reading) : Prop where
  numbered : Numbered qs xs r.bound r.names
  occurrences : r.occurrences = xs.map (numberIn (roster qs xs))
  /-- No name but the quantified ones is met before the type starts. -/
  head : r.point = .scheme ∨ r.point = .names → xs = []

/-- A name that is met adds its number, and the earlier names keep theirs. -/
theorem Met.meet {N : NameTable} (h : Met qs xs r) (hres : r.resolve x = (t, N))
    (hbound : r'.bound = r.bound) (hnames : r'.names = N)
    (hocc : r'.occurrences = r.occurrences ++ t.occurrences)
    (hhead : ¬(r'.point = .scheme ∨ r'.point = .names)) : Met qs (xs ++ [x]) r' := by
  obtain ⟨N', hres', hN⟩ := h.numbered.resolve x
  obtain ⟨rfl, rfl⟩ := Prod.mk.inj (hres'.symm.trans hres)
  refine ⟨hbound ▸ hnames ▸ hN, ?_, fun hp => absurd hp hhead⟩
  have hold : ∀ y ∈ xs, numberIn (roster qs xs) y = numberIn (roster qs (xs ++ [x])) y :=
    fun y hy => numberIn_stable (roster_grows qs xs [x]) (mem_roster.2 (.inr hy))
  rw [hocc, h.occurrences, List.map_append, List.map_congr_left hold]
  rfl

theorem Met.step (h : Met qs xs r) (hstep : Step r (k, x) r') :
    ∃ qs' xs', Met qs' xs' r' ∧ qs'.length + xs'.length ≤ qs.length + xs.length + 1 := by
  by_cases hk : k = .ident
  · subst hk
    cases hstep with
    | quantify hp =>
      -- a name quantified after others were met would shift their numbers
      obtain rfl := h.head (.inr hp)
      by_cases hx : x ∈ qs
      · exact ⟨qs, [], by rwa [h.numbered.quantify_of_mem hx], by simp⟩
      · refine ⟨qs ++ [x], [], ⟨h.numbered.quantify hx, ?_, fun _ => rfl⟩, by simp⟩
        obtain ⟨hpoint, hframes⟩ := r.quantify_point x
        rw [Reading.occurrences, hpoint, hframes]
        exact h.occurrences
    | var hp hres =>
      refine ⟨qs, xs ++ [x], h.meet hres rfl rfl ?_ (by simp), by simp [Nat.add_assoc]⟩
      rw [occurrences_of_opens hp, Reading.occurrences]
      rfl
    | argVar hp hres =>
      refine ⟨qs, xs ++ [x], h.meet hres rfl rfl ?_ (by simp), by simp [Nat.add_assoc]⟩
      rw [Reading.occurrences, Reading.occurrences, hp]
      simp [operand?, Ty.occurrences, Ty.occurrencesAll_eq_flatMap]
  · obtain ⟨hbound, hnames⟩ := hstep.names_eq hk
    refine ⟨qs, xs, ⟨hbound ▸ hnames ▸ h.numbered, (hstep.occurrences_eq hk).trans h.occurrences, ?_⟩,
      Nat.le_succ _⟩
    cases hstep with
    | forAll hp => exact fun _ => h.head (.inl hp)
    | _ => simp at hk ⊢

theorem Met.run (h : Met qs xs r) (hrun : r.run ls = some r') :
    ∃ qs' xs', Met qs' xs' r' ∧ qs'.length + xs'.length ≤ qs.length + xs.length + ls.length := by
  induction ls generalizing r qs xs with
  | nil =>
    cases hrun
    exact ⟨qs, xs, h, Nat.le_refl _⟩
  | cons l ls ih =>
    obtain ⟨r₁, hstep, hrun⟩ := Option.bind_eq_some_iff.1 hrun
    obtain ⟨qs₁, xs₁, h₁, hlen₁⟩ := h.step (step_of_advance? hstep)
    obtain ⟨qs', xs', h', hlen'⟩ := ih h₁ hrun
    exact ⟨qs', xs', h', by rw [List.length_cons]; omega⟩

theorem Met.complete {s : Scheme} (h : Met qs xs r) (hr : r.complete? = some s) :
    s.NumberedBy qs xs := by
  obtain ⟨t, ht, hs⟩ := Option.bind_eq_some_iff.1 hr
  split at hs
  · rename_i u hset
    have hu := complete?_of_settle h.numbered ht hset
    obtain rfl := Option.some.inj (hu.symm.trans hr)
    refine ⟨h.numbered.nodup, rfl, ?_⟩
    rw [← h.occurrences, occurrences_of_operand ht, settle_occurrences hset]
    rfl
  · cases hs

end Reading

/-- The variables of a scheme that was read are the numbers of the names in it, and there are no more
names than characters. -/
theorem numbered_of_parse {src : Source} {s : Scheme} (h : parse src = .ok s) :
    ∃ qs xs, s.NumberedBy qs xs ∧ qs.length + xs.length ≤ src.length := by
  unfold parse parseWith at h
  split at h
  · cases h
  · rename_i tokens hscan
    obtain ⟨r, hrun, hr⟩ := parseFrom_eq_ok.1 h
    have hmet : Reading.Met [] [] { names := {} } := ⟨Numbered.nil, rfl, fun _ => rfl⟩
    obtain ⟨qs, xs, hmet, hlen⟩ := hmet.run hrun
    have htokens : tokens.length ≤ src.length := by
      have := Token.length_scan_le 0 src
      rwa [hscan] at this
    rw [List.length_map, List.length_nil, Nat.zero_add] at hlen
    exact ⟨qs, xs, hmet.complete hr, by omega⟩

end Scheme

end LetPoly
