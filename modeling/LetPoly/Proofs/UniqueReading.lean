import LetPoly.Proofs.SchemeRoundTrip

/-!
# Written forms are unambiguous

Two schemes have the same written form if and only if they are equivalent
(`Scheme.text_eq_iff_equivalent`). Unlike the round trip through the parser this holds with free
variables of any number, whose names need not be identifiers (`t-1`).

A written type is taken apart from the left. What may follow it depends on the place where it stands,
and tells where it ends (`Place.Follows`); parentheses bring every other place back to that of a whole
type. So equal texts come from the same tree, with equal names at its leaves
(`Ty.spelled_of_textWith_eq`).
-/

namespace LetPoly

/-! ### Words -/

/-- Whether a character can be part of a word. -/
def inWord (c : Char) : Bool := c ∉ [' ', '(', ')', '.']

/-- No word goes on with these characters. -/
def WordEnds (r : List Char) : Prop := ∀ c ∈ r.head?, inWord c = false

/-- A word that starts with an upper-case letter, or with something else but the hyphen. -/
def IsAtom (upper : Bool) (w : String) : Prop :=
  ∃ c cs, w.toList = c :: cs ∧ Text.isUpper c = upper ∧ c ≠ '-' ∧ ∀ d ∈ c :: cs, inWord d = true

section Words
variable {w w' : String} {r r' : List Char} {a b : Bool}

theorem wordEnds_cons {c : Char} (h : inWord c = false) : WordEnds (c :: r) := by
  intro d hd
  obtain rfl := Option.some.inj hd
  exact h

theorem IsAtom.split (hw : IsAtom a w) (hw' : IsAtom b w') (hr : WordEnds r) (hr' : WordEnds r')
    (h : w.toList ++ r = w'.toList ++ r') : a = b ∧ w = w' ∧ r = r' := by
  obtain ⟨c, cs, hlist, rfl, -, hcs⟩ := hw
  obtain ⟨c', cs', hlist', rfl, -, hcs'⟩ := hw'
  rw [← hlist] at hcs
  rw [← hlist'] at hcs'
  have hword : w.toList = w'.toList := by
    rw [← takeWhile_append_stop hcs hr, h, takeWhile_append_stop hcs' hr']
  rw [hword] at h
  refine ⟨?_, String.toList_inj.1 hword, List.append_cancel_left h⟩
  rw [hlist, hlist'] at hword
  rw [(List.cons.inj hword).1]

theorem IsAtom.ne_paren (hw : IsAtom a w) : '(' :: r' ≠ w.toList ++ r := by
  obtain ⟨c, cs, hlist, -, -, hcs⟩ := hw
  intro h
  rw [hlist] at h
  have hparen := hcs c List.mem_cons_self
  rw [← (List.cons.inj h).1] at hparen
  exact absurd hparen (by decide)

theorem IsAtom.ne_hyphen (hw : IsAtom a w) : '-' :: r' ≠ w.toList ++ r := by
  obtain ⟨c, cs, hlist, -, hc, -⟩ := hw
  intro h
  rw [hlist] at h
  exact hc (List.cons.inj h).1.symm

theorem inWord_of_continuesWord {c : Char} (h : Token.continuesWord c = true) : inWord c = true := by
  have hstop : [' ', '(', ')', '.'].all (fun d => !Token.continuesWord d) = true := by decide
  refine decide_eq_true fun hc => ?_
  have hc := List.all_eq_true.1 hstop c hc
  rw [h] at hc
  cases hc

theorem isAtom_capIdent (h : Token.IsOne .capIdent w) : IsAtom true w := by
  obtain ⟨⟨c, cs, hlist, -, -, hc, hcs⟩, hkind⟩ := (Token.isOne_iff rfl).1 h
  have hupper : Text.isUpper c = true := by
    simp only [Token.kindOf, hlist, Token.wordKind] at hkind
    split at hkind
    · rename_i k hres
      subst hkind
      unfold Token.reserved? at hres
      split at hres <;> cases hres
    · by_contra hupper
      simp [hupper] at hkind
  refine ⟨c, cs, hlist, hupper, ?_, fun d hd => inWord_of_continuesWord ?_⟩
  · rintro rfl
    exact absurd hupper (by decide)
  · rcases List.mem_cons.1 hd with rfl | hd
    · simp [Token.continuesWord, hc]
    · exact List.all_eq_true.1 hcs d hd

theorem inWord_of_isDigit {c : Char} (h : c.isDigit = true) : inWord c = true :=
  inWord_of_continuesWord (Token.continuesWord_of_isDigit h)

theorem inWord_of_mem_toDigits {n : Nat} {c : Char} (h : c ∈ Nat.toDigits 10 n) : inWord c = true :=
  inWord_of_isDigit (Nat.isDigit_of_mem_toDigits (by decide) (by decide) h)

/-- A lower-case letter with signs and digits after it is a word. -/
theorem isAtom_of_letter {c : Char} {cs : List Char} (hc : c ∈ TyVar.letters) (hw : w.toList = c :: cs)
    (hcs : ∀ d ∈ cs, inWord d = true) : IsAtom false w := by
  have hall : TyVar.letters.all (fun d => !Text.isUpper d && d != '-' && inWord d) = true := by decide
  have hletter := List.all_eq_true.1 hall c hc
  simp only [Bool.and_eq_true, Bool.not_eq_true', bne_iff_ne] at hletter
  obtain ⟨⟨hupper, hne⟩, hin⟩ := hletter
  exact ⟨c, cs, hw, hupper, hne, List.forall_mem_cons.2 ⟨hin, hcs⟩⟩

theorem isAtom_name (i : Nat) : IsAtom false (TyVar.name i) := by
  rcases Nat.lt_or_ge i 26 with hi | hi
  · have hmem : ∀ i < 26, TyVar.letters.getD i 'a' ∈ TyVar.letters := by decide
    exact isAtom_of_letter (hmem i hi) (TyVar.toList_name_of_lt hi) nofun
  · exact isAtom_of_letter (TyVar.counted_mem _).1 (TyVar.toList_name_of_le hi)
      fun d hd => inWord_of_mem_toDigits hd

theorem isAtom_text (v : TyVar) : IsAtom false v.text := by
  rcases Int64.lt_or_le v 0 with hv | hv
  · refine isAtom_of_letter (by decide) (TyVar.toList_text_of_neg hv) (List.forall_mem_cons.2 ?_)
    exact ⟨by decide, fun d hd => inWord_of_mem_toDigits hd⟩
  · exact isAtom_of_letter (by decide) (TyVar.toList_text hv) fun d hd => inWord_of_mem_toDigits hd

theorem isAtom_nameIn (l : List TyVar) (v : TyVar) : IsAtom false (Scheme.nameIn l v) := by
  by_cases hv : v ∈ l
  · rw [Scheme.nameIn_of_mem hv]
    exact isAtom_name _
  · rw [Scheme.nameIn_of_not_mem hv]
    exact isAtom_text v

end Words

/-! ### Places -/

/-- Where a type stands in a written type. -/
inductive Place where
  /-- On its own, between parentheses, or on the right of an arrow. -/
  | whole
  /-- On the left of an arrow, or where there is no arrow. -/
  | operand
  /-- After a constructor. -/
  | argument
deriving DecidableEq

namespace Place
variable {p : Place} {r : List Char}

/-- Whether a type that is not an atom is put in parentheses. -/
def parens : Place → Ty → Bool
  | whole, _ => false
  | operand, t => t.isArrow
  | argument, t => t.arity?.any (0 < ·)

/-- What can stand after a type: an arrow only after an operand, and a blank before something else only
after an argument. -/
def Follows : Place → List Char → Prop
  | whole, r => r = [] ∨ ∃ r', r = ')' :: r'
  | operand, r => (r = [] ∨ ∃ r', r = ')' :: r') ∨ ∃ r', r = ' ' :: '-' :: r'
  | argument, r => (r = [] ∨ ∃ r', r = ')' :: r') ∨ ∃ r', r = ' ' :: r'

theorem follows_of_whole (h : whole.Follows r) : p.Follows r := by
  cases p with
  | whole => exact h
  | operand => exact .inl h
  | argument => exact .inl h

theorem argument_of_follows (h : p.Follows r) : argument.Follows r := by
  cases p with
  | whole => exact .inl h
  | operand => exact h.imp_right fun ⟨r', h⟩ => ⟨_, h⟩
  | argument => exact h

theorem operand_of_follows (h : p.Follows r) (hp : p ≠ argument) : operand.Follows r := by
  cases p with
  | whole => exact .inl h
  | operand => exact h
  | argument => exact absurd rfl hp

theorem Follows.wordEnds (h : p.Follows r) : WordEnds r := by
  rcases argument_of_follows h with (rfl | ⟨r, rfl⟩) | ⟨r, rfl⟩
  · nofun
  · exact wordEnds_cons (by decide)
  · exact wordEnds_cons (by decide)

end Place

namespace Ty
variable {name name' : TyVar → String} {p : Place} {t u a b : Ty} {ts us args : List Ty}
  {r r' : List Char} {con : String}

/-- The characters of a type that stands at a place. -/
def charsAt (name : TyVar → String) (p : Place) (t : Ty) : List Char :=
  (t.textWith name (p.parens t)).toList

/-- The characters of the arguments of a constructor. -/
def argChars (name : TyVar → String) : List Ty → List Char
  | [] => []
  | t :: ts => ' ' :: (t.charsAt name .argument ++ argChars name ts)

theorem toList_argsText (name : TyVar → String) (ts : List Ty) :
    (argsText name ts).toList = argChars name ts := by
  induction ts with
  | nil => rfl
  | cons t ts ih =>
    rw [argsText, argChars, String.toList_append, String.toList_append, ih]
    rfl

theorem follows_argChars (name : TyVar → String) (h : p.Follows r) (ts : List Ty) :
    Place.argument.Follows (argChars name ts ++ r) := by
  cases ts with
  | nil => exact Place.argument_of_follows h
  | cons t ts => exact .inr ⟨_, rfl⟩

theorem charsAt_arrow (name : TyVar → String) (a b : Ty) : (arrow a b).charsAt name .whole =
    a.charsAt name .operand ++ ' ' :: '-' :: '>' :: ' ' :: b.charsAt name .whole := by
  simp [charsAt, Place.parens, textWith_arrow, enclose]

theorem charsAt_app (hcon : con ≠ arrowName) (hp : p = .argument → args = []) :
    (app con args).charsAt name p = con.toList ++ argChars name args := by
  have hparens : args = [] ∨ p.parens (app con args) = false := by
    cases p with
    | whole => exact .inr rfl
    | operand => exact .inr (isArrow_app hcon args)
    | argument => exact .inl (hp rfl)
  rw [charsAt, textWith_app hcon, ← toList_argsText]
  rcases hparens with rfl | hparens
  · simp [argsText]
  · cases args <;> simp [hparens, enclose, argsText]

/-- What a type looks like at a place where it cannot be a bare arrow. -/
inductive Shape (name : TyVar → String) (p : Place) : Ty → Prop
  | var (v : TyVar) : Shape name p (.var v)
  | app {con : String} {args : List Ty} : Token.IsOne .capIdent con → (∀ t ∈ args, t.Writable) →
    (p = .argument → args = []) → Shape name p (.app con args)
  | enclosed {t : Ty} : t.charsAt name p = '(' :: (t.charsAt name .whole ++ [')']) → Shape name p t

theorem Writable.shape (name : TyVar → String) (h : t.Writable) (hp : p ≠ .whole) : Shape name p t := by
  cases h with
  | var v => exact .var v
  | @arrow a b =>
    have hparens : p.parens (.arrow a b) = true := by
      cases p with
      | whole => exact absurd rfl hp
      | operand => rfl
      | argument => rfl
    refine .enclosed ?_
    rw [charsAt, hparens, textWith_arrow, charsAt_arrow]
    simp [enclose, charsAt, Place.parens]
  | @app con args hcon hargs =>
    by_cases h : p = .argument → args = []
    · exact .app hcon hargs h
    · obtain ⟨rfl, hne⟩ := Classical.not_imp.1 h
      refine .enclosed ?_
      cases args with
      | nil => exact absurd rfl hne
      | cons t ts => simp [charsAt, Place.parens, textWith_app (ne_arrowName hcon), arity?, enclose]

/-! ### Taking texts apart -/

/-- The types have the same tree, and variables at the same place have the same name. -/
abbrev Spelled (name name' : TyVar → String) : Ty → Ty → Prop :=
  Corresponds fun v w => name v = name' w

/-- Where `t` stands at the place `p`, no type with the same text is spelled differently or ends
somewhere else. -/
def Unambiguous (name name' : TyVar → String) (p : Place) (t : Ty) : Prop :=
  ∀ u r r', u.Writable → p.Follows r → p.Follows r' →
    t.charsAt name p ++ r = u.charsAt name' p ++ r' → Spelled name name' t u ∧ r = r'

theorem Unambiguous.enclosed (hname' : ∀ v, IsAtom false (name' v))
    (h : Unambiguous name name' .whole t) (hp : p ≠ .whole)
    (ht : t.charsAt name p = '(' :: (t.charsAt name .whole ++ [')'])) :
    Unambiguous name name' p t := by
  intro u r r' hu hr hr' he
  rw [ht, List.cons_append] at he
  cases hu.shape name' hp with
  | var w => exact absurd he (hname' w).ne_paren
  | @app con args hcon hargs hnil =>
    rw [charsAt_app (ne_arrowName hcon) hnil, List.append_assoc con.toList] at he
    exact absurd he (isAtom_capIdent hcon).ne_paren
  | enclosed hparen =>
    rw [hparen] at he
    simp only [List.cons_append, List.append_assoc, List.cons.injEq, true_and, List.nil_append] at he
    obtain ⟨htu, hrest⟩ := h u _ _ hu (.inr ⟨r, rfl⟩) (.inr ⟨r', rfl⟩) he
    exact ⟨htu, (List.cons.inj hrest).2⟩

theorem unambiguous_var (hname : ∀ v, IsAtom false (name v)) (hname' : ∀ v, IsAtom false (name' v))
    (hp : p ≠ .whole) (v : TyVar) : Unambiguous name name' p (.var v) := by
  intro u r r' hu hr hr' he
  change (name v).toList ++ r = _ at he
  cases hu.shape name' hp with
  | var w =>
    obtain ⟨-, hvw, hrest⟩ := (hname v).split (hname' w) hr.wordEnds hr'.wordEnds he
    exact ⟨.var hvw, hrest⟩
  | @app con args hcon hargs hnil =>
    rw [charsAt_app (ne_arrowName hcon) hnil, List.append_assoc] at he
    obtain ⟨hupper, -⟩ :=
      (hname v).split (isAtom_capIdent hcon) hr.wordEnds (follows_argChars name' hr' args).wordEnds he
    cases hupper
  | enclosed hparen =>
    rw [hparen] at he
    exact absurd he.symm (hname v).ne_paren

/-- A written type starts with a parenthesis, a constructor or a variable. -/
theorem Writable.ne_cons {c : Char} (hname : ∀ v r r', c :: r ≠ (name v).toList ++ r')
    (hparen : c ≠ '(') (hupper : Text.isUpper c = false) (hp : p ≠ .whole) (ht : t.Writable) :
    c :: r ≠ t.charsAt name p ++ r' := by
  intro he
  cases ht.shape name hp with
  | var v => exact hname v r r' he
  | app hcon hargs hnil =>
    obtain ⟨d, ds, hlist, hd, -⟩ := isAtom_capIdent hcon
    rw [charsAt_app (ne_arrowName hcon) hnil, hlist] at he
    rw [(List.cons.inj he).1, hd] at hupper
    cases hupper
  | enclosed henclosed =>
    rw [henclosed] at he
    exact hparen (List.cons.inj he).1

/-- What follows an operand does not read as one more argument. -/
theorem ne_argChars (hname : ∀ v, IsAtom false (name v)) (ht : t.Writable)
    (hr : Place.operand.Follows r) : r ≠ argChars name (t :: ts) ++ r' := by
  rintro rfl
  rw [argChars, List.cons_append, List.append_assoc] at hr
  rcases hr with (h | ⟨s, h⟩) | ⟨s, h⟩
  · cases h
  · exact absurd (List.cons.inj h).1 (by decide)
  · refine ht.ne_cons (fun v _ _ => (hname v).ne_hyphen) ?_ ?_ ?_ (List.cons.inj h).2.symm <;> decide

theorem argChars_inj (hname : ∀ v, IsAtom false (name v)) (hname' : ∀ v, IsAtom false (name' v))
    (hts : ∀ t ∈ ts, t.Writable ∧ Unambiguous name name' .argument t) (hus : ∀ u ∈ us, u.Writable)
    (hr : Place.operand.Follows r) (hr' : Place.operand.Follows r')
    (he : argChars name ts ++ r = argChars name' us ++ r') :
    List.Forall₂ (Spelled name name') ts us ∧ r = r' := by
  induction ts generalizing us with
  | nil =>
    cases us with
    | nil => exact ⟨.nil, he⟩
    | cons u us => exact absurd he (ne_argChars hname' (hus u List.mem_cons_self) hr)
  | cons t ts ih =>
    cases us with
    | nil => exact absurd he.symm (ne_argChars hname (hts t List.mem_cons_self).1 hr')
    | cons u us =>
      simp only [argChars, List.cons_append, List.append_assoc, List.cons.injEq, true_and] at he
      obtain ⟨htu, hrest⟩ := (hts t List.mem_cons_self).2 u _ _ (hus u List.mem_cons_self)
        (follows_argChars name hr ts) (follows_argChars name' hr' us) he
      obtain ⟨htus, hr⟩ := ih (fun t ht => hts t (List.mem_cons_of_mem _ ht))
        (fun u hu => hus u (List.mem_cons_of_mem _ hu)) hrest
      exact ⟨.cons htu htus, hr⟩

theorem unambiguous_app (hname : ∀ v, IsAtom false (name v)) (hname' : ∀ v, IsAtom false (name' v))
    (hp : p ≠ .whole) (hcon : Token.IsOne .capIdent con) (hnil : p = .argument → args = [])
    (hargs : ∀ t ∈ args, t.Writable ∧ Unambiguous name name' .argument t) :
    Unambiguous name name' p (.app con args) := by
  intro u r r' hu hr hr' he
  rw [charsAt_app (ne_arrowName hcon) hnil, List.append_assoc] at he
  have hends := (follows_argChars name hr args).wordEnds
  cases hu.shape name' hp with
  | var w =>
    obtain ⟨hupper, -⟩ := (isAtom_capIdent hcon).split (hname' w) hends hr'.wordEnds he
    cases hupper
  | enclosed hparen =>
    rw [hparen] at he
    exact absurd he.symm (isAtom_capIdent hcon).ne_paren
  | @app con' args' hcon' hargs' hnil' =>
    rw [charsAt_app (ne_arrowName hcon') hnil', List.append_assoc] at he
    obtain ⟨-, rfl, hrest⟩ := (isAtom_capIdent hcon).split (isAtom_capIdent hcon') hends
      (follows_argChars name' hr' args').wordEnds he
    by_cases harg : p = .argument
    · obtain rfl := hnil harg
      obtain rfl := hnil' harg
      exact ⟨.app .nil, hrest⟩
    · obtain ⟨hspelled, hrest⟩ := argChars_inj hname hname' hargs hargs'
        (Place.operand_of_follows hr harg) (Place.operand_of_follows hr' harg) hrest
      exact ⟨.app hspelled, hrest⟩

theorem charsAt_app_whole (hcon : con ≠ arrowName) (args : List Ty) :
    (app con args).charsAt name .whole = (app con args).charsAt name .operand := by
  rw [charsAt_app (p := .whole) hcon nofun, charsAt_app (p := .operand) hcon nofun]

theorem not_follows_whole_arrow : ¬ Place.whole.Follows (' ' :: r) := by
  rintro (h | ⟨s, h⟩)
  · cases h
  · exact absurd (List.cons.inj h).1 (by decide)

/-- At the place of a whole type there is an operand, and perhaps an arrow after it. -/
theorem Writable.whole_cases (name : TyVar → String) (h : t.Writable) :
    t.charsAt name .whole = t.charsAt name .operand ∨ ∃ a b, t = Ty.arrow a b ∧ a.Writable ∧ b.Writable := by
  cases h with
  | var v => exact .inl rfl
  | arrow ha hb => exact .inr ⟨_, _, rfl, ha, hb⟩
  | app hcon hargs => exact .inl (charsAt_app_whole (ne_arrowName hcon) _)

theorem Unambiguous.whole (h : Unambiguous name name' .operand t)
    (ht : t.charsAt name .whole = t.charsAt name .operand) : Unambiguous name name' .whole t := by
  intro u r r' hu hr hr' he
  rw [ht] at he
  rcases hu.whole_cases name' with hsame | ⟨a, b, rfl, ha, hb⟩
  · rw [hsame] at he
    exact h u r r' hu (Place.follows_of_whole hr) (Place.follows_of_whole hr') he
  · rw [charsAt_arrow, List.append_assoc] at he
    obtain ⟨-, rfl⟩ := h a r _ ha (Place.follows_of_whole hr) (.inr ⟨_, rfl⟩) he
    exact absurd hr not_follows_whole_arrow

theorem Unambiguous.arrow (ha : Unambiguous name name' .operand a)
    (hb : Unambiguous name name' .whole b) : Unambiguous name name' .whole (.arrow a b) := by
  intro u r r' hu hr hr' he
  simp only [charsAt_arrow, List.append_assoc, List.cons_append] at he
  rcases hu.whole_cases name' with hsame | ⟨a', b', rfl, ha', hb'⟩
  · rw [hsame] at he
    obtain ⟨-, rfl⟩ := ha u _ r' hu (.inr ⟨_, rfl⟩) (Place.follows_of_whole hr') he
    exact absurd hr' not_follows_whole_arrow
  · simp only [charsAt_arrow, List.append_assoc, List.cons_append] at he
    obtain ⟨haa', hrest⟩ := ha a' _ _ ha' (.inr ⟨_, rfl⟩) (.inr ⟨_, rfl⟩) he
    simp only [List.cons.injEq, true_and] at hrest
    obtain ⟨hbb', hrest⟩ := hb b' r r' hb' hr hr' hrest
    exact ⟨.arrow haa' hbb', hrest⟩

theorem Writable.unambiguous (hname : ∀ v, IsAtom false (name v)) (hname' : ∀ v, IsAtom false (name' v))
    (h : t.Writable) : ∀ p, Unambiguous name name' p t := by
  induction h with
  | var v =>
    intro p
    by_cases hp : p = .whole
    · exact hp ▸ (unambiguous_var hname hname' (by decide) v).whole rfl
    · exact unambiguous_var hname hname' hp v
  | @arrow a b ha hb iha ihb =>
    have hwhole := (iha .operand).arrow (ihb .whole)
    intro p
    by_cases hp : p = .whole
    · exact hp ▸ hwhole
    · cases (ha.arrow hb).shape name hp with
      | app hcon => exact absurd rfl (ne_arrowName hcon)
      | enclosed hparen => exact hwhole.enclosed hname' hp hparen
  | @app con args hcon hargs ih =>
    have hargs' : ∀ t ∈ args, t.Writable ∧ Unambiguous name name' .argument t :=
      fun t ht => ⟨hargs t ht, ih t ht .argument⟩
    have hwhole : Unambiguous name name' .whole (.app con args) :=
      (unambiguous_app (p := .operand) hname hname' nofun hcon nofun hargs').whole
        (charsAt_app_whole (ne_arrowName hcon) args)
    intro p
    by_cases hp : p = .whole
    · exact hp ▸ hwhole
    · cases (Writable.app hcon hargs).shape name hp with
      | app _ _ hnil => exact unambiguous_app hname hname' hp hcon hnil hargs'
      | enclosed hparen => exact hwhole.enclosed hname' hp hparen

/-- Equal texts come from the same tree, with equal names at its leaves. -/
theorem spelled_of_textWith_eq (hname : ∀ v, IsAtom false (name v))
    (hname' : ∀ v, IsAtom false (name' v)) (ht : t.Writable) (hu : u.Writable)
    (h : t.textWith name false = u.textWith name' false) : Spelled name name' t u := by
  have hchars : t.charsAt name .whole ++ [] = u.charsAt name' .whole ++ [] :=
    congrArg (String.toList · ++ []) h
  exact (ht.unambiguous hname hname' .whole u [] [] hu (.inl rfl) (.inl rfl) hchars).1

/-- A type whose variables are written by their numbers does not look like a quantifier. -/
theorem Writable.ne_forall (ht : t.Writable) : 'f' :: r ≠ (t.textWith TyVar.text false).toList := by
  have hname : ∀ (v : TyVar) r r', 'f' :: r ≠ v.text.toList ++ r' := by
    intro v r r' h
    rw [TyVar.text, String.toList_append] at h
    exact absurd (List.cons.inj h).1 (by decide)
  have hoperand : ∀ {t : Ty} {r'}, t.Writable → 'f' :: r ≠ t.charsAt TyVar.text .operand ++ r' :=
    fun ht => ht.ne_cons hname (by decide) (by decide) (by decide)
  intro he
  change _ = t.charsAt TyVar.text .whole at he
  rcases ht.whole_cases TyVar.text with hsame | ⟨a, b, rfl, ha, -⟩
  · rw [hsame, ← List.append_nil (charsAt ..)] at he
    exact hoperand ht he
  · rw [charsAt_arrow] at he
    exact hoperand ha he

end Ty

namespace Scheme
variable {a b : Scheme} {s s' : String} {m n : Nat}

/-! ### Quantifiers -/

theorem toList_namesText (n : Nat) :
    (namesText n).toList = (List.range n).flatMap fun i => ' ' :: (TyVar.name i).toList := by
  rw [namesText, String.toList_join, List.flatMap_map]
  refine List.flatMap_congr fun i _ => ?_
  rw [String.toList_append]
  rfl

/-- There are as many blanks as names. -/
theorem count_namesText (n : Nat) : (namesText n).toList.count ' ' = n := by
  have hone : ∀ i, (' ' :: (TyVar.name i).toList).count ' ' = 1 := by
    intro i
    obtain ⟨c, cs, hlist, -, -, hcs⟩ := isAtom_name i
    have hnone : ' ' ∉ c :: cs := fun h => absurd (hcs _ h) (by decide)
    rw [hlist, List.count_cons_self, List.count_eq_zero.2 hnone]
  rw [toList_namesText, List.count_flatMap]
  simp [Function.comp_def, hone]

theorem dot_notMem_namesText (n : Nat) : '.' ∉ (namesText n).toList := by
  rw [toList_namesText, List.mem_flatMap]
  rintro ⟨i, -, h⟩
  obtain ⟨c, cs, hlist, -, -, hcs⟩ := isAtom_name i
  rcases List.mem_cons.1 h with h | h
  · exact absurd h (by decide)
  · rw [hlist] at h
    exact absurd (hcs _ h) (by decide)

theorem toList_headText (hn : n ≠ 0) :
    (headText n ++ s).toList = 'f' :: ("orall".toList ++ ((namesText n).toList ++ '.' :: ' ' :: s.toList)) := by
  rw [headText, if_neg hn]
  simp

theorem headText_inj (hm : m ≠ 0) (hn : n ≠ 0) (h : headText m ++ s = headText n ++ s') :
    m = n ∧ s = s' := by
  have hlist := congrArg String.toList h
  rw [toList_headText hm, toList_headText hn] at hlist
  have hlist := List.append_cancel_left (List.cons.inj hlist).2
  have hstop : ∀ n, ∀ c ∈ (namesText n).toList, (c != '.') = true := by
    intro n c hc
    have hne : c ≠ '.' := fun he => dot_notMem_namesText n (he ▸ hc)
    simpa using hne
  have hnames : (namesText m).toList = (namesText n).toList := by
    rw [← takeWhile_append_stop (r := '.' :: ' ' :: s.toList) (hstop m) (by simp), hlist,
      takeWhile_append_stop (hstop n) (by simp)]
  refine ⟨by rw [← count_namesText m, hnames, count_namesText], ?_⟩
  rw [hnames] at hlist
  have hlist := List.append_cancel_left hlist
  simp only [List.cons.injEq, true_and] at hlist
  exact String.toList_inj.1 hlist

theorem size_eq_zero_of_text_eq (ha : a.body.Writable) (h : a.text = b.text)
    (hsize : a.vars.size = 0) : b.vars.size = 0 := by
  by_contra hne
  have horder : a.order = [] := List.length_eq_zero_iff.1 (a.length_order.trans hsize)
  have hlist := congrArg String.toList h
  rw [text_eq a, text_eq b, toList_headText hne, hsize, headText, if_pos rfl, horder,
    String.empty_append] at hlist
  exact ha.ne_forall hlist.symm

theorem textWith_eq_of_text_eq (ha : a.body.Writable) (hb : b.body.Writable) (h : a.text = b.text) :
    a.vars.size = b.vars.size ∧
      a.body.textWith (nameIn a.order) false = b.body.textWith (nameIn b.order) false := by
  by_cases hsize : a.vars.size = 0
  · have hsize' := size_eq_zero_of_text_eq ha h hsize
    rw [text_eq, text_eq, hsize, hsize'] at h
    exact ⟨hsize.trans hsize'.symm, by simpa [headText] using h⟩
  · have hsize' : b.vars.size ≠ 0 := fun h' => hsize (size_eq_zero_of_text_eq hb h.symm h')
    rw [text_eq, text_eq] at h
    exact headText_inj hsize hsize' h

theorem corresponds_of_text_eq (ha : a.body.Writable) (hb : b.body.Writable) (h : a.text = b.text) :
    a.vars.size = b.vars.size ∧ a.Corresponds Eq b := by
  obtain ⟨hsize, htext⟩ := textWith_eq_of_text_eq ha hb h
  have hspelled := Ty.spelled_of_textWith_eq (isAtom_nameIn _) (isAtom_nameIn _) ha hb htext
  -- quantified variables belong together if they are named by the same place
  refine ⟨hsize, fun v w => v ∈ a.order ∧ w ∈ b.order ∧ a.order.idxOf v = b.order.idxOf w,
    ⟨?_, ?_⟩, hspelled.imp fun v _ w _ hvw => ?_⟩
  · rintro v v' w ⟨hv, -, h⟩ ⟨-, -, h'⟩
    exact (List.idxOf_inj hv).1 (h.trans h'.symm)
  · rintro v w w' ⟨-, hw, h⟩ ⟨-, -, h'⟩
    exact (List.idxOf_inj hw).1 (h.symm.trans h')
  · rcases nameIn_eq_iff.1 hvw with ⟨hv, hw, h⟩ | ⟨hv, hw, h⟩
    · exact .inl ⟨mem_order.1 hv, mem_order.1 hw, hv, hw, h⟩
    · exact .inr ⟨mt mem_order.2 hv, mt mem_order.2 hw, h⟩

theorem text_eq_of_corresponds (hsize : a.vars.size = b.vars.size) (h : a.Corresponds Eq b) :
    a.text = b.text := by
  obtain ⟨γ, hγ, hbody⟩ := h
  have hlinked := VarSet.biUnique_linked biUnique_eq hγ a.vars b.vars
  obtain ⟨ρ, hb, hρ⟩ := hbody.exists_rename hlinked.2
  refine (text_eq_of_rename hsize.symm hb (fun v hv => ?_) (fun v hv w hw he => ?_) fun v hv => ?_).symm
  · rcases hρ v hv with ⟨hva, hvb, -⟩ | ⟨hva, hvb, -⟩
    · simp [hva, hvb]
    · simp [hva, hvb]
  · exact hlinked.1 (hρ v hv) (he ▸ hρ w hw)
  · obtain ⟨hv, hq⟩ := mem_free.1 hv
    exact ((hρ v hv).resolve_left fun h => hq h.1).2.2.symm

/-- Two schemes have the same written form if and only if a renaming of quantified variables takes
the one to the other. -/
theorem text_eq_iff_equivalent (a b : Scheme) (ha : a.body.Writable) (hb : b.body.Writable) :
    a.text = b.text ↔ a.equivalent b = true := by
  rw [equivalent_iff]
  constructor
  · exact corresponds_of_text_eq ha hb
  · rintro ⟨hsize, h⟩
    exact text_eq_of_corresponds hsize h

/-- A free variable with a negative number, and quantified ones of which one does not occur in the
body. Two schemes are written alike, and a third one, which quantifies one variable less, is not. -/
theorem text_eq_iff_equivalent_negative :
    ∃ a b c : Scheme,
      a = forAll [1, 3] (.arrow (.arrow (.var 1) (.var (-5))) (.app "List" [.var 1])) ∧
      b = forAll [0, 7] (.arrow (.arrow (.var 7) (.var (-5))) (.app "List" [.var 7])) ∧
      c = forAll [1] (.arrow (.arrow (.var 1) (.var (-5))) (.app "List" [.var 1])) ∧
      a.body.Writable ∧ b.body.Writable ∧ c.body.Writable ∧
      a.text = "forall a b. (a -> t-5) -> List a" ∧ a.equivalent b = true ∧ a.text = b.text ∧
      a.text ≠ c.text ∧ a.equivalent c = false := by
  have hList : Token.IsOne .capIdent "List" :=
    (Token.isOne_iff rfl).2
      ⟨⟨'L', ['i', 's', 't'], rfl, by decide, rfl, by decide, by decide⟩, by decide⟩
  have hbody : ∀ v : TyVar,
      (Ty.arrow (.arrow (.var v) (.var (-5))) (.app "List" [.var v])).Writable :=
    fun v => .arrow (.arrow (.var v) (.var (-5))) (.app hList fun t ht => List.mem_singleton.1 ht ▸ .var v)
  have hab : (forAll [1, 3] (.arrow (.arrow (.var 1) (.var (-5))) (.app "List" [.var 1]))).equivalent
      (forAll [0, 7] (.arrow (.arrow (.var 7) (.var (-5))) (.app "List" [.var 7]))) = true := by decide
  have hac : (forAll [1, 3] (.arrow (.arrow (.var 1) (.var (-5))) (.app "List" [.var 1]))).equivalent
      (forAll [1] (.arrow (.arrow (.var 1) (.var (-5))) (.app "List" [.var 1]))) = false := by decide
  refine ⟨_, _, _, rfl, rfl, rfl, hbody 1, hbody 7, hbody 1, by decide, hab, ?_, ?_, hac⟩
  · exact (text_eq_iff_equivalent _ _ (hbody 1) (hbody 7)).2 hab
  · rw [Ne, text_eq_iff_equivalent _ _ (hbody 1) (hbody 1), hac]
    decide

end Scheme

end LetPoly
