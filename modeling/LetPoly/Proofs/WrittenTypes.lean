import LetPoly.Proofs.SchemeGrammar

/-!
# Reading written types

The written form of a type is read as lexemes that derive the type with its variables renumbered
(`Writable.readsFrom`), whatever names it is written with. The printer puts parentheses around an
arrow on the left of an arrow, and around an application that is an argument; the statement has one
part for each of the places where the grammar lets a type stand: on its own, as an operand of an arrow,
and as an argument.
-/

namespace LetPoly

open Token (Lexeme ReadsAs idents)

namespace Ty
variable {name : TyVar → String} {s con : String} {t a b : Ty} {ts args : List Ty}

/-- Built from variables, arrows with two sides, and applications of constructors whose names are
tokens by themselves. -/
inductive Writable : Ty → Prop
  | var (v : TyVar) : Writable (.var v)
  | arrow {a b : Ty} : Writable a → Writable b → Writable (.arrow a b)
  | app {con : String} {args : List Ty} : Token.IsOne .capIdent con → (∀ t ∈ args, Writable t) →
    Writable (.app con args)

theorem Writable.wellFormed (h : t.Writable) : t.WellFormed := by
  induction h with
  | var v => exact wellFormed_var v
  | arrow ha hb iha ihb => exact wellFormed_arrow.2 ⟨iha, ihb⟩
  | app hcon hargs ih => exact wellFormed_app.2 ih

theorem ne_arrowName (h : Token.IsOne .capIdent con) : con ≠ arrowName := by
  rintro rfl
  obtain ⟨c, cs, hlist, -, -, hc, -⟩ := ((Token.isOne_iff rfl).1 h).1
  cases hlist
  revert hc
  decide

/-- The text is read as lexemes that meet the names of the variables from left to right, and from
which `D` derives the type, however the names are numbered. -/
def ReadsFrom (D : (String → TyVar) → List Lexeme → Ty → Prop) (name : TyVar → String) (s : String)
    (t : Ty) : Prop :=
  ∃ ls, ReadsAs s ls ∧ idents ls = t.occurrences.map name ∧
    ∀ number, D number ls (t.rename fun v => number (name v))

theorem ReadsFrom.mono {D E : (String → TyVar) → List Lexeme → Ty → Prop}
    (hDE : ∀ number ls t, D number ls t → E number ls t) (h : ReadsFrom D name s t) :
    ReadsFrom E name s t := by
  obtain ⟨ls, hls, hidents, hD⟩ := h
  exact ⟨ls, hls, hidents, fun number => hDE number ls _ (hD number)⟩

theorem ReadsFrom.enclosed {E : (String → TyVar) → List Lexeme → Ty → Prop}
    (hE : ∀ number ls t, Derives number ls t → E number (Token.enclosed ls) t)
    (h : ReadsFrom Derives name s t) : ReadsFrom E name ("(" ++ s ++ ")") t := by
  obtain ⟨ls, hls, hidents, hD⟩ := h
  refine ⟨Token.enclosed ls, hls.enclosed, ?_, fun number => hE number ls _ (hD number)⟩
  rw [← hidents]
  simp [Token.enclosed, idents]

theorem readsFrom_var {v : TyVar} (hv : Token.IsOne .ident (name v)) :
    ReadsFrom DerivesAtom name (name v) (.var v) ∧ ReadsFrom DerivesOperand name (name v) (.var v) :=
  have hls : ReadsAs (name v) [(.ident, name v)] := ReadsAs.one rfl hv
  ⟨⟨_, hls, rfl, fun _ => .var⟩, ⟨_, hls, rfl, fun _ => .var⟩⟩

theorem ReadsFrom.arrow {s s' : String} (ha : ReadsFrom DerivesOperand name s a)
    (hb : ReadsFrom Derives name s' b) : ReadsFrom Derives name (s ++ " -> " ++ s') (.arrow a b) := by
  obtain ⟨ls, hls, hidents, ha⟩ := ha
  obtain ⟨ls', hls', hidents', hb⟩ := hb
  have htext : s ++ " -> " ++ s' = s ++ " " ++ ("->" ++ " " ++ s') := by
    have harrow : " -> " = " " ++ ("->" ++ " ") := by decide
    rw [harrow]
    simp only [String.append_assoc]
  refine ⟨ls ++ (.arrow, "->") :: ls', ?_, ?_, fun number => ?_⟩
  · rw [htext]
    exact hls.spaced (ReadsAs.arrow.spaced hls')
  · rw [Token.idents_append, Token.idents_cons_of_ne (by decide), hidents, hidents', occurrences_arrow,
      List.map_append]
  · rw [rename_arrow]
    exact .arrow (ha number) (hb number)

/-! ### Applications -/

/-- The text is read as lexemes from which the constructor is derived with the arguments. -/
def SpineReadsFrom (name : TyVar → String) (s con : String) (ts : List Ty) : Prop :=
  ∃ ls, ReadsAs s ls ∧ idents ls = (occurrencesAll ts).map name ∧
    ∀ number, DerivesSpine number ls con (ts.map (rename fun v => number (name v)))

theorem spineReadsFrom_nil (h : Token.IsOne .capIdent con) : SpineReadsFrom name con con [] :=
  ⟨[(.capIdent, con)], ReadsAs.one rfl h, rfl, fun _ => .con⟩

theorem SpineReadsFrom.concat {s' : String} (h : SpineReadsFrom name s con ts)
    (ha : ReadsFrom DerivesAtom name s' a) : SpineReadsFrom name (s ++ " " ++ s') con (ts ++ [a]) := by
  obtain ⟨ls, hls, hidents, h⟩ := h
  obtain ⟨ls', hls', hidents', ha⟩ := ha
  refine ⟨ls ++ ls', hls.spaced hls', ?_, fun number => ?_⟩
  · rw [Token.idents_append, hidents, hidents']
    simp [occurrencesAll_eq_flatMap]
  · rw [List.map_append, List.map_singleton]
    exact .arg (h number) (ha number)

theorem SpineReadsFrom.append (h : SpineReadsFrom name s con ts)
    (hargs : ∀ t ∈ args, ReadsFrom DerivesAtom name (t.textWith name (t.arity?.any (0 < ·))) t) :
    SpineReadsFrom name (s ++ argsText name args) con (ts ++ args) := by
  induction args generalizing s ts with
  | nil => rwa [argsText, String.append_empty, List.append_nil]
  | cons a args ih =>
    have hnext := ih (h.concat (hargs a List.mem_cons_self)) fun t ht =>
      hargs t (List.mem_cons_of_mem a ht)
    rw [argsText]
    simpa [String.append_assoc] using hnext

theorem SpineReadsFrom.operand (h : SpineReadsFrom name s con ts) :
    ReadsFrom DerivesOperand name s (.app con ts) := by
  obtain ⟨ls, hls, hidents, h⟩ := h
  refine ⟨ls, hls, hidents, fun number => ?_⟩
  rw [rename_app]
  exact .app (h number)

theorem readsFrom_const (h : Token.IsOne .capIdent con) :
    ReadsFrom DerivesAtom name con (.const con) :=
  ⟨[(.capIdent, con)], ReadsAs.one rfl h, rfl, fun _ => .const⟩

/-! ### Where parentheses stand -/

theorem textWith_arrow (name : TyVar → String) (parens : Bool) (a b : Ty) :
    (arrow a b).textWith name parens =
      enclose parens (a.textWith name a.isArrow ++ " -> " ++ b.textWith name false) := by
  simp [arrow, textWith, sidesText]

theorem textWith_app (hcon : con ≠ arrowName) (parens : Bool) :
    (app con args).textWith name parens =
      if args.isEmpty then con else enclose parens (con ++ argsText name args) := by
  rw [textWith, if_neg fun h => hcon h.1]

theorem isArrow_app (hcon : con ≠ arrowName) (args : List Ty) : (app con args).isArrow = false := by
  match args with
  | [_, _] => exact beq_false_of_ne hcon
  | [] | [_] | _ :: _ :: _ :: _ => rfl

/-- A written type is read as itself, where a type stands on its own, on the left of an arrow, or as an
argument. -/
theorem Writable.readsFrom (h : t.Writable)
    (hname : ∀ v ∈ t.occurrences, Token.IsOne .ident (name v)) :
    ReadsFrom Derives name (t.textWith name false) t ∧
    ReadsFrom DerivesOperand name (t.textWith name t.isArrow) t ∧
    ReadsFrom DerivesAtom name (t.textWith name (t.arity?.any (0 < ·))) t := by
  induction h with
  | var v =>
    obtain ⟨hatom, hoperand⟩ := readsFrom_var (hname v (mem_occurrences_var.2 rfl))
    exact ⟨hoperand.mono fun _ _ _ => .operand, hoperand, hatom⟩
  | @arrow a b ha hb iha ihb =>
    have hleft := (iha fun v hv => hname v (mem_occurrences_arrow.2 (.inl hv))).2.1
    have hright := (ihb fun v hv => hname v (mem_occurrences_arrow.2 (.inr hv))).1
    have hsides := hleft.arrow hright
    rw [textWith_arrow, textWith_arrow, textWith_arrow]
    exact ⟨hsides, hsides.enclosed fun _ _ _ => .paren, hsides.enclosed fun _ _ _ => .paren⟩
  | @app con args hcon hargs ih =>
    have hspine := (spineReadsFrom_nil hcon).append fun t ht =>
      (ih t ht fun v hv => hname v (mem_occurrences_app.2 ⟨t, ht, hv⟩)).2.2
    have hoperand : ReadsFrom DerivesOperand name (con ++ argsText name args) (.app con args) :=
      hspine.operand
    rw [isArrow_app (ne_arrowName hcon), textWith_app (ne_arrowName hcon),
      textWith_app (ne_arrowName hcon)]
    cases args with
    | nil =>
      rw [argsText, String.append_empty] at hoperand
      exact ⟨hoperand.mono fun _ _ _ => .operand, hoperand, readsFrom_const hcon⟩
    | cons t ts =>
      have hwhole : ReadsFrom Derives name (con ++ argsText name (t :: ts)) (.app con (t :: ts)) :=
        hoperand.mono fun _ _ _ => .operand
      exact ⟨hwhole, hoperand, hwhole.enclosed fun _ _ _ => .paren⟩

end Ty

namespace Scheme

/-! ### Types that were read -/

/-- The constructors in a construct are tokens by themselves. -/
def Frame.Writable : Frame → Prop
  | .arrow t => t.Writable
  | .paren => True
  | .argument con args => Token.IsOne .capIdent con ∧ ∀ t ∈ args, t.Writable

/-- The constructors in what has been read of a construct are tokens by themselves. -/
def Point.Writable : Point → Prop
  | .scheme | .names | .start => True
  | .spine con args => Token.IsOne .capIdent con ∧ ∀ t ∈ args, t.Writable
  | .whole t => t.Writable

namespace Reading
variable {r r' : Reading} {fs fs' : List Frame} {k : Token.Kind} {x : String} {ls : List Lexeme}
  {t t' : Ty} {s : Scheme}

structure Writable (r : Reading) : Prop where
  point : r.point.Writable
  frames : ∀ f ∈ r.frames, f.Writable

theorem Writable.spine {con : String} {args : List Ty} (h : r.Writable)
    (hp : r.point = .spine con args) : Token.IsOne .capIdent con ∧ ∀ t ∈ args, t.Writable := by
  have := h.point
  rwa [hp] at this

theorem Writable.operand (h : r.Writable) (ht : operand? r.point = some t) : t.Writable := by
  cases hp : r.point with
  | spine con args =>
    rw [hp] at ht
    cases ht
    exact .app (h.spine hp).1 (h.spine hp).2
  | whole u =>
    have hu := h.point
    rw [hp] at hu ht
    cases ht
    exact hu
  | scheme | names | start =>
    rw [hp] at ht
    cases ht

theorem settle_writable (h : settle fs t = (fs', t')) (hfs : ∀ f ∈ fs, f.Writable) (ht : t.Writable) :
    (∀ f ∈ fs', f.Writable) ∧ t'.Writable := by
  fun_induction settle fs t with
  | case1 a fs t ih =>
    exact ih h (fun f hf => hfs f (List.mem_cons_of_mem _ hf)) (.arrow (hfs _ List.mem_cons_self) ht)
  | case2 fs t =>
    cases h
    exact ⟨hfs, ht⟩

theorem resolve_writable {N : NameTable} (h : r.resolve x = (t, N)) : t.Writable := by
  unfold resolve at h
  split at h
  · cases h
    exact .var _
  · cases h
    exact .var _

theorem Step.writable (h : Step r (k, x) r') (hr : r.Writable)
    (hx : k = .capIdent → Token.IsOne .capIdent x) : r'.Writable := by
  have hcons : ∀ {f : Frame}, f.Writable → ∀ g ∈ f :: r.frames, g.Writable := by
    intro f hf g hg
    rcases List.mem_cons.1 hg with rfl | hg
    · exact hf
    · exact hr.frames g hg
  have hconcat : ∀ {args : List Ty} {u : Ty}, (∀ t ∈ args, t.Writable) → u.Writable →
      ∀ t ∈ args ++ [u], t.Writable := by
    intro args u hargs hu t ht
    rcases List.mem_append.1 ht with ht | ht
    · exact hargs t ht
    · exact List.mem_singleton.1 ht ▸ hu
  cases h with
  | forAll hp => exact ⟨trivial, hr.frames⟩
  | quantify hp =>
    obtain ⟨hpoint, hframes⟩ := r.quantify_point x
    exact ⟨hpoint ▸ hr.point, hframes ▸ hr.frames⟩
  | dot hp hb => exact ⟨trivial, hr.frames⟩
  | con hp => exact ⟨⟨hx rfl, nofun⟩, hr.frames⟩
  | var hp hres => exact ⟨resolve_writable hres, hr.frames⟩
  | lparen hp => exact ⟨trivial, hcons trivial⟩
  | argVar hp hres =>
    obtain ⟨hcon, hargs⟩ := hr.spine hp
    exact ⟨⟨hcon, hconcat hargs (resolve_writable hres)⟩, hr.frames⟩
  | argCon hp =>
    obtain ⟨hcon, hargs⟩ := hr.spine hp
    exact ⟨⟨hcon, hconcat hargs (.app (hx rfl) nofun)⟩, hr.frames⟩
  | argParen hp => exact ⟨trivial, hcons (hr.spine hp)⟩
  | arrow ht => exact ⟨trivial, hcons (hr.operand ht)⟩
  | rparen ht hset =>
    obtain ⟨hfs, ht'⟩ := settle_writable hset hr.frames (hr.operand ht)
    exact ⟨ht', fun f hf => hfs f (List.mem_cons_of_mem _ hf)⟩
  | argEnd ht hset =>
    obtain ⟨hfs, ht'⟩ := settle_writable hset hr.frames (hr.operand ht)
    have hargs := hfs _ List.mem_cons_self
    exact ⟨⟨hargs.1, hconcat hargs.2 ht'⟩, fun f hf => hfs f (List.mem_cons_of_mem _ hf)⟩

theorem Writable.run (h : r.Writable) (hls : ∀ l ∈ ls, l.1 = .capIdent → Token.IsOne .capIdent l.2)
    (hrun : r.run ls = some r') : r'.Writable :=
  Token.runWith_invariant
    (fun _ _ _ _ hl hr hstep => (step_of_advance? hstep).writable hr (hls _ hl)) h
    hrun

theorem Writable.complete (h : r.Writable) (hr : r.complete? = some s) : s.body.Writable := by
  obtain ⟨t, ht, hs⟩ := Option.bind_eq_some_iff.1 hr
  split at hs
  · rename_i u hset
    cases hs
    exact (settle_writable hset h.frames (h.operand ht)).2
  · cases hs

end Reading

theorem writable_of_parse {src : Source} {s : Scheme} (h : parse src = .ok s) : s.body.Writable := by
  unfold parse parseWith at h
  split at h
  · cases h
  · rename_i tokens hscan
    obtain ⟨r, hrun, hr⟩ := parseFrom_eq_ok.1 h
    have hnil : Reading.Writable { names := {} } := ⟨trivial, nofun⟩
    refine (hnil.run (fun l hl hk => ?_) hrun).complete hr
    obtain ⟨t, ht, rfl⟩ := List.mem_map.1 hl
    have hk : t.kind = .capIdent := hk
    have hmem : t ∈ (Token.scan 0 src).1 := by rwa [hscan]
    have hone := Token.isWord_of_mem_scan hmem (by rw [hk]; rfl)
    exact (Token.isOne_iff rfl).2 (hk ▸ hone)

end Scheme

end LetPoly
