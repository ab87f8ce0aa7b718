import LetPoly.Command.Batch
import LetPoly.Proofs.SessionReuse

/-!
# Batches go line by line

All lines of a batch share one session, and what one line leaves in it is not seen by the next: a
batch prints what its expressions print one by one, each with a new session, and ends with the error
of the first that has one (`Command.batch_linewise`).
-/

namespace LetPoly

/-! ### Lines -/

/-- The line as it stands in the source. -/
def Line.source (l : Line) : Source := if l.ended then l.text ++ [.char '\n'] else l.text

namespace Source

theorem flatMap_source_lines (src : Source) : src.lines.flatMap Line.source = src := by
  fun_induction lines src with
  | case1 => rfl
  | case2 rest ih => rw [List.flatMap_cons, ih]; rfl
  | case3 g rest hg hlines ih =>
    rw [hlines] at ih
    rw [← ih]
    rfl
  | case4 g rest hg l ls hlines ih =>
    rw [hlines, List.flatMap_cons] at ih
    rw [List.flatMap_cons, ← ih, ← List.cons_append]
    unfold Line.source
    split <;> rfl

theorem not_mem_of_mem_lines (src : Source) : ∀ l ∈ src.lines, .char '\n' ∉ l.text := by
  fun_induction lines src with
  | case1 => exact nofun
  | case2 rest ih => exact List.forall_mem_cons.2 ⟨List.not_mem_nil, ih⟩
  | case3 g rest hg hlines ih => simpa using Ne.symm hg
  | case4 g rest hg l ls hlines ih =>
    rw [hlines] at ih
    obtain ⟨hl, hls⟩ := List.forall_mem_cons.1 ih
    refine List.forall_mem_cons.2 ⟨?_, hls⟩
    simp [hl, Ne.symm hg]

end Source

namespace Command
variable {color : Bool} {env : Env} {s : Session} {src : Source} {err : ExprError}

/-! ### One expression -/

/-- The source is an expression with a type. -/
def Typed (env : Env) (src : Source) : Prop := ∃ e t, Expr.parse src = .ok e ∧ infer env e = .ok t

/-- What is wrong with the expression in a source. -/
inductive FailsWith (env : Env) (src : Source) : ExprError → Prop
  | parse {err : ParseError} : Expr.parse src = .error err → FailsWith env src (.parse err)
  | infer {e : Expr} {f : Failure} : Expr.parse src = .ok e → infer env e = .error f →
    FailsWith env src (.infer f)

theorem error?_of_typed (h : Typed env src) : (report color env s src).2.error? = none := by
  obtain ⟨e, t, hparse, hinfer⟩ := h
  obtain ⟨ctx, hs⟩ := s.infer_of_ok hinfer
  simp only [report, hparse, hs]

theorem error?_of_failsWith (h : FailsWith env src err) :
    (report color env s src).2.error? = some err := by
  cases h with
  | parse hparse => simp only [report, hparse]
  | infer hparse hinfer =>
    obtain ⟨ctx, hs⟩ := s.infer_of_error hinfer
    simp only [report, hparse, hs]

theorem typed_or_fails (env : Env) (src : Source) : Typed env src ∨ ∃ err, FailsWith env src err := by
  cases hparse : Expr.parse src with
  | error err => exact .inr ⟨_, .parse hparse⟩
  | ok e =>
    cases hinfer : infer env e with
    | error f => exact .inr ⟨_, .infer hparse hinfer⟩
    | ok t => exact .inl ⟨e, t, hparse, hinfer⟩

theorem error?_eq_none_iff : (report color env s src).2.error? = none ↔ Typed env src := by
  refine ⟨fun h => ?_, error?_of_typed⟩
  rcases typed_or_fails env src with htyped | ⟨err, hfails⟩
  · exact htyped
  · rw [error?_of_failsWith hfails] at h
    cases h

theorem error?_eq_some_iff : (report color env s src).2.error? = some err ↔ FailsWith env src err := by
  refine ⟨fun h => ?_, error?_of_failsWith⟩
  rcases typed_or_fails env src with htyped | ⟨err', hfails⟩
  · rw [error?_of_typed htyped] at h
    cases h
  · rw [error?_of_failsWith hfails] at h
    cases h
    exact hfails

/-- What is reported does not depend on what the session was used for before. -/
theorem report_eq_new (color : Bool) (env : Env) (s : Session) (src : Source) :
    (report color env s src).2 = (report color env {} src).2 := by
  -- a run starts by clearing the session, so nothing in `s` is ever looked at
  have hinfer : ∀ e, s.infer env e = Session.infer {} env e := fun e => rfl
  unfold report
  cases Expr.parse src with
  | error err => rfl
  | ok e => simp only [hinfer]

/-! ### All lines -/

/-- The expressions of an input: its lines without the blanks around them, but for empty ones and those
that start with `#`. -/
def expressions (input : Source) : List Source :=
  (input.lines.map fun l => l.text.trim Text.isBlank).filter fun t =>
    t ≠ [] ∧ t.head? ≠ some (.char '#')

theorem filterMap_lineExpr? (input : Source) : input.lines.filterMap lineExpr? = expressions input := by
  unfold expressions
  induction input.lines with
  | nil => rfl
  | cons l ls ih =>
    rw [List.filterMap_cons, List.map_cons, List.filter_cons, ih, lineExpr?]
    generalize l.text.trim Text.isBlank = t
    by_cases h : t.isEmpty ∨ t.head? = some (.char '#')
    · rw [if_pos h, if_neg]
      simpa [imp_iff_not_or] using h
    · rw [if_neg h, if_pos]
      simpa using h

theorem readLines_eq {limit : Nat} {ls : List Line} (h : ∀ l ∈ ls, l.text.width < limit) :
    readLines limit ls = (ls, false) := by
  induction ls with
  | nil => rfl
  | cons l ls ih =>
    obtain ⟨hl, hls⟩ := List.forall_mem_cons.1 h
    rw [readLines, if_neg (Nat.not_le.2 hl), ih hls]

theorem Progress.step_eq (color : Bool) (env : Env) (p : Progress) {l : Line}
    (h : lineExpr? l = some src) :
    (p.step color env l).output = p.output ++ (report color env {} src).2.text ∧
    (p.step color env l).first? = p.first?.or (report color env {} src).2.error? := by
  constructor <;> simp only [step, h, report_eq_new color env p.session src]

/-- What was printed and found out before stays, and the lines add what each of them does alone. -/
theorem Progress.foldl_step (color : Bool) (env : Env) (ls : List Line) (p : Progress) :
    (ls.foldl (step color env) p).output = p.output ++
      String.join ((ls.filterMap lineExpr?).map fun src => (report color env {} src).2.text) ∧
    (ls.foldl (step color env) p).first? =
      p.first?.or
        ((ls.filterMap lineExpr?).findSome? fun src => (report color env {} src).2.error?) := by
  induction ls generalizing p with
  | nil => simp
  | cons l ls ih =>
    obtain ⟨houtput, hfirst⟩ := ih (p.step color env l)
    rw [List.foldl_cons, houtput, hfirst]
    cases hl : lineExpr? l with
    | none =>
      have hstep : p.step color env l = p := by simp only [step, hl]
      rw [hstep, List.filterMap_cons_none hl]
      exact ⟨rfl, rfl⟩
    | some src =>
      obtain ⟨houtput, hfirst⟩ := p.step_eq color env hl
      rw [houtput, hfirst, List.filterMap_cons_some hl, List.map_cons, String.join_cons,
        String.append_assoc, Option.or_assoc, List.findSome?_cons]
      refine ⟨rfl, ?_⟩
      cases (report color env {} src).2.error? <;> rfl

theorem batch_eq (color : Bool) (env : Env) (s : Session) {input : Source}
    (h : ∀ l ∈ input.lines, l.text.width < lineLimit) : batch color env s input =
      ⟨String.join ((expressions input).map fun src => (report color env {} src).2.text),
        ((expressions input).findSome? fun src => (report color env {} src).2.error?).map .expr⟩ := by
  obtain ⟨houtput, hfirst⟩ := Progress.foldl_step color env input.lines { session := s }
  rw [filterMap_lineExpr?] at houtput hfirst
  simp only [batch, readLines_eq h, houtput, hfirst]
  rfl

/-- If no line is too long, a batch prints what its expressions print with a new session each, in
order. It ends without an error exactly if every expression has a type, and otherwise with the error
of the first that has none. -/
theorem batch_linewise (color : Bool) (env : Env) (s : Session) (input : Source)
    (hshort : ∀ l ∈ input.lines, l.text.width < lineLimit) :
    (input.lines.flatMap Line.source = input ∧ ∀ l ∈ input.lines, .char '\n' ∉ l.text) ∧
    (batch color env s input).output =
      String.join ((expressions input).map fun src => (report color env {} src).2.text) ∧
    ((batch color env s input).error? = none ↔ ∀ src ∈ expressions input, Typed env src) ∧
    ∀ err, (batch color env s input).error? = some err → ∃ pre src post e,
      expressions input = pre ++ src :: post ∧ (∀ src' ∈ pre, Typed env src') ∧
      FailsWith env src e ∧ err = .expr e := by
  rw [batch_eq color env s hshort]
  refine ⟨⟨input.flatMap_source_lines, input.not_mem_of_mem_lines⟩, rfl, ?_, fun err h => ?_⟩
  · simp only [Option.map_eq_none_iff, List.findSome?_eq_none_iff, error?_eq_none_iff]
  · obtain ⟨e, he, rfl⟩ := Option.map_eq_some_iff.1 h
    obtain ⟨pre, src, post, hsplit, hsrc, hpre⟩ := List.findSome?_eq_some_iff.1 he
    exact ⟨pre, src, post, e, hsplit, fun src' hsrc' => error?_eq_none_iff.1 (hpre src' hsrc'),
      error?_eq_some_iff.1 hsrc, rfl⟩

/-- The first line has no type, since `g` is unknown, and the session has a record of that when the
expression after the comment and the blank line is looked at. -/
theorem batch_linewise_mistyped :
    let env := Env.ofBindings [⟨"f", .mono (.const "Int")⟩]
    let input := Source.ofString "f g\n # note\n\nf"
    expressions input = [.ofString "f g", .ofString "f"] ∧
    Typed env (.ofString "f") ∧
    (batch false env {} input).output =
      "type inference failed: unknown variable 'g'\n  in: g\nf : Int\n" ∧
    (batch false env {} input).error? =
      some (.expr (.infer ⟨.unknownVariable "g", [.argument]⟩)) := by
  intro env input
  have hexpressions : expressions input = [.ofString "f g", .ofString "f"] := by decide
  have hshort : ∀ l ∈ input.lines, l.text.width < lineLimit := by decide
  have hbad : (report false env {} (.ofString "f g")).2.error? =
      some (.infer ⟨.unknownVariable "g", [.argument]⟩) := by decide +kernel
  have hgood : (report false env {} (.ofString "f")).2.error? = none := by decide +kernel
  have hnot : ¬ Typed env (.ofString "f g") := by
    intro h
    cases hbad.symm.trans (error?_of_typed h)
  obtain ⟨-, houtput, hnone, hsome⟩ := batch_linewise false env {} input hshort
  rw [hexpressions] at houtput hnone hsome
  refine ⟨hexpressions, error?_eq_none_iff.1 hgood, houtput.trans (by decide +kernel), ?_⟩
  obtain ⟨err, herr⟩ := Option.ne_none_iff_exists'.1 fun h => hnot (hnone.1 h _ (by simp))
  obtain ⟨pre, src, post, e, hsplit, hpre, hfails, rfl⟩ := hsome err herr
  cases pre with
  | nil =>
    obtain ⟨rfl, -⟩ := List.cons.inj hsplit
    have he : some _ = some e := hbad.symm.trans (error?_of_failsWith hfails)
    cases he
    exact herr
  | cons src' pre =>
    obtain ⟨rfl, -⟩ := List.cons.inj hsplit
    exact absurd (hpre _ List.mem_cons_self) hnot

end Command

end LetPoly
