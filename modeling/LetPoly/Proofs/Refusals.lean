import LetPoly.Proofs.SchemeGrammar

/-!
# Refusals do not depend on the table of names

Types and numbers have no influence on how the parser of schemes goes on, nor on the error with which
it refuses a token. So two states that are equal up to these (`Scheme.Reading.Alike`) stay so, and a
source is refused with one table of names exactly as with any other (`Scheme.parseWith_error_congr`).
-/

namespace LetPoly

namespace Scheme

/-- Equal up to the types that have been read. -/
inductive Frame.Alike : Frame → Frame → Prop
  | arrow {t u : Ty} : Alike (.arrow t) (.arrow u)
  | paren : Alike .paren .paren
  | argument {c : String} {ts us : List Ty} : Alike (.argument c ts) (.argument c us)

/-- Equal up to the types that have been read. -/
inductive Point.Alike : Point → Point → Prop
  | scheme : Alike .scheme .scheme
  | names : Alike .names .names
  | start : Alike .start .start
  | spine {c : String} {ts us : List Ty} : Alike (.spine c ts) (.spine c us)
  | whole {t u : Ty} : Alike (.whole t) (.whole u)

theorem Point.Alike.operand? {p p' : Point} (h : p.Alike p') :
    Reading.operand? p = none ∧ Reading.operand? p' = none ∨
      ∃ t t', Reading.operand? p = some t ∧ Reading.operand? p' = some t' := by
  cases h with
  | scheme | names | start => exact .inl ⟨rfl, rfl⟩
  | @spine c ts us => exact .inr ⟨.app c ts, .app c us, rfl, rfl⟩
  | @whole t u => exact .inr ⟨t, u, rfl, rfl⟩

namespace Reading
variable {r r' : Reading} {fs fs' : List Frame} {t t' : Ty} {k : Token.Kind} {x : String}

/-- Equal up to types and numbers. -/
structure Alike (r r' : Reading) : Prop where
  point : r.point.Alike r'.point
  frames : List.Forall₂ Frame.Alike r.frames r'.frames
  bound : r.bound.isEmpty = r'.bound.isEmpty

theorem settle_alike (h : List.Forall₂ Frame.Alike fs fs') (t t' : Ty) :
    List.Forall₂ Frame.Alike (settle fs t).1 (settle fs' t').1 := by
  induction h generalizing t t' with
  | nil => exact .nil
  | cons hf h ih =>
    cases hf with
    | arrow => exact ih _ _
    | paren => exact .cons .paren h
    | argument => exact .cons .argument h

theorem Alike.close? (h : r.Alike r') (t t' : Ty) (k : Token.Kind) :
    Option.Rel Alike (r.close? t k) (r'.close? t' k) := by
  cases k with
  | arrow => exact .some ⟨.start, .cons .arrow h.frames, h.bound⟩
  | rparen =>
    obtain ⟨fs, u, hset⟩ : ∃ fs u, settle r.frames t = (fs, u) := ⟨_, _, rfl⟩
    obtain ⟨fs', u', hset'⟩ : ∃ fs' u', settle r'.frames t' = (fs', u') := ⟨_, _, rfl⟩
    have halike := settle_alike h.frames t t'
    rw [hset, hset'] at halike
    simp only [Reading.close?, hset, hset']
    cases halike with
    | nil => exact .none
    | cons hf hfs =>
      cases hf with
      | arrow => exact .none
      | paren => exact .some ⟨.whole, hfs, h.bound⟩
      | argument => exact .some ⟨.spine, hfs, h.bound⟩
  | _ => exact .none

theorem Alike.start? (h : r.Alike r') (k : Token.Kind) (x : String) :
    Option.Rel Alike (r.start? k x) (r'.start? k x) := by
  cases k with
  | capIdent => exact .some ⟨.spine, h.frames, h.bound⟩
  | ident => exact .some ⟨.whole, h.frames, h.bound⟩
  | lparen => exact .some ⟨.start, .cons .paren h.frames, h.bound⟩
  | _ => exact .none

theorem Alike.quantify (h : r.Alike r') (x : String) : (r.quantify x).Alike (r'.quantify x) := by
  obtain ⟨hp, hfs⟩ := r.quantify_point x
  obtain ⟨hp', hfs'⟩ := r'.quantify_point x
  refine ⟨?_, ?_, (r.bound_quantify x).trans (r'.bound_quantify x).symm⟩
  · rw [hp, hp']
    exact h.point
  · rw [hfs, hfs']
    exact h.frames

theorem Alike.advance? (h : r.Alike r') (k : Token.Kind) (x : String) :
    Option.Rel Alike (r.advance? k x) (r'.advance? k x) := by
  obtain ⟨p, fs, b, N⟩ := r
  obtain ⟨p', fs', b', N'⟩ := r'
  have hpoint := h.point
  cases hpoint with
  | scheme =>
    simp only [Reading.advance?]
    split
    · exact .some ⟨.names, h.frames, h.bound⟩
    · exact h.start? k x
  | names =>
    cases k with
    -- whether `x` is new there may differ, but afterwards some name is bound in both
    | ident => exact .some (h.quantify x)
    | dot =>
      have hb : b.isEmpty = b'.isEmpty := h.bound
      simp only [Reading.advance?, hb]
      split
      · exact .none
      · exact .some ⟨.start, h.frames, h.bound⟩
    | _ => exact .none
  | start => exact h.start? k x
  | @spine c ts us =>
    cases k with
    | ident => exact .some ⟨.spine, h.frames, h.bound⟩
    | capIdent => exact .some ⟨.spine, h.frames, h.bound⟩
    | lparen => exact .some ⟨.start, .cons .argument h.frames, h.bound⟩
    | _ =>
      simp only [Reading.advance?]
      exact h.close? (.app c ts) (.app c us) _
  | @whole t u => exact h.close? t u k

theorem isEmpty_settle (h : r.Alike r') (t t' : Ty) :
    (settle r.frames t).1.isEmpty = (settle r'.frames t').1.isEmpty := by
  have halike := settle_alike h.frames t t'
  rw [Bool.eq_iff_iff, List.isEmpty_iff_length_eq_zero, List.isEmpty_iff_length_eq_zero,
    halike.length_eq]

theorem complete?_of_operand (ht : operand? r.point = some t) :
    r.complete?.isSome = (settle r.frames t).1.isEmpty := by
  obtain ⟨fs, u, hset⟩ : ∃ fs u, settle r.frames t = (fs, u) := ⟨_, _, rfl⟩
  cases fs with
  | nil =>
    rw [complete?_eq ht hset, hset]
    rfl
  | cons f fs =>
    simp only [complete?, ht, Option.bind_eq_bind, Option.bind_some, hset]
    rfl

theorem refuse_of_operand (ht : operand? r.point = some t) (k : Token) : r.refuse k =
    if (settle r.frames t).1.isEmpty then .trailing k else .unexpected k "')'" := by
  obtain ⟨fs, u, hset⟩ : ∃ fs u, settle r.frames t = (fs, u) := ⟨_, _, rfl⟩
  cases fs with
  | nil => simp only [refuse, ht, hset, List.isEmpty_nil, if_true]
  | cons f fs => simp [refuse, ht, hset]

theorem Alike.complete? (h : r.Alike r') : r.complete?.isSome = r'.complete?.isSome := by
  rcases h.point.operand? with ⟨ht, ht'⟩ | ⟨t, t', ht, ht'⟩
  · simp [Reading.complete?, ht, ht']
  · rw [complete?_of_operand ht, complete?_of_operand ht', isEmpty_settle h t t']

theorem Alike.refuse (h : r.Alike r') (k : Token) : r.refuse k = r'.refuse k := by
  rcases h.point.operand? with ⟨ht, ht'⟩ | ⟨t, t', ht, ht'⟩
  · have hpoint := h.point
    simp only [Reading.refuse, ht, ht', h.bound]
    revert hpoint
    generalize r.point = p
    generalize r'.point = p'
    intro hpoint
    cases hpoint <;> rfl
  · rw [refuse_of_operand ht, refuse_of_operand ht', isEmpty_settle h t t']

end Reading

theorem parseFrom_error_congr {r r' : Reading} (h : r.Alike r') {tokens : List Token} {eof : Token}
    {e : ParseError} (he : (parseFrom r tokens eof).1 = .error e) :
    (parseFrom r' tokens eof).1 = .error e := by
  induction tokens generalizing r r' with
  | nil =>
    have hcomplete := h.complete?
    rw [parseFrom] at he ⊢
    cases hr : r.complete? with
    | some s => rw [hr] at he; cases he
    | none =>
      rw [hr] at he hcomplete
      have hr' : r'.complete? = none := by simpa using hcomplete.symm
      rw [hr', ← h.refuse eof]
      exact he
  | cons t ts ih =>
    have hstep := h.advance? t.kind t.text
    rw [parseFrom] at he ⊢
    revert he hstep
    generalize r.advance? t.kind t.text = o
    generalize r'.advance? t.kind t.text = o'
    rintro he (h' | _)
    · exact ih h' he
    · rw [← h.refuse t]
      exact he

/-- Whether and how a source is refused does not depend on the table of names. -/
theorem parseWith_error_congr {N : NameTable} {src : Source} {e : ParseError}
    (h : (parseWith N src).1 = .error e) (N' : NameTable) : (parseWith N' src).1 = .error e := by
  have halike : Reading.Alike { names := N } { names := N' } := ⟨.scheme, .nil, rfl⟩
  unfold parseWith at h ⊢
  split at h
  · exact h
  · exact parseFrom_error_congr halike h

end Scheme

end LetPoly
