import LetPoly.Proofs.ErrorLocation
import LetPoly.Proofs.SchemeAcceptance
import LetPoly.Proofs.TokenSpans

/-!
# What a parse error points at

The offset and the text of an error are those of one token, its offset is the width of the source if
the source ends too early, and for a character that starts no token it is the error of the tokens
themselves (`ParseError.PointsInto`). Errors of terms and schemes are of this form. So are those of types
but for one: a scheme that quantifies something is no type, and the error that says so is about a
`forall` at offset 0. The `forall` is there unless white space stands before it
(`parse_error_pointsInto_iff`).
-/

namespace LetPoly

/-- What an error says to have been found where is what the tokens of the source have there. -/
structure ParseError.PointsInto (e : ParseError) (src : Source) : Prop where
  token : e.kind = .unexpectedToken ∨ e.kind = .trailingTokens → ∃ tokens,
    Token.tokenize src = .ok tokens ∧ ∃ t ∈ tokens, e.offset = t.offset ∧ e.found = t.describe
  width : e.kind = .unexpectedEnd → e.offset = src.width
  character : e.kind = .invalidCharacter → ∃ tokens, Token.tokenize src = .error (e, tokens)

/-- The source has a blank in front. -/
def Source.StartsBlank (src : Source) : Prop :=
  ∃ (c : Char) (rest : Source), src = .char c :: rest ∧ Text.isBlank c = true

section Tokens
variable {src : Source} {tokens : List Token} {t : Token} {e : ParseError} {offset : Nat}

theorem Token.kind_of_scan_error (h : scan offset src = (tokens, some e)) :
    e.kind = .invalidCharacter := by
  fun_induction scan offset src generalizing tokens with
  | case1 => cases h
  | case2 =>
    cases h
    rfl
  | case3 offset c rest hb ih => exact ih h
  | case4 offset c rest hb k n hl lexeme tokens' error hscan =>
    rename_i ih
    obtain ⟨rfl, rfl⟩ := Prod.mk.inj h
    exact ih hscan
  | case5 =>
    cases h
    rfl

theorem ParseError.pointsInto_of_scan (h : Token.scan 0 src = (tokens, some e)) :
    e.PointsInto src := by
  have hkind := Token.kind_of_scan_error h
  refine ⟨fun hk => ?_, fun hk => ?_, fun _ => ⟨tokens, by rw [Token.tokenize, h]⟩⟩
  · rw [hkind] at hk
    rcases hk with hk | hk <;> cases hk
  · rw [hkind] at hk
    cases hk

theorem ParseError.pointsInto_of_mem (htokens : Token.tokenize src = .ok tokens) (ht : t ∈ tokens)
    (hkind : e.kind = .unexpectedToken ∨ e.kind = .trailingTokens) (hoffset : e.offset = t.offset)
    (hfound : e.found = t.describe) : e.PointsInto src := by
  refine ⟨fun _ => ⟨tokens, htokens, t, ht, hoffset, hfound⟩, fun hk => ?_, fun hk => ?_⟩
  · rcases hkind with hkind | hkind <;> rw [hkind] at hk <;> cases hk
  · rcases hkind with hkind | hkind <;> rw [hkind] at hk <;> cases hk

theorem ParseError.Located.pointsInto {α : Type} {parse : Source → Except ParseError α}
    (h : e.Located parse src tokens) (hscan : Token.scan 0 src = (tokens, none)) :
    e.PointsInto src := by
  by_cases hend : e.kind = .unexpectedEnd
  · refine ⟨fun hk => ?_, h.end_offset, fun hk => ?_⟩ <;> rw [hend] at hk
    · rcases hk with hk | hk <;> cases hk
    · cases hk
  · obtain ⟨k, t, ht, -, -, hoffset, hfound, htrailing, hunexpected⟩ := h.token hend
    refine pointsInto_of_mem (Token.tokenize_eq_ok.2 hscan)
      (List.mem_append_left _ (List.mem_of_getElem? ht)) ?_ hoffset hfound
    by_cases hacc : Accepts parse ((tokens.take k).map Token.lexeme)
    · exact .inr (htrailing hacc)
    · exact .inl (hunexpected hacc)

theorem Stepper.pointsInto {σ α : Type} {m : Stepper σ α} {r : σ}
    {parse : Source → Except ParseError α} (hm : m.Parses r parse)
    (hfail : ∀ {tokens e}, Token.scan 0 src = (tokens, some e) → parse src = .error e)
    (h : parse src = .error e) : e.PointsInto src := by
  rcases hscan : Token.scan 0 src with ⟨tokens, _ | e'⟩
  · exact (Stepper.located hm hscan h).pointsInto hscan
  · obtain rfl := Except.error.inj ((hfail hscan).symm.trans h)
    exact ParseError.pointsInto_of_scan hscan

theorem Token.offset_of_scan_cons (h : scan offset src = (t :: tokens, none))
    (hsrc : ¬ src.StartsBlank) : t.offset = offset := by
  fun_cases scan offset src with
  | case1 => rw [scan] at h; cases h
  | case2 => rw [scan] at h; cases h
  | case3 c rest hb => exact absurd ⟨c, rest, rfl, hb⟩ hsrc
  | case4 c rest hb k n hl =>
    rw [scan_token (by simpa using hb) hl] at h
    rw [← (List.cons.inj (Prod.mk.inj h).1).1]
  | case5 c rest hb hl =>
    rw [scan, if_neg hb, hl] at h
    cases h

theorem Source.StartsBlank.pos_of_mem (hsrc : src.StartsBlank)
    (hscan : Token.scan 0 src = (tokens, none)) (ht : t ∈ tokens ++ [.endOfInput src.width]) :
    0 < t.offset := by
  obtain ⟨c, rest, rfl, hb⟩ := hsrc
  rcases List.mem_append.1 ht with ht | ht
  · rw [Token.scan, if_pos hb] at hscan
    have hmem : t ∈ (Token.scan (0 + c.utf8Size) rest).1 := by rwa [hscan]
    have hle := Token.le_offset_of_mem_scan hmem
    have := c.utf8Size_pos
    omega
  · obtain rfl := List.mem_singleton.1 ht
    exact Nat.lt_of_lt_of_le c.utf8Size_pos (Nat.le_add_right _ _)

end Tokens

/-! ### Types -/

namespace Ty
variable {src : Source} {e : ParseError} {s : Scheme}

theorem parse_eq_error (h : parse src = .error e) : Scheme.parse src = .error e ∨
    ∃ s, Scheme.parse src = .ok s ∧ s.isMono = false ∧ e.kind = .unexpectedToken ∧ e.offset = 0 ∧
      e.found = Token.Kind.forAll.describe := by
  rw [parse] at h
  cases hs : Scheme.parse src with
  | error e' =>
    rw [hs] at h
    obtain rfl := Except.error.inj h
    exact .inl rfl
  | ok s =>
    rw [hs] at h
    change (if s.isMono then _ else _) = _ at h
    split at h
    · cases h
    · rename_i hmono
      cases h
      exact .inr ⟨s, rfl, by simpa using hmono, rfl, rfl, rfl⟩

theorem exists_forAll_of_not_isMono (h : Scheme.parse src = .ok s) (hs : s.isMono = false) :
    ∃ t tokens, Token.scan 0 src = (t :: tokens, none) ∧ t.kind = .forAll := by
  obtain ⟨d, hd⟩ := Scheme.exists_tree_of_parseWith h
  rw [Scheme.parse, Scheme.Tree.parseWith_eq {} hd] at h
  obtain rfl := Except.ok.inj h
  obtain ⟨tokens, hscan, hls⟩ := Source.hasLexemes_iff.1 hd
  cases d with
  | mono d => cases hs
  | forAll f x xs dot d =>
    obtain ⟨t, tokens, rfl, ht, -⟩ := List.map_eq_cons_iff.1 hls
    exact ⟨t, tokens, hscan, congrArg Prod.fst ht⟩

theorem pointsInto_iff (h : Scheme.parse src = .ok s) (hs : s.isMono = false)
    (hkind : e.kind = .unexpectedToken) (hoffset : e.offset = 0)
    (hfound : e.found = Token.Kind.forAll.describe) : e.PointsInto src ↔ ¬ src.StartsBlank := by
  obtain ⟨t, tokens, hscan, ht⟩ := exists_forAll_of_not_isMono h hs
  have htokens := Token.tokenize_eq_ok.2 hscan
  constructor
  · intro he hsrc
    obtain ⟨tokens', htokens', u, hu, hu', -⟩ := he.token (.inl hkind)
    obtain rfl := Except.ok.inj (htokens.symm.trans htokens')
    -- no token is at offset 0, not even the end
    have hpos := hsrc.pos_of_mem hscan hu
    omega
  · intro hsrc
    refine ParseError.pointsInto_of_mem htokens List.mem_cons_self (.inl hkind) ?_ ?_
    · rw [hoffset, Token.offset_of_scan_cons hscan hsrc]
      rfl
    · rw [hfound, Token.describe, ht]
      rfl

end Ty

theorem Expr.parse_error_pointsInto {src : Source} {e : ParseError} (h : Expr.parse src = .error e) :
    e.PointsInto src := by
  refine Stepper.pointsInto stepper_parses (fun hscan => ?_) h
  rw [parse, hscan]

theorem Scheme.parse_error_pointsInto {src : Source} {e : ParseError}
    (h : Scheme.parse src = .error e) : e.PointsInto src := by
  refine Stepper.pointsInto stepper_parses (fun hscan => ?_) h
  rw [parse, parseWith, hscan]

/-- Every error of a term or a scheme points at what it names, and every error of a type but that for a
quantified scheme with white space in front. -/
theorem parse_error_pointsInto_iff (src : Source) (e : ParseError) :
    (Expr.parse src = .error e → e.PointsInto src) ∧
    (Scheme.parse src = .error e → e.PointsInto src) ∧
    (Ty.parse src = .error e →
      (e.PointsInto src ↔ ¬ (src.StartsBlank ∧ ∃ s, Scheme.parse src = .ok s))) := by
  refine ⟨Expr.parse_error_pointsInto, Scheme.parse_error_pointsInto, fun h => ?_⟩
  rcases Ty.parse_eq_error h with hs | ⟨s, hs, hmono, hkind, hoffset, hfound⟩
  · refine ⟨fun _ hok => ?_, fun _ => Scheme.parse_error_pointsInto hs⟩
    obtain ⟨-, s, hok⟩ := hok
    rw [hs] at hok
    cases hok
  · rw [Ty.pointsInto_iff hs hmono hkind hoffset hfound]
    exact ⟨fun hblank hok => hblank hok.1, fun hok hblank => hok ⟨hblank, s, hs⟩⟩

/-- The `forall` is at offset 1, and the error says 0. -/
theorem Ty.parse_error_misses_forAll : ∃ e, Ty.parse (.ofString " forall a . a") = .error e ∧
    e.kind = .unexpectedToken ∧ ¬ e.PointsInto (.ofString " forall a . a") := by
  have ha : Token.ReadsAs "a" [(.ident, "a")] :=
    .word (w := "a") ⟨'a', [], rfl, by decide, rfl, by decide, rfl⟩
  have hforAll : Token.ReadsAs "forall" [(.forAll, "forall")] := .reserved rfl
  have hdot : Token.ReadsAs "." [(.dot, ".")] := Token.ReadsAs.sign (c := '.') (by decide) rfl
  have hsrc : Token.Reads (.ofString " forall a . a")
      [(.forAll, "forall"), (.ident, "a"), (.dot, "."), (.ident, "a")] :=
    (hforAll.spaced (ha.spaced (hdot.spaced ha))).space.reads
  have hd : Source.HasLexemes (.ofString " forall a . a")
      (Scheme.Tree.forAll "forall" "a" [] "." (.operand (.var "a"))).lexemes :=
    Token.hasLexemes_iff_reads.2 hsrc
  have hs := congrArg Prod.fst (Scheme.Tree.parseWith_eq {} hd)
  have hblank : Source.StartsBlank (.ofString " forall a . a") := ⟨' ', _, rfl, by decide⟩
  refine ⟨_, by rw [Ty.parse, Scheme.parse, hs]; rfl, rfl, ?_⟩
  rw [pointsInto_iff hs rfl rfl rfl rfl]
  exact fun h => h hblank

end LetPoly
