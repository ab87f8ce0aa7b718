import LetPoly.Token.Lexer

/-!
# Reading texts as tokens

A lexeme is what a parser sees of a token: its kind and its text. `Token.Reads` says which lexemes a
source is read as, wherever it stands. A source can be put together from pieces: a sign, a blank or a
word may stand in front of any source that is read as some lexemes, but a word only if what follows
does not go on with it (`Source.Stops`).

`Token.IsWord` says which texts are words. Every name among the tokens of a source is one
(`isWord_of_mem_scan`), so it is read in the same way when it stands somewhere else.

Lexemes that occur in sources can be put together to a source of their own, in any order
(`exists_hasLexemes_iff`). Parsers see the lexemes of a source one by one (`runWith`), and refuse the
first that they cannot go on with (`driveWith`).
-/

namespace LetPoly

theorem takeWhile_append_stop {α : Type} {p : α → Bool} {l r : List α} (hl : ∀ a ∈ l, p a = true)
    (hr : ∀ a ∈ r.head?, p a = false) : (l ++ r).takeWhile p = l := by
  rw [List.takeWhile_append_of_pos hl]
  cases r with
  | nil => simp
  | cons a r => simp [hr a rfl]

namespace Source
variable {src : Source} {c : Char}

theorem ofString_append (s t : String) : ofString (s ++ t) = ofString s ++ ofString t := by
  rw [ofString, String.toList_append, List.map_append]
  rfl

theorem shown_ofString (s : String) : (ofString s).shown = s := by
  simp [ofString, shown, Glyph.shown, Function.comp_def]

theorem length_le_width (src : Source) : src.length ≤ src.width := by
  induction src with
  | nil => exact Nat.le_refl 0
  | cons g src ih =>
    have hg : 1 ≤ g.width := by
      cases g with
      | char c => exact c.utf8Size_pos
      | stray b => exact Nat.le_refl 1
    have hwidth : width (g :: src) = g.width + width src := rfl
    rw [List.length_cons, hwidth]
    omega

/-- No word goes on into the source. -/
def Stops (src : Source) : Prop := ∀ g ∈ src.head?, g.isChar Token.continuesWord = false

theorem stops_nil : Stops [] := nofun

theorem stops_cons (h : Token.continuesWord c = false) : Stops (.char c :: src) := by
  intro g hg
  obtain rfl := Option.some.inj hg
  exact h

end Source

namespace Token

/-- What a parser sees of a token. -/
abbrev Lexeme := Kind × String

/-- The lexeme of a token. -/
def lexeme (t : Token) : Lexeme := (t.kind, t.text)

/-- The source is read as the lexemes. -/
def Reads (src : Source) (ls : List Lexeme) : Prop :=
  ∀ offset, ∃ tokens, scan offset src = (tokens, none) ∧ tokens.map lexeme = ls

/-- The text is a word. -/
def IsWord (w : String) : Prop :=
  ∃ c cs, w.toList = c :: cs ∧ Text.isBlank c = false ∧ sign? c = none ∧ startsWord c = true ∧
    cs.all continuesWord = true

/-- The kind of a word. -/
def kindOf (w : String) : Kind :=
  match w.toList with
  | [] => .eof
  | c :: _ => wordKind c w

variable {src rest : Source} {ls : List Lexeme} {c : Char} {w : String} {k : Kind} {n : Nat}

/-! ### What a lexeme looks like -/

theorem takeWhile_word {cs : List Char} (hcs : cs.all continuesWord = true) (h : rest.Stops) :
    (cs.map Glyph.char ++ rest).takeWhile (·.isChar continuesWord) = cs.map Glyph.char := by
  refine takeWhile_append_stop (fun g hg => ?_) h
  obtain ⟨x, hx, rfl⟩ := List.mem_map.1 hg
  exact List.all_eq_true.1 hcs x hx

theorem ne_hyphen_of_startsWord (h : startsWord c = true) : c ≠ '-' := by
  rintro rfl
  revert h
  decide

theorem lexeme?_word {cs : List Char} (hs : sign? c = none) (hc : startsWord c = true)
    (hcs : cs.all continuesWord = true) (h : rest.Stops) :
    lexeme? c (cs.map .char ++ rest) = some (wordKind c (String.ofList (c :: cs)), cs.length) := by
  have hshown : Source.shown (.char c :: cs.map .char) = String.ofList (c :: cs) := by
    simp [Source.shown, Glyph.shown, Function.comp_def]
  rw [lexeme?, hs, if_neg fun h => ne_hyphen_of_startsWord hc h.1, if_pos hc]
  simp only [takeWhile_word hcs h, hshown, List.length_map]

theorem isWord_of_reserved? (h : reserved? w = some k) : IsWord w := by
  unfold reserved? at h
  split at h
  · exact ⟨'l', ['a', 'm', 'b', 'd', 'a'], rfl, by decide, rfl, by decide, by decide⟩
  · exact ⟨'l', ['e', 't'], rfl, by decide, rfl, by decide, by decide⟩
  · exact ⟨'i', ['n'], rfl, by decide, rfl, by decide, by decide⟩
  · exact ⟨'f', ['o', 'r', 'a', 'l', 'l'], rfl, by decide, rfl, by decide, by decide⟩
  · exact ⟨'t', ['o'], rfl, by decide, rfl, by decide, by decide⟩
  · cases h

theorem kindOf_of_reserved? (h : reserved? w = some k) : kindOf w = k := by
  obtain ⟨c, cs, hlist, -⟩ := isWord_of_reserved? h
  simp only [kindOf, hlist, wordKind, h]

theorem sign?_not_isName (h : sign? c = some k) : k.isName = false := by
  unfold sign? at h
  split at h <;> first | (cases h; rfl) | cases h

theorem take_takeWhile (src : Source) :
    src.take (src.takeWhile (·.isChar continuesWord)).length =
      src.takeWhile (·.isChar continuesWord) :=
  (List.prefix_iff_eq_take.1 (List.takeWhile_prefix _)).symm

theorem all_takeWhile_word (src : Source) :
    ((src.takeWhile (·.isChar continuesWord)).map Glyph.shown).all continuesWord = true := by
  rw [List.all_map, List.all_eq_true]
  intro g hg
  have hp := List.all_eq_true.1 List.all_takeWhile g hg
  cases g with
  | char c => exact hp
  | stray b => cases hp

theorem lexeme?_cases (h : lexeme? c rest = some (k, n)) :
    sign? c = some k ∧ n = 0 ∨
    sign? c = none ∧ c = '-' ∧ rest.head? = some (.char '>') ∧ k = .arrow ∧ n = 1 ∨
    sign? c = none ∧ startsWord c = true ∧
      k = wordKind c (Source.shown (.char c :: rest.takeWhile (·.isChar continuesWord))) ∧
      n = (rest.takeWhile (·.isChar continuesWord)).length := by
  unfold lexeme? at h
  cases hs : sign? c with
  | some k' =>
    rw [hs] at h
    cases h
    exact .inl ⟨rfl, rfl⟩
  | none =>
    simp only [hs] at h
    split at h
    · rename_i hc
      cases h
      exact .inr (.inl ⟨rfl, hc.1, hc.2, rfl, rfl⟩)
    · split at h
      · rename_i hc
        cases h
        exact .inr (.inr ⟨rfl, hc, rfl, rfl⟩)
      · cases h

/-- A name is a word to the last of its characters. -/
theorem isWord_of_lexeme? (hb : Text.isBlank c = false) (h : lexeme? c rest = some (k, n))
    (hk : k.isName = true) :
    IsWord (Source.shown (.char c :: rest.take n)) ∧
      kindOf (Source.shown (.char c :: rest.take n)) = k := by
  rcases lexeme?_cases h with ⟨hs, -⟩ | ⟨-, -, -, rfl, -⟩ | ⟨hs, hc, rfl, rfl⟩
  · rw [sign?_not_isName hs] at hk
    cases hk
  · cases hk
  · rw [take_takeWhile]
    have hlist : (Source.shown (.char c :: rest.takeWhile (·.isChar continuesWord))).toList =
        c :: (rest.takeWhile (·.isChar continuesWord)).map Glyph.shown := by
      rw [Source.shown, String.toList_ofList]
      rfl
    refine ⟨⟨c, _, hlist, hb, hs, hc, all_takeWhile_word rest⟩, ?_⟩
    rw [kindOf, hlist]

theorem ne_eof_of_lexeme? (h : lexeme? c rest = some (k, n)) : k ≠ .eof := by
  rcases lexeme?_cases h with ⟨hs, -⟩ | ⟨-, -, -, rfl, -⟩ | ⟨-, -, rfl, -⟩
  · rintro rfl
    unfold sign? at hs
    split at hs <;> cases hs
  · decide
  · intro hk
    unfold wordKind reserved? at hk
    split at hk
    · rename_i hr
      split at hr <;> cases hr <;> cases hk
    · split at hk <;> cases hk

theorem takeWhile_of_stops (h : src.Stops) : src.takeWhile (·.isChar continuesWord) = [] :=
  takeWhile_append_stop (List.forall_mem_nil _) h

theorem lexeme?_word_eq (hs : sign? c = none) (hc : startsWord c = true) (rest : Source) :
    lexeme? c rest =
      some (wordKind c (Source.shown (.char c :: rest.takeWhile (·.isChar continuesWord))),
        (rest.takeWhile (·.isChar continuesWord)).length) := by
  rw [lexeme?, hs, if_neg fun h => ne_hyphen_of_startsWord hc h.1, if_pos hc]

/-- What follows a token matters only if a word goes on into it. -/
theorem lexeme?_append (h : lexeme? c rest = some (k, n)) (hsrc : src.Stops) :
    lexeme? c (rest ++ src) = some (k, n) ∧ n ≤ rest.length := by
  rcases lexeme?_cases h with ⟨hs, rfl⟩ | ⟨hs, rfl, hhead, rfl, rfl⟩ | ⟨hs, hc, rfl, rfl⟩
  · exact ⟨by rw [lexeme?, hs], Nat.zero_le _⟩
  · cases rest with
    | nil => cases hhead
    | cons g rest =>
      refine ⟨?_, by simp⟩
      rw [lexeme?, hs, if_pos ⟨rfl, hhead⟩]
  · have htake : (rest ++ src).takeWhile (·.isChar continuesWord) =
        rest.takeWhile (·.isChar continuesWord) := by
      rw [List.takeWhile_append, takeWhile_of_stops hsrc, List.append_nil]
      split
      · rename_i hlength
        exact ((List.takeWhile_prefix _).eq_of_length hlength).symm
      · rfl
    refine ⟨?_, (List.takeWhile_prefix _).length_le⟩
    rw [lexeme?_word_eq hs hc, htake]

/-- A token is read in the same way if nothing follows it. -/
theorem lexeme?_take (h : lexeme? c rest = some (k, n)) : lexeme? c (rest.take n) = some (k, n) := by
  rcases lexeme?_cases h with ⟨hs, rfl⟩ | ⟨hs, rfl, hhead, rfl, rfl⟩ | ⟨hs, hc, rfl, rfl⟩
  · rw [lexeme?, hs]
  · have hhead' : (rest.take 1).head? = some (.char '>') := by
      rw [List.head?_take, if_neg (by decide), hhead]
    rw [lexeme?, hs, if_pos ⟨rfl, hhead'⟩]
  · have htake : (rest.takeWhile (·.isChar continuesWord)).takeWhile (·.isChar continuesWord) =
        rest.takeWhile (·.isChar continuesWord) := by
      have hall := List.all_eq_true.1 (@List.all_takeWhile _ (·.isChar continuesWord) rest)
      rw [← List.append_nil (rest.takeWhile (·.isChar continuesWord)),
        List.takeWhile_append_of_pos hall]
      rfl
    rw [take_takeWhile, lexeme?_word_eq hs hc, htake]

/-! ### Pieces of a source -/

theorem reads_nil : Reads [] [] := fun offset => ⟨[], by rw [scan], rfl⟩

theorem Reads.blank (h : Reads rest ls) (hc : Text.isBlank c = true) :
    Reads (.char c :: rest) ls := by
  intro offset
  obtain ⟨tokens, hscan, hls⟩ := h (offset + c.utf8Size)
  refine ⟨tokens, ?_, hls⟩
  rw [scan, if_pos hc, hscan]

theorem Reads.lexeme (hb : Text.isBlank c = false) (hl : lexeme? c rest = some (k, n))
    (h : Reads (rest.drop n) ls) :
    Reads (.char c :: rest) ((k, Source.shown (.char c :: rest.take n)) :: ls) := by
  intro offset
  obtain ⟨tokens, hscan, hls⟩ := h (offset + Source.width (.char c :: rest.take n))
  refine ⟨⟨k, Source.shown (.char c :: rest.take n), offset⟩ :: tokens, ?_, ?_⟩
  · rw [scan, if_neg (by simp [hb]), hl]
    simp only [hscan]
  · rw [List.map_cons, hls]
    rfl

theorem Reads.sign (h : Reads rest ls) (hb : Text.isBlank c = false) (hs : sign? c = some k) :
    Reads (.char c :: rest) ((k, String.singleton c) :: ls) := by
  have hl : lexeme? c rest = some (k, 0) := by rw [lexeme?, hs]
  exact Reads.lexeme hb hl h

theorem Reads.arrow (h : Reads rest ls) :
    Reads (.char '-' :: .char '>' :: rest) ((.arrow, "->") :: ls) := by
  have hl : lexeme? '-' (.char '>' :: rest) = some (.arrow, 1) := by
    rw [lexeme?]
    rfl
  exact Reads.lexeme (by decide) hl h

/-- A word in front of a source is its first token. -/
theorem scan_word (hw : IsWord w) (hrest : rest.Stops) (offset : Nat) :
    scan offset (.ofString w ++ rest) =
      (⟨kindOf w, w, offset⟩ :: (scan (offset + (Source.ofString w).width) rest).1,
        (scan (offset + (Source.ofString w).width) rest).2) := by
  obtain ⟨c, cs, hlist, hb, hs, hc, hcs⟩ := hw
  have hw : w = String.ofList (c :: cs) := by rw [← hlist, String.ofList_toList]
  have hsrc : Source.ofString w = .char c :: cs.map .char := by rw [Source.ofString, hlist]; rfl
  have hdrop : (cs.map Glyph.char ++ rest).drop cs.length = rest := by simp
  have htake : (cs.map Glyph.char ++ rest).take cs.length = cs.map .char := by simp
  have hkind : kindOf w = wordKind c (String.ofList (c :: cs)) := by rw [kindOf, hlist, hw]
  rw [hsrc, List.cons_append, scan, if_neg (by simp [hb]), lexeme?_word hs hc hcs hrest, ← hkind]
  simp only [hdrop, htake, ← hsrc, Source.shown_ofString]

theorem Reads.word (h : Reads rest ls) (hw : IsWord w) (hrest : rest.Stops) :
    Reads (.ofString w ++ rest) ((kindOf w, w) :: ls) := by
  intro offset
  obtain ⟨tokens, hscan, hls⟩ := h (offset + (Source.ofString w).width)
  refine ⟨⟨kindOf w, w, offset⟩ :: tokens, by rw [scan_word hw hrest, hscan], ?_⟩
  rw [List.map_cons, hls]
  rfl

/-! ### Blanks, keywords and parentheses -/

theorem stops_space (src : Source) : Source.Stops (.char ' ' :: src) := Source.stops_cons (by decide)

theorem Reads.space (h : Reads rest ls) : Reads (.char ' ' :: rest) ls := h.blank (by decide)

theorem Reads.lparen (h : Reads rest ls) : Reads (.char '(' :: rest) ((.lparen, "(") :: ls) :=
  h.sign (by decide) rfl

theorem Reads.rparen (h : Reads rest ls) : Reads (.char ')' :: rest) ((.rparen, ")") :: ls) :=
  h.sign (by decide) rfl

/-- Lexemes in parentheses. -/
def enclosed (ls : List Lexeme) : List Lexeme := (.lparen, "(") :: (ls ++ [(.rparen, ")")])

/-- A text that is read as some lexemes in front of every source that no word goes on into. -/
def ReadsAs (s : String) (ls : List Lexeme) : Prop :=
  ∀ (rest : Source) (ls' : List Lexeme), rest.Stops → Reads rest ls' →
    Reads (.ofString s ++ rest) (ls ++ ls')

theorem ReadsAs.word (hw : IsWord w) : ReadsAs w [(kindOf w, w)] :=
  fun _ _ hrest h => h.word hw hrest

theorem ReadsAs.reserved (h : reserved? w = some k) : ReadsAs w [(k, w)] :=
  kindOf_of_reserved? h ▸ ReadsAs.word (isWord_of_reserved? h)

theorem ReadsAs.nil : ReadsAs "" [] := fun _ _ _ h => h

theorem ReadsAs.sign (hb : Text.isBlank c = false) (hs : sign? c = some k) :
    ReadsAs (String.singleton c) [(k, String.singleton c)] := by
  intro rest ls' _ h
  have hsrc : Source.ofString (String.singleton c) = [.char c] := by simp [Source.ofString]
  rw [hsrc]
  exact h.sign hb hs

theorem ReadsAs.arrow : ReadsAs "->" [(.arrow, "->")] := fun _ _ _ h => h.arrow

/-- Two texts with nothing between them, of which the second does not go on with a word. -/
theorem ReadsAs.append {s t : String} {ls₁ ls₂ : List Lexeme} (hs : ReadsAs s ls₁)
    (ht : ReadsAs t ls₂) (hstop : ∀ rest : Source, rest.Stops → Source.Stops (.ofString t ++ rest)) :
    ReadsAs (s ++ t) (ls₁ ++ ls₂) := by
  intro rest ls' hrest h
  rw [Source.ofString_append, List.append_assoc, List.append_assoc]
  exact hs _ _ (hstop rest hrest) (ht _ _ hrest h)

theorem ReadsAs.space {s : String} (h : ReadsAs s ls) : ReadsAs (" " ++ s) ls := by
  intro rest ls' hrest h'
  rw [Source.ofString_append, List.append_assoc]
  exact (h _ _ hrest h').space

theorem stops_space_append (t : String) (rest : Source) :
    Source.Stops (.ofString (" " ++ t) ++ rest) := by
  rw [Source.ofString_append, List.append_assoc]
  exact stops_space _

/-- Two texts with a blank between them. -/
theorem ReadsAs.spaced {s t : String} {ls₁ ls₂ : List Lexeme} (hs : ReadsAs s ls₁)
    (ht : ReadsAs t ls₂) : ReadsAs (s ++ " " ++ t) (ls₁ ++ ls₂) := by
  rw [String.append_assoc]
  exact hs.append ht.space fun rest _ => stops_space_append t rest

theorem ReadsAs.enclosed {s : String} (h : ReadsAs s ls) :
    ReadsAs ("(" ++ s ++ ")") (Token.enclosed ls) := by
  intro rest ls' _ hrest
  rw [Token.enclosed, List.cons_append, List.append_assoc, Source.ofString_append,
    Source.ofString_append, List.append_assoc, List.append_assoc]
  exact (h _ _ (Source.stops_cons (by decide)) hrest.rparen).lparen

theorem ReadsAs.reads {s : String} (h : ReadsAs s ls) : Reads (.ofString s) ls := by
  have := h _ _ Source.stops_nil reads_nil
  rwa [List.append_nil, List.append_nil] at this

/-! ### Tokens of a source -/

theorem length_scan_le (offset : Nat) (src : Source) : (scan offset src).1.length ≤ src.length := by
  fun_induction scan offset src with
  | case1 => exact Nat.le_refl 0
  | case2 => exact Nat.zero_le _
  | case3 offset c rest hb ih => exact Nat.le_succ_of_le ih
  | case4 offset c rest hb k n hl lexeme tokens error hscan ih =>
    simp only [hscan, List.length_drop] at ih
    simp only [List.length_cons]
    omega
  | case5 => exact Nat.zero_le _

theorem exists_lexeme?_of_mem_scan {offset : Nat} {t : Token} (h : t ∈ (scan offset src).1) :
    ∃ c rest n, Text.isBlank c = false ∧ lexeme? c rest = some (t.kind, n) ∧
      t.text = Source.shown (.char c :: rest.take n) := by
  fun_induction scan offset src with
  | case1 => cases h
  | case2 => cases h
  | case3 offset c rest hb ih => exact ih h
  | case4 offset c rest hb k n hl lexeme tokens error hscan ih =>
    rcases List.mem_cons.1 h with rfl | h
    · exact ⟨c, rest, n, by simpa using hb, hl, rfl⟩
    · exact ih (by rwa [hscan])
  | case5 => cases h

/-- Every name among the tokens of a source is a word of its kind. -/
theorem isWord_of_mem_scan {offset : Nat} {t : Token} (h : t ∈ (scan offset src).1)
    (ht : t.kind.isName = true) : IsWord t.text ∧ kindOf t.text = t.kind := by
  obtain ⟨c, rest, n, hb, hl, htext⟩ := exists_lexeme?_of_mem_scan h
  rw [htext]
  exact isWord_of_lexeme? hb hl ht

theorem ne_eof_of_mem_scan {offset : Nat} {t : Token} (h : t ∈ (scan offset src).1) :
    t.kind ≠ .eof := by
  obtain ⟨c, rest, n, -, hl, -⟩ := exists_lexeme?_of_mem_scan h
  exact ne_eof_of_lexeme? hl

theorem tokenize_eq_ok {src : Source} {tokens : List Token} :
    tokenize src = .ok (tokens ++ [.endOfInput src.width]) ↔ scan 0 src = (tokens, none) := by
  unfold tokenize
  constructor
  · intro h
    split at h
    · rename_i tokens' hscan
      rw [hscan, List.append_cancel_right (Except.ok.inj h)]
    · cases h
  · intro h
    rw [h]

end Token

/-- The source is made of tokens with these lexemes. -/
def Source.HasLexemes (src : Source) (ls : List Token.Lexeme) : Prop :=
  ∃ tokens, Token.tokenize src = .ok (tokens ++ [.endOfInput src.width]) ∧
    tokens.map Token.lexeme = ls

theorem Source.hasLexemes_iff {src : Source} {ls : List Token.Lexeme} :
    src.HasLexemes ls ↔ ∃ tokens, Token.scan 0 src = (tokens, none) ∧ tokens.map Token.lexeme = ls := by
  simp only [HasLexemes, Token.tokenize_eq_ok]

theorem Source.HasLexemes.unique {src : Source} {ls ls' : List Token.Lexeme} (h : src.HasLexemes ls)
    (h' : src.HasLexemes ls') : ls = ls' := by
  obtain ⟨tokens, hscan, rfl⟩ := hasLexemes_iff.1 h
  obtain ⟨tokens', hscan', rfl⟩ := hasLexemes_iff.1 h'
  rw [(Prod.mk.inj (hscan.symm.trans hscan')).1]

theorem Source.HasLexemes.length_le {src : Source} {ls : List Token.Lexeme} (h : src.HasLexemes ls) :
    ls.length ≤ src.width := by
  obtain ⟨tokens, hscan, rfl⟩ := hasLexemes_iff.1 h
  have hlength := Token.length_scan_le 0 src
  rw [hscan] at hlength
  rw [List.length_map]
  exact Nat.le_trans hlength src.length_le_width

namespace Token
variable {src rest : Source} {ls : List Lexeme} {w : String} {k : Kind}

/-- The whole text is one token, of the given kind. -/
def IsOne (k : Kind) (w : String) : Prop :=
  tokenize (.ofString w) = .ok [⟨k, w, 0⟩, .endOfInput (Source.ofString w).width]

theorem isOne_iff (hk : k.isName = true) : IsOne k w ↔ IsWord w ∧ kindOf w = k := by
  unfold IsOne tokenize
  constructor
  · intro h
    split at h
    · rename_i tokens hscan
      have htokens : tokens = [⟨k, w, 0⟩] := List.append_cancel_right (Except.ok.inj h)
      have hmem : (⟨k, w, 0⟩ : Token) ∈ (scan 0 (.ofString w)).1 := by
        rw [hscan, htokens]
        exact List.mem_singleton_self _
      exact isWord_of_mem_scan hmem hk
    · cases h
  · rintro ⟨hw, rfl⟩
    have hscan := scan_word hw Source.stops_nil 0
    rw [List.append_nil] at hscan
    rw [hscan, scan]
    rfl

theorem ReadsAs.one (hk : k.isName = true) (h : IsOne k w) : ReadsAs w [(k, w)] := by
  obtain ⟨hw, rfl⟩ := (isOne_iff hk).1 h
  exact ReadsAs.word hw

/-! ### Sources put together -/

theorem reads_append_of_scan {offset : Nat} {tokens : List Token} {ls' : List Lexeme}
    (h : scan offset src = (tokens, none)) (hstop : rest.Stops) (hrest : Reads rest ls') :
    Reads (src ++ rest) (tokens.map lexeme ++ ls') := by
  fun_induction scan offset src generalizing tokens with
  | case1 =>
    cases h
    exact hrest
  | case2 => cases h
  | case3 offset c src hb ih => exact (ih h).blank hb
  | case4 offset c src hb k n hl lex ts error hscan =>
    rename_i ih
    obtain ⟨rfl, rfl⟩ := Prod.mk.inj h
    obtain ⟨hl', hn⟩ := lexeme?_append hl hstop
    have htail : Reads ((src ++ rest).drop n) (ts.map lexeme ++ ls') := by
      rw [List.drop_append_of_le_length hn]
      exact ih hscan
    have hread := Reads.lexeme (by simpa using hb) hl' htail
    rwa [List.take_append_of_le_length hn] at hread
  | case5 => cases h

theorem hasLexemes_iff_reads : src.HasLexemes ls ↔ Reads src ls := by
  rw [Source.hasLexemes_iff]
  constructor
  · rintro ⟨tokens, hscan, rfl⟩
    have h := reads_append_of_scan hscan Source.stops_nil reads_nil
    rwa [List.append_nil, List.append_nil] at h
  · exact fun h => h 0

/-- Some source consists of this lexeme. -/
def Spellable (l : Lexeme) : Prop := ∃ src : Source, src.HasLexemes [l]

theorem spellable_of_mem_scan {offset : Nat} {t : Token} (h : t ∈ (scan offset src).1) :
    Spellable t.lexeme := by
  obtain ⟨c, rest, n, hb, hl, htext⟩ := exists_lexeme?_of_mem_scan h
  have hdrop : (rest.take n).drop n = [] := by simp
  have hread := Reads.lexeme hb (lexeme?_take hl) (hdrop ▸ reads_nil)
  rw [List.take_take, Nat.min_self, ← htext] at hread
  exact ⟨_, hasLexemes_iff_reads.2 hread⟩

theorem exists_hasLexemes_append {src' : Source} {ls' : List Lexeme} (h : src.HasLexemes ls)
    (h' : src'.HasLexemes ls') : ∃ src'' : Source, src''.HasLexemes (ls ++ ls') := by
  obtain ⟨tokens, hscan, rfl⟩ := Source.hasLexemes_iff.1 h
  have hread := reads_append_of_scan hscan (stops_space src') (hasLexemes_iff_reads.1 h').space
  exact ⟨_, hasLexemes_iff_reads.2 hread⟩

theorem exists_hasLexemes_iff : (∃ src : Source, src.HasLexemes ls) ↔ ∀ l ∈ ls, Spellable l := by
  constructor
  · rintro ⟨src, h⟩ l hl
    obtain ⟨tokens, hscan, rfl⟩ := Source.hasLexemes_iff.1 h
    obtain ⟨t, ht, rfl⟩ := List.mem_map.1 hl
    have ht : t ∈ (scan 0 src).1 := by rwa [hscan]
    exact spellable_of_mem_scan ht
  · intro h
    induction ls with
    | nil => exact ⟨[], hasLexemes_iff_reads.2 reads_nil⟩
    | cons l ls ih =>
      obtain ⟨src, hsrc⟩ := h l List.mem_cons_self
      obtain ⟨src', hsrc'⟩ := ih fun l' hl' => h l' (List.mem_cons_of_mem l hl')
      exact exists_hasLexemes_append hsrc hsrc'

/-! ### Reading lexemes one by one -/

section Run
variable {σ α : Type} {advance : σ → Kind → String → Option σ} {complete : σ → Option α}
  {refuse : σ → Token → ParseError} {r r' : σ} {ls : List Lexeme} {tokens : List Token} {eof : Token}

/-- The state that `advance` comes to with lexemes, if it can go on with each of them. -/
def runWith (advance : σ → Kind → String → Option σ) (r : σ) : List Lexeme → Option σ
  | [] => some r
  | (k, x) :: ls => (advance r k x).bind (runWith advance · ls)

theorem runWith_append (h : runWith advance r ls = some r') (ls' : List Lexeme) :
    runWith advance r (ls ++ ls') = runWith advance r' ls' := by
  induction ls generalizing r with
  | nil =>
    cases h
    rfl
  | cons l ls ih =>
    obtain ⟨r₁, hr₁, h⟩ := Option.bind_eq_some_iff.1 h
    rw [List.cons_append, runWith, hr₁]
    exact ih h

theorem exists_runWith_of_append {ls' : List Lexeme} (h : runWith advance r (ls ++ ls') = some r') :
    ∃ r₁, runWith advance r ls = some r₁ := by
  induction ls generalizing r with
  | nil => exact ⟨r, rfl⟩
  | cons l ls ih =>
    obtain ⟨r₁, hr₁, h⟩ := Option.bind_eq_some_iff.1 h
    rw [runWith, hr₁]
    exact ih h

/-- What comes of reading tokens that are followed by the end of input: the text is refused at the first
token with which `advance` does not go on, or at the end if it is not complete there. -/
def driveWith (advance : σ → Kind → String → Option σ) (complete : σ → Option α)
    (refuse : σ → Token → ParseError) (r : σ) : List Token → Token → Except ParseError α
  | [], eof => (complete r).elim (.error (refuse r eof)) .ok
  | t :: ts, eof =>
    (advance r t.kind t.text).elim (.error (refuse r t)) (driveWith advance complete refuse · ts eof)

theorem driveWith_eq_ok {a : α} : driveWith advance complete refuse r tokens eof = .ok a ↔
    ∃ r', runWith advance r (tokens.map lexeme) = some r' ∧ complete r' = some a := by
  induction tokens generalizing r with
  | nil =>
    rw [driveWith, List.map_nil, runWith]
    cases h : complete r <;> simp [h]
  | cons t ts ih =>
    rw [driveWith, List.map_cons, lexeme, runWith]
    cases advance r t.kind t.text with
    | none => simp
    | some r' => exact ih

theorem driveWith_eq_error {e : ParseError}
    (h : driveWith advance complete refuse r tokens eof = .error e) :
    (∃ r', runWith advance r (tokens.map lexeme) = some r' ∧ complete r' = none ∧ e = refuse r' eof) ∨
    ∃ ts t ts' r', tokens = ts ++ t :: ts' ∧ runWith advance r (ts.map lexeme) = some r' ∧
      advance r' t.kind t.text = none ∧ e = refuse r' t := by
  induction tokens generalizing r with
  | nil =>
    rw [driveWith] at h
    cases hr : complete r with
    | none =>
      rw [hr] at h
      cases h
      exact .inl ⟨r, rfl, hr, rfl⟩
    | some a =>
      rw [hr] at h
      cases h
  | cons t tokens ih =>
    rw [driveWith] at h
    cases hr : advance r t.kind t.text with
    | none =>
      rw [hr] at h
      cases h
      exact .inr ⟨[], t, tokens, r, rfl, rfl, hr, rfl⟩
    | some r₁ =>
      rw [hr] at h
      rcases ih h with ⟨r', hrun, hr'⟩ | ⟨ts, u, ts', r', rfl, hrun, hr'⟩
      · refine .inl ⟨r', ?_, hr'⟩
        rw [List.map_cons, lexeme, runWith, hr]
        exact hrun
      · refine .inr ⟨t :: ts, u, ts', r', rfl, ?_, hr'⟩
        rw [List.map_cons, lexeme, runWith, hr]
        exact hrun

/-- What every step keeps is kept by a run. -/
theorem runWith_invariant {P : σ → Prop}
    (hstep : ∀ r k x r', (k, x) ∈ ls → P r → advance r k x = some r' → P r')
    (hr : P r) (h : runWith advance r ls = some r') : P r' := by
  induction ls generalizing r with
  | nil =>
    cases h
    exact hr
  | cons l ls ih =>
    obtain ⟨r₁, hr₁, h⟩ := Option.bind_eq_some_iff.1 h
    refine ih (fun r k x r' hl => hstep r k x r' (List.mem_cons_of_mem l hl)) ?_ h
    exact hstep r l.1 l.2 r₁ List.mem_cons_self hr hr₁

end Run

end Token

end LetPoly
