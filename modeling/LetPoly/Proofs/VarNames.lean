import LetPoly.Proofs.Lexing
import LetPoly.TyVar

/-!
# Names of type variables

Quantified variables are named by their place, and the other ones by their number. Every such name of
a number that is not negative is a lower-case letter followed by digits, so it is an identifier: no
reserved word has a digit. The names of different places differ (`name_injective`), and so do those of
different numbers (`text_injective`). No place has the name of a number, since `t` is the name of a
place by itself only (`name_ne_text`).
-/

namespace LetPoly

namespace Token
variable {c : Char} {w : String} {ds : List Char}

theorem continuesWord_of_isDigit (h : c.isDigit = true) : continuesWord c = true := by
  have hrange : 48 ≤ c.toNat ∧ c.toNat ≤ 57 := by
    simpa [Char.isDigit, UInt32.le_iff_toNat_le] using h
  have hdigit : Text.isDigit c = true := by
    rw [Text.isDigit, Text.digitRanges, CodeRanges.covers]
    simp [hrange]
  rw [continuesWord, hdigit, Bool.or_true]

theorem reserved?_of_digits (hw : w.toList = c :: ds) (hds : ∀ d ∈ ds, d.isDigit = true) :
    reserved? w = none := by
  unfold reserved?
  split
  case h_6 => rfl
  all_goals
    -- the second character of a reserved word is a letter
    cases hw
    exact absurd (hds _ List.mem_cons_self) (by decide)

/-- A letter followed by digits is an identifier. -/
theorem isOne_of_digits (hc : c ∈ TyVar.letters) (hw : w.toList = c :: ds)
    (hds : ∀ d ∈ ds, d.isDigit = true) : IsOne .ident w := by
  have hall : (TyVar.letters.all fun c => decide (Text.isBlank c = false ∧ sign? c = none ∧
      startsWord c = true ∧ Text.isUpper c = false)) = true := by decide
  obtain ⟨hb, hs, hstart, hupper⟩ := of_decide_eq_true (List.all_eq_true.1 hall c hc)
  have hword : IsWord w :=
    ⟨c, ds, hw, hb, hs, hstart, List.all_eq_true.2 fun d hd => continuesWord_of_isDigit (hds d hd)⟩
  refine (isOne_iff rfl).2 ⟨hword, ?_⟩
  simp only [kindOf, hw, wordKind, reserved?_of_digits hw hds, hupper]
  rfl

end Token

namespace TyVar
variable {i j : Nat} {v w : TyVar}

/-! ### What names look like -/

theorem toList_toString (n : Nat) : (toString n).toList = Nat.toDigits 10 n := by
  rw [Nat.toString_eq_ofList_toDigits, String.toList_ofList]

theorem toDigits_inj {m n : Nat} (h : Nat.toDigits 10 m = Nat.toDigits 10 n) : m = n := by
  rw [← Nat.ofDigitChars_ten_toDigits (n := m), h, Nat.ofDigitChars_ten_toDigits]

theorem toList_name_of_lt (h : i < 26) : (name i).toList = [letters.getD i 'a'] := by
  rw [name, if_pos h, String.toList_singleton]

theorem toList_name_of_le (h : 26 ≤ i) :
    (name i).toList =
      countedLetters.getD ((i - 26) % 25) 'a' :: Nat.toDigits 10 ((i - 26) / 25 + 1) := by
  rw [name, if_neg (Nat.not_lt.2 h)]
  simp only [String.toList_append, String.toList_singleton, toList_toString, List.singleton_append]

theorem toList_text (h : 0 ≤ v) : (text v).toList = 't' :: Nat.toDigits 10 v.toInt.toNat := by
  have h : 0 ≤ v.toInt := Int64.le_iff_toInt_le.1 h
  have ht : toString v.toInt = toString v.toInt.toNat := by
    rw [Int.toString_eq_repr, Int.repr_eq_if, if_pos h]
    rfl
  rw [text, ht, String.toList_append, toList_toString]
  rfl

theorem toList_text_of_neg (h : v < 0) :
    (text v).toList = 't' :: '-' :: Nat.toDigits 10 (-v.toInt).toNat := by
  have h : ¬ 0 ≤ v.toInt := Int.not_le.2 (Int64.lt_iff_toInt_lt.1 h)
  have ht : toString v.toInt = "-" ++ toString (-v.toInt).toNat := by
    rw [Int.toString_eq_repr, Int.repr_eq_if, if_neg h]
    rfl
  rw [text, ht, String.toList_append, String.toList_append, toList_toString]
  rfl

theorem counted_mem (i : Nat) :
    countedLetters.getD (i % 25) 'a' ∈ letters ∧ countedLetters.getD (i % 25) 'a' ≠ 't' := by
  have h : ∀ j < 25, countedLetters.getD j 'a' ∈ letters ∧ countedLetters.getD j 'a' ≠ 't' := by
    decide
  exact h _ (Nat.mod_lt i (by decide))

theorem isOne_name (i : Nat) : Token.IsOne .ident (name i) := by
  by_cases h : i < 26
  · have hmem : ∀ i < 26, letters.getD i 'a' ∈ letters := by decide
    exact Token.isOne_of_digits (hmem i h) (toList_name_of_lt h) nofun
  · exact Token.isOne_of_digits (counted_mem _).1 (toList_name_of_le (Nat.not_lt.1 h))
      fun d hd => Nat.isDigit_of_mem_toDigits (by decide) (by decide) hd

theorem isOne_text (h : 0 ≤ v) : Token.IsOne .ident (text v) :=
  Token.isOne_of_digits (by decide) (toList_text h)
    fun d hd => Nat.isDigit_of_mem_toDigits (by decide) (by decide) hd

/-! ### Names differ -/

theorem name_ne_of_lt_of_le (hi : i < 26) (hj : 26 ≤ j) : name i ≠ name j := by
  intro h
  have := congrArg String.toList h
  rw [toList_name_of_lt hi, toList_name_of_le hj] at this
  exact Nat.toDigits_ne_nil (List.cons.inj this).2.symm

theorem name_injective : Function.Injective name := by
  intro i j h
  have hlist := congrArg String.toList h
  obtain hi | hi := Nat.lt_or_ge i 26 <;> obtain hj | hj := Nat.lt_or_ge j 26
  · rw [toList_name_of_lt hi, toList_name_of_lt hj] at hlist
    have hinj : ∀ i < 26, ∀ j < 26, letters.getD i 'a' = letters.getD j 'a' → i = j := by decide
    exact hinj i hi j hj (List.cons.inj hlist).1
  · exact absurd h (name_ne_of_lt_of_le hi hj)
  · exact absurd h.symm (name_ne_of_lt_of_le hj hi)
  · rw [toList_name_of_le hi, toList_name_of_le hj] at hlist
    obtain ⟨hletter, hdigits⟩ := List.cons.inj hlist
    have hinj : ∀ i < 25, ∀ j < 25,
        countedLetters.getD i 'a' = countedLetters.getD j 'a' → i = j := by decide
    have hmod := hinj _ (Nat.mod_lt (i - 26) (by decide)) _ (Nat.mod_lt (j - 26) (by decide)) hletter
    have hdiv := toDigits_inj hdigits
    omega

theorem text_ne_of_neg_of_nonneg (hv : v < 0) (hw : 0 ≤ w) : text v ≠ text w := by
  intro h
  have hlist := congrArg String.toList h
  rw [toList_text_of_neg hv, toList_text hw] at hlist
  -- the sign would be a digit
  have hdigit : '-' ∈ Nat.toDigits 10 w.toInt.toNat := (List.cons.inj hlist).2 ▸ List.mem_cons_self
  exact absurd (Nat.isDigit_of_mem_toDigits (by decide) (by decide) hdigit) (by decide)

theorem text_injective : Function.Injective text := by
  intro v w h
  have hlist := congrArg String.toList h
  rcases Int64.lt_or_le v 0 with hv | hv <;> rcases Int64.lt_or_le w 0 with hw | hw
  · rw [toList_text_of_neg hv, toList_text_of_neg hw] at hlist
    have hnat := toDigits_inj (List.cons.inj (List.cons.inj hlist).2).2
    have hv : v.toInt < 0 := Int64.lt_iff_toInt_lt.1 hv
    have hw : w.toInt < 0 := Int64.lt_iff_toInt_lt.1 hw
    exact Int64.toInt_inj.1 (by omega)
  · exact absurd h (text_ne_of_neg_of_nonneg hv hw)
  · exact absurd h.symm (text_ne_of_neg_of_nonneg hw hv)
  · rw [toList_text hv, toList_text hw] at hlist
    have hnat := toDigits_inj (List.cons.inj hlist).2
    have hv : 0 ≤ v.toInt := Int64.le_iff_toInt_le.1 hv
    have hw : 0 ≤ w.toInt := Int64.le_iff_toInt_le.1 hw
    exact Int64.toInt_inj.1 (by omega)

/-- `t` stands by itself for a place only, and in front of something for a number only. -/
theorem name_ne_text (i : Nat) (v : TyVar) : name i ≠ text v := by
  intro h
  have hlist := congrArg String.toList h
  obtain ⟨c, cs, htext⟩ : ∃ c cs, (text v).toList = 't' :: c :: cs := by
    rcases Int64.lt_or_le v 0 with hv | hv
    · exact ⟨'-', _, toList_text_of_neg hv⟩
    · obtain ⟨c, cs, hcs⟩ := List.exists_cons_of_ne_nil (Nat.toDigits_ne_nil (n := v.toInt.toNat))
      exact ⟨c, cs, by rw [toList_text hv, hcs]⟩
  rw [htext] at hlist
  rcases Nat.lt_or_ge i 26 with hi | hi
  · rw [toList_name_of_lt hi] at hlist
    exact absurd (List.cons.inj hlist).2 nofun
  · rw [toList_name_of_le hi] at hlist
    exact (counted_mem _).2 (List.cons.inj hlist).1

end TyVar

end LetPoly
