import LetPoly.Text.CharClass
import LetPoly.Text.Glyph
import LetPoly.Text.Letter
import LetPoly.Text.Upper
import LetPoly.Token.ParseError

/-!
# From sources to tokens

White space separates tokens and is dropped. A word starts with a letter or an underscore and goes
on for as long as letters, digits, underscores and apostrophes follow; `λ` is a sign of its own and
never part of a word. A word that is not reserved is a type constructor if it starts with an
upper-case letter, and an identifier otherwise. Anything else is one of the signs, or refused.
-/

namespace LetPoly

namespace Token

/-- The signs of a single character. -/
def sign? : Char → Option Kind
  | '.' => some .dot
  | 'λ' => some .lambda
  | '\\' => some .lambda
  | '∀' => some .forAll
  | '→' => some .arrow
  | '=' => some .equals
  | '(' => some .lparen
  | ')' => some .rparen
  | _ => none

/-- Whether a word can start with a character. -/
def startsWord (c : Char) : Bool := c == '_' || (c != 'λ' && Text.isLetter c)

/-- Whether a word can go on with a character. -/
def continuesWord (c : Char) : Bool := startsWord c || c == '\'' || Text.isDigit c

/-- The reserved words. -/
def reserved? : String → Option Kind
  | "lambda" => some .lambda
  | "let" => some .letKw
  | "in" => some .inKw
  | "forall" => some .forAll
  | "to" => some .arrow
  | _ => none

/-- The kind of a word whose first character is `first`. -/
def wordKind (first : Char) (word : String) : Kind :=
  match reserved? word with
  | some k => k
  | none => if Text.isUpper first then .capIdent else .ident

/-- The kind of the token that starts with the character `c`, and how many glyphs of what follows
belong to it. -/
def lexeme? (c : Char) (rest : Source) : Option (Kind × Nat) :=
  if let some k := sign? c then some (k, 0)
  else if c = '-' ∧ rest.head? = some (.char '>') then some (.arrow, 1)
  else if startsWord c then
    let word := rest.takeWhile (·.isChar continuesWord)
    some (wordKind c (Source.shown (.char c :: word)), word.length)
  else none

/-- The tokens of a source that starts at the given offset, and the error that ended the reading if
it did not reach the end. -/
def scan (offset : Nat) (src : Source) : List Token × Option ParseError :=
  match src with
  | [] => ([], none)
  | .stray b :: _ =>
    ([], some { kind := .invalidCharacter, offset, found := Source.shown [.stray b] })
  | .char c :: rest =>
    if Text.isBlank c then scan (offset + c.utf8Size) rest
    else
      match lexeme? c rest with
      | some (kind, n) =>
        let lexeme : Source := .char c :: rest.take n
        let (tokens, error) := scan (offset + lexeme.width) (rest.drop n)
        (⟨kind, lexeme.shown, offset⟩ :: tokens, error)
      | none => ([], some { kind := .invalidCharacter, offset, found := Source.shown [.char c] })
termination_by src.length
decreasing_by
  · simp
  · simp only [List.length_drop, List.length_cons]; omega

/-- The tokens of a source, the last one its end; or the error at which reading stopped, with the
tokens before it. -/
def tokenize (src : Source) : Except (ParseError × List Token) (List Token) :=
  match scan 0 src with
  | (tokens, none) => .ok (tokens ++ [endOfInput src.width])
  | (tokens, some e) => .error (e, tokens)

end Token

end LetPoly
