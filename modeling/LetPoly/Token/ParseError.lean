import LetPoly.Token.Basic

/-!
# Parse errors

A source is refused at a byte offset: at a character that starts no token, at a token that cannot
stand where it does, at the end of a source that should go on, or at the first token after a
complete text.
-/

namespace LetPoly

/-- Why a source was refused. -/
inductive ParseError.Kind where
  | unexpectedToken
  | unexpectedEnd
  | trailingTokens
  | invalidCharacter
deriving DecidableEq, Repr

/-- The refusal of a source: why and at which byte, what was found there, and what was expected
instead. A field that has no meaning for the kind is empty. -/
structure ParseError where
  kind : ParseError.Kind
  offset : Int
  found : String := ""
  expected : String := ""
deriving DecidableEq, Repr

namespace ParseError

/-- The wording of a parse error. -/
def message (e : ParseError) : String :=
  let location := " at offset " ++ toString e.offset
  match e.kind with
  | .unexpectedEnd => "unexpected end of input" ++ location ++ ", expected " ++ e.expected
  | .trailingTokens => "extra tokens at end of input" ++ location ++ ": " ++ e.found
  | .invalidCharacter => "invalid character '" ++ e.found ++ "'" ++ location
  | .unexpectedToken => "unexpected " ++ e.found ++ location ++ ", expected " ++ e.expected

/-- A token, or the end of input, where something else was expected. -/
def unexpected (t : Token) (expected : String) : ParseError :=
  if t.kind = .eof then { kind := .unexpectedEnd, offset := t.offset, expected }
  else { kind := .unexpectedToken, offset := t.offset, found := t.describe, expected }

/-- A token after a complete text. -/
def trailing (t : Token) : ParseError :=
  { kind := .trailingTokens, offset := t.offset, found := t.describe }

end ParseError

end LetPoly
