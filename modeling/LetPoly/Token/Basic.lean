/-!
# Tokens

The words and signs that sources of terms and types are made of. Several spellings can stand for
one kind: `lambda`, `λ` and a backslash, `forall` and `∀`, `->`, `→` and `to`.
-/

namespace LetPoly

namespace Token

/-- The kinds of tokens. -/
inductive Kind where
  | eof
  | ident
  | capIdent
  | lambda
  | dot
  | letKw
  | inKw
  | equals
  | lparen
  | rparen
  | arrow
  | forAll
deriving DecidableEq, Repr

namespace Kind

/-- The kinds in the order of their codes. -/
def all : List Kind :=
  [eof, ident, capIdent, lambda, dot, letKw, inKw, equals, lparen, rparen, arrow, forAll]

/-- The code of a kind. -/
def code (k : Kind) : Nat := all.idxOf k

/-- How messages refer to a kind. -/
def describe : Kind → String
  | eof => "end of input"
  | ident => "identifier"
  | capIdent => "type constructor"
  | lambda => "'lambda'"
  | dot => "'.'"
  | letKw => "'let'"
  | inKw => "'in'"
  | equals => "'='"
  | lparen => "'('"
  | rparen => "')'"
  | arrow => "'->'"
  | forAll => "'forall'"

/-- How messages refer to the kind with a code. A code beyond the last kind is described by its
number; a negative one has no description. -/
def describeCode? (code : Int) : Option String :=
  if code < 0 then none
  else
    match all[code.toNat]? with
    | some k => some k.describe
    | none => some ("token(" ++ toString code ++ ")")

/-- Whether a kind is a name in a term: an identifier in either case. -/
def isName : Kind → Bool
  | ident | capIdent => true
  | _ => false

end Kind

end Token

/-- A token: its kind, the text it was read from, and the byte offset of that text. -/
structure Token where
  kind : Token.Kind
  text : String
  offset : Nat
deriving DecidableEq, Repr

namespace Token

/-- How messages refer to a token. -/
def describe (t : Token) : String :=
  if t.kind.isName then t.kind.describe ++ " '" ++ t.text ++ "'" else t.kind.describe

/-- The token at the end of a source of the given width. -/
def endOfInput (width : Nat) : Token := ⟨.eof, "", width⟩

end Token

end LetPoly
