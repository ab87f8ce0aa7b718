import LetPoly.Expr.Basic
import LetPoly.Token.Lexer

/-!
# Parsing expressions

The grammar of terms, over tokens:

* `E ::= lambda x . E | let x = E in E | A A*`
* `A ::= x | ( E )`

The parser reads one token after the other. Between tokens its state is a point inside an
unfinished term: what is expected next (`Point`), and the unfinished constructs around it, from the
inside out (`Frame`). An abstraction and a `let` body end where the term around them ends, so their
frames are closed together when a token comes that cannot extend the application in hand
(`Reading.settle`). A token is refused exactly when no term could go on with it.
-/

namespace LetPoly

namespace Expr

/-- A construct whose last part is still being read. -/
inductive Frame where
  /-- After `lambda x .` -/
  | lambda (param : String)
  /-- After `let x =` -/
  | value (name : String)
  /-- After `let x = value in` -/
  | body (name : String) (value : Expr)
  /-- After an opening parenthesis, which follows the callee if there is one. -/
  | paren (callee : Option Expr)
deriving DecidableEq, Repr

/-- What has been read of the innermost construct. -/
inductive Point where
  /-- Nothing: a term must start here. -/
  | start
  /-- `lambda` -/
  | lambda
  /-- `lambda x` -/
  | param (name : String)
  /-- `let` -/
  | letKw
  /-- `let x` -/
  | name (name : String)
  /-- An application that can take further arguments. -/
  | spine (e : Expr)
deriving DecidableEq, Repr

/-- The state of the parser between two tokens. -/
structure Reading where
  point : Point := .start
  frames : List Frame := []
deriving DecidableEq, Repr

namespace Reading

/-- Closes the constructs that end together with the term `e`. -/
def settle : List Frame → Expr → List Frame × Expr
  | .lambda x :: frames, e => settle frames (.func x e)
  | .body x v :: frames, e => settle frames (.letIn x v e)
  | frames, e => (frames, e)

/-- The application of a callee, if there is one, to an argument. -/
def applied (callee : Option Expr) (e : Expr) : Expr :=
  match callee with
  | some f => .call f e
  | none => e

/-- Goes on with a token of the given kind and text, if a term can. -/
def advance? (r : Reading) (kind : Token.Kind) (text : String) : Option Reading :=
  match r.point, kind with
  | .start, .lambda => some { r with point := .lambda }
  | .start, .letKw => some { r with point := .letKw }
  | .start, .lparen => some ⟨.start, .paren none :: r.frames⟩
  | .start, .ident | .start, .capIdent => some { r with point := .spine (.var text) }
  | .lambda, .ident | .lambda, .capIdent => some { r with point := .param text }
  | .param x, .dot => some ⟨.start, .lambda x :: r.frames⟩
  | .letKw, .ident | .letKw, .capIdent => some { r with point := .name text }
  | .name x, .equals => some ⟨.start, .value x :: r.frames⟩
  | .spine e, .ident | .spine e, .capIdent =>
    some { r with point := .spine (.call e (.var text)) }
  | .spine e, .lparen => some ⟨.start, .paren (some e) :: r.frames⟩
  | .spine e, .inKw =>
    match settle r.frames e with
    | (.value x :: frames, v) => some ⟨.start, .body x v :: frames⟩
    | _ => none
  | .spine e, .rparen =>
    match settle r.frames e with
    | (.paren callee :: frames, e) => some ⟨.spine (applied callee e), frames⟩
    | _ => none
  | _, _ => none

/-- The term that has been read, if it is complete. -/
def complete? (r : Reading) : Option Expr :=
  match r.point with
  | .spine e =>
    match settle r.frames e with
    | ([], e) => some e
    | _ => none
  | _ => none

/-- The error for a token, or the end of input, with which no term goes on. -/
def refuse (r : Reading) (t : Token) : ParseError :=
  match r.point with
  | .start => .unexpected t "'lambda', 'let', '(', or a variable"
  | .lambda | .letKw => .unexpected t "a variable"
  | .param _ => .unexpected t "'.'"
  | .name _ => .unexpected t "'='"
  | .spine e =>
    match settle r.frames e with
    | (.value _ :: _, _) => .unexpected t "'in'"
    | (.paren _ :: _, _) => .unexpected t "')'"
    | _ => .trailing t

end Reading

/-- Reads the rest of a term from tokens that are followed by the end of input. -/
def parseFrom (r : Reading) (tokens : List Token) (eof : Token) : Except ParseError Expr :=
  match tokens with
  | [] =>
    match r.complete? with
    | some e => .ok e
    | none => .error (r.refuse eof)
  | t :: ts =>
    match r.advance? t.kind t.text with
    | some r => parseFrom r ts eof
    | none => .error (r.refuse t)

/-- Reads a term from a source. -/
def parse (src : Source) : Except ParseError Expr :=
  match Token.scan 0 src with
  | (_, some e) => .error e
  | (tokens, none) => parseFrom {} tokens (.endOfInput src.width)

end Expr

end LetPoly
