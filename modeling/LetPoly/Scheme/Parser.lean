import LetPoly.Scheme.Basic
import LetPoly.Token.Lexer

/-!
# Parsing type schemes

The grammar of schemes, over tokens:

* `S ::= forall x x* . T | T`
* `T ::= P | P -> T`
* `P ::= C A* | x | ( T )`
* `A ::= x | C | ( T )`

with `x` an identifier and `C` a type constructor. As for terms, the parser reads one token after
the other, and its state is a point inside an unfinished type with the constructs around it.

Names of variables become numbers while the tokens are read. A quantified name gets a fresh number
in every scheme. A name that is not quantified gets a fresh number when it is met for the first
time, and keeps it in all schemes that are read with the same table of names. The numbers taken by
a source that is refused later on stay taken.

Every parser has a table, an empty one to begin with. One that was set up without any, so that it breaks
down at the first name that it would have to enter, is left out here.
-/

namespace LetPoly

/-- The numbers of the names that have been met, and the next number to give out. -/
structure NameTable where
  ids : List (String × TyVar) := []
  next : TyVar := 0
deriving DecidableEq, Repr

namespace NameTable

/-- The number of a name. -/
def find? (names : NameTable) (name : String) : Option TyVar := names.ids.lookup name

/-- Gives a name a number; an earlier one is forgotten. -/
def assign (names : NameTable) (name : String) (v : TyVar) : NameTable :=
  { names with ids := (name, v) :: names.ids.filter (·.1 != name) }

/-- Takes a number. -/
def advance (names : NameTable) : NameTable := { names with next := names.next.next }

/-- The number of a name, which takes a fresh one if it has none. -/
def intern (names : NameTable) (name : String) : TyVar × NameTable :=
  match names.find? name with
  | some v => (v, names)
  | none => (names.next, names.advance.assign name names.next)

end NameTable

namespace Scheme

/-- A construct whose last part is still being read. -/
inductive Frame where
  /-- After `from ->` -/
  | arrow (source : Ty)
  /-- After an opening parenthesis. -/
  | paren
  /-- After an opening parenthesis that starts an argument of a constructor. -/
  | argument (con : String) (args : List Ty)
deriving DecidableEq

/-- What has been read of the innermost construct. -/
inductive Point where
  /-- Nothing: a scheme must start here. -/
  | scheme
  /-- `forall` and the quantified names. -/
  | names
  /-- Nothing: a type must start here. -/
  | start
  /-- A constructor that can take further arguments. -/
  | spine (con : String) (args : List Ty)
  /-- A type that cannot be extended but by an arrow. -/
  | whole (t : Ty)
deriving DecidableEq

/-- The state of the parser between two tokens. -/
structure Reading where
  point : Point := .scheme
  frames : List Frame := []
  /-- The quantified names and their numbers. -/
  bound : List (String × TyVar) := []
  names : NameTable

namespace Reading

/-- Closes the arrows that end together with the type `t`. -/
def settle : List Frame → Ty → List Frame × Ty
  | .arrow a :: frames, t => settle frames (.arrow a t)
  | frames, t => (frames, t)

/-- The type that has been read since the innermost construct began, if there is one. -/
def operand? : Point → Option Ty
  | .spine con args => some (.app con args)
  | .whole t => some t
  | _ => none

/-- The type of a name: quantified, or looked up in the table. -/
def resolve (r : Reading) (name : String) : Ty × NameTable :=
  match r.bound.lookup name with
  | some v => (.var v, r.names)
  | none =>
    let (v, names) := r.names.intern name
    (.var v, names)

/-- Quantifies a name; repeating one changes nothing. -/
def quantify (r : Reading) (name : String) : Reading :=
  match r.bound.lookup name with
  | some _ => r
  | none =>
    { r with bound := r.bound ++ [(name, r.names.next)], names := r.names.advance }

/-- Starts a type with a token of the given kind and text. -/
def start? (r : Reading) (kind : Token.Kind) (text : String) : Option Reading :=
  match kind with
  | .capIdent => some { r with point := .spine text [] }
  | .ident =>
    let (t, names) := r.resolve text
    some { r with point := .whole t, names }
  | .lparen => some { r with point := .start, frames := .paren :: r.frames }
  | _ => none

/-- Goes on after a complete operand: with an arrow, or by closing a parenthesis. -/
def close? (r : Reading) (t : Ty) (kind : Token.Kind) : Option Reading :=
  match kind with
  | .arrow => some { r with point := .start, frames := .arrow t :: r.frames }
  | .rparen =>
    match settle r.frames t with
    | (.paren :: frames, t) => some { r with point := .whole t, frames }
    | (.argument con args :: frames, t) =>
      some { r with point := .spine con (args ++ [t]), frames }
    | _ => none
  | _ => none

/-- Goes on with a token of the given kind and text, if a scheme can. -/
def advance? (r : Reading) (kind : Token.Kind) (text : String) : Option Reading :=
  match r.point with
  | .scheme => if kind = .forAll then some { r with point := .names } else r.start? kind text
  | .names =>
    match kind with
    | .ident => some (r.quantify text)
    | .dot => if r.bound.isEmpty then none else some { r with point := .start }
    | _ => none
  | .start => r.start? kind text
  | .spine con args =>
    match kind with
    | .ident =>
      let (t, names) := r.resolve text
      some { r with point := .spine con (args ++ [t]), names }
    | .capIdent => some { r with point := .spine con (args ++ [.const text]) }
    | .lparen => some { r with point := .start, frames := .argument con args :: r.frames }
    | _ => r.close? (.app con args) kind
  | .whole t => r.close? t kind

/-- The scheme that has been read, if it is complete. -/
def complete? (r : Reading) : Option Scheme := do
  let t ← operand? r.point
  match settle r.frames t with
  | ([], t) => some (.forAll (r.bound.map Prod.snd) t)
  | _ => none

/-- The error for a token, or the end of input, with which no scheme goes on. -/
def refuse (r : Reading) (t : Token) : ParseError :=
  match operand? r.point with
  | some ty =>
    match settle r.frames ty with
    | ([], _) => .trailing t
    | _ => .unexpected t "')'"
  | none =>
    match r.point with
    | .names =>
      if r.bound.isEmpty then .unexpected t "a type-variable" else .unexpected t "'.'"
    | _ => .unexpected t "'(', a type constructor, or a type-variable"

end Reading

/-- Reads the rest of a scheme from tokens that are followed by the end of input, and returns the
table of names as it was left. -/
def parseFrom (r : Reading) (tokens : List Token) (eof : Token) :
    Except ParseError Scheme × NameTable :=
  match tokens with
  | [] =>
    match r.complete? with
    | some s => (.ok s, r.names)
    | none => (.error (r.refuse eof), r.names)
  | t :: ts =>
    match r.advance? t.kind t.text with
    | some r => parseFrom r ts eof
    | none => (.error (r.refuse t), r.names)

/-- Reads a scheme from a source, with the names met so far. -/
def parseWith (names : NameTable) (src : Source) : Except ParseError Scheme × NameTable :=
  match Token.scan 0 src with
  | (_, some e) => (.error e, names)
  | (tokens, none) => parseFrom { names } tokens (.endOfInput src.width)

/-- Reads a scheme from a source. -/
def parse (src : Source) : Except ParseError Scheme := (parseWith {} src).1

end Scheme

/-- Reads a type from a source: a scheme that quantifies nothing. -/
def Ty.parse (src : Source) : Except ParseError Ty := do
  let s ← Scheme.parse src
  if s.isMono then return s.body
  else
    .error { kind := .unexpectedToken, offset := 0, found := Token.Kind.forAll.describe,
             expected := "a monotype" }

end LetPoly
