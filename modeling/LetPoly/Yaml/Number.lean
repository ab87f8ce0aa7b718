/-!
# Numbers in YAML

Which plain texts are numbers. Underscores in a number do not count. An integer is written in base
ten, or in base two, eight or sixteen after `0b`, `0o` or `0x`, or in base eight after a zero, and
has at most 64 bits.
-/

namespace LetPoly

namespace Yaml

namespace Number

/-- The value of a digit in a base. -/
def digit? (base : Nat) (c : Char) : Option Nat :=
  let value :=
    if '0' ≤ c ∧ c ≤ '9' then c.toNat - '0'.toNat
    else if 'a' ≤ c ∧ c ≤ 'z' then c.toNat - 'a'.toNat + 10
    else if 'A' ≤ c ∧ c ≤ 'Z' then c.toNat - 'A'.toNat + 10
    else base
  if value < base then some value else none

/-- The number that digits in a base give. -/
def digits? (base : Nat) (cs : List Char) : Option Nat := do
  let ds ← cs.mapM (digit? base)
  if ds.isEmpty then none else some (ds.foldl (fun value d => value * base + d) 0)

/-- The number that digits give whose base is told from how they start. -/
def natural? : List Char → Option Nat
  | ['0'] => some 0
  | '0' :: 'b' :: cs | '0' :: 'B' :: cs => digits? 2 cs
  | '0' :: 'o' :: cs | '0' :: 'O' :: cs => digits? 8 cs
  | '0' :: 'x' :: cs | '0' :: 'X' :: cs => digits? 16 cs
  | '0' :: cs => digits? 8 cs
  | cs => digits? 10 cs

/-- Reads a number with or without a sign. -/
def signed? (natural? : List Char → Option Nat) : List Char → Option Int
  | '+' :: cs => (natural? cs).map Int.ofNat
  | '-' :: cs => (natural? cs).map fun n => -(Int.ofNat n)
  | cs => (natural? cs).map Int.ofNat

/-- Whether an integer has 64 bits with its sign. -/
def isWord (n : Int) : Bool :=
  let limit : Int := Nat.pow 2 63
  decide (-limit ≤ n ∧ n < limit)

/-- The number that follows a sign of its base. -/
def based? : List Char → Option Int
  | '0' :: 'b' :: cs => signed? (digits? 2) cs
  | '-' :: '0' :: 'b' :: cs => signed? (digits? 2) ('-' :: cs)
  | '0' :: 'o' :: cs => signed? (digits? 8) cs
  | '-' :: '0' :: 'o' :: cs => signed? (digits? 8) ('-' :: cs)
  | _ => none

/-- The characters that count. -/
def significant (text : String) : List Char := text.toList.filter (· != '_')

/-- Whether a number can start like a text. -/
def startsNumber (text : String) : Bool :=
  text.toList.head?.any fun c => c.isDigit || c == '+' || c == '-'

/-! ### Fractions -/

/-- Whether `digits` times a power of ten is too great for a floating-point number of 64 bits: at
least halfway from the greatest one to the next power of two. -/
def overflows (digits : Nat) (exponent : Int) : Bool :=
  let limit : Nat := Nat.pow 2 1024 - Nat.pow 2 970
  let places : Int := (Nat.toDigits 10 digits).length + exponent
  if digits = 0 || places < 300 then false
  else if 400 < places then true
  else if 0 ≤ exponent then limit ≤ digits * Nat.pow 10 exponent.toNat
  else limit * Nat.pow 10 (-exponent).toNat ≤ digits

/-- The value of an exponent, which is zero if nothing is written. -/
def exponent? : List Char → Option Int
  | [] => some 0
  | c :: cs => if c == 'e' || c == 'E' then signed? (digits? 10) cs else none

/-- Whether a text without a sign is a number with a point or an exponent, and not too great. -/
def isUnsignedFraction (cs : List Char) : Bool :=
  let whole := cs.takeWhile Char.isDigit
  let rest := cs.dropWhile Char.isDigit
  let (fraction, rest) := match rest with
    | '.' :: rest => (rest.takeWhile Char.isDigit, rest.dropWhile Char.isDigit)
    | rest => ([], rest)
  match digits? 10 (whole ++ fraction), exponent? rest with
  | some n, some e => !overflows n (e - fraction.length)
  | _, _ => false

/-- Whether a text is a number with or without a sign, a point and an exponent. -/
def isFraction : List Char → Bool
  | '+' :: cs | '-' :: cs => isUnsignedFraction cs
  | cs => isUnsignedFraction cs

/-- Whether every underscore stands between two digits. -/
def underscoresSeparate : List Char → Bool
  | a :: '_' :: b :: cs => a.isDigit && b.isDigit && underscoresSeparate (b :: cs)
  | '_' :: _ | [_, '_'] => false
  | _ :: cs => underscoresSeparate cs
  | [] => true

/-! ### Kinds of numbers -/

/-- What kind of number a text is. -/
inductive Kind where
  /-- An integer of 64 bits with its sign. -/
  | word
  /-- A greater integer of 64 bits without a sign. -/
  | natural
  | fraction
deriving DecidableEq

/-- The texts for what is no number and for what is infinite. -/
def special : List String :=
  [".nan", ".NaN", ".NAN", ".inf", ".Inf", ".INF", "+.inf", "+.Inf", "+.INF", "-.inf", "-.Inf",
    "-.INF"]

/-- The kind of number that a text is, if it is one. -/
def kind? (text : String) : Option Kind :=
  let cs := significant text
  if special.contains text then some .fraction
  else if text.startsWith "." then
    if isFraction cs && underscoresSeparate text.toList then some .fraction else none
  else if !startsNumber text then none
  else if (signed? natural? cs).any isWord then some .word
  else if (natural? cs).any (· < Nat.pow 2 64) then some .natural
  else if isFraction cs then some .fraction
  else if (based? cs).any isWord then some .word
  else none

end Number

end Yaml

end LetPoly
