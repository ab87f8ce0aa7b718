/-!
# Bytes written in base 64

Four digits of base 64 stand for three bytes. At the end one or two equals signs fill up four
places, and the digits before them stand for two bytes or one. Line ends do not count.
-/

namespace LetPoly

namespace Base64

/-- The value of a digit. -/
def digit? (c : Char) : Option Nat :=
  if 'A' ≤ c ∧ c ≤ 'Z' then some (c.toNat - 'A'.toNat)
  else if 'a' ≤ c ∧ c ≤ 'z' then some (c.toNat - 'a'.toNat + 26)
  else if '0' ≤ c ∧ c ≤ '9' then some (c.toNat - '0'.toNat + 52)
  else if c = '+' then some 62
  else if c = '/' then some 63
  else none

/-- The first `n` of the three bytes of a number of 24 bits. -/
def bytesOf (value n : Nat) : List UInt8 :=
  [(value / 65536).toUInt8, (value / 256).toUInt8, value.toUInt8].take n

/-- The number that digits give. -/
def number? (digits : List Char) : Option Nat := do
  let ds ← digits.mapM digit?
  some (ds.foldl (fun value d => value * 64 + d) 0)

/-- Reads groups of four digits. -/
def groups? : List Char → Option (List UInt8)
  | [] => some []
  | [a, b, '=', '='] => do some (bytesOf ((← number? [a, b]) * 4096) 1)
  | [a, b, c, '='] => do some (bytesOf ((← number? [a, b, c]) * 64) 2)
  | a :: b :: c :: d :: rest => do
    let value ← number? [a, b, c, d]
    some (bytesOf value 3 ++ (← groups? rest))
  | _ => none

/-- The bytes that a text stands for. -/
def decode? (text : String) : Option (List UInt8) :=
  groups? (text.toList.filter fun c => c != '\r' && c != '\n')

end Base64

end LetPoly
