/-!
# Source text

A source is a sequence of bytes that is read as UTF-8. It is kept as the sequence of its glyphs: a
character, or a stray byte that belongs to no well-formed character. A stray byte counts as the
replacement character U+FFFD wherever a character is asked for, but it is one byte wide. Offsets
into a source count bytes.

A line of a source ends with a line feed; what is left after the last line feed is a line too, unless it
is empty.
-/

namespace LetPoly

/-- One character of a source, or one byte that is none. -/
inductive Glyph where
  | char (c : Char)
  | stray (byte : UInt8)
deriving DecidableEq, Repr

namespace Glyph

/-- The number of bytes. -/
def width : Glyph → Nat
  | char c => c.utf8Size
  | stray _ => 1

/-- The bytes. -/
def bytes : Glyph → List UInt8
  | char c => String.utf8EncodeChar c
  | stray b => [b]

/-- The character that is shown for a glyph. -/
def shown : Glyph → Char
  | char c => c
  | stray _ => '\ufffd'

/-- Whether a glyph is a character with a property. -/
def isChar (p : Char → Bool) : Glyph → Bool
  | char c => p c
  | stray _ => false

end Glyph

/-- A text in UTF-8 that need not be well formed. -/
abbrev Source := List Glyph

/-- A line, without its line feed, and whether it had one. -/
structure Line where
  text : Source
  ended : Bool
deriving DecidableEq

namespace Source

/-- The source with the characters of a string. -/
def ofString (s : String) : Source := s.toList.map .char

/-- The number of bytes. -/
def width (src : Source) : Nat := src.foldr (fun g n => g.width + n) 0

/-- The bytes. -/
def bytes (src : Source) : List UInt8 := src.flatMap Glyph.bytes

/-- The text that is shown for a source. -/
def shown (src : Source) : String := String.ofList (src.map Glyph.shown)

/-! ### Reading bytes -/

/-- The value of the last six bits of a continuation byte. -/
def continuation? (b : UInt8) : Option Nat :=
  if 0x80 ≤ b.toNat ∧ b.toNat < 0xC0 then some (b.toNat - 0x80) else none

/-- A character of `n` further bytes: `lead` is the value of the first byte, and `least` the
smallest code point that is not written in fewer bytes. -/
def sequence? (lead n least : Nat) (rest : List UInt8) : Option (Char × Nat) := do
  let tail ← (rest.take n).mapM continuation?
  let code := tail.foldl (fun value bits => value * 64 + bits) lead
  if tail.length = n ∧ least ≤ code ∧ code.isValidChar then some (Char.ofNat code, n) else none

/-- The character that starts with the byte `b`, and the number of bytes of `rest` it takes up. -/
def character? (b : UInt8) (rest : List UInt8) : Option (Char × Nat) :=
  let n := b.toNat
  if n < 0x80 then some (Char.ofNat n, 0)
  else if n < 0xC0 then none
  else if n < 0xE0 then sequence? (n - 0xC0) 1 0x80 rest
  else if n < 0xF0 then sequence? (n - 0xE0) 2 0x800 rest
  else if n < 0xF8 then sequence? (n - 0xF0) 3 0x10000 rest
  else none

/-- Reads bytes as UTF-8. A byte that starts no well-formed character is stray. -/
def ofBytes (bytes : List UInt8) : Source :=
  match bytes with
  | [] => []
  | b :: rest =>
    match character? b rest with
    | some (c, n) => .char c :: ofBytes (rest.drop n)
    | none => .stray b :: ofBytes rest
termination_by bytes.length
decreasing_by
  · simp only [List.length_drop, List.length_cons]; omega
  · simp

/-- Leaves out white space at both ends. -/
def trim (blank : Char → Bool) (src : Source) : Source :=
  let tail := src.dropWhile (·.isChar blank)
  (tail.reverse.dropWhile (·.isChar blank)).reverse

/-! ### Lines -/

/-- The lines of a source. -/
def lines : Source → List Line
  | [] => []
  | g :: rest =>
    if g = .char '\n' then ⟨[], true⟩ :: lines rest
    else
      match lines rest with
      | [] => [⟨[g], false⟩]
      | l :: ls => ⟨g :: l.text, l.ended⟩ :: ls

/-- A source without a carriage return at its end. -/
def dropReturn (src : Source) : Source :=
  if src.getLast? = some (.char '\r') then src.dropLast else src

end Source

end LetPoly
