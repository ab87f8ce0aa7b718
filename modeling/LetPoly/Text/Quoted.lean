import LetPoly.Text.Printable

/-!
# Quoted text

A text in double quotes, in which every character that is not printable is written by its code
point, and the quote and the backslash are written after a backslash.
-/

namespace LetPoly

namespace Text

/-- A number in hexadecimal with at least the given number of digits. -/
def hex (width n : Nat) : String :=
  let digits := Nat.toDigits 16 n
  String.ofList (List.replicate (width - digits.length) '0' ++ digits)

/-- The written form of a character inside of quotes. -/
def quoteChar (c : Char) : String :=
  if c = '"' ∨ c = '\\' then "\\" ++ String.singleton c
  else if isPrintable c then String.singleton c
  else
    match c with
    | '\x07' => "\\a"
    | '\x08' => "\\b"
    | '\x0c' => "\\f"
    | '\n' => "\\n"
    | '\r' => "\\r"
    | '\t' => "\\t"
    | '\x0b' => "\\v"
    | c =>
      let n := c.toNat
      if n < 0x20 ∨ n = 0x7f then "\\x" ++ hex 2 n
      else if n < 0x10000 then "\\u" ++ hex 4 n
      else "\\U" ++ hex 8 n

/-- A text in quotes. -/
def quote (s : String) : String := "\"" ++ String.join (s.toList.map quoteChar) ++ "\""

end Text

end LetPoly
