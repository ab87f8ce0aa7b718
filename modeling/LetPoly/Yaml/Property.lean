import LetPoly.Yaml.Scalar

/-!
# Anchors, tags and directives of YAML

A node may have a name, given with `&` and used again with `*`, and a tag, given with `!`. A tag is
written in full between angle brackets, or as a handle and a suffix; directives in front of a
document say what its handles stand for.
-/

namespace LetPoly

namespace Yaml

/-- A directive in front of a document. -/
inductive Directive where
  /-- The version of YAML. -/
  | version (major minor : Nat)
  /-- What a tag handle stands for. -/
  | handle (handle lead : String)
deriving DecidableEq, Repr

namespace Scan

/-! ### Anchors -/

/-- Reads the name of an anchor or alias from its indicator on. -/
def anchorName : Scan String := do
  skip
  let name ← readWhile isNameChar
  let c ← char
  if name.isEmpty || !(isGap c || "?:,]\x7d%@\x60".contains c) then failure
  return name

/-! ### Tags -/

/-- Reads a byte written as a percent sign and two hexadecimal digits. -/
def octet : Scan Nat := do
  need 3
  match (← char), hexDigit? (← charAt 1), hexDigit? (← charAt 2) with
  | '%', some a, some b =>
    skip
    skip
    skip
    return a * 16 + b
  | _, _, _ => failure

/-- The number of bytes of a character that starts with the given byte. -/
def octetCount? (n : Nat) : Option Nat :=
  if n < 0x80 then some 1
  else if n < 0xC0 then none
  else if n < 0xE0 then some 2
  else if n < 0xF0 then some 3
  else if n < 0xF8 then some 4
  else none

/-- Reads the bytes of one character written with percent signs. A byte is kept as the character
of its number. -/
def uriEscape : Scan String := do
  let first ← octet
  let some n := octetCount? first | failure
  let tail ← (List.range (n - 1)).mapM fun _ => do
    let next ← octet
    if 0x80 ≤ next && next < 0xC0 then return Char.ofNat next else failure
  return String.ofList (Char.ofNat first :: tail)

/-- Whether a character may stand in the text of a tag. -/
def isUriChar (c : Char) : Bool := isNameChar c || ";/?:@&=+$,.!~*'()[]%".contains c

/-- Reads the text of a tag on from what has been read of it. -/
def uri (text : String) : Scan String := do
  need 1
  repeatFrom text fun text => do
    let c ← char
    if !isUriChar c then return .inr text
    let more ← if c == '%' then uriEscape else (do pure (← read).toString)
    need 1
    return .inl (text ++ more)

/-- Reads the text of a tag, which must not be empty. -/
def someUri : Scan String := do
  let text ← uri ""
  if text.isEmpty then failure
  return text

/-- Reads a tag handle, or what might have been one. -/
def tagHandle : Scan String := do
  need 1
  if (← char) != '!' then failure
  skip
  let name ← readWhile isNameChar
  if (← char) == '!' then
    skip
    return "!" ++ name ++ "!"
  else return "!" ++ name

/-- Whether a text that was read as a handle is one that needs a suffix. -/
def isFullHandle (handle : String) : Bool := 1 < handle.length && handle.endsWith "!"

/-- Reads a tag as its handle and its suffix. The handle of a tag written in full is empty, and so
is that of the tag `!`. -/
def tag : Scan (String × String) := do
  need 2
  let (handle, suffix) ← do
    if (← charAt 1) == '<' then
      skip
      skip
      let suffix ← someUri
      if (← char) != '>' then failure
      skip
      pure ("", suffix)
    else
      let handle ← tagHandle
      if isFullHandle handle then pure (handle, ← someUri)
      else
        let suffix ← uri (handle.drop 1).toString
        pure (if suffix.isEmpty then ("", "!") else ("!", suffix))
  need 1
  if !isGap (← char) then failure
  return (handle, suffix)

/-! ### Directives -/

/-- Reads a number of a version, which has at most two digits. -/
def versionNumber : Scan Nat := do
  let digits ← readWhile Char.isDigit
  if digits.isEmpty || 2 < digits.length then failure
  return digits.foldl (fun n c => n * 10 + (c.toNat - '0'.toNat)) 0

/-- Reads what a directive of the given name says. -/
def directiveValue (name : String) : Scan Directive := do
  skipWhile isBlank
  match name with
  | "YAML" =>
    let major ← versionNumber
    if (← char) != '.' then failure
    skip
    return .version major (← versionNumber)
  | "TAG" =>
    let handle ← tagHandle
    if handle != "!" && !isFullHandle handle then failure
    need 1
    if !isBlank (← char) then failure
    skipWhile isBlank
    let lead ← someUri
    if !isGap (← char) then failure
    return .handle handle lead
  | _ => failure

/-- Reads a directive from its percent sign on, with the rest of its line, which may only hold a
comment. -/
def directive : Scan Directive := do
  skip
  let name ← readWhile isNameChar
  if name.isEmpty || !isGap (← char) then failure
  let d ← directiveValue name
  skipWhile isBlank
  if (← char) == '#' then skipWhile (!isLineEnd ·)
  if !isLineEnd (← char) then failure
  skipBreak
  return d

end Scan

end Yaml

end LetPoly
