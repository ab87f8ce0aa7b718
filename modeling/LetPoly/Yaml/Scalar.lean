import LetPoly.Yaml.Cursor

/-!
# YAML scalars

The text of a scalar is written plainly, in quotes, or as an indented block. Inside plain and
quoted scalars lines are folded: one line break counts as a blank, and of several the first is
dropped.
-/

namespace LetPoly

namespace Yaml

/-! ### Folding -/

/-- Blanks and line breaks between two stretches of text. -/
inductive Fold where
  /-- No line break so far, but these blanks. -/
  | blanks (text : String)
  /-- A first line break, and further ones. -/
  | breaks (first more : String)
  /-- Line breaks after one that was escaped. -/
  | escaped (more : String)

namespace Fold

/-- Whether a line has ended. -/
def broken : Fold → Bool
  | blanks _ => false
  | _ => true

/-- Takes in one more blank. -/
def addBlank (c : Char) : Fold → Fold
  | blanks text => blanks (text.push c)
  | f => f

/-- Takes in one more line break. -/
def addBreak (b : String) : Fold → Fold
  | blanks _ => breaks b ""
  | breaks first more => breaks first (more ++ b)
  | escaped more => escaped (more ++ b)

/-- The text that the gap stands for. -/
def text : Fold → String
  | blanks text => text
  | breaks first more =>
    if first = "\n" then (if more.isEmpty then " " else more) else first ++ more
  | escaped more => more

end Fold

namespace Scan

/-- Reads the blanks and line breaks of a gap. A tab that stands before the column `least` of a
further line is refused. -/
def foldGap (least : Nat) (gap : Fold) : Scan Fold :=
  repeatFrom gap fun gap => do
    let c ← char
    if isBlank c then
      if gap.broken && (← get).column < least && c == '\t' then failure
      skip
      need 1
      return .inl (gap.addBlank c)
    else if isBreak c then
      need 2
      let b ← readLine
      need 1
      return .inl (gap.addBreak b)
    else return .inr gap

/-- Whether a document marker starts here. -/
def atMarker : Scan Bool := do
  let c ← get
  return c.markerAhead '-' || c.markerAhead '.'

/-! ### Plain scalars -/

/-- Whether a plain scalar ends before a character with another one after it. -/
def endsPlain (inFlow : Bool) (c after : Char) : Bool :=
  isGap c || (c == ':' && isGap after) || (inFlow && ",?[]\x7b\x7d".contains c)

/-- Reads a stretch of a plain scalar without blanks. The gap before it counts only if there is
such a stretch. -/
def plainWord (inFlow : Bool) (text : String) (gap : Fold) : Scan (String × Fold) :=
  repeatFrom (text, gap) fun (text, gap) => do
    if endsPlain inFlow (← char) (← charAt 1) then return .inr (text, gap)
    let c ← read
    need 2
    return .inl ((text ++ gap.text).push c, .blanks "")

/-- Reads a plain scalar. Its further lines must be indented to the column `least` unless it stands
in brackets. The result also says whether a line has ended since its last character. -/
def plain (inFlow : Bool) (least : Nat) : Scan (String × Bool) :=
  repeatFrom ("", Fold.blanks "") fun (text, gap) => do
    need 4
    if (← atMarker) || (← char) == '#' then return .inr (text, gap.broken)
    let (text, gap) ← plainWord inFlow text gap
    let c ← char
    if !(isBlank c || isBreak c) then return .inr (text, gap.broken)
    let gap ← foldGap least gap
    if !inFlow && (← get).column < least then return .inr (text, gap.broken)
    return .inl (text, gap)

/-! ### Quoted scalars -/

/-- The character that a letter after a backslash stands for. -/
def escape? : Char → Option Char
  | '0' => some '\x00'
  | 'a' => some '\x07'
  | 'b' => some '\x08'
  | 't' | '\t' => some '\t'
  | 'n' => some '\n'
  | 'v' => some '\x0b'
  | 'f' => some '\x0c'
  | 'r' => some '\r'
  | 'e' => some '\x1b'
  | ' ' => some ' '
  | '"' => some '"'
  | '\'' => some '\''
  | '\\' => some '\\'
  | 'N' => some '\u0085'
  | '_' => some '\u00a0'
  | 'L' => some '\u2028'
  | 'P' => some '\u2029'
  | _ => none

/-- The number of hexadecimal digits after a backslash and a letter. -/
def escapeWidth? : Char → Option Nat
  | 'x' => some 2
  | 'u' => some 4
  | 'U' => some 8
  | _ => none

/-- The value of a hexadecimal digit. -/
def hexDigit? (c : Char) : Option Nat :=
  if '0' ≤ c ∧ c ≤ '9' then some (c.toNat - '0'.toNat)
  else if 'a' ≤ c ∧ c ≤ 'f' then some (c.toNat - 'a'.toNat + 10)
  else if 'A' ≤ c ∧ c ≤ 'F' then some (c.toNat - 'A'.toNat + 10)
  else none

/-- Reads the character with the code point that `n` hexadecimal digits give. -/
def hexChar (n : Nat) : Scan Char := do
  need n
  let c ← get
  let some digits := (c.rest.take n).mapM hexDigit? | failure
  let code := digits.foldl (fun value d => value * 16 + d) 0
  if digits.length = n ∧ code.isValidChar then
    set (n.repeat Cursor.next c)
    return Char.ofNat code
  else failure

/-- Reads what a backslash introduces. -/
def escaped : Scan Char := do
  let c ← charAt 1
  match escape? c, escapeWidth? c with
  | some e, _ =>
    skip
    skip
    return e
  | none, some n =>
    skip
    skip
    hexChar n
  | none, none => failure

/-- Reads a stretch of a quoted scalar without blanks, up to a gap or the closing quote. The result
also says whether it ended with an escaped line break. -/
def quotedWord (quote : Char) (text : String) : Scan (String × Bool) :=
  repeatFrom text fun text => do
    let c ← char
    if isGap c then return .inr (text, false)
    else if c == quote && quote == '\'' && (← charAt 1) == '\'' then
      skip
      skip
      need 2
      return .inl (text.push '\'')
    else if c == quote then return .inr (text, false)
    else if quote == '"' && c == '\\' && isBreak (← charAt 1) then
      need 3
      skip
      skipLine
      return .inr (text, true)
    else if quote == '"' && c == '\\' then
      let e ← escaped
      need 2
      return .inl (text.push e)
    else
      let c ← read
      need 2
      return .inl (text.push c)

/-- Reads a quoted scalar from its opening quote on. -/
def quoted (quote : Char) : Scan String := do
  skip
  repeatFrom "" fun text => do
    need 4
    if (← atMarker) || (← char) == endMark then failure
    let (text, escapedBreak) ← quotedWord quote text
    need 1
    if (← char) == quote then
      skip
      return .inr text
    let gap ← foldGap 0 (if escapedBreak then .escaped "" else .blanks "")
    return .inl (text ++ gap.text)

/-! ### Block scalars -/

/-- What becomes of the line breaks at the end of a block. -/
inductive Chomp where
  | strip
  | clip
  | keep
deriving DecidableEq

/-- Reads how a block asks for its last line breaks to be kept or stripped, if it does. -/
def chomp? : Scan (Option Chomp) := do
  need 1
  match ← char with
  | '+' =>
    skip
    return some .keep
  | '-' =>
    skip
    return some .strip
  | _ => return none

/-- Reads by how much a block says to be indented; nothing is zero. -/
def increment : Scan Nat := do
  need 1
  let c ← char
  if '1' ≤ c ∧ c ≤ '9' then
    skip
    return c.toNat - '0'.toNat
  else if c == '0' then failure
  else return 0

/-- Reads the header of a block up to the end of its line, which may only hold a comment. -/
def blockHeader : Scan (Chomp × Nat) := do
  let (chomp, n) ← do
    match ← chomp? with
    | some chomp => pure (chomp, ← increment)
    | none =>
      match ← increment with
      | 0 => pure (.clip, 0)
      | n => pure ((← chomp?).getD .clip, n)
  skipWhile isBlank
  if (← char) == '#' then skipWhile (!isLineEnd ·)
  if !isLineEnd (← char) then failure
  skipBreak
  return (chomp, n)

/-- Reads the indentation of the next line with text, with the empty lines before it. Where `indent`
is zero the indentation is still open. The result also has the greatest column reached. -/
def blockIndent (indent : Nat) : Scan (String × Nat) :=
  repeatFrom ("", 0) fun (breaks, greatest) => do
    need 1
    let within (c : Cursor) : Bool := indent == 0 || c.column < indent
    repeatFrom () fun _ => do
      if within (← get) && (← char) == ' ' then
        skip
        need 1
        return .inl ()
      else return .inr ()
    let c ← get
    let greatest := max greatest c.column
    if within c && c.char == '\t' then failure
    if !isBreak c.char then return .inr (breaks, greatest)
    need 2
    let b ← readLine
    return .inl (breaks ++ b, greatest)

/-- The text gathered from a block so far: the text, the break after its last line, the empty lines
since, and whether the last line started with a blank. -/
structure BlockText where
  text : String := ""
  lineBreak : String := ""
  emptyLines : String := ""
  indented : Bool := false

/-- Adds the gap before a line of text. Between two lines of a folded block that both start with
text a single line feed counts as a blank. -/
def BlockText.join (folded : Bool) (b : BlockText) (indented : Bool) : String :=
  let joined :=
    if folded && b.lineBreak == "\n" && !b.indented && !indented then
      if b.emptyLines.isEmpty then " " else ""
    else b.lineBreak
  b.text ++ joined ++ b.emptyLines

/-- Reads the lines of a block that is indented to a column. -/
def blockLines (folded : Bool) (indent : Nat) (emptyLines : String) : Scan BlockText :=
  repeatFrom { emptyLines } fun b => do
    let c ← get
    if c.column == indent && c.char != endMark then
      let indented := isBlank c.char
      let text ← readWhile (!isLineEnd ·)
      need 2
      let lineBreak ← readLine
      let (emptyLines, _) ← blockIndent indent
      return .inl { text := b.join folded indented ++ text, lineBreak, emptyLines, indented }
    else return .inr b

/-- Reads a block scalar from its `|` or `>` on, inside a block that is indented to `least - 1`. -/
def block (folded : Bool) (least : Nat) : Scan String := do
  skip
  let (chomp, n) ← blockHeader
  let indent := if n = 0 then 0 else (least - 1) + n
  let (emptyLines, greatest) ← blockIndent indent
  let indent := if n = 0 then max greatest (max least 1) else indent
  need 1
  let b ← blockLines folded indent emptyLines
  let tail :=
    match chomp with
    | .strip => ""
    | .clip => b.lineBreak
    | .keep => b.lineBreak ++ b.emptyLines
  return b.text ++ tail

end Scan

end Yaml

end LetPoly
