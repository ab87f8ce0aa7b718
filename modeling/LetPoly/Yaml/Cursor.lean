import LetPoly.Text.Glyph

/-!
# Reading a YAML document

A document is read from left to right by a cursor, which knows its line and column because structure
in YAML hangs on them. The text comes in portions of at most 512 bytes. A portion is taken in only
when more characters are needed than are at hand, and is refused if a character in it may not stand
in a document. So only the part of a document that is looked at has to be well formed.
-/

namespace LetPoly

namespace Yaml

/-! ### Characters -/

/-- The character that is seen where nothing is left. It may not stand in a document. -/
def endMark : Char := '\x00'

/-- The byte order mark. -/
def byteOrderMark : Char := '\ufeff'

/-- Whether a character is a blank within a line. -/
def isBlank (c : Char) : Bool := c == ' ' || c == '\t'

/-- Whether a character ends a line. -/
def isBreak (c : Char) : Bool :=
  c == '\r' || c == '\n' || c == '\u0085' || c == '\u2028' || c == '\u2029'

/-- Whether a character ends a line or the document. -/
def isLineEnd (c : Char) : Bool := isBreak c || c == endMark

/-- Whether a character is a blank or ends a line or the document. -/
def isGap (c : Char) : Bool := isBlank c || isLineEnd c

/-- Whether a character may stand in a name. -/
def isNameChar (c : Char) : Bool := c.isAlphanum || c == '_' || c == '-'

/-- Whether a character may stand in a document. -/
def isAllowed (c : Char) : Bool :=
  let n := c.toNat
  n == 0x09 || n == 0x0A || n == 0x0D || (0x20 ≤ n && n ≤ 0x7E) || n == 0x85 ||
    (0xA0 ≤ n && n ≤ 0xFFFD) || 0x10000 ≤ n

/-! ### Portions -/

/-- The number of bytes of a portion. -/
def portionWidth : Nat := 512

/-- Cuts a text into portions. The first one already holds `portion`, from its end, and has room for
that many bytes more. -/
def portions (room : Nat) (portion : List Glyph) : Source → List (List Glyph)
  | [] => if portion.isEmpty then [] else [portion.reverse]
  | g :: src =>
    if g.width ≤ room then portions (room - g.width) (g :: portion) src
    else portion.reverse :: portions (portionWidth - g.width) [g] src

/-- A place in a document and the text from there on. -/
structure Cursor where
  /-- The characters from the cursor on, up to the first one that may not stand in a document. -/
  rest : List Char
  /-- The number of characters of the document up to there. -/
  size : Nat
  /-- The number of characters of each portion that can be taken in and has not been yet. -/
  portions : List Nat
  /-- Whether a portion follows that is refused. -/
  torn : Bool
  /-- Whether that portion was asked for and the refusal passed over. -/
  refused : Bool := false
  /-- The number of characters at hand. -/
  atHand : Nat := 0
  /-- Whether what was at hand when a portion was last asked for started with a byte order mark. -/
  marked : Bool := false
  index : Nat := 0
  line : Nat := 0
  column : Nat := 0
  /-- Whether a line break has been read, and nothing but blanks since. -/
  afterBreak : Bool := false

namespace Cursor

/-- The start of a document. A byte order mark in front is no part of it, and a document without
any text is an empty line. -/
def ofSource (src : Source) : Cursor :=
  let ps : List (List Glyph) := match src with
    | [] => [[.char '\n']]
    | g :: rest =>
      if g = .char byteOrderMark then Yaml.portions (portionWidth - g.width) [] rest
      else Yaml.portions portionWidth [] src
  let allowed (g : Glyph) : Bool := g.isChar isAllowed
  let good := ps.takeWhile (·.all allowed)
  let rest := (ps.flatten.takeWhile allowed).map (·.shown)
  { rest
    size := rest.length
    portions := good.map (·.length)
    torn := good.length < ps.length }

/-- The number of characters from the cursor on. -/
def left (c : Cursor) : Nat := c.size - c.index

/-- The character at the cursor. -/
def char (c : Cursor) : Char := c.rest.headD endMark

/-- The character that stands `k` characters after the cursor. -/
def charAt (c : Cursor) (k : Nat) : Char := (c.rest.drop k).headD endMark

/-- Takes in portions until `n` characters are at hand; the end counts as one more. -/
def takeIn? (n : Nat) (torn : Bool) (atHand : Nat) : List Nat → Option (Nat × List Nat)
  | [] => if n ≤ atHand then some (atHand, []) else if torn then none else some (atHand + 1, [])
  | k :: ks => if n ≤ atHand then some (atHand, k :: ks) else takeIn? n torn (atHand + k) ks

/-- Makes sure that `n` characters, or all that are left, are at hand. -/
def need? (c : Cursor) (n : Nat) : Option Cursor :=
  if n ≤ c.atHand then some c
  else do
    let (atHand, portions) ← takeIn? n c.torn c.atHand c.portions
    some { c with atHand, portions, marked := c.char == byteOrderMark }

/-- Passes over that a portion is refused. What stands in it before the first character that may not
stand there is at hand from now on. -/
def passOver (c : Cursor) : Cursor :=
  { c with atHand := c.left, portions := [], marked := c.char == byteOrderMark, refused := true }

/-- Moves on by one character within a line. -/
def next (c : Cursor) : Cursor :=
  { c with
    rest := c.rest.tail, atHand := c.atHand - 1, index := c.index + 1, column := c.column + 1
    afterBreak := c.afterBreak && isBlank c.char }

/-- Moves on to the next line from the end of a line. A line feed after a carriage return belongs to
the same line break. -/
def nextLine (c : Cursor) : Cursor :=
  let n := if c.char == '\r' && c.charAt 1 == '\n' then 2 else 1
  if isBreak c.char then
    { c with
      rest := c.rest.drop n, atHand := c.atHand - n, index := c.index + n
      line := c.line + 1, column := 0, afterBreak := true }
  else c

/-- Whether a document marker starts here: at the start of a line three times the same sign, and
then a gap. -/
def markerAhead (c : Cursor) (mark : Char) : Bool :=
  c.column == 0 && c.char == mark && c.charAt 1 == mark && c.charAt 2 == mark && isGap (c.charAt 3)

end Cursor

/-! ### Steps of reading -/

/-- A step of reading, which may fail. -/
abbrev Scan := StateT Cursor Option

namespace Scan

/-- Makes sure that `n` characters are at hand. -/
def need (n : Nat) : Scan Unit := fun c => do some ((), ← c.need? n)

/-- Tries to have `n` characters at hand, and says whether they are. -/
def want (n : Nat) : Scan Bool := fun c =>
  match c.need? n with
  | some c => some (true, c)
  | none => some (false, c.passOver)

/-- The character at the cursor. -/
def char : Scan Char := fun c => some (c.char, c)

/-- The character that stands `k` characters after the cursor. -/
def charAt (k : Nat) : Scan Char := fun c => some (c.charAt k, c)

/-- Skips a character. -/
def skip : Scan Unit := fun c => some ((), c.next)

/-- Skips a line break. -/
def skipLine : Scan Unit := fun c => some ((), c.nextLine)

/-- Reads a character. -/
def read : Scan Char := fun c => some (c.char, c.next)

/-- Reads a line break, if there is one. All but the two Unicode separators count as a line
feed. -/
def readLine : Scan String := fun c =>
  let text :=
    if c.char == '\u2028' || c.char == '\u2029' then c.char.toString
    else if isBreak c.char then "\n" else ""
  some (text, c.nextLine)

/-- Repeats a step at most `n` times until it gives a result. -/
def repeatAtMost (step : σ → Scan (σ ⊕ ρ)) : Nat → σ → Scan ρ
  | 0, _ => failure
  | n + 1, s => do
    match ← step s with
    | .inl s => repeatAtMost step n s
    | .inr r => return r

/-- Repeats a step that moves the cursor until it gives a result. -/
def repeatFrom (s : σ) (step : σ → Scan (σ ⊕ ρ)) : Scan ρ := do
  repeatAtMost step ((← get).left + 2) s

/-- Skips the characters with a property. -/
def skipWhile (p : Char → Bool) : Scan Unit := do
  need 1
  repeatFrom () fun _ => do
    if p (← char) then
      skip
      need 1
      return .inl ()
    else return .inr ()

/-- Reads the characters with a property. -/
def readWhile (p : Char → Bool) : Scan String := do
  need 1
  repeatFrom "" fun text => do
    if p (← char) then
      let c ← read
      need 1
      return .inl (text.push c)
    else return .inr text

/-- Skips a line break behind the end of something. -/
def skipBreak : Scan Unit := do
  if isBreak (← char) then
    need 2
    skipLine

/-! ### Comments -/

/-- How far a comment may be away to be looked for. -/
def commentReach : Nat := 512

/-- Skips a comment that follows on the same line, with the blanks before it. -/
def lineComment : Scan Unit := do
  let c ← get
  unless c.afterBreak do
    let k := ((c.rest.take commentReach).takeWhile isBlank).length
    let atHand ← want (min (k + 1) commentReach)
    if atHand && k < commentReach && c.charAt k == '#' then
      set <| k.repeat Cursor.next (← get)
      skipWhile (!isLineEnd ·)

/-- The distance to a comment that only blanks and line breaks lie before, or to where something
else stands. Line breaks of more than one byte count as something else. -/
def commentAhead (k : Nat) : List Char → Nat × Bool
  | [] => (k, false)
  | c :: cs =>
    if commentReach ≤ k then (k - 1, false)
    else if c == '#' then (k, true)
    else if isBlank c || c == '\r' || c == '\n' then commentAhead (k + 1) cs
    else (if isBreak c then k + 1 else k, false)

/-- Skips a comment up to the end of its line, and all comments that follow on lines of their
own. -/
def commentLines : Scan Unit :=
  repeatFrom () fun _ => do
    skipWhile (!isLineEnd ·)
    let c ← get
    let (k, found) :=
      if c.char == '\r' || c.char == '\n' then commentAhead 1 c.rest.tail else (1, false)
    if (← want (k + 1)) && found then
      repeatFrom () fun _ => do
        if c.index + k ≤ (← get).index then return .inr ()
        need 1
        if isBreak (← char) then skipBreak else skip
        return .inl ()
      return .inl ()
    else return .inr ()

/-- Skips blanks, comments and line breaks. Tabs cannot indent, so where a key may start outside of
brackets they are not skipped. After a line break outside of brackets a key may start; the result
says whether one may. -/
def gaps (inFlow keyAllowed : Bool) : Scan Bool :=
  repeatFrom keyAllowed fun keyAllowed => do
    need 1
    let c ← get
    if c.column == 0 && c.marked then skip
    skipWhile fun c => c == ' ' || ((inFlow || !keyAllowed) && c == '\t')
    if (← char) == '#' then commentLines
    if isBreak (← char) then
      skipBreak
      return .inl (keyAllowed || !inFlow)
    else return .inr keyAllowed

end Scan

end Yaml

end LetPoly
