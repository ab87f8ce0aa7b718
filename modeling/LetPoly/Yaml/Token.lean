import LetPoly.Yaml.Property
import Std.Data.TreeMap

/-!
# The tokens of a YAML document

Reading a document from left to right gives scalars, the signs around them, and marks for where
block collections begin and end, which follow from the columns of what is read. That a token starts
the key of a mapping is known only when the `:` after the key comes: until then it is remembered as
a candidate, and the marks in front of it are put in afterwards.

Tokens are read when they are asked for. At least two more are read ahead of one that is used, and
more while it is a candidate, so what cannot be read makes a document unreadable only if the
reading gets that far.
-/

namespace LetPoly

namespace Yaml

/-- A token of a document. -/
inductive Token where
  | streamStart
  /-- Nothing is left. -/
  | streamEnd
  | directive (d : Directive)
  /-- `---` -/
  | docStart
  /-- `...` -/
  | docEnd
  /-- A block sequence begins. -/
  | seqStart
  /-- A block mapping begins. -/
  | mapStart
  /-- A block collection ends. -/
  | blockEnd
  /-- An opening square bracket. -/
  | openSeq
  /-- A closing square bracket. -/
  | closeSeq
  /-- An opening curly bracket. -/
  | openMap
  /-- A closing curly bracket. -/
  | closeMap
  /-- A comma between the items of a bracket. -/
  | comma
  /-- An item of a block sequence begins. -/
  | entry
  /-- A key begins. -/
  | key
  /-- The value of a key begins. -/
  | value
  /-- A node is used again. -/
  | again (name : String)
  /-- A node is named. -/
  | anchor (name : String)
  | tag (handle suffix : String)
  /-- A scalar, written plainly or not. -/
  | scalar (text : String) (plain : Bool)
deriving DecidableEq, Repr

/-- A token that may turn out to start a key. -/
structure Candidate where
  /-- Whether it still may. -/
  possible : Bool := false
  /-- Whether nothing but a key can stand there. -/
  required : Bool := false
  /-- The number of tokens before it. -/
  number : Nat := 0
  index : Nat := 0
  line : Nat := 0
  column : Nat := 0

/-- Whether a candidate can have its `:` at the cursor: on the same line and no more than 1024
characters after it. A required candidate that is out of reach is an error. -/
def Candidate.reaches? (k : Candidate) (c : Cursor) : Option Bool :=
  if !k.possible then some false
  else if k.line < c.line || k.index + 1024 < c.index then
    if k.required then none else some false
  else some true

/-- The state of reading tokens. -/
structure Reader where
  cursor : Cursor
  /-- The tokens that have been read and not been used. -/
  queue : List Token := [.streamStart]
  /-- The number of tokens that have been used. -/
  used : Nat := 0
  /-- The column of the innermost block collection. -/
  indent : Int := -1
  /-- The columns of the block collections around it, from the inside out. -/
  outer : List Int := []
  /-- Whether a key may start at the next token. -/
  keyAllowed : Bool := true
  /-- The candidate in the innermost open bracket, or outside of brackets. -/
  candidate : Candidate := {}
  /-- The candidates around that bracket, from the inside out. -/
  outerCandidates : List Candidate := []
  /-- The number of open brackets. -/
  depth : Nat := 0
  /-- At which depth the candidate for a token stands, by the number of the token. -/
  levels : Std.TreeMap Nat Nat := {}

/-- The greatest depth of brackets, and of block collections. -/
def maxDepth : Nat := 10000

/-- A step of reading tokens, which may fail. -/
abbrev Lexing := StateT Reader Option

namespace Lexing

/-- Reads characters. -/
def scan (s : Scan α) : Lexing α := fun r => do
  let (a, cursor) ← s r.cursor
  some (a, { r with cursor })

/-- Whether a bracket is open. -/
def inFlow : Lexing Bool := return 0 < (← get).depth

/-- The number that the next token has. -/
def nextNumber : Lexing Nat := do
  let r ← get
  return r.used + r.queue.length

/-- Adds a token. -/
def emit (t : Token) : Lexing Unit := modify fun r => { r with queue := r.queue ++ [t] }

/-- Puts a token in before the one with the given number, or at the end if that one has been
used. -/
def insertBefore (number : Nat) (t : Token) : Lexing Unit := do
  let r ← get
  if number < r.used then emit t
  else
    let place := number - r.used
    set { r with queue := r.queue.take place ++ t :: r.queue.drop place }

/-- Says whether a key may start at the next token. -/
def allowKey (allowed : Bool) : Lexing Unit := modify fun r => { r with keyAllowed := allowed }

/-! ### Candidates -/

/-- Forgets at which depth the candidate for a token stands. -/
def forget (number : Nat) : Lexing Unit :=
  modify fun r => { r with levels := r.levels.erase number }

/-- Gives up the current candidate, which must not be required. -/
def dropCandidate : Lexing Unit := do
  let k := (← get).candidate
  if k.possible then
    if k.required then failure
    modify fun r => { r with candidate := { k with possible := false } }
    forget k.number

/-- Makes the token that is about to be read a candidate, if a key may start there. -/
def saveCandidate : Lexing Unit := do
  let r ← get
  if r.keyAllowed then
    let c := r.cursor
    let number ← nextNumber
    dropCandidate
    modify fun r => { r with
      candidate := {
        possible := true, required := r.depth == 0 && r.indent == c.column
        number, index := c.index, line := c.line, column := c.column }
      levels := r.levels.insert number r.depth }

/-- Enters a bracket. -/
def enter : Lexing Unit := do
  let number ← nextNumber
  modify fun r => { r with
    candidate := { number }, outerCandidates := r.candidate :: r.outerCandidates
    depth := r.depth + 1 }
  if maxDepth < (← get).depth then failure

/-- Leaves a bracket. The token that its candidate was for is no longer waited for; without a
candidate that is the bracket itself. -/
def leave : Lexing Unit := do
  let r ← get
  match r.outerCandidates with
  | [] => return ()
  | k :: ks =>
    forget r.candidate.number
    modify fun r => { r with candidate := k, outerCandidates := ks, depth := r.depth - 1 }

/-- The candidate at a depth. -/
def candidateAt? (r : Reader) (level : Nat) : Option Candidate :=
  if level = r.depth then some r.candidate
  else if level < r.depth then r.outerCandidates[r.depth - 1 - level]?
  else none

/-- Changes the candidate at a depth. -/
def setCandidateAt (level : Nat) (k : Candidate) : Lexing Unit :=
  modify fun r =>
    if level = r.depth then { r with candidate := k }
    else { r with outerCandidates := r.outerCandidates.set (r.depth - 1 - level) k }

/-! ### Indentation -/

/-- Begins a block collection at a column unless one has begun there. Its mark stands before the
token with the given number, or at the end. -/
def roll (column : Nat) (number : Option Nat) (t : Token) : Lexing Unit := do
  let r ← get
  if r.depth == 0 && r.indent < column then
    if maxDepth ≤ r.outer.length then failure
    set { r with indent := column, outer := r.indent :: r.outer }
    match number with
    | some n => insertBefore n t
    | none => emit t

/-- The number of block collections that end before a column, the innermost column left, and those
around it. -/
def popTo (column indent : Int) : List Int → Nat × Int × List Int
  | [] => (0, indent, [])
  | o :: os =>
    if column < indent then
      let (n, indent, outer) := popTo column o os
      (n + 1, indent, outer)
    else (0, indent, o :: os)

/-- Ends the block collections that are indented further than a column. -/
def unroll (column : Int) : Lexing Unit :=
  modify fun r =>
    if r.depth == 0 then
      let (n, indent, outer) := popTo column r.indent r.outer
      { r with queue := r.queue ++ List.replicate n .blockEnd, indent, outer }
    else r

/-! ### Single tokens -/

/-- Reads the end of the document, which starts a line of its own. -/
def streamEnd : Lexing Unit := do
  modify fun r =>
    let c := r.cursor
    if c.column == 0 then r else { r with cursor := { c with column := 0, line := c.line + 1 } }
  unroll (-1)
  dropCandidate
  allowKey false
  emit .streamEnd

/-- Reads a directive. -/
def directive : Lexing Unit := do
  unroll (-1)
  dropCandidate
  allowKey false
  emit (.directive (← scan Scan.directive))

/-- Reads a document marker. -/
def marker (t : Token) : Lexing Unit := do
  unroll (-1)
  dropCandidate
  allowKey false
  scan do
    Scan.skip
    Scan.skip
    Scan.skip
  emit t

/-- Reads an opening bracket. -/
def openBracket (t : Token) : Lexing Unit := do
  saveCandidate
  enter
  allowKey true
  scan Scan.skip
  emit t

/-- Reads a closing bracket. -/
def closeBracket (t : Token) : Lexing Unit := do
  dropCandidate
  leave
  allowKey false
  scan Scan.skip
  emit t

/-- Reads a comma. -/
def comma : Lexing Unit := do
  dropCandidate
  allowKey true
  scan Scan.skip
  emit .comma

/-- Reads the `-` of a sequence item. -/
def entry : Lexing Unit := do
  let r ← get
  if r.depth == 0 && !r.keyAllowed then failure
  roll r.cursor.column none .seqStart
  dropCandidate
  allowKey true
  scan Scan.skip
  emit .entry

/-- Reads the `?` of a key. -/
def key : Lexing Unit := do
  let r ← get
  if r.depth == 0 && !r.keyAllowed then failure
  roll r.cursor.column none .mapStart
  dropCandidate
  allowKey (r.depth == 0)
  scan Scan.skip
  emit .key

/-- Reads the `:` of a value. If there is a candidate, it is the key. -/
def value : Lexing Unit := do
  let r ← get
  let k := r.candidate
  if ← k.reaches? r.cursor then
    insertBefore k.number .key
    roll k.column (some k.number) .mapStart
    modify fun r => { r with candidate := { k with possible := false } }
    forget k.number
    allowKey false
  else
    modify fun r => { r with candidate := { k with possible := false } }
    if r.depth == 0 && !r.keyAllowed then failure
    roll r.cursor.column none .mapStart
    allowKey (r.depth == 0)
  scan Scan.skip
  emit .value

/-- Reads a token that may start a key, after which none may start. -/
def simple (s : Scan Token) : Lexing Unit := do
  saveCandidate
  allowKey false
  emit (← scan s)

/-- Reads a plain scalar. After one that ended with a line break a key may start. -/
def plain : Lexing Unit := do
  let r ← get
  saveCandidate
  let (text, broken) ← scan (Scan.plain (0 < r.depth) (r.indent + 1).toNat)
  allowKey broken
  emit (.scalar text true)

/-- Reads a block scalar. -/
def block (folded : Bool) : Lexing Unit := do
  dropCandidate
  allowKey true
  let r ← get
  emit (.scalar (← scan (Scan.block folded (r.indent + 1).toNat)) false)

/-- Whether a plain scalar can start with a character and another one after it. -/
def startsPlain (inFlow : Bool) (c after : Char) : Bool :=
  !(isGap c || "-?:,[]\x7b\x7d#&*!|>'\"%@\x60".contains c) || (c == '-' && !isBlank after) ||
    (!inFlow && (c == '?' || c == ':') && !isGap after)

/-- Reads the token that starts with a character and another one after it. -/
def indicated (c after : Char) : Lexing Unit := do
  let inFlow ← inFlow
  match c with
  | '[' => openBracket .openSeq
  | '\x7b' => openBracket .openMap
  | ']' => closeBracket .closeSeq
  | '\x7d' => closeBracket .closeMap
  | ',' => comma
  | '*' => simple (return .again (← Scan.anchorName))
  | '&' => simple (return .anchor (← Scan.anchorName))
  | '!' => simple do
    let (handle, suffix) ← Scan.tag
    return .tag handle suffix
  | '\'' | '"' => simple (return .scalar (← Scan.quoted c) false)
  | _ =>
    if c == '-' && isGap after then entry
    else if c == '?' && (inFlow || isGap after) then key
    else if c == ':' && (inFlow || isGap after) then value
    else if c == '|' && !inFlow then block false
    else if c == '>' && !inFlow then block true
    else if startsPlain inFlow c after then plain
    else failure

/-! ### The queue -/

/-- Reads one more token, with a comment after it on the same line. The `-` of an item has no
such comment. -/
def fetch : Lexing Unit := do
  let r ← get
  allowKey (← scan (Scan.gaps (0 < r.depth) r.keyAllowed))
  unroll (← get).cursor.column
  scan (Scan.need 4)
  let c := (← get).cursor
  if c.char == endMark then streamEnd
  else if c.column == 0 && c.char == '%' then directive
  else if c.markerAhead '-' then marker .docStart
  else if c.markerAhead '.' then marker .docEnd
  else
    indicated c.char (c.charAt 1)
    if (← get).queue.getLast? != some .entry then scan Scan.lineComment

/-- Whether the first token of the queue can be used: two more have been read, and it is no
candidate for a key any more. -/
def ready : Lexing Bool := do
  let r ← get
  if r.queue.length < 3 then return false
  match r.levels[r.used]? with
  | none => return true
  | some level =>
    match candidateAt? r level with
    | none => return true
    | some k =>
      if ← k.reaches? r.cursor then return false
      setCandidateAt level { k with possible := false }
      return true

/-- Reads at most `n` tokens until the first one can be used. -/
def fill : Nat → Lexing Unit
  | 0 => failure
  | n + 1 => do
    if ← ready then return ()
    fetch
    fill n

/-- The next token. -/
def peek : Lexing Token := do
  fill ((← get).cursor.left + 4)
  match (← get).queue with
  | t :: _ => return t
  | [] => failure

/-- Uses the next token up. -/
def advance : Lexing Unit :=
  modify fun r => { r with
    queue := r.queue.tail, used := r.used + 1, levels := r.levels.erase r.used }

end Lexing

/-- A reader at the start of a document. -/
def Reader.ofSource? (src : Source) : Option Reader := do
  let cursor ← (Cursor.ofSource src).need? 1
  some { cursor }

end Yaml

end LetPoly
