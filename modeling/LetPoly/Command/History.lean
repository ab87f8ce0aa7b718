import LetPoly.Text.Glyph

/-!
# Input history

The lines that were entered, oldest first. Entering a line twice in a row adds it once, and only the
latest thousand are kept. In a file each entry is followed by a line feed.
-/

namespace LetPoly

namespace Command

/-- Entered lines, oldest first. -/
abbrev History := List Source

namespace History

/-- The number of entries that are kept. -/
def limit : Nat := 1000

/-- The number of bytes from which on a line of a history file is too long to be read. -/
def lineLimit : Nat := 4096

/-- Adds an entry and drops the oldest one beyond the limit. -/
def push (h : History) (entry : Source) : History :=
  let h := h ++ [entry]
  if limit < h.length then h.tail else h

/-- Adds an entry unless it repeats the last one. -/
def enter (h : History) (entry : Source) : History :=
  if h.getLast? = some entry then h else h.push entry

/-- The entry on a line of a history file. A line that is too long or not valid UTF-8 has none. -/
def entry? (l : Line) : Option Source :=
  if lineLimit ≤ l.text.width ∨ l.text.any (fun g => !g.isChar fun _ => true) then none
  else some (if l.ended then Source.dropReturn l.text else l.text)

/-- Adds the entries on the lines of a file, up to the first line that has none. -/
def addLines (h : History) : List Line → History
  | [] => h
  | l :: ls =>
    match entry? l with
    | some e => addLines (h.push e) ls
    | none => h

/-- The history in a file. -/
def ofFile (file : Source) : History := addLines [] file.lines

/-- The file for a history. -/
def toFile (h : History) : Source := h.flatMap (· ++ [.char '\n'])

end History

end Command

end LetPoly
