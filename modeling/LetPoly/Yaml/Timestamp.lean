/-!
# Points in time in YAML

Which plain texts are points in time: a date, or a date and a time of day with a zone after `T`,
or without a zone after blanks. The year has four digits, and the other numbers have one or two.
-/

namespace LetPoly

namespace Yaml

namespace Timestamp

/-- A step of reading a text. -/
abbrev Reading := StateT (List Char) Option

/-- Reads a character. -/
def char (c : Char) : Reading Unit := fun cs =>
  if cs.head? = some c then some ((), cs.tail) else none

/-- Reads `n` digits at most, and one at least. -/
def number (n : Nat) : Reading Nat := fun cs =>
  let ds := (cs.take n).takeWhile Char.isDigit
  if ds.isEmpty then none
  else some (ds.foldl (fun value c => value * 10 + (c.toNat - '0'.toNat)) 0, cs.drop ds.length)

/-- Reads a number of one or two digits below a limit. -/
def below (limit : Nat) : Reading Unit := do
  unless (← number 2) < limit do failure

/-- The number of days of a month. -/
def daysIn (year month : Nat) : Nat :=
  if month = 2 then
    if year % 4 = 0 ∧ (year % 100 ≠ 0 ∨ year % 400 = 0) then 29 else 28
  else if [4, 6, 9, 11].contains month then 30 else 31

/-- Reads a date. -/
def date : Reading Unit := do
  let year ← number 4
  char '-'
  let month ← number 2
  char '-'
  let day ← number 2
  unless 1 ≤ month && month ≤ 12 && 1 ≤ day && day ≤ daysIn year month do failure

/-- Reads a time of day. Its seconds may have a fraction. -/
def timeOfDay : Reading Unit := do
  below 24
  char ':'
  below 60
  char ':'
  below 60
  modify fun cs =>
    match cs with
    | p :: d :: rest =>
      if (p == '.' || p == ',') && d.isDigit then rest.dropWhile Char.isDigit else cs
    | _ => cs

/-- Reads two digits that make a number up to a limit. -/
def twoDigits (limit : Nat) : Reading Unit := fun cs =>
  match cs with
  | a :: b :: rest =>
    if a.isDigit && b.isDigit && (a.toNat - '0'.toNat) * 10 + (b.toNat - '0'.toNat) ≤ limit then
      some ((), rest)
    else none
  | _ => none

/-- Reads a zone: `Z`, or an offset in hours and minutes. -/
def zone : Reading Unit := do
  match (← get).head? with
  | some 'Z' => char 'Z'
  | some '+' | some '-' =>
    modify List.tail
    twoDigits 24
    char ':'
    twoDigits 60
  | _ => failure

/-- Reads one or more blanks. -/
def blanks : Reading Unit := do
  char ' '
  modify (·.dropWhile (· == ' '))

/-- Whether a text is a point in time. -/
def accepts (text : String) : Bool :=
  let cs := text.toList
  let whole (r : Reading Unit) : Bool := (r cs).any (·.2.isEmpty)
  (cs.takeWhile Char.isDigit).length = 4 &&
    (whole (do date; char 'T'; timeOfDay; zone) || whole (do date; char 't'; timeOfDay; zone) ||
      whole (do date; blanks; timeOfDay) || whole date)

end Timestamp

end Yaml

end LetPoly
