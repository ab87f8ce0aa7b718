/-!
# Type variables

A type variable is a signed 64-bit number. Fresh variables are handed out in counting order, and
the successor of the greatest number is the least one. A variable that no scheme quantifies is
written `t` and its number; a quantified variable is written by its place, `a`, `b`, …, `z`, and
from there on with a counter: `a1`, …, `z1`, `a2`, …. The counted names leave out `t`, so that
they never read as an unquantified variable.

A supply hands out variables and keeps count of how many it gave.
-/

namespace LetPoly

/-- The number that identifies a type variable. -/
abbrev TyVar := Int64

namespace TyVar

/-- The variable that is handed out after `v`; it wraps around at the greatest number. -/
def next (v : TyVar) : TyVar := v + 1

/-- The written form of an unquantified variable. -/
def text (v : TyVar) : String := "t" ++ toString v.toInt

/-- The Latin letters in order. -/
def letters : List Char := "abcdefghijklmnopqrstuvwxyz".toList

/-- The letters of counted names: all but `t`. -/
def countedLetters : List Char := letters.filter (· ≠ 't')

/-- The written form of the quantified variable at place `i`. -/
def name (i : Nat) : String :=
  if i < 26 then String.singleton (letters.getD i 'a')
  else
    let j := i - 26
    String.singleton (countedLetters.getD (j % 25) 'a') ++ toString (j / 25 + 1)

end TyVar

/-- A supply of fresh type variables. -/
structure Supply where
  /-- The variable that is handed out next. -/
  next : TyVar := 0
  /-- The number of variables handed out so far. -/
  count : Nat := 0
deriving DecidableEq, Repr

namespace Supply

/-- The supply after one variable, `next`, has been handed out. -/
def advance (s : Supply) : Supply := ⟨s.next.next, s.count + 1⟩

/-- Hands out a number of variables. -/
def take (s : Supply) : Nat → List TyVar × Supply
  | 0 => ([], s)
  | n + 1 =>
    let (vs, s') := s.advance.take n
    (s.next :: vs, s')

end Supply

end LetPoly
