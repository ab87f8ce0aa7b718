import LetPoly.Ty.Subst

/-!
# Argument lists

An argument list is either unallocated or holds types. An unallocated list counts as empty for
everything that only reads what is there, and the first `append` allocates it; asking it for an
index is an error of its own. An index outside of an allocated list is an error that names the
index.
-/

namespace LetPoly

/-- A list of types that may not have been allocated. -/
structure ArgList where
  items? : Option (List Ty) := none
deriving DecidableEq

namespace ArgList

/-- Why an index could not be used. -/
inductive AccessError where
  /-- The list has not been allocated. -/
  | unallocated
  /-- There is nothing to read at the index. -/
  | get (index : Int)
  /-- There is nothing to replace at the index. -/
  | set (index : Int)
deriving DecidableEq, Repr

/-- The wording of an access error; an unallocated list has none. -/
def AccessError.message? : AccessError → Option String
  | unallocated => none
  | get i => some ("immutable.List.Get: index " ++ toString i ++ " out of bounds")
  | set i => some ("immutable.List.Set: index " ++ toString i ++ " out of bounds")

/-- The allocated list of the given types. -/
def ofList (ts : List Ty) : ArgList := ⟨some ts⟩

/-- The types in order. -/
def toList (l : ArgList) : List Ty := l.items?.getD []

/-- The number of types. -/
def size (l : ArgList) : Nat := l.toList.length

/-- The place of an index, if the list has one there. -/
def place? (ts : List Ty) (i : Int) : Option Nat :=
  if 0 ≤ i ∧ i < ts.length then some i.toNat else none

/-- The type at an index. -/
def get (l : ArgList) (i : Int) : Except AccessError Ty :=
  match l.items? with
  | none => .error .unallocated
  | some ts =>
    match (place? ts i).bind (ts[·]?) with
    | some t => .ok t
    | none => .error (.get i)

/-- The list with the type at an index replaced. -/
def set (l : ArgList) (i : Int) (t : Ty) : Except AccessError ArgList :=
  match l.items? with
  | none => .error .unallocated
  | some ts =>
    match place? ts i with
    | some n => .ok (ofList (ts.set n t))
    | none => .error (.set i)

/-- The list with a type added at the end. -/
def append (l : ArgList) (t : Ty) : ArgList := ofList (l.toList ++ [t])

/-- Replaces a variable in all types, or reports the first alien. -/
def replace? (l : ArgList) (v : TyVar) (u : Ty) : Except Alien ArgList :=
  match l.items? with
  | none => .ok l
  | some ts => ofList <$> ts.mapM (·.replace? v u)

end ArgList

end LetPoly
