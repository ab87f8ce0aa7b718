import LetPoly.Prelude
import LetPoly.Yaml.Node

/-!
# Prelude documents

A prelude is written as a YAML mapping whose key `bindings` holds a sequence of mappings with the
keys `name` and `type`. Other keys are ignored with all that they hold. A value that is null leaves
its field empty, and a binding that is null is left out. A document in which a mapping that counts
repeats a key, or in which something has another shape, is refused as a whole.

Under the key `<<` a mapping takes over the entries of another mapping, or of several: a key that
the mapping has itself, or that came with an earlier one, is not taken over.
-/

namespace LetPoly

open Yaml (Node Document)

namespace Prelude

/-- Why a document gives no environment. -/
inductive DocumentError where
  /-- It is not a document of the right shape. -/
  | unreadable
  /-- A mapping that takes over the entries of others has a collection for a key, and keys that are
  collections cannot be compared. -/
  | incomparableKey
  /-- One of its entries is bad. -/
  | entry (e : EntryError)
deriving DecidableEq, Repr

/-- The wording of a document error. -/
def DocumentError.message : DocumentError → String
  | unreadable => "parsing prelude: yaml: document cannot be read"
  | incomparableKey => "parsing prelude: yaml: keys cannot be compared"
  | entry e => e.message

/-! ### Visiting nodes -/

/-- What is known while the nodes of a document are visited. -/
structure Scope where
  anchored : List (Nat × Node)
  /-- The places whose node is being visited again, from the inside out. -/
  active : List Nat := []

/-- What is counted while the nodes of a document are visited. -/
structure Tally where
  /-- The number of visits. -/
  visits : Nat := 0
  /-- The number of visits to nodes that are used again. -/
  repeated : Nat := 0
  /-- Whether something had the wrong shape. -/
  flawed : Bool := false

/-- Whether nodes are used again too often. Of 1000 visits and more, 99 in a hundred may be to such
nodes, and gradually fewer from 400 000 visits on, down to ten in a hundred from 4 000 000 on. -/
def Tally.excessive (t : Tally) : Bool :=
  let low := 400000
  let span := 3600000
  let allowed :=
    if t.visits ≤ low then 99 * span
    else if low + span ≤ t.visits then 10 * span
    else 99 * span - 89 * (t.visits - low)
  100 < t.repeated && 1000 < t.visits && t.visits * allowed < t.repeated * (100 * span)

/-- Visits to the nodes of a document, which the first serious error ends. -/
abbrev Visit := ReaderT Scope (StateT Tally (Except DocumentError))

namespace Visit

/-- Notes that something has the wrong shape. -/
def flaw : Visit Unit := modify fun t => { t with flawed := true }

/-- Counts a visit. -/
def count : Visit Unit := do
  let again := !(← read).active.isEmpty
  modify fun t => { t with
    visits := t.visits + 1, repeated := if again then t.repeated + 1 else t.repeated }
  if (← get).excessive then throw .unreadable

/-- The node that a node with an anchor is. -/
def target (anchor : Nat) : Visit Node := do
  match (← read).anchored.lookup anchor with
  | some n => return n
  | none => throw .unreadable

/-- Visits a node. If it is used again here, the node meant is visited, which must not contain this
place. -/
def node (n : Node) (visitor : Node → Visit α) : Visit α := do
  count
  match n with
  | .again _ place anchor =>
    if (← read).active.contains place then throw .unreadable
    let n ← target anchor
    withReader (fun s => { s with active := place :: s.active }) do
      count
      visitor n
  | n => visitor n

/-- What a scalar says; nothing if it is null. Its text must fit its tag. -/
def scalar (tag : Yaml.Tag) (text : String) : Visit (Option Source) := do
  if !tag.fits text then throw .unreadable
  return if tag.isNull text then none else some (tag.content text)

/-- What a node that should be a scalar says. -/
def text (n : Node) : Visit (Option Source) :=
  node n fun
    | .scalar tag text => scalar tag text
    | _ => do
      flaw
      return none

/-- Whether no two keys of a mapping are the same. -/
def distinctKeys (entries : List (Node × Node)) : Bool := (entries.map (·.1.keyText)).Nodup

/-! ### Entries that are taken over -/

/-- The keys that have been set, where it matters. -/
abbrev Taken := Option (List Source)

/-- Checks that a node is a mapping, or one that is used again. -/
def requireMap : Node → Visit Unit
  | .again _ _ anchor => do
    unless (← target anchor).isMap do throw .unreadable
  | n => unless n.isMap do throw .unreadable

/-- Goes through the mappings that a mapping takes over the entries of, if there are any. The keys
that have been set come along: at first those of the mapping itself, unless its own entries are
taken over. -/
def takeOver (entries : List (Node × Node)) (ownKeys : Visit (List Source)) (state : β × Taken)
    (visitor : β × Taken → Node → Visit (β × Taken)) : Visit (β × Taken) := do
  let (b, taken) := state
  let some (_, m) := entries.find? (·.1.isMerge) | return state
  let keys ←
    match taken with
    | some keys => pure keys
    | none => ownKeys
  let visitMap (state : β × Taken) (m : Node) : Visit (β × Taken) := do
    requireMap m
    visitor state m
  let (b, inside) ←
    match m with
    | .seq items => items.foldlM visitMap (b, some keys)
    | m => visitMap (b, some keys) m
  return (b, if taken.isSome then inside else none)

/-! ### Keys of any kind -/

/-- What is known about a key that was visited. -/
inductive Key where
  | text (s : Source)
  /-- A null key. -/
  | null
  /-- A collection. -/
  | collection
  /-- A mapping that repeats a key. -/
  | bad

mutual
/-- Visits a node of any shape to a depth of at most `n`. -/
def anything : Nat → Taken → Node → Visit (Key × Taken)
  | 0, _, _ => throw .unreadable
  | n + 1, taken, m =>
    node m fun
      | .scalar tag text => do
        match ← scalar tag text with
        | some s => return (.text s, taken)
        | none => return (.null, taken)
      | .seq items => do
        items.forM fun item => discard <| anything n none item
        return (.collection, taken)
      | .map entries => do
        if distinctKeys entries then
          let taken ← entries.foldlM (anyEntry n) taken
          let (_, taken) ← takeOver entries (ownKeys n entries) ((), taken) fun (_, taken) m =>
            return ((), (← anything n taken m).2)
          return (.collection, taken)
        else
          flaw
          return (.bad, taken)
      | .again .. => throw .unreadable

/-- Visits an entry of a mapping of any shape, unless its key has been set. -/
def anyEntry : Nat → Taken → Node × Node → Visit Taken
  | 0, _, _ => throw .unreadable
  | n + 1, taken, (k, v) => do
    if k.isMerge then return taken
    match (← anything n none k).1 with
    | .bad => return taken
    | .collection => throw (if taken.isSome then .incomparableKey else .unreadable)
    | .null =>
      discard <| anything n none v
      return taken
    | .text s =>
      if taken.any (·.contains s) then return taken
      discard <| anything n none v
      return taken.map (s :: ·)

/-- The keys of a mapping, which must not be collections. -/
def ownKeys : Nat → List (Node × Node) → Visit (List Source)
  | 0, _ => throw .unreadable
  | n + 1, entries =>
    entries.foldlM (fun keys e => do
      match (← anything n none e.1).1 with
      | .text s => return s :: keys
      | .collection => throw .incomparableKey
      | .null | .bad => return keys) []
end

/-! ### Records -/

/-- A field of a record: its key and what a node sets it to. -/
structure Field (α : Type) where
  key : String
  set : α → Node → Visit α

/-- Sets the field that an entry of a mapping is for, if there is one and its key has not been set
from elsewhere. The list of the keys of fields that this mapping has set comes along. -/
def setField (fields : List (Field α)) (state : α × Taken × List Source) (e : Node × Node) :
    Visit (α × Taken × List Source) := do
  let (a, taken, done) := state
  if e.1.isMerge then return state
  match ← text e.1 with
  | none => return state
  | some key =>
    if taken.any (·.contains key) then return state
    let taken := taken.map (key :: ·)
    match fields.find? (.ofString ·.key = key) with
    | none => return (a, taken, done)
    | some f =>
      if done.contains key then
        flaw
        return (a, taken, done)
      return (← f.set a e.2, taken, key :: done)

/-- Sets the fields of a record from the entries of a mapping, and from those it takes over. -/
def record (fields : List (Field α)) : Nat → List (Node × Node) → α → Taken → Visit (α × Taken)
  | 0, _, _, _ => throw .unreadable
  | n + 1, entries, a, taken => do
    if !distinctKeys entries then
      flaw
      return (a, taken)
    let (a, taken, _) ← entries.foldlM (setField fields) (a, taken, [])
    takeOver entries (ownKeys n entries) (a, taken) fun (a, taken) m =>
      node m fun
        | .map entries => record fields n entries a taken
        | _ => throw .unreadable

/-! ### Preludes -/

/-- A field that holds a text. A null value leaves it as it was. -/
def textField (key : String) (set : α → Source → α) : Field α where
  key
  set a n := return ((← text n).map (set a)).getD a

/-- The fields of an entry. A name is kept as it is shown: no source can spell one with a stray byte. -/
def entryFields : List (Field Entry) :=
  [textField "name" fun e name => { e with name := name.shown },
    textField "type" fun e type => { e with type }]

/-- What a node with a given shape describes; a null node describes nothing. -/
def described (n : Node) (visitor : Node → Visit (Option α)) : Visit (Option α) :=
  node n fun
    | .scalar tag text => do
      if (← scalar tag text).isSome then flaw
      return none
    | n => visitor n

/-- The entry that a node describes. -/
def entry (depth : Nat) (n : Node) : Visit (Option Entry) :=
  described n fun
    | .map entries => return some (← record entryFields depth entries {} none).1
    | _ => do
      flaw
      return none

/-- The entries that the value of `bindings` describes. -/
def entries (depth : Nat) (n : Node) : Visit (Option (List Entry)) :=
  described n fun
    | .seq items => return some ((← items.mapM (entry depth)).filterMap id)
    | _ => do
      flaw
      return none

/-- The field of a document that counts. -/
def bindingsField (depth : Nat) : Field (List Entry) where
  key := "bindings"
  set _ n := return (← entries depth n).getD []

/-- The entries of a document. -/
def document (depth : Nat) (root : Node) : Visit (List Entry) := do
  count
  let es ← described root fun
    | .map es => return some (← record [bindingsField depth] depth es [] none).1
    | _ => do
      flaw
      return none
  return es.getD []

end Visit

/-- The entries that a document describes. -/
def entriesOf (d : Document) : Except DocumentError (List Entry) := do
  -- Between two places where a node is used again, nodes contain one another.
  let depth := (d.places + 1) * (4 * d.size + 4)
  let (es, tally) ← (Visit.document depth d.root).run { anchored := d.anchored } |>.run {}
  if tally.flawed then throw .unreadable
  return es

/-- The environment of a prelude document. -/
def ofDocument (src : Source) : Except DocumentError Env :=
  match Document.parse? src with
  | none => .error .unreadable
  | some d => do
    let es ← entriesOf d
    (env es).mapError .entry

end Prelude

end LetPoly
