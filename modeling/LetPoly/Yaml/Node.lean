import LetPoly.Yaml.Tag
import LetPoly.Yaml.Token

/-!
# YAML documents as trees

A document is a tree of scalars, sequences and mappings, in which a node may be used again under the
name of its anchor. Only the first document of a stream is read, and only as far as it goes.

The tree is put together by a machine that keeps the open collections on a stack. Each step looks at
the next token from the innermost collection: the token opens a node in it, leaves a node out, or
closes it. A finished node goes into the collection around it.
-/

namespace LetPoly

namespace Yaml

/-- A node of a document. -/
inductive Node where
  | scalar (tag : Tag) (text : String)
  | seq (items : List Node)
  | map (entries : List (Node × Node))
  /-- The node with an anchor, used again under its name. The place tells uses apart. -/
  | again (name : String) (place anchor : Nat)
deriving Repr

namespace Node

/-- The node that stands where nothing is written. -/
def nothing : Node := .scalar .implicit ""

/-- Whether a node is the key under which a mapping takes over the entries of others. -/
def isMerge : Node → Bool
  | scalar .merge "<<" => true
  | _ => false

/-- What two keys of a mapping must not have in common: their text, or being collections of the same
kind. -/
def keyText : Node → Nat × String
  | scalar _ text => (0, text)
  | seq _ => (1, "")
  | map _ => (2, "")
  | again name _ _ => (3, name)

/-- Whether a node is a mapping. -/
def isMap : Node → Bool
  | map _ => true
  | _ => false

end Node

/-- A document: its tree, and the nodes with an anchor. -/
structure Document where
  root : Node
  anchored : List (Nat × Node)
  /-- The number of places where a node is used again. -/
  places : Nat
  /-- The number of characters of the source. -/
  size : Nat

/-! ### Open collections -/

/-- An open collection, with its nodes so far from the last to the first. In a mapping a key may
wait for its value. -/
inductive Frame where
  /-- A sequence in a block. -/
  | blockSeq (items : List Node)
  /-- A sequence that is not indented further than the key before it. -/
  | flushSeq (items : List Node)
  /-- A mapping in a block. -/
  | blockMap (entries : List (Node × Node)) (key : Option Node)
  /-- A sequence in brackets. -/
  | flowSeq (items : List Node) (first : Bool)
  /-- A mapping in brackets. A bare key has no value. -/
  | flowMap (entries : List (Node × Node)) (key : Option Node) (bare first : Bool)
  /-- A key and its value in a sequence in brackets, which make a mapping of their own. -/
  | pair (key : Option Node)

namespace Frame

/-- The collection when it is closed. -/
def node : Frame → Node
  | blockSeq items | flushSeq items | flowSeq items _ => .seq items.reverse
  | blockMap entries _ | flowMap entries _ _ _ => .map entries.reverse
  | pair key => .map [(key.getD .nothing, .nothing)]

/-- Puts a node into a collection. A pair with its value is complete and becomes a node. -/
def put (n : Node) : Frame → Frame ⊕ Node
  | blockSeq items => .inl (blockSeq (n :: items))
  | flushSeq items => .inl (flushSeq (n :: items))
  | blockMap entries none => .inl (blockMap entries (some n))
  | blockMap entries (some k) => .inl (blockMap ((k, n) :: entries) none)
  | flowSeq items _ => .inl (flowSeq (n :: items) false)
  | flowMap entries none false _ => .inl (flowMap entries (some n) false false)
  | flowMap entries none true _ => .inl (flowMap ((n, .nothing) :: entries) none false false)
  | flowMap entries (some k) _ _ => .inl (flowMap ((k, n) :: entries) none false false)
  | pair none => .inl (pair (some n))
  | pair (some k) => .inr (.map [(k, n)])

end Frame

/-- The state of putting a document together. -/
structure Composer where
  reader : Reader
  /-- What the tag handles stand for. -/
  handles : List (String × String) := []
  /-- The anchors by name, the latest first. -/
  names : List (String × Nat) := []
  /-- The nodes with an anchor that are complete. -/
  anchored : List (Nat × Node) := []
  /-- The number of anchors so far. -/
  anchors : Nat := 0
  /-- The number of places so far where a node is used again. -/
  places : Nat := 0
  /-- The open collections, from the inside out, with their anchors. -/
  frames : List (Frame × Option Nat) := []
  /-- The tree, when it is complete. -/
  root : Option Node := none

/-- A step of putting a document together, which may fail. -/
abbrev Composing := StateT Composer Option

namespace Composing

/-- The next token. -/
def peek : Composing Token := fun c => do
  let (t, reader) ← Lexing.peek c.reader
  some (t, { c with reader })

/-- Uses the next token up. -/
def advance : Composing Unit := fun c => do
  let (_, reader) ← Lexing.advance c.reader
  some ((), { c with reader })

/-! ### Finished nodes -/

/-- Makes a node known under its anchor. -/
def anchor (a : Option Nat) (n : Node) : Composing Unit :=
  match a with
  | some a => modify fun c => { c with anchored := (a, n) :: c.anchored }
  | none => return ()

/-- Puts a finished node into the innermost open collection. -/
def deliver (n : Node) : Composing Unit := do
  match (← get).frames with
  | [] => modify fun c => { c with root := some n }
  | (f, a) :: frames =>
    match f.put n with
    | .inl f => modify fun c => { c with frames := (f, a) :: frames }
    | .inr n =>
      -- A pair stands in a sequence, which takes it in.
      match frames with
      | (g, b) :: frames =>
        match g.put n with
        | .inl g => modify fun c => { c with frames := (g, b) :: frames }
        | .inr _ => failure
      | [] => failure

/-- Closes the innermost open collection. -/
def close : Composing Unit := do
  match (← get).frames with
  | [] => failure
  | (f, a) :: frames =>
    modify fun c => { c with frames }
    anchor a f.node
    deliver f.node

/-- Opens a collection. -/
def push (f : Frame) (a : Option Nat) : Composing Unit :=
  modify fun c => { c with frames := (f, a) :: c.frames }

/-- Replaces the innermost open collection. -/
def become (f : Frame) : Composing Unit :=
  modify fun c => { c with frames := (f, (c.frames.head?.bind (·.2))) :: c.frames.tail }

/-! ### Nodes -/

/-- The anchor and the tag in front of a node, if there are any. -/
structure Properties where
  name : Option String := none
  tag : Option (String × String) := none

/-- Reads the anchor and the tag in front of a node, in either order. -/
def properties : Composing Properties := do
  match ← peek with
  | .anchor name =>
    advance
    match ← peek with
    | .tag handle suffix =>
      advance
      return { name, tag := (handle, suffix) }
    | _ => return { name }
  | .tag handle suffix =>
    advance
    match ← peek with
    | .anchor name =>
      advance
      return { name, tag := (handle, suffix) }
    | _ => return { tag := (handle, suffix) }
  | _ => return {}

/-- The name of a tag. A handle must stand for something. -/
def tagName (tag : Option (String × String)) : Composing String := do
  match tag with
  | none => return ""
  | some ("", suffix) => return suffix
  | some (handle, suffix) =>
    match (← get).handles.lookup handle with
    | some lead => return lead ++ suffix
    | none => failure

/-- The tag of a scalar. The tag `!` is as good as none. -/
def scalarTag (name text : String) (plain : Bool) : Tag :=
  if name != "" && name != "!" then .ofName name
  else if !plain then .str
  else if text == "<<" then .merge
  else .implicit

/-- A new anchor with a name. -/
def newAnchor : Option String → Composing (Option Nat)
  | none => return none
  | some name => do
    let a := (← get).anchors
    modify fun c => { c with anchors := a + 1, names := (name, a) :: c.names }
    return some a

/-- Puts in a scalar. -/
def scalar (name : Option String) (tag text : String) (plain : Bool) : Composing Unit := do
  let n := Node.scalar (scalarTag tag text plain) text
  anchor (← newAnchor name) n
  deliver n

/-- Puts in the node with a name once more. -/
def again (name : String) : Composing Unit := do
  let c ← get
  match c.names.lookup name with
  | some a =>
    set { c with places := c.places + 1 }
    deliver (.again name c.places a)
  | none => failure

/-- Reads a node up to where its first item or key is. In a block, block collections may follow;
after a key also a sequence that is not indented any further. -/
def openNode (inBlock afterKey : Bool) : Composing Unit := do
  match ← peek with
  | .again name =>
    advance
    again name
  | _ =>
    let p ← properties
    let tag ← tagName p.tag
    let collection (f : Frame) : Composing Unit := do
      push f (← newAnchor p.name)
    match ← peek, inBlock, afterKey with
    | .entry, _, true => collection (.flushSeq [])
    | .scalar text plain, _, _ =>
      advance
      scalar p.name tag text plain
    | .openSeq, _, _ =>
      advance
      collection (.flowSeq [] true)
    | .openMap, _, _ =>
      advance
      collection (.flowMap [] none false true)
    | .seqStart, true, _ =>
      advance
      collection (.blockSeq [])
    | .mapStart, true, _ =>
      advance
      collection (.blockMap [] none)
    | _, _, _ =>
      if p.name.isSome || tag != "" then scalar p.name tag "" true else failure

/-- Reads a node unless one of the given tokens follows. -/
def openNodeUnless (stop : List Token) (inBlock afterKey : Bool) : Composing Unit := do
  if stop.contains (← peek) then deliver .nothing else openNode inBlock afterKey

/-! ### Steps -/

/-- Goes on in a sequence in a block. -/
def blockSeq : Composing Unit := do
  match ← peek with
  | .entry =>
    advance
    openNodeUnless [.entry, .blockEnd] true false
  | .blockEnd =>
    advance
    close
  | _ => failure

/-- Goes on in a sequence that is not indented further than the key before it. -/
def flushSeq : Composing Unit := do
  match ← peek with
  | .entry =>
    advance
    openNodeUnless [.entry, .key, .value, .blockEnd] true false
  | _ => close

/-- Goes on in a mapping in a block where a key is due. -/
def blockKey : Composing Unit := do
  match ← peek with
  | .key =>
    advance
    openNodeUnless [.key, .value, .blockEnd] true true
  | .blockEnd =>
    advance
    close
  | _ => failure

/-- Goes on in a mapping in a block where a value is due. -/
def blockValue : Composing Unit := do
  match ← peek with
  | .value =>
    advance
    openNodeUnless [.key, .value, .blockEnd] true true
  | _ => deliver .nothing

/-- Skips the comma between two items in brackets. -/
def separate (first : Bool) (closing : Token) : Composing Unit := do
  unless first || (← peek) == closing do
    if (← peek) == .comma then advance else failure

/-- Goes on in a sequence in brackets. -/
def flowSeq (first : Bool) : Composing Unit := do
  separate first .closeSeq
  match ← peek with
  | .closeSeq =>
    advance
    close
  | .key =>
    advance
    push (.pair none) none
  | _ => openNode false false

/-- Goes on in a pair where its key is due. A sign that stands in place of the key is skipped. -/
def pairKey : Composing Unit := do
  if [.value, .comma, .closeSeq].contains (← peek) then
    advance
    deliver .nothing
  else openNode false false

/-- Goes on where a value in brackets is due. -/
def flowValue (closing : Token) : Composing Unit := do
  match ← peek with
  | .value =>
    advance
    openNodeUnless [.comma, closing] false false
  | _ => deliver .nothing

/-- Goes on in a mapping in brackets where a key is due. -/
def flowKey (entries : List (Node × Node)) (first : Bool) : Composing Unit := do
  separate first .closeMap
  match ← peek with
  | .closeMap =>
    advance
    close
  | .key =>
    advance
    openNodeUnless [.value, .comma, .closeMap] false false
  | _ =>
    become (.flowMap entries none true false)
    openNode false false

/-- Goes on in the innermost open collection. -/
def step : Frame → Composing Unit
  | .blockSeq _ => blockSeq
  | .flushSeq _ => flushSeq
  | .blockMap _ none => blockKey
  | .blockMap _ (some _) => blockValue
  | .flowSeq _ first => flowSeq first
  | .flowMap entries none _ first => flowKey entries first
  | .flowMap _ (some _) _ _ => flowValue .closeMap
  | .pair none => pairKey
  | .pair (some _) => flowValue .closeSeq

/-- Takes at most `n` steps until the tree is complete. -/
def run : Nat → Composing Node
  | 0 => failure
  | n + 1 => do
    let c ← get
    match c.root, c.frames with
    | some root, _ => return root
    | none, [] => failure
    | none, (f, _) :: _ =>
      step f
      run n

/-! ### Documents -/

/-- Reads at most `n` directives. -/
def directives : Nat → Bool → Composing Unit
  | 0, _ => failure
  | n + 1, versioned => do
    match ← peek with
    | .directive (.version major minor) =>
      if versioned || major != 1 || minor != 1 then failure
      advance
      directives n true
    | .directive (.handle handle lead) =>
      if ((← get).handles.lookup handle).isSome then failure
      modify fun c => { c with handles := (handle, lead) :: c.handles }
      advance
      directives n versioned
    | _ => return ()

/-- What handles stand for unless a directive says otherwise. -/
def defaultHandles : List (String × String) := [("!", "!"), ("!!", "tag:yaml.org,2002:")]

/-- Whether a token cannot be part of a document's tree. -/
def endsDocument : Token → Bool
  | .directive _ | .docStart | .docEnd | .streamEnd => true
  | _ => false

/-- Reads up to the first node of a document. The result says whether there is a document. -/
def start (size : Nat) : Composing Bool := do
  let _ ← peek
  advance
  match ← peek with
  | .streamEnd => return false
  | .directive _ | .docStart =>
    directives (size + 1) false
    if (← peek) != .docStart then failure
    modify fun c => { c with handles := c.handles ++ defaultHandles }
    advance
    if endsDocument (← peek) then deliver .nothing else openNode true false
    return true
  | _ =>
    modify fun c => { c with handles := defaultHandles }
    openNode true false
    return true

/-- Reads a document and looks at what follows it. -/
def document (size : Nat) : Composing Document := do
  let root ←
    if ← start size then
      -- A character gives three tokens at most, and a token is used up in two steps out of three.
      run (12 * size + 12)
    else pure .nothing
  if (← get).reader.cursor.refused then failure
  let _ ← peek
  let c ← get
  return { root, anchored := c.anchored, places := c.places, size }

end Composing

/-- The first document of a source. A source without one is as good as an empty document. -/
def Document.parse? (src : Source) : Option Document := do
  let reader ← Reader.ofSource? src
  let (d, _) ← Composing.document src.length { reader }
  some d

end Yaml

end LetPoly
