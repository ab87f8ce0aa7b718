import LetPoly.Text.Quoted

/-!
# Command-line flags

Flags start with one or two dashes. A flag with a value takes it after `=` or from the next
argument; a flag without one may be given a truth value after `=`. Reading stops at the first
argument that is not a flag, or after `--`. When a flag is repeated the last one counts.
-/

namespace LetPoly

namespace Command

/-- What the flags ask for. An empty text counts as not given. -/
structure Options where
  /-- The expression to infer the type of. -/
  expr : String := ""
  /-- The file to load the environment from. -/
  prelude : String := ""
  /-- Whether to start from an empty environment. -/
  noPrelude : Bool := false
deriving DecidableEq, Repr

/-- Why the flags could not be read. -/
inductive FlagError where
  /-- The usage was asked for. -/
  | help
  | badSyntax (arg : String)
  | undefined (name : String)
  | needsArgument (name : String)
  | invalidBool (value name : String)
deriving DecidableEq, Repr

namespace FlagError

/-- The wording of a flag error; asking for the usage is none. -/
def message? : FlagError → Option String
  | help => none
  | badSyntax arg => some ("bad flag syntax: " ++ arg)
  | undefined name => some ("flag provided but not defined: -" ++ name)
  | needsArgument name => some ("flag needs an argument: -" ++ name)
  | invalidBool value name =>
    some ("invalid boolean value " ++ Text.quote value ++ " for -" ++ name ++ ": parse error")

/-- The exit code that a flag error leads to. -/
def exit : FlagError → Nat
  | help => 0
  | _ => 2

end FlagError

/-- The description of the flags. -/
def usage : String :=
  "Usage of algj:\n" ++
  "  -e expr\n    \tinfer the type of expr and exit\n" ++
  "  -no-prelude\n    \tstart from an empty typing context\n" ++
  "  -prelude file\n    \tload the typing context from a YAML file\n"

/-- An argument, as far as its form goes. -/
inductive Arg where
  /-- Not a flag, or the mark behind the last flag. -/
  | other
  /-- A dash without a name. -/
  | malformed
  /-- A flag, with the value after `=` if it has one. -/
  | flag (name : String) (value : Option String)
deriving DecidableEq, Repr

/-- A flag with the given characters behind its dashes. -/
def Arg.ofName (cs : List Char) : Arg :=
  if cs.isEmpty ∨ cs.head? = some '-' ∨ cs.head? = some '=' then .malformed
  else
    let name := String.ofList (cs.takeWhile (· ≠ '='))
    match cs.dropWhile (· ≠ '=') with
    | [] => .flag name none
    | _ :: value => .flag name (some (String.ofList value))

/-- The form of an argument. -/
def Arg.ofString (s : String) : Arg :=
  match s.toList with
  | ['-', '-'] => .other
  | '-' :: '-' :: cs => .ofName cs
  | '-' :: c :: cs => .ofName (c :: cs)
  | _ => .other

/-- The truth value that a text stands for. -/
def bool? (s : String) : Option Bool :=
  if ["1", "t", "T", "true", "TRUE", "True"].contains s then some true
  else if ["0", "f", "F", "false", "FALSE", "False"].contains s then some false
  else none

namespace Options

/-- Sets the flag with a name, if it is one that takes a value. -/
def set? (o : Options) (name value : String) : Option Options :=
  match name with
  | "e" => some { o with expr := value }
  | "prelude" => some { o with prelude := value }
  | _ => none

/-- Reads flags on top of the options given so far. -/
def parseFrom (o : Options) : List String → Except FlagError Options
  | [] => .ok o
  | arg :: rest =>
    match Arg.ofString arg with
    | .other => .ok o
    | .malformed => .error (.badSyntax arg)
    | .flag "no-prelude" none => parseFrom { o with noPrelude := true } rest
    | .flag "no-prelude" (some value) =>
      match bool? value with
      | some b => parseFrom { o with noPrelude := b } rest
      | none => .error (.invalidBool value "no-prelude")
    | .flag name (some value) =>
      match o.set? name value with
      | some o => parseFrom o rest
      | none => .error (if name = "help" ∨ name = "h" then .help else .undefined name)
    | .flag name none =>
      match o.set? name "", rest with
      | some _, value :: rest => parseFrom ((o.set? name value).getD o) rest
      | some _, [] => .error (.needsArgument name)
      | none, _ => .error (if name = "help" ∨ name = "h" then .help else .undefined name)

/-- Reads flags. -/
def parse (args : List String) : Except FlagError Options := parseFrom {} args

end Options

end Command

end LetPoly
