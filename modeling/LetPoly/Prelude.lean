import LetPoly.Env
import LetPoly.Scheme.Parser

/-!
# Preludes

A prelude gives the names of an initial environment and the sources of their types. All types of a
prelude are read with one table of names, so a variable that is not quantified means the same in
every one of them. The bindings are added in order, and the first that is bad ends the reading.
-/

namespace LetPoly

namespace Prelude

/-- A name and the source of its type. -/
structure Entry where
  name : String := ""
  type : Source := []
deriving DecidableEq, Repr

/-- What is wrong with the entry at an index. -/
inductive EntryError where
  | missingName (index : Nat)
  | badType (index : Nat) (name : String) (error : ParseError)
deriving DecidableEq, Repr

/-- The wording of an entry error. -/
def EntryError.message : EntryError → String
  | missingName i => "binding " ++ toString i ++ ": missing name"
  | badType i name e => "binding " ++ toString i ++ " (" ++ name ++ "): " ++ e.message

/-- Adds entries, of which the first has the given index, to an environment. -/
def extend (env : Env) (names : NameTable) (index : Nat) : List Entry → Except EntryError Env
  | [] => .ok env
  | e :: entries =>
    if e.name = "" then .error (.missingName index)
    else
      match Scheme.parseWith names e.type with
      | (.error err, _) => .error (.badType index e.name err)
      | (.ok s, names) => extend (env.extend e.name s) names (index + 1) entries

/-- The environment of a prelude. -/
def env (entries : List Entry) : Except EntryError Env := extend ∅ {} 0 entries

/-- The built-in prelude: booleans, numbers, lists, pairs, and a fixed-point combinator. -/
def builtin : List Entry := [
  ("true", "Bool"),
  ("false", "Bool"),
  ("if", "forall a. Bool -> a -> a -> a"),
  ("zero", "Int"),
  ("succ", "Int -> Int"),
  ("plus", "Int -> Int -> Int"),
  ("eq", "Int -> Int -> Bool"),
  ("nil", "forall a. List a"),
  ("cons", "forall a. a -> List a -> List a"),
  ("head", "forall a. List a -> a"),
  ("tail", "forall a. List a -> List a"),
  ("null", "forall a. List a -> Bool"),
  ("pair", "forall a b. a -> b -> Pair a b"),
  ("fst", "forall a b. Pair a b -> a"),
  ("snd", "forall a b. Pair a b -> b"),
  ("fix", "forall a. (a -> a) -> a")].map fun (name, type) => ⟨name, .ofString type⟩

/-- The environment of the built-in prelude. -/
def builtinEnv : Env := (env builtin).toOption.getD ∅

end Prelude

end LetPoly
