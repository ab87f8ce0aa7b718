import LetPoly.Context
import LetPoly.Env
import LetPoly.Expr.Printer

/-!
# Type inference

`infer` computes the principal type of a term by structural recursion. A variable gets a fresh copy
of its scheme; the parameter of an abstraction gets a fresh variable and stays monomorphic in the
body; in an application the type of the callee is unified with an arrow from the type of the
argument to a fresh variable; the value of a `let` is generalized against the environment around
the `let` before the body is typed.

The first failure ends the run. It says what went wrong and at which position of the term.
-/

namespace LetPoly

/-- What can go wrong when a type is inferred. -/
inductive InferError where
  /-- A name without a binding. -/
  | unknownVariable (name : String)
  /-- Types that do not fit. -/
  | type (e : TypeError)
  /-- An alien inside the term. -/
  | unhandled (a : Alien)
  /-- No term at all. -/
  | empty
deriving DecidableEq, Repr

/-- The wording of an inference error. -/
def InferError.message : InferError → String
  | .unknownVariable name => "unknown variable '" ++ name ++ "'"
  | .type e => e.message
  | .unhandled .absent => "Unhandled expression (nil)"
  | .unhandled (.named name) => "Unhandled expression (" ++ name ++ ")"
  | .empty => "Empty expression"

/-- Whether the error is a verdict on the term. A run that meets an alien type, or a variable that it
would have to bind twice, breaks off without one. -/
def InferError.isVerdict : InferError → Bool
  | .type (.rebound _) | .type (.unexpected _) => false
  | _ => true

/-- A failed run: what went wrong, and the position of the term it went wrong at. -/
structure Failure where
  error : InferError
  position : List Expr.Branch := []
deriving DecidableEq, Repr

namespace Failure

/-- The failure seen from the parent of the term. -/
def under (b : Expr.Branch) (f : Failure) : Failure := { f with position := b :: f.position }

/-- The subterm that a failed run on `e` points at, if there is one. -/
def culprit? (f : Failure) (e : Expr) : Option Expr :=
  match e.subterm? f.position with
  | some (.alien .absent) => none
  | r => r

theorem culprit?_under {b : Expr.Branch} {e e' : Expr} (h : e.child? b = some e') (f : Failure) :
    (f.under b).culprit? e = f.culprit? e' := by
  rw [culprit?, culprit?, under, Expr.subterm?, h]
  rfl

end Failure

/-- The type of a term in an environment, and the context after finding it. -/
def inferType (env : Env) (e : Expr) (ctx : Context) : Except Failure (Ty × Context) :=
  match e with
  | .var x =>
    match env.lookup x with
    | none => .error ⟨.unknownVariable x, []⟩
    | some s =>
      match ctx.instantiate? s with
      | (.ok t, ctx) => .ok (t, ctx)
      | (.error a, _) => .error ⟨.type (.unexpected a), []⟩
  | .call f a => do
    let (calleeTy, ctx) ← (inferType env f ctx).mapError (·.under .callee)
    let (argumentTy, ctx) ← (inferType env a ctx).mapError (·.under .argument)
    let (result, ctx) := ctx.fresh
    match ctx.unify calleeTy (.arrow argumentTy (.var result)) with
    | (ctx, none) => .ok (.var result, ctx)
    | (_, some e) => .error ⟨.type e, []⟩
  | .func x b => do
    let (param, ctx) := ctx.fresh
    let (bodyTy, ctx) ← (inferType (env.extend x (.mono (.var param))) b ctx).mapError
      (·.under .body)
    return (.arrow (.var param) bodyTy, ctx)
  | .letIn x v b => do
    let (valueTy, ctx) ← (inferType env v ctx).mapError (·.under .value)
    match ctx.generalize? valueTy env.free with
    | .error a => .error ⟨.type (.unexpected a), []⟩
    | .ok s => (inferType (env.extend x s) b ctx).mapError (·.under .body)
  | .alien a => .error ⟨.unhandled a, []⟩

/-- The most general scheme of a term in an environment. -/
def infer (env : Env) (e : Expr) : Except Failure Scheme :=
  match e with
  | .alien .absent => .error ⟨.empty, []⟩
  | e => do
    let (t, ctx) ← inferType env e (.init env.next)
    match ctx.generalize? t env.free with
    | .error a => .error ⟨.type (.unexpected a), []⟩
    | .ok s => return s

end LetPoly
