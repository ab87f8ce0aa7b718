import LetPoly.Infer

/-!
# Inference sessions

A session is used for one inference after the other. All runs work on the one state: the context, which
a run leaves behind as it was when the run ended, and the record of how the last run failed. Each run
begins by discarding what it finds.
-/

namespace LetPoly

/-- The state that the runs of a session share. -/
structure Session where
  /-- The context of the last run. -/
  context : Context := {}
  /-- Whether there has been a run since the session was new or reset. -/
  used : Bool := false
  /-- The error of the last run, if it failed. -/
  error? : Option InferError := none
  /-- The subterm that the last run failed at, if it failed at one. -/
  culprit? : Option Expr := none

namespace Session

/-- Discards the context and the record. Fresh variables start at `first`. -/
def clear (_ : Session) (first : TyVar) : Session := { context := .init first }

/-- Forgets the last run, if there has been one. -/
def reset (s : Session) : Session := if s.used then s.clear 0 else s

/-- The session with the record of a failed run on `e`. A run that breaks off without a verdict on the
term is not recorded. -/
def record (s : Session) (f : Failure) (e : Expr) : Session :=
  if f.error.isVerdict then { s with error? := some f.error, culprit? := f.culprit? e } else s

/-- A part of a run. It keeps what it has done to the session when it fails. -/
abbrev Run (α : Type) := ExceptT Failure (StateM Session) α

namespace Run

/-- Ends the run at the term `e`. -/
def fail {α : Type} (e : Expr) (error : InferError) : Run α := do
  modify fun s => s.record ⟨error, []⟩ e
  throw ⟨error, []⟩

/-- The part of the run that is about a child of the term. -/
def under {α : Type} (b : Expr.Branch) (m : Run α) : Run α := ExceptT.adapt (·.under b) m

/-- The next fresh variable. -/
def fresh : Run TyVar := do
  let s ← get
  let (v, context) := s.context.fresh
  set { s with context }
  return v

/-- A fresh copy of a scheme, for its name `e`. -/
def instantiate (e : Expr) (scheme : Scheme) : Run Ty := do
  let s ← get
  let (copy, context) := s.context.instantiate? scheme
  set { s with context }
  match copy with
  | .ok t => return t
  | .error a => fail e (.type (.unexpected a))

/-- Makes two types equal, for the application `e`. -/
def unify (e : Expr) (a b : Ty) : Run Unit := do
  let s ← get
  let (context, error?) := s.context.unify a b
  set { s with context }
  match error? with
  | none => return ()
  | some error => fail e (.type error)

/-- The scheme of a type that has been found in the term `e`. -/
def generalize (e : Expr) (t : Ty) (fixed : VarSet) : Run Scheme := do
  let s ← get
  match s.context.generalize? t fixed with
  | .ok scheme => return scheme
  | .error a => fail e (.type (.unexpected a))

/-- The type of a term in an environment. -/
def inferType (env : Env) (e : Expr) : Run Ty :=
  match e with
  | .var x =>
    match env.lookup x with
    | none => fail (.var x) (.unknownVariable x)
    | some s => instantiate (.var x) s
  | .call f a => do
    let calleeTy ← under .callee (inferType env f)
    let argumentTy ← under .argument (inferType env a)
    let result ← fresh
    unify (.call f a) calleeTy (.arrow argumentTy (.var result))
    return .var result
  | .func x b => do
    let param ← fresh
    let bodyTy ← under .body (inferType (env.extend x (.mono (.var param))) b)
    return .arrow (.var param) bodyTy
  | .letIn x v b => do
    let valueTy ← under .value (inferType env v)
    let s ← generalize (.letIn x v b) valueTy env.free
    under .body (inferType (env.extend x s) b)
  | .alien a => fail (.alien a) (.unhandled a)

/-- The most general scheme of a term in an environment. -/
def infer (env : Env) (e : Expr) : Run Scheme :=
  match e with
  | .alien .absent => fail (.alien .absent) .empty
  | e => do
    let t ← inferType env e
    generalize e t env.free

end Run

/-- Infers a scheme, and leaves a record if this fails. -/
def infer (s : Session) (env : Env) (e : Expr) : Session × Except Failure Scheme :=
  let (answer, s) := (Run.infer env e).run.run { s.clear env.next with used := true }
  (s, answer)

end Session

end LetPoly
