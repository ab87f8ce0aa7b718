import Mathlib.Data.List.Induction
import LetPoly.Session
import LetPoly.Proofs.Environment

/-!
# Environments and the calls that built them

An environment starts out empty and gets one binding after the other, with a scheme that is given or
with a type that is generalized (`Env.Op`). What it keeps beside the bindings is brought up to date by
each call on its own: the index by name, the free variables and the next variable.

The first two say the same as the bindings after every history (`Env.after_agrees`). The next variable
is above all variables of the bindings exactly if none of these is the greatest number there is
(`Env.next_exceeds_iff`): past that number it starts over from the least one.
-/

namespace LetPoly

namespace Env
variable {env : Env} {x : String} {s : Scheme} {v : TyVar} {bs : List Binding}

/-- A call that binds a name. -/
inductive Op where
  | extend (name : String) (s : Scheme)
  | declare (name : String) (t : Ty)

/-- The environment after a call. -/
def perform (env : Env) : Op → Env
  | .extend x s => env.extend x s
  | .declare x t => env.declare x t

/-- An environment that was empty once, after several calls. -/
def after (ops : List Op) : Env := ops.foldl perform ∅

theorem after_concat (ops : List Op) (op : Op) : after (ops ++ [op]) = (after ops).perform op := by
  rw [after, List.foldl_append]
  rfl

/-- `v` occurs in the body of a binding that does not quantify it. -/
def FreeIn (bs : List Binding) (v : TyVar) : Prop :=
  ∃ b ∈ bs, v ∈ b.scheme.body.occurrences ∧ v ∉ b.scheme.vars

/-- The binding that a call adds to bindings. A declared type is quantified over those of its variables
that are not free in the bindings. -/
inductive Op.Adds (bs : List Binding) : Op → Binding → Prop
  | extend {x : String} {s : Scheme} : Adds bs (.extend x s) ⟨x, s⟩
  | declare {x : String} {t : Ty} {vars : VarSet} :
    (∀ v, v ∈ vars ↔ v ∈ t.occurrences ∧ ¬ FreeIn bs v) → Adds bs (.declare x t) ⟨x, ⟨vars, t⟩⟩

/-- Calls and the bindings that they add, both in the order in time. -/
inductive Op.AddAll : List Op → List Binding → Prop
  | nil : AddAll [] []
  | concat {ops : List Op} {bs : List Binding} {op : Op} {b : Binding} :
    AddAll ops bs → op.Adds bs b → AddAll (ops ++ [op]) (bs ++ [b])

/-- The bindings of an environment are those of the calls, and what it keeps beside them says the same:
a name has the scheme of its last binding, and a variable is free if it is free in any of them. -/
structure Agrees (env : Env) (ops : List Op) : Prop where
  bindings : Op.AddAll ops env.bindings
  size : env.size = ops.length
  lookup_some : ∀ x s, env.lookup x = some s ↔ ∃ bs b bs', env.bindings = bs ++ b :: bs' ∧
    b.name = x ∧ b.scheme = s ∧ ∀ b' ∈ bs', b'.name ≠ x
  lookup_none : ∀ x, env.lookup x = none ↔ ∀ b ∈ env.bindings, b.name ≠ x
  free : ∀ v, v ∈ env.free ↔ FreeIn env.bindings v

/-! ### The last binding of a name -/

theorem exists_last_binding (h : env.lookup x = some s) : ∃ bs b bs', env.bindings = bs ++ b :: bs' ∧
    b.name = x ∧ b.scheme = s ∧ ∀ b' ∈ bs', b'.name ≠ x := by
  rw [lookup_eq] at h
  obtain ⟨b, hb, rfl⟩ := Option.map_eq_some_iff.1 h
  obtain ⟨hname, later, earlier, hrecent, hlater⟩ := List.find?_eq_some_iff_append.1 hb
  refine ⟨earlier.reverse, b, later.reverse, ?_, by simpa using hname, rfl, fun b' hb' => ?_⟩
  · rw [Env.bindings, hrecent]
    simp
  · simpa using hlater b' (List.mem_reverse.1 hb')

theorem lookup_eq_some_iff : env.lookup x = some s ↔ ∃ bs b bs', env.bindings = bs ++ b :: bs' ∧
    b.name = x ∧ b.scheme = s ∧ ∀ b' ∈ bs', b'.name ≠ x := by
  constructor
  · exact exists_last_binding
  · rintro ⟨bs, b, bs', hbs, rfl, rfl, hlast⟩
    exact lookup_of_bindings hbs hlast

theorem lookup_eq_none_iff : env.lookup x = none ↔ ∀ b ∈ env.bindings, b.name ≠ x := by
  refine ⟨fun h b hb hname => ?_, lookup_eq_none⟩
  rw [lookup_eq, Option.map_eq_none_iff, List.find?_eq_none] at h
  exact h b (List.mem_reverse.1 hb) (by simpa using hname)

/-! ### One more call -/

theorem freeIn_concat {b : Binding} : FreeIn (bs ++ [b]) v ↔ FreeIn bs v ∨ v ∈ b.scheme.free := by
  simp [FreeIn, Scheme.mem_free, or_and_right, exists_or]

theorem free_declare (env : Env) (x : String) (t : Ty) : (env.declare x t).free = env.free := by
  ext v
  rw [declare, mem_free_extend, Scheme.mem_free_generalize]
  exact or_iff_left_of_imp And.right

theorem exists_extend (env : Env) (op : Op) : ∃ x s, env.perform op = env.extend x s := by
  cases op with
  | extend x s => exact ⟨x, s, rfl⟩
  | declare x t => exact ⟨x, _, rfl⟩

theorem Op.adds_perform {env : Env} (hfree : ∀ v, v ∈ env.free ↔ FreeIn env.bindings v) (op : Op) :
    ∃ b, op.Adds env.bindings b ∧ env.perform op = env.extend b.name b.scheme := by
  cases op with
  | extend x s => exact ⟨⟨x, s⟩, .extend, rfl⟩
  | declare x t =>
    -- the free variables that are kept are those of the bindings
    refine ⟨⟨x, .generalize t env.free⟩, .declare fun v => ?_, rfl⟩
    rw [← hfree]
    exact Scheme.mem_vars_generalize

theorem agrees_empty : (∅ : Env).Agrees [] where
  bindings := .nil
  size := rfl
  lookup_some _ _ := lookup_eq_some_iff
  lookup_none _ := lookup_eq_none_iff
  free v := by
    refine ⟨fun h => absurd h (VarSet.not_mem_empty v), ?_⟩
    rintro ⟨b, hb, -⟩
    cases hb

theorem Agrees.perform {ops : List Op} (h : env.Agrees ops) (op : Op) :
    (env.perform op).Agrees (ops ++ [op]) := by
  obtain ⟨b, hadds, hperform⟩ := op.adds_perform h.free
  rw [hperform]
  refine ⟨?_, ?_, fun _ _ => lookup_eq_some_iff, fun _ => lookup_eq_none_iff, fun v => ?_⟩
  · rw [bindings_extend]
    exact h.bindings.concat hadds
  · have hsize : (env.extend b.name b.scheme).size = env.size + 1 := rfl
    rw [hsize, h.size, List.length_append]
    rfl
  · rw [mem_free_extend, h.free, bindings_extend, freeIn_concat]

/-- Whatever calls have built an environment, it has their bindings in order, looks up the last one of a
name, and keeps the variables that are free in any; to declare a type changes none of these variables. -/
theorem after_agrees (ops : List Op) : (after ops).Agrees ops ∧
    ∀ x t, ((after ops).declare x t).free = (after ops).free := by
  refine ⟨?_, (after ops).free_declare⟩
  induction ops using List.reverseRecOn with
  | nil => exact agrees_empty
  | append_singleton ops op ih =>
    rw [after_concat]
    exact ih.perform op

/-! ### The next variable -/

/-- `v` is quantified by a binding or occurs in its body. -/
def Mentions (env : Env) (v : TyVar) : Prop := ∃ b ∈ env.bindings, b.scheme.Mentions v

theorem ofBindings_concat (bs : List Binding) (b : Binding) :
    ofBindings (bs ++ [b]) = (ofBindings bs).extend b.name b.scheme := by
  rw [ofBindings, List.foldl_append]
  rfl

theorem bindings_ofBindings (bs : List Binding) : (ofBindings bs).bindings = bs := by
  induction bs using List.reverseRecOn with
  | nil => rfl
  | append_singleton bs b ih => rw [ofBindings_concat, bindings_extend, ih]

theorem exists_ofBindings (ops : List Op) : ∃ bs, after ops = ofBindings bs := by
  induction ops using List.reverseRecOn with
  | nil => exact ⟨[], rfl⟩
  | append_singleton ops op ih =>
    obtain ⟨bs, hbs⟩ := ih
    obtain ⟨x, s, hperform⟩ := exists_extend (ofBindings bs) op
    refine ⟨bs ++ [⟨x, s⟩], ?_⟩
    rw [after_concat, hbs, hperform, ofBindings_concat]

theorem toInt_lt_of_ne (h : v ≠ Int64.maxValue) : v.toInt < 2 ^ 63 - 1 := by
  have hlt := v.toInt_lt
  have hne : v.toInt ≠ Int64.maxValue.toInt := fun e => h (Int64.toInt_inj.1 e)
  rw [Int64.toInt_maxValue] at hne
  omega

theorem lt_next_of_mentions {ops : List Op} (h : ¬ (after ops).Mentions Int64.maxValue)
    (hv : (after ops).Mentions v) : v < (after ops).next := by
  obtain ⟨bs, hbs⟩ := exists_ofBindings ops
  rw [hbs, Mentions, bindings_ofBindings] at h
  rw [hbs] at hv ⊢
  obtain ⟨b, hb, hv⟩ := hv
  refine Int64.lt_iff_toInt_lt.2 (lt_next_ofBindings ?_ b (List.mem_reverse.1 hb) v hv)
  exact fun b' hb' w hw => toInt_lt_of_ne fun e => h ⟨b', hb', e ▸ hw⟩

/-- The next variable is above every variable of the bindings, and the first one that an inference takes
is none of these, exactly if the greatest number of all is not among them. -/
theorem next_exceeds_iff (ops : List Op) :
    (∀ v, (after ops).Mentions v → v < (after ops).next ∧
      ∀ session : Session, (session.clear (after ops).next).context.fresh.1 ≠ v) ↔
    ¬ (after ops).Mentions Int64.maxValue := by
  constructor
  · intro h hmax
    have hlt := Int64.lt_iff_toInt_lt.1 (h _ hmax).1
    have hle := (after ops).next.toInt_lt
    rw [Int64.toInt_maxValue] at hlt
    omega
  · intro h v hv
    have hlt := lt_next_of_mentions h hv
    refine ⟨hlt, fun session => ?_⟩
    -- an inference starts from the next variable of its environment
    rintro rfl
    exact absurd hlt Int64.lt_irrefl

/-- A binding that quantifies the greatest number makes the next variable the least one, which is free
in an earlier binding. -/
theorem next_collides_of_wrapped :
    (after [.extend "y" (.mono (.var Int64.minValue)),
      .extend "z" (.forAll [Int64.maxValue] (.var Int64.maxValue))]).next = Int64.minValue ∧
    (after [.extend "y" (.mono (.var Int64.minValue)),
      .extend "z" (.forAll [Int64.maxValue] (.var Int64.maxValue))]).Mentions Int64.minValue ∧
    ¬ ∀ ops v, (after ops).Mentions v → v < (after ops).next ∧ (after ops).next ≠ v := by
  have hnext : (after [.extend "y" (.mono (.var Int64.minValue)),
      .extend "z" (.forAll [Int64.maxValue] (.var Int64.maxValue))]).next = Int64.minValue := by decide
  have hmentions : (after [.extend "y" (.mono (.var Int64.minValue)),
      .extend "z" (.forAll [Int64.maxValue] (.var Int64.maxValue))]).Mentions Int64.minValue :=
    ⟨⟨"y", .mono (.var Int64.minValue)⟩, List.mem_cons_self, .inr List.mem_cons_self⟩
  exact ⟨hnext, hmentions, fun h => (h _ _ hmentions).2 hnext⟩

end Env

end LetPoly
