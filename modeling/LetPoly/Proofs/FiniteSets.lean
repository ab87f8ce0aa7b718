import LetPoly.VarSet
import Mathlib.Data.Finset.Card

/-!
# Ascending lists as finite sets

A `VarSet` stands for the finite set of its members (`VarSet.toFinset`), and no operation can tell the
two apart: whatever way a set was made (`VarSet.Recipe`), it stands for the set that the same steps make
of finite sets (`Recipe.toFinset_build`).

The steps hide some choices. A union adds the members of the smaller operand to the larger one, adding
and taking away leave the list alone when there is nothing to do, and equality looks up the members of
one set only, after a comparison of sizes. Each of the `toFinset_` lemmas says of one step that its
choices do not show; `equal_iff` says it of equality.
-/

namespace LetPoly

namespace VarSet
variable {s o : VarSet} {v : TyVar}

/-! ### The set that a list stands for -/

/-- The members, as a finite set. -/
def toFinset (s : VarSet) : Finset TyVar := ⟨s.toList, s.nodup⟩

@[simp] theorem mem_toFinset : v ∈ s.toFinset ↔ v ∈ s := Iff.rfl

theorem card_toFinset (s : VarSet) : s.toFinset.card = s.size := rfl

theorem toFinset_inj : s.toFinset = o.toFinset ↔ s = o := by
  refine ⟨fun h => ?_, congrArg toFinset⟩
  ext v
  rw [← mem_toFinset, h, mem_toFinset]

theorem toFinset_empty : (∅ : VarSet).toFinset = ∅ := rfl

theorem toFinset_ofList (vs : List TyVar) : (ofList vs).toFinset = vs.toFinset := by
  ext v
  simp

theorem toFinset_insert (s : VarSet) (v : TyVar) :
    (s.insert v).toFinset = Insert.insert v s.toFinset := by
  ext w
  simp

theorem toFinset_erase (s : VarSet) (v : TyVar) : (s.erase v).toFinset = s.toFinset.erase v := by
  ext w
  simp [and_comm]

theorem toFinset_union (s o : VarSet) : (s ∪ o).toFinset = s.toFinset ∪ o.toFinset := by
  ext v
  simp

theorem toFinset_sdiff (s o : VarSet) : (s \ o).toFinset = s.toFinset \ o.toFinset := by
  ext v
  simp

theorem equal_iff : s.equal o = true ↔ s = o := by
  unfold equal
  rw [Bool.and_eq_true, beq_iff_eq, List.all_eq_true]
  constructor
  · rintro ⟨hsize, hall⟩
    have hsub : ∀ v, v ∈ s → v ∈ o := fun v hv => of_decide_eq_true (hall v hv)
    ext v
    refine ⟨hsub v, fun hv => ?_⟩
    by_contra hn
    -- with a member of `o` that `s` lacks, `o` would be the larger of the two
    exact (size_lt_of_subset hsub hv hn).ne hsize
  · rintro rfl
    exact ⟨rfl, fun v hv => decide_eq_true hv⟩

/-! ### Ways to make a set -/

/-- A way to come by a set. -/
inductive Recipe where
  /-- A set that nobody has made. -/
  | unmade
  | empty
  | ofList (vs : List TyVar)
  | insert (r : Recipe) (v : TyVar)
  | erase (r : Recipe) (v : TyVar)
  | union (r q : Recipe)
  | sdiff (r q : Recipe)

namespace Recipe

/-- The set that comes out. -/
def build : Recipe → VarSet
  | .unmade => default
  | .empty => ∅
  | .ofList vs => .ofList vs
  | .insert r v => r.build.insert v
  | .erase r v => r.build.erase v
  | .union r q => r.build ∪ q.build
  | .sdiff r q => r.build \ q.build

/-- What should be in it. -/
def members : Recipe → Finset TyVar
  | .unmade => ∅
  | .empty => ∅
  | .ofList vs => vs.toFinset
  | .insert r v => Insert.insert v r.members
  | .erase r v => r.members.erase v
  | .union r q => r.members ∪ q.members
  | .sdiff r q => r.members \ q.members

theorem toFinset_build (r : Recipe) : r.build.toFinset = r.members := by
  induction r with
  | unmade => exact toFinset_empty
  | empty => exact toFinset_empty
  | ofList vs => exact toFinset_ofList vs
  | insert r v ih => rw [build, members, toFinset_insert, ih]
  | erase r v ih => rw [build, members, toFinset_erase, ih]
  | union r q ihr ihq => rw [build, members, toFinset_union, ihr, ihq]
  | sdiff r q ihr ihq => rw [build, members, toFinset_sdiff, ihr, ihq]

theorem mem_build (r : Recipe) : v ∈ r.build ↔ v ∈ r.members := by
  rw [← toFinset_build, mem_toFinset]

/-- However sets have been made, each lists exactly its members, in strictly ascending order and so once
each. Sizes count the members, unions and differences are those of the sets of members, and two sets are
found equal exactly if they have the same members. -/
theorem build_refines (r q : Recipe) :
    r.build.toList.Pairwise (· < ·) ∧
    (∀ v, v ∈ r.build.toList ↔ v ∈ r.members) ∧
    r.build.size = r.build.toList.length ∧
    r.build.size = r.members.card ∧
    (∀ v, v ∈ r.build ↔ v ∈ r.members) ∧
    (∀ v, v ∈ r.build ∪ q.build ↔ v ∈ r.members ∨ v ∈ q.members) ∧
    (∀ v, v ∈ r.build \ q.build ↔ v ∈ r.members ∧ v ∉ q.members) ∧
    (r.build.equal q.build = true ↔ ∀ v, v ∈ r.members ↔ v ∈ q.members) := by
  refine ⟨r.build.ascending, fun v => r.mem_build, rfl, ?_, fun v => r.mem_build, fun v => ?_,
    fun v => ?_, ?_⟩
  · rw [← toFinset_build, card_toFinset]
  · rw [mem_union, mem_build, mem_build]
  · rw [mem_sdiff, mem_build, mem_build]
  · rw [equal_iff, ← toFinset_inj, toFinset_build, toFinset_build, Finset.ext_iff]

end Recipe

end VarSet

end LetPoly
