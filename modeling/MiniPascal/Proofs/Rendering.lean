import MiniPascal.Proofs.Success
import MiniPascal.Syntax
import MiniPascal.Tree.Render

/-!
# Values, Types and Designators Can Be Written

The written form of a tree exists only for trees of the right shape. Constant values, types and
designators, as programs have them, have one.

* `ConstValue.succeeds_render`: constant values;
* `TypeExpr.succeeds_render`: types;
* `Designator.succeeds_render`: designators.
-/

namespace MiniPascal

open MiniPascal.Tree

theorem succeeds_render_text (quoted : Bool) (s : String) : Succeeds (render quoted (.text s)) := by
  exact succeeds_ok _

theorem succeeds_render_list {ts : List Tree} (quoted : Bool) (h : Succeeds (renderItems ts)) :
    Succeeds (render quoted (.list ts)) := by
  exact h.bind fun _ _ => succeeds_pure _

/-- A list can be written if all of its items can. -/
theorem succeeds_renderItems : ∀ {ts : List Tree}, (∀ t ∈ ts, Succeeds (render true t)) →
    Succeeds (renderItems ts)
  | [], _ => succeeds_ok _
  | t :: ts, h => by
    have hrest := succeeds_renderItems fun t' ht' => h t' (List.mem_cons_of_mem t ht')
    exact (h t List.mem_cons_self).bind fun _ _ => hrest.bind fun _ _ => succeeds_pure _

/-- A pair of a name and a value can be written if the value can. -/
theorem succeeds_renderPairs_cons {name : String} {t : Tree} {ts : List Tree}
    (ht : Succeeds (render false t)) (hts : Succeeds (renderPairs ts)) :
    Succeeds (renderPairs (.tuple [.text name, t] :: ts)) := by
  refine Succeeds.bind ?_ fun _ _ => hts.bind fun _ _ => succeeds_pure _
  exact (succeeds_render_text _ _).bind fun _ _ => ht.bind fun _ _ => succeeds_pure _

mutual

theorem ConstValue.succeeds_render (quoted : Bool) :
    ∀ v : ConstValue, Succeeds (render quoted v.toTree)
  | .number n => by
    exact succeeds_ok _
  | .literal s => succeeds_render_text quoted s
  | .list vs => succeeds_render_list quoted (succeeds_renderItems_constTrees vs)
  | .record fs => by
    exact (succeeds_renderPairs_fieldTrees fs).bind fun _ _ => succeeds_pure _

theorem succeeds_renderItems_constTrees : ∀ vs : List ConstValue,
    Succeeds (renderItems (constTrees vs))
  | [] => succeeds_ok _
  | v :: vs => by
    exact (v.succeeds_render true).bind fun _ _ =>
      (succeeds_renderItems_constTrees vs).bind fun _ _ => succeeds_pure _

theorem succeeds_renderPairs_fieldTrees : ∀ fs : List (String × ConstValue),
    Succeeds (renderPairs (fieldTrees fs))
  | [] => succeeds_ok _
  | (_, v) :: fs =>
    succeeds_renderPairs_cons (v.succeeds_render false) (succeeds_renderPairs_fieldTrees fs)

end

def dimensionTree (d : Nat × Nat) : Tree := .tuple [.int d.1, .int d.2]

theorem succeeds_render_dimensionTree (d : Nat × Nat) :
    Succeeds (render true (dimensionTree d)) := by
  simp only [dimensionTree, render, renderItems]
  exact succeeds_pure _

theorem ArrayType.succeeds_render (a : ArrayType) : Succeeds (render false a.toTree) := by
  have hdimensions : Succeeds (render false (.list (a.dimensions.map dimensionTree))) := by
    refine succeeds_render_list false (succeeds_renderItems fun t ht => ?_)
    obtain ⟨d, -, rfl⟩ := List.mem_map.1 ht
    exact succeeds_render_dimensionTree d
  have hinitial : Succeeds (render false
      (Tree.ofOption (a.initial.map fun values => .list (constTrees values)))) := by
    cases a.initial with
    | none => exact succeeds_ok _
    | some values => exact succeeds_render_list false (succeeds_renderItems_constTrees values)
  exact hdimensions.bind fun _ _ => (succeeds_render_text _ _).bind fun _ _ =>
    hinitial.bind fun _ _ => succeeds_pure _

mutual

theorem TypeExpr.succeeds_render : ∀ type : TypeExpr, Succeeds (render false type.toTree)
  | .named n => by
    exact succeeds_pure _
  | .array type => type.succeeds_render
  | .record fs => by
    exact (succeeds_renderPairs_memberTrees fs).bind fun _ _ => succeeds_pure _
  | .omitted => succeeds_ok _

theorem succeeds_renderPairs_memberTrees : ∀ fs : List (String × TypeExpr),
    Succeeds (renderPairs (memberTrees fs))
  | [] => succeeds_ok _
  | (_, type) :: fs =>
    succeeds_renderPairs_cons type.succeeds_render (succeeds_renderPairs_memberTrees fs)

end

/-! ### Designators -/

theorem Expr.succeeds_render (e : Expr) : Succeeds (render false e.toTree) := by
  cases e <;> exact succeeds_ok _

theorem succeeds_renderTexts_exprTrees : ∀ es : List Expr, Succeeds (renderTexts (exprTrees es))
  | [] => succeeds_ok _
  | e :: es => by
    refine e.succeeds_render.bind fun _ _ => ?_
    exact (succeeds_renderTexts_exprTrees es).bind fun _ _ => succeeds_pure _

theorem Designator.succeeds_render : ∀ place : Designator, Succeeds (render false place.toTree)
  | .name n => succeeds_render_text false n
  | .element base index => by
    refine base.succeeds_render.bind fun _ _ => ?_
    exact index.succeeds_render.bind fun _ _ => succeeds_pure _
  | .field base n => by
    refine base.succeeds_render.bind fun _ _ => ?_
    exact (succeeds_render_text false n).bind fun _ _ => succeeds_pure _
  | .call base arguments => by
    refine (succeeds_renderTexts_exprTrees arguments).bind fun _ _ => ?_
    exact base.succeeds_render.bind fun _ _ => succeeds_pure _

end MiniPascal
