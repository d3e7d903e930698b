import ApiDecl.Proofs.Types.Enumerations
import ApiDecl.Proofs.Types.Requirements
import Mathlib.Algebra.GroupWithZero.Nat
import Mathlib.Algebra.Order.BigOperators.Group.List
import Mathlib.Algebra.Order.Group.Nat

/-!
# The size of types

`Ty.nodes` counts the types that occur in a type, each as often as it occurs.  The ways of making
types out of others add few: null besides adds two (`Ty.nodes_nullable_le`), types that hold
together add one, whether they make an object or an intersection (`nodes_allOfType_le`), and so do
listed values to their number (`nodes_enumType_le`).
-/

namespace ApiDecl

/-! ### Types that occur in a type -/

namespace Ty

mutual

/-- The number of types that occur in a type. -/
def nodes : Ty → Nat
  | .scalar _ _ | .enumeration _ | .literal _ | .reference _ => 1
  | .array element => element.nodes + 1
  | .object fields none => nodesOfFields fields + 1
  | .object fields (some ty) => nodesOfFields fields + ty.nodes + 1
  | .union members _ | .intersection members => nodesOfAll members + 1

/-- The number of types that occur in the types of fields. -/
def nodesOfFields : List (FieldOf Ty) → Nat
  | [] => 0
  | ⟨_, _, ty, _, _, _⟩ :: rest => ty.nodes + nodesOfFields rest

/-- The number of types that occur in several types. -/
def nodesOfAll : List Ty → Nat
  | [] => 0
  | ty :: rest => ty.nodes + nodesOfAll rest

end

theorem nodesOfFields_cons (field : FieldOf Ty) (fields : List (FieldOf Ty)) :
    nodesOfFields (field :: fields) = field.ty.nodes + nodesOfFields fields := rfl

theorem nodesOfFields_eq (fields : List (FieldOf Ty)) :
    nodesOfFields fields = (fields.map fun field => field.ty.nodes).sum := by
  induction fields with
  | nil => simp [nodesOfFields]
  | cons field rest ih => rw [nodesOfFields_cons, ih, List.map_cons, List.sum_cons]

theorem nodesOfAll_eq (tys : List Ty) : nodesOfAll tys = (tys.map nodes).sum := by
  induction tys with
  | nil => simp [nodesOfAll]
  | cons ty rest ih => rw [nodesOfAll, ih, List.map_cons, List.sum_cons]

/-- The number of types that occur in the parts of an object. -/
def nodesOfObject (o : List (FieldOf Ty) × Option Ty) : Nat :=
  nodesOfFields o.1 + o.2.elim 0 nodes

theorem nodes_object (fields : List (FieldOf Ty)) (additional : Option Ty) :
    (object fields additional).nodes = nodesOfObject (fields, additional) + 1 := by
  cases additional <;> rw [nodes] <;> rfl

theorem nodes_unionOf (tys : List Ty) : (unionOf tys).nodes = (tys.map nodes).sum + 1 := by
  rw [unionOf, nodes, nodesOfAll_eq]

theorem nodes_nullable_le (ty : Ty) : ty.nullable.nodes ≤ ty.nodes + 2 := by
  have hnull : null.nodes = 1 := by rw [null, nodes]
  unfold nullable
  split
  · omega
  · rw [nodes, nodes, nodesOfAll_eq, nodesOfAll_eq]
    split_ifs
    · omega
    · simp [hnull]
  · simp [nodes_unionOf, hnull]

end Ty

/-! ### Objects made into one -/

section Merging

open Ty

variable {fields more : List (FieldOf Ty)} {field : FieldOf Ty}

theorem nodesOfFields_mergeField_le (field : FieldOf Ty) : ∀ fields : List (FieldOf Ty),
    nodesOfFields (mergeField field fields) ≤ nodesOfFields fields + field.ty.nodes
  | [] => by simp [mergeField, nodesOfFields]
  | other :: rest => by
    have ih := nodesOfFields_mergeField_le field rest
    unfold mergeField
    split_ifs <;> simp only [nodesOfFields_cons] <;> omega

theorem nodesOfFields_mergeFields_le (fields more : List (FieldOf Ty)) :
    nodesOfFields (mergeFields fields more) ≤ nodesOfFields fields + nodesOfFields more := by
  unfold mergeFields
  induction more generalizing fields with
  | nil => simp
  | cons field more ih =>
    have hstep := nodesOfFields_mergeField_le field fields
    have hrest := ih (mergeField field fields)
    rw [List.foldl_cons, nodesOfFields_cons]
    omega

/-- One object has no more parts than the objects that it is made of. -/
theorem nodesOfObject_mergeObjects_le (objects : List (List (FieldOf Ty) × Option Ty)) :
    nodesOfObject (mergeObjects objects) ≤ (objects.map nodesOfObject).sum := by
  induction objects using List.reverseRecOn with
  | nil => simp [mergeObjects, nodesOfObject, nodesOfFields]
  | append_singleton objects o ih =>
    have hfields := nodesOfFields_mergeFields_le (mergeObjects objects).1 o.1
    have hadditional : (o.2 <|> (mergeObjects objects).2).elim 0 nodes ≤
        (mergeObjects objects).2.elim 0 nodes + o.2.elim 0 nodes := by
      cases o.2 <;> simp
    rw [mergeObjects_append, List.map_append, List.sum_append, List.map_singleton,
      List.sum_singleton]
    simp only [nodesOfObject] at ih ⊢
    omega

theorem nodesOfFields_nameFields : ∀ (taken : List String) (fields : List (FieldOf Ty)),
    nodesOfFields (nameFields taken fields) = nodesOfFields fields
  | _, [] => by rw [nameFields]
  | taken, field :: rest => by
    rw [nameFields, nodesOfFields_cons, nodesOfFields_cons, nodesOfFields_nameFields _ rest]

theorem nodesOfObject_mergedFields (required : List String)
    (objects : List (List (FieldOf Ty) × Option Ty)) :
    nodesOfObject (mergedFields required objects, (mergeObjects objects).2) =
      nodesOfObject (mergeObjects objects) := by
  unfold nodesOfObject mergedFields
  rw [nodesOfFields_nameFields, nodesOfFields_eq, nodesOfFields_eq, List.map_map]
  rfl

/-- **Members that hold together** make a type with one more node at most. -/
theorem nodes_allOfType_le (required : List String) (tys : List Ty) :
    (allOfType required tys).nodes ≤ (tys.map nodes).sum + 1 := by
  by_cases ho : ∀ ty ∈ tys, ty.asObject?.isSome = true
  · obtain ⟨objects, rfl⟩ := exists_objects_of_isSome ho
    cases objects with
    | nil => simp [allOfType, any, nodes]
    | cons o rest =>
      have hmerged := nodesOfObject_mergeObjects_le (o :: rest)
      have hparts : ((o :: rest).map nodesOfObject).sum ≤
          (((o :: rest).map fun o => object o.1 o.2).map nodes).sum := by
        rw [List.map_map]
        refine List.sum_le_sum fun o _ => ?_
        rw [Function.comp_apply, nodes_object]
        exact Nat.le_succ _
      rw [allOfType_objects (List.cons_ne_nil _ _), nodes_object, nodesOfObject_mergedFields]
      omega
  · have hnone := mapM_asObject?_eq_none ho
    unfold allOfType
    split
    · simp [any, nodes]
    · rw [hnone]
      dsimp only
      split
      · simp
      · rw [nodes, nodesOfAll_eq]

end Merging

/-! ### Listed values -/

theorem length_distinctBy_le {α : Type} (same : α → α → Bool) (l : List α) :
    (distinctBy same l).length ≤ l.length := by
  induction l using List.reverseRecOn with
  | nil => rfl
  | append_singleton l x ih =>
    rw [distinctBy_concat, List.length_append]
    split_ifs
    · omega
    · rw [List.length_append]
      omega

theorem nodes_literalOrAny (value : Option Literal) : (literalOrAny value).nodes = 1 := by
  cases value <;> simp [literalOrAny, Ty.any, Ty.nodes]

/-- Listed values make a type with one more node at most. -/
theorem nodes_enumType_le (f : Facets) (values : List Json) :
    (enumType f values).nodes ≤ values.length + 1 := by
  have hlength : (distinctBy sameMember ((values.filter fun value =>
      !(f.isNullable && value.isNull)).map Literal.ofJson?)).length ≤ values.length := by
    refine (length_distinctBy_le _ _).trans ?_
    rw [List.length_map]
    exact List.length_filter_le _ _
  unfold enumType
  dsimp only
  split
  · simp [Ty.nodes]
  · split
    · simp [Ty.null, Ty.nodes]
    · rw [nodes_literalOrAny]
      omega
    · have hones (kept : List (Option Literal)) :
          ((kept.map literalOrAny).map Ty.nodes).sum = kept.length := by
        simp [Function.comp_def, nodes_literalOrAny]
      rw [Ty.nodes_unionOf, hones]
      omega

end ApiDecl
