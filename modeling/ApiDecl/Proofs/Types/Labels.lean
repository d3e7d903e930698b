import ApiDecl.Proofs.Types.Agreement
import ApiDecl.Proofs.Types.Bare

/-!
# Options decide on labels alone

The draft of a schema asks its options for the names of fields and whether to keep their documentation,
and for nothing else.  So in two scopes that resolve alike, whatever their options, the drafts of one
schema mention the same, and they come to the same error or to types that are the same without labels
(`sameUpTo_draftNode`, by induction on the schema).
-/

namespace ApiDecl

variable {scope scope' : Scope} {s : Schema} {base pointer : String}

/-- The drafts of a node are the same up to labels, wherever it stands. -/
def NodeSameUpToLabels (scope scope' : Scope) (node : Node) : Prop :=
  ∀ place, (draftNode scope place node).SameUpTo Ty.bare (draftNode scope' place node)

theorem sameUpTo_draftMembers : ∀ {nodes : List Node} {index : Nat},
    (∀ node ∈ nodes, NodeSameUpToLabels scope scope' node) →
      List.Forall₂ (Draft.SameUpTo Ty.bare) (draftMembers scope base index nodes)
        (draftMembers scope' base index nodes)
  | [], _, _ => .nil
  | node :: rest, _, h => by
    rw [List.forall_mem_cons] at h
    exact .cons (h.1 _) (sameUpTo_draftMembers h.2)

theorem sameUpTo_draftFields {required : List String} : ∀ {properties : List (String × Node)},
    (∀ entry ∈ properties, NodeSameUpToLabels scope scope' entry.2) →
      (draftFields scope required properties (draftNamed scope base properties)).SameUpTo
        (List.map FieldOf.bare)
        (draftFields scope' required properties (draftNamed scope' base properties))
  | [], _ => by
    rw [draftNamed, draftNamed, draftFields, draftFields]
    · exact Draft.SameUpTo.refl _ _
    all_goals simp
  | (name, node) :: rest, h => by
    rw [List.forall_mem_cons] at h
    rw [draftNamed, draftNamed, draftFields, draftFields]
    refine (h.1 _).bind fun ty ty' hty => (sameUpTo_draftFields h.2).bind fun fields fields' hf => ?_
    refine Draft.sameUpTo_pure ?_
    -- a field is the same without its label if its type is
    have hfield : (fieldOf scope required name node ty).bare =
        (fieldOf scope' required name node ty').bare :=
      congrArg (fun ty => (⟨"", name, ty, required.contains name, none, false⟩ : FieldOf Ty)) hty
    rw [List.map_cons, List.map_cons, hfield, hf]

theorem sameUpTo_draftAdditional {node : Option Node}
    (h : ∀ schema, node = some schema → NodeSameUpToLabels scope scope' schema) :
    (draftAdditional node (node.map (draftNode scope base))).SameUpTo (Option.map Ty.bare)
      (draftAdditional node (node.map (draftNode scope' base))) := by
  cases node with
  | none =>
    rw [Option.map_none, Option.map_none]
    exact Draft.SameUpTo.refl _ _
  | some schema =>
    by_cases hfalse : schema = .other (.bool false)
    · rw [hfalse, draftAdditional, draftAdditional]
      exact Draft.SameUpTo.refl _ _
    · simp only [draftAdditional, Option.map_some]
      exact (h schema rfl _).map fun ty ty' hty => congrArg some hty

section Shapes

variable (hr : scope.resolve = scope'.resolve)
include hr

theorem sameUpTo_draftUnion {nodes : List Node} {keyword : String} {drafts drafts' : List (Draft Ty)}
    (h : List.Forall₂ (Draft.SameUpTo Ty.bare) drafts drafts') :
    (draftUnion scope pointer keyword s nodes drafts).SameUpTo Ty.bare
      (draftUnion scope' pointer keyword s nodes drafts') := by
  unfold draftUnion
  split_ifs
  · exact Draft.SameUpTo.refl _ _
  · refine (Draft.sameUpTo_all h).bind fun tys tys' htys => ?_
    split
    · rw [discriminatorOf_congr hr]
      refine Draft.sameUpTo_bind_self fun discriminator => Draft.sameUpTo_pure ?_
      rw [Ty.bare_union, Ty.bare_union, htys]
    · -- a single member stands for itself on both sides
      match tys, tys', htys with
      | [], [], _ => exact Draft.SameUpTo.refl _ _
      | [ty], [ty'], htys => exact Draft.sameUpTo_pure (List.cons.inj htys).1
      | ty :: next :: tys, ty' :: next' :: tys', htys =>
        refine Draft.sameUpTo_pure ?_
        rw [Ty.unionOf, Ty.unionOf, Ty.bare_union, Ty.bare_union, htys]
      | [_], _ :: _ :: _, htys | _ :: _ :: _, [_], htys => simp at htys

end Shapes

section Parts

variable (hs : ∀ part : Node, part.PartOf s → NodeSameUpToLabels scope scope' part)
include hs

theorem sameUpTo_draftObject :
    (draftObject scope s (draftParts scope pointer s.parts)).SameUpTo Ty.bare
      (draftObject scope' s (draftParts scope' pointer s.parts)) := by
  unfold draftObject
  refine (sameUpTo_draftFields fun entry he => hs entry.2 (.property he)).bind fun fields fields' hf =>
    (sameUpTo_draftAdditional fun schema hn => hs schema (.additional hn)).bind fun ty ty' hty =>
      Draft.sameUpTo_pure ?_
  rw [Ty.bare_object, Ty.bare_object, map_bare_nameFields, map_bare_nameFields, hf, hty]

theorem sameUpTo_draftArray :
    (draftArray (draftParts scope pointer s.parts)).SameUpTo Ty.bare
      (draftArray (draftParts scope' pointer s.parts)) := by
  cases hn : s.parts.items with
  | none =>
    simp only [draftArray, draftParts, hn, Option.map_none]
    exact Draft.SameUpTo.refl _ _
  | some node =>
    simp only [draftArray, draftParts, hn, Option.map_some]
    refine (hs node (.items hn) _).map fun ty ty' hty => ?_
    rw [Ty.bare, Ty.bare, hty]

theorem sameUpTo_draftTyped (name : String) :
    (draftTyped scope pointer s (draftParts scope pointer s.parts) name).SameUpTo Ty.bare
      (draftTyped scope' pointer s (draftParts scope' pointer s.parts) name) := by
  unfold draftTyped
  split_ifs
  · exact sameUpTo_draftObject hs
  · exact sameUpTo_draftArray hs
  · exact Draft.SameUpTo.refl _ _

theorem sameUpTo_draftTypes :
    (draftTypes scope pointer s (draftParts scope pointer s.parts)).SameUpTo Ty.bare
      (draftTypes scope' pointer s (draftParts scope' pointer s.parts)) := by
  unfold draftTypes
  split
  · exact sameUpTo_draftTyped hs _
  · split_ifs
    · exact Draft.SameUpTo.refl _ _
    · split
      · exact Draft.SameUpTo.refl _ _
      · exact sameUpTo_draftTyped hs _
      · have hall : List.Forall₂ (Draft.SameUpTo Ty.bare)
            (s.facets.declaredTypes.map
              (draftTyped scope pointer s (draftParts scope pointer s.parts)))
            (s.facets.declaredTypes.map
              (draftTyped scope' pointer s (draftParts scope' pointer s.parts))) := by
          rw [List.forall₂_map_left_iff, List.forall₂_map_right_iff]
          exact List.forall₂_same.mpr fun name _ => sameUpTo_draftTyped hs name
        refine (Draft.sameUpTo_all hall).map fun tys tys' htys => ?_
        rw [Ty.unionOf, Ty.unionOf, Ty.bare_union, Ty.bare_union, htys]
  · split_ifs
    · exact sameUpTo_draftObject hs
    · exact sameUpTo_draftArray hs
    · exact Draft.SameUpTo.refl _ _

theorem sameUpTo_draftAllOf {nodes : List Node} {drafts drafts' : List (Draft Ty)}
    (h : List.Forall₂ (Draft.SameUpTo Ty.bare) drafts drafts') :
    (draftAllOf scope pointer s nodes (draftParts scope pointer s.parts) drafts).SameUpTo Ty.bare
      (draftAllOf scope' pointer s nodes (draftParts scope' pointer s.parts) drafts') := by
  have hall := Draft.sameUpTo_all (related_substantial nodes h)
  have hjoin {tys tys' own own' : List Ty} (htys : tys.map Ty.bare = tys'.map Ty.bare)
      (hown : own.map Ty.bare = own'.map Ty.bare) :
      (allOfType (requiredNames nodes ++ s.facets.required) (tys ++ own)).bare =
        (allOfType (requiredNames nodes ++ s.facets.required) (tys' ++ own')).bare :=
    bare_allOfType_congr (by rw [List.map_append, List.map_append, htys, hown])
  have hsingle {ty ty' : Ty} (hty : ty.bare = ty'.bare) : [ty].map Ty.bare = [ty'].map Ty.bare :=
    congrArg (fun ty => [ty]) hty
  unfold draftAllOf
  split_ifs
  · exact Draft.SameUpTo.refl _ _
  · exact hall.bind fun tys tys' htys => (Draft.SameUpTo.refl (List.map Ty.bare) _).bind
      fun own own' hown => Draft.sameUpTo_pure (hjoin htys hown)
  · exact hall.bind fun tys tys' htys => (sameUpTo_draftObject hs).bind fun object object' ho =>
      (Draft.sameUpTo_pure (hsingle ho)).bind fun own own' hown =>
        Draft.sameUpTo_pure (hjoin htys hown)

/-- The keyword that decides the shape makes drafts that are the same up to labels of such parts. -/
theorem sameUpTo_draftShape (hr : scope.resolve = scope'.resolve) :
    (draftShape scope pointer s (draftParts scope pointer s.parts)).SameUpTo Ty.bare
      (draftShape scope' pointer s (draftParts scope' pointer s.parts)) := by
  unfold draftShape
  split
  · rw [draftReference_congr hr]
    exact Draft.SameUpTo.refl _ _
  · exact Draft.SameUpTo.refl _ _
  · cases hall : s.parts.allOf with
    | some nodes =>
      simp only [draftParts, hall, Option.map_some]
      exact sameUpTo_draftAllOf hs (sameUpTo_draftMembers fun node hm => hs node (.allOf hall hm))
    | none =>
      cases hone : s.parts.oneOf with
      | some nodes =>
        simp only [draftParts, hall, hone, Option.map_some, Option.map_none]
        exact sameUpTo_draftUnion hr
          (sameUpTo_draftMembers fun node hm => hs node (.oneOf hone hm))
      | none =>
        cases hany : s.parts.anyOf with
        | some nodes =>
          simp only [draftParts, hall, hone, hany, Option.map_some, Option.map_none]
          exact sameUpTo_draftUnion hr
            (sameUpTo_draftMembers fun node hm => hs node (.anyOf hany hm))
        | none =>
          dsimp only
          split
          · exact Draft.SameUpTo.refl _ _
          · exact sameUpTo_draftTypes hs

end Parts

/-- **The draft of a node** is the same up to labels under all options. -/
theorem sameUpTo_draftNode (hr : scope.resolve = scope'.resolve) (node : Node) :
    NodeSameUpToLabels scope scope' node := by
  induction node using Node.induct with
  | other value =>
    intro place
    rcases value with _ | (_ | _) | _ | _ | _ | _ <;> exact Draft.SameUpTo.refl _ _
  | schema s ih =>
    intro place
    rw [draftNode_schema, draftNode_schema]
    refine (sameUpTo_draftShape ih hr).map fun ty ty' hty => ?_
    split_ifs
    · rw [Ty.bare_nullable, Ty.bare_nullable, hty]
    · exact hty

end ApiDecl
