import ApiDecl.Proofs.Description.Parts
import ApiDecl.Proofs.Types.Inclusion

/-!
# Drafts of one schema in two scopes

The draft of a schema depends on its scope by the options, and by what references and discriminators
are resolved to; it depends on the place of the schema by the errors that it may end with.  So
whenever a congruence of drafts holds of the resolved references, it holds of the drafts of any node,
at any two places (`related_draftNode`, by induction on the schema).

There are two cases of this.  A draft mentions only what it has resolved, also when it ends with an
error: every mention comes of a reference that leads to a component (`only_draftNode`).  And drafts
in scopes that resolve alike are the same (`same_draftNode`).
-/

namespace ApiDecl

/-- Both scopes have the same options, and references and discriminators resolved in them are
related. -/
structure Scope.Related (R : ∀ ⦃α : Type⦄, Draft α → Draft α → Prop) (scope scope' : Scope) :
    Prop where
  congruence : Draft.Congruence R
  options : scope.options = scope'.options
  reference : ∀ pointer, R (draftReference scope pointer) (draftReference scope' pointer)
  discriminator : ∀ nodes d, R (Draft.ofExcept (discriminatorOf scope nodes d))
    (Draft.ofExcept (discriminatorOf scope' nodes d))

section Schemas

variable {R : ∀ ⦃α : Type⦄, Draft α → Draft α → Prop} {scope scope' : Scope} {s : Schema}
  {base base' pointer pointer' : String}

/-- The drafts of a node are related, wherever it stands. -/
def NodeRelated (R : ∀ ⦃α : Type⦄, Draft α → Draft α → Prop) (scope scope' : Scope) (node : Node) :
    Prop :=
  ∀ place place', R (draftNode scope place node) (draftNode scope' place' node)

theorem related_draftMembers : ∀ {nodes : List Node} {index index' : Nat},
    (∀ node ∈ nodes, NodeRelated R scope scope' node) → List.Forall₂ (R (α := Ty))
      (draftMembers scope base index nodes) (draftMembers scope' base' index' nodes)
  | [], _, _, _ => .nil
  | node :: rest, _, _, h => by
    rw [List.forall_mem_cons] at h
    exact .cons (h.1 _ _) (related_draftMembers h.2)

theorem related_substantial {Q : Draft Ty → Draft Ty → Prop} :
    ∀ (nodes : List Node) {drafts drafts' : List (Draft Ty)}, List.Forall₂ Q drafts drafts' →
      List.Forall₂ Q (substantial nodes drafts) (substantial nodes drafts')
  | [], _, _, _ => .nil
  | .other _ :: _, _, _, .nil | .schema _ :: _, _, _, .nil => .nil
  | .other _ :: _, _, _, .cons h rest => .cons h (related_substantial _ rest)
  | .schema s :: _, _, _, .cons h rest => by
    rw [substantial, substantial]
    split_ifs
    · exact related_substantial _ rest
    · exact .cons h (related_substantial _ rest)

variable (hR : Scope.Related R scope scope')
include hR

theorem fieldOf_eq (required : List String) (wireName : String) (node : Node) (ty : Ty) :
    fieldOf scope required wireName node ty = fieldOf scope' required wireName node ty := by
  unfold fieldOf Scope.docs
  rw [hR.options]

theorem related_draftFields {required : List String} : ∀ {properties : List (String × Node)},
    (∀ entry ∈ properties, NodeRelated R scope scope' entry.2) →
      R (draftFields scope required properties (draftNamed scope base properties))
        (draftFields scope' required properties (draftNamed scope' base' properties))
  | [], _ => by
    rw [draftNamed, draftNamed, draftFields, draftFields]
    · exact hR.congruence.pure []
    all_goals simp
  | (name, node) :: rest, h => by
    rw [List.forall_mem_cons] at h
    simp only [draftNamed, draftFields, fieldOf_eq hR]
    exact hR.congruence.bind (h.1 _ _) fun ty =>
      hR.congruence.bind (related_draftFields h.2) fun _ => hR.congruence.pure _

theorem related_draftAdditional {node : Option Node}
    (h : ∀ schema, node = some schema → NodeRelated R scope scope' schema) :
    R (draftAdditional node (node.map (draftNode scope base)))
      (draftAdditional node (node.map (draftNode scope' base'))) := by
  cases node with
  | none => exact hR.congruence.pure none
  | some schema =>
    by_cases hfalse : schema = .other (.bool false)
    · rw [hfalse]
      exact hR.congruence.pure none
    · simp only [draftAdditional, Option.map_some]
      exact hR.congruence.map (h schema rfl _ _) some

theorem related_draftUnion {nodes : List Node} {keyword : String} {drafts drafts' : List (Draft Ty)}
    (h : List.Forall₂ (R (α := Ty)) drafts drafts') :
    R (draftUnion scope pointer keyword s nodes drafts)
      (draftUnion scope' pointer' keyword s nodes drafts') := by
  unfold draftUnion
  split_ifs
  · exact hR.congruence.fail _ _
  · refine hR.congruence.bind (hR.congruence.all h) fun tys => ?_
    split
    · exact hR.congruence.bind (hR.discriminator _ _) fun _ => hR.congruence.pure _
    · split <;> exact hR.congruence.pure _

variable (hs : ∀ part : Node, part.PartOf s → NodeRelated R scope scope' part)
include hs

theorem related_draftObject :
    R (draftObject scope s (draftParts scope pointer s.parts))
      (draftObject scope' s (draftParts scope' pointer' s.parts)) := by
  unfold draftObject
  refine hR.congruence.bind ?_ fun fields => hR.congruence.bind ?_ fun _ => hR.congruence.pure _
  · exact related_draftFields hR fun entry he => hs entry.2 (.property he)
  · exact related_draftAdditional hR fun schema hn => hs schema (.additional hn)

theorem related_draftArray :
    R (draftArray (draftParts scope pointer s.parts))
      (draftArray (draftParts scope' pointer' s.parts)) := by
  cases hn : s.parts.items with
  | none =>
    simp only [draftArray, draftParts, hn, Option.map_none]
    exact hR.congruence.pure _
  | some node =>
    simp only [draftArray, draftParts, hn, Option.map_some]
    exact hR.congruence.map (hs node (.items hn) _ _) _

theorem related_draftTyped (name : String) :
    R (draftTyped scope pointer s (draftParts scope pointer s.parts) name)
      (draftTyped scope' pointer' s (draftParts scope' pointer' s.parts) name) := by
  unfold draftTyped
  split_ifs
  · exact related_draftObject hR hs
  · exact related_draftArray hR hs
  · split
    · exact hR.congruence.pure _
    · exact hR.congruence.fail _ _

theorem related_draftTypes :
    R (draftTypes scope pointer s (draftParts scope pointer s.parts))
      (draftTypes scope' pointer' s (draftParts scope' pointer' s.parts)) := by
  unfold draftTypes
  split
  · exact related_draftTyped hR hs _
  · split_ifs
    · exact hR.congruence.fail _ _
    · split
      · exact hR.congruence.pure _
      · exact related_draftTyped hR hs _
      · refine hR.congruence.map (hR.congruence.all ?_) _
        rw [List.forall₂_map_left_iff, List.forall₂_map_right_iff]
        exact List.forall₂_same.mpr fun name _ => related_draftTyped hR hs name
  · split_ifs
    · exact related_draftObject hR hs
    · exact related_draftArray hR hs
    · exact hR.congruence.pure _

theorem related_draftAllOf {nodes : List Node} {drafts drafts' : List (Draft Ty)}
    (h : List.Forall₂ (R (α := Ty)) drafts drafts') :
    R (draftAllOf scope pointer s nodes (draftParts scope pointer s.parts) drafts)
      (draftAllOf scope' pointer' s nodes (draftParts scope' pointer' s.parts) drafts') := by
  have hall := hR.congruence.all (related_substantial nodes h)
  unfold draftAllOf
  split_ifs
  · exact hR.congruence.fail _ _
  · exact hR.congruence.bind hall fun _ =>
      hR.congruence.bind (hR.congruence.pure _) fun _ => hR.congruence.pure _
  · exact hR.congruence.bind hall fun _ =>
      hR.congruence.bind (related_draftObject hR hs) fun _ =>
        hR.congruence.bind (hR.congruence.pure _) fun _ => hR.congruence.pure _

/-- The keyword that decides the shape makes related drafts of related parts. -/
theorem related_draftShape :
    R (draftShape scope pointer s (draftParts scope pointer s.parts))
      (draftShape scope' pointer' s (draftParts scope' pointer' s.parts)) := by
  unfold draftShape
  split
  · exact hR.reference _
  · exact hR.congruence.pure _
  · cases hall : s.parts.allOf with
    | some nodes =>
      simp only [draftParts, hall, Option.map_some]
      exact related_draftAllOf hR hs (related_draftMembers fun node hm => hs node (.allOf hall hm))
    | none =>
      cases hone : s.parts.oneOf with
      | some nodes =>
        simp only [draftParts, hall, hone, Option.map_some, Option.map_none]
        exact related_draftUnion hR (related_draftMembers fun node hm => hs node (.oneOf hone hm))
      | none =>
        cases hany : s.parts.anyOf with
        | some nodes =>
          simp only [draftParts, hall, hone, hany, Option.map_some, Option.map_none]
          exact related_draftUnion hR (related_draftMembers fun node hm => hs node (.anyOf hany hm))
        | none =>
          dsimp only
          split
          · split_ifs
            · exact hR.congruence.fail _ _
            · exact hR.congruence.pure _
          · exact related_draftTypes hR hs

end Schemas

variable {scope scope' : Scope}

/-- **Drafts of one node** are related, at whatever places, if those of references are. -/
theorem related_draftNode {R : ∀ ⦃α : Type⦄, Draft α → Draft α → Prop}
    (hR : Scope.Related R scope scope') (node : Node) : NodeRelated R scope scope' node := by
  induction node using Node.induct with
  | other value =>
    intro place place'
    rcases value with _ | (_ | _) | _ | _ | _ | _
    case bool.true => exact hR.congruence.pure _
    all_goals exact hR.congruence.fail _ _
  | schema s ih =>
    intro place place'
    rw [draftNode_schema, draftNode_schema]
    exact hR.congruence.map (related_draftShape hR ih) _

/-! ### Mentions -/

/-- Some pointer leads to the component of the mention. -/
def Scope.Resolves (scope : Scope) (m : Mention) : Prop := ∃ pointer, scope.resolve pointer = .ok m

theorem only_draftReference (scope : Scope) (pointer : String) :
    (draftReference scope pointer).Only scope.Resolves := by
  simp only [draftReference, Draft.only_bind, Draft.only_ofExcept, Draft.only_mention,
    Draft.only_pure, implies_true, and_true, true_and]
  exact fun m hm => ⟨pointer, hm⟩

theorem related_only (scope : Scope) :
    Scope.Related (fun α (draft _ : Draft α) => draft.Only scope.Resolves) scope scope where
  congruence := Draft.congruence_only _
  options := rfl
  reference := only_draftReference scope
  discriminator _ _ := Draft.only_ofExcept

/-- **The draft of a schema** mentions what is resolved, at whatever place. -/
theorem only_draftNode (scope : Scope) (node : Node) (place : String) :
    (draftNode scope place node).Only scope.Resolves :=
  related_draftNode (related_only scope) node place place

/-! ### Scopes that resolve alike -/

theorem explicitMapping_congr (h : scope.resolve = scope'.resolve) : ∀ mapping entries,
    explicitMapping scope mapping entries = explicitMapping scope' mapping entries
  | _, [] => rfl
  | mapping, (value, target) :: rest => by
    rw [explicitMapping, explicitMapping, h]
    exact congrArg _ (funext fun m => explicitMapping_congr h _ rest)

theorem impliedMapping_congr (h : scope.resolve = scope'.resolve) : ∀ mapping nodes,
    impliedMapping scope mapping nodes = impliedMapping scope' mapping nodes
  | _, [] => rfl
  | mapping, .other _ :: rest => by
    rw [impliedMapping, impliedMapping, impliedMapping_congr h]
  | mapping, .schema s :: rest => by
    rw [impliedMapping, impliedMapping, h]
    simp only [impliedMapping_congr h _ rest]

/-- Discriminators depend on what pointers lead to. -/
theorem discriminatorOf_congr (h : scope.resolve = scope'.resolve) (nodes : List Node)
    (d : Discriminator) : discriminatorOf scope nodes d = discriminatorOf scope' nodes d := by
  unfold discriminatorOf
  simp only [explicitMapping_congr h, impliedMapping_congr h]

/-- So do references. -/
theorem draftReference_congr (h : scope.resolve = scope'.resolve) (pointer : String) :
    draftReference scope pointer = draftReference scope' pointer := by
  unfold draftReference
  rw [h]

/-- The scopes have the same options, and pointers lead to the same types in both. -/
structure Scope.Alike (scope scope' : Scope) : Prop where
  options : scope.options = scope'.options
  resolve : scope.resolve = scope'.resolve

theorem Scope.Alike.related (h : scope.Alike scope') :
    Scope.Related @Draft.Same scope scope' where
  congruence := Draft.congruence_same
  options := h.options
  reference pointer := by
    rw [draftReference_congr h.resolve]
    exact Draft.Same.refl _
  discriminator nodes d := by
    rw [discriminatorOf_congr h.resolve]
    exact Draft.Same.refl _

/-- **Drafts of one node** in scopes that resolve alike are the same, wherever it stands. -/
theorem same_draftNode (h : scope.Alike scope') (node : Node) (place place' : String) :
    (draftNode scope place node).Same (draftNode scope' place' node) :=
  related_draftNode h.related node place place'

end ApiDecl
