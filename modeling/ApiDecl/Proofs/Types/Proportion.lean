import ApiDecl.Proofs.Types.Size
import Mathlib.Algebra.BigOperators.Ring.List
import Mathlib.Tactic.Linarith

/-!
# Types in proportion to schemas

The size of a schema counts what stands inside it where a schema is expected, with the entries of
type lists and the listed values (`Node.size`).  A reference counts as one, so named schemas do not
count where they are referred to.  The types that occur in the type made of a schema are at most
four times as many as its `Node.spread`, where what is under the keywords for objects and arrays
counts for each time that the type list names them (`Drafted.nodes_le`).

That is the size of the schema where no type list names `object` or `array` twice
(`Node.spread_eq_size`, `nodes_le_four_mul`).  Where type lists repeat them at every level, the
types double with each level (`nodes_nestedTypes`), and no factor bounds them
(`exists_mul_size_lt_nodes`).
-/

namespace ApiDecl

/-! ### Schemas measured -/

/-- A schema and the entries of its type list and of its listed values. -/
def Facets.entries (f : Facets) : Nat :=
  1 + (match f.types with
    | some (.list names) => names.length
    | _ => 0) + (f.values.getD []).length

/-- The keyword `type` decides the shape. -/
def SchemaOf.typesDecide {ν : Type} (s : SchemaOf ν) : Bool :=
  s.facets.reference.isNone && s.facets.constant.isNone && s.parts.allOf.isNone &&
    s.parts.oneOf.isNone && s.parts.anyOf.isNone && s.facets.values.isNone

/-- How often the parts that go with a name of a type are used: as often as a type list that decides
the shape has the name, and once at least. -/
def SchemaOf.times {ν : Type} (s : SchemaOf ν) (name : String) : Nat :=
  match s.facets.types with
  | some (.list names) => if s.typesDecide then max 1 (names.count name) else 1
  | _ => 1

namespace Node

mutual

/-- The entries of what stands inside a node, where the parts for members and for items count
several times. -/
def weight (times : Schema → String → Nat) : Node → Nat
  | .other _ => 1
  | .schema ⟨facets, ⟨properties, items, additional, oneOf, anyOf, allOf⟩⟩ =>
    let s : Schema := ⟨facets, ⟨properties, items, additional, oneOf, anyOf, allOf⟩⟩
    facets.entries +
      times s "object" * (weightNamed times properties + weight? times additional) +
      times s "array" * weight? times items +
      (weightAll? times oneOf + weightAll? times anyOf + weightAll? times allOf)

/-- The weight of a node, if there is one. -/
def weight? (times : Schema → String → Nat) : Option Node → Nat
  | none => 0
  | some node => node.weight times

/-- The weight of properties. -/
def weightNamed (times : Schema → String → Nat) : List (String × Node) → Nat
  | [] => 0
  | (_, node) :: rest => node.weight times + weightNamed times rest

/-- The weight of the members of a composition. -/
def weightAll (times : Schema → String → Nat) : List Node → Nat
  | [] => 0
  | node :: rest => node.weight times + weightAll times rest

/-- The weight of a composition, if there is one. -/
def weightAll? (times : Schema → String → Nat) : Option (List Node) → Nat
  | none => 0
  | some nodes => weightAll times nodes

end

/-- Everything inside the node that stands where a schema is expected, with the entries of type
lists and the listed values. -/
def size : Node → Nat := weight fun _ _ => 1

/-- The size, with the parts for members and for items counted as often as they are used. -/
def spread : Node → Nat := weight SchemaOf.times

section Sums

variable (times : Schema → String → Nat)

theorem weightNamed_eq : ∀ properties : List (String × Node),
    weightNamed times properties = (properties.map fun entry => entry.2.weight times).sum
  | [] => by simp [weightNamed]
  | (_, node) :: rest => by
    rw [weightNamed, weightNamed_eq rest, List.map_cons, List.sum_cons]

theorem weightAll_eq : ∀ nodes : List Node,
    weightAll times nodes = (nodes.map (weight times)).sum
  | [] => by simp [weightAll]
  | node :: rest => by rw [weightAll, weightAll_eq rest, List.map_cons, List.sum_cons]

/-- The weight of the parts that go with a name of a type. -/
def weightFor (s : Schema) (name : String) : Nat :=
  if name = "object" then weightNamed times s.parts.properties + weight? times s.parts.additional
  else if name = "array" then weight? times s.parts.items
  else 0

/-- The weight of the members of all compositions. -/
def weightComposed (s : Schema) : Nat :=
  weightAll? times s.parts.oneOf + weightAll? times s.parts.anyOf + weightAll? times s.parts.allOf

theorem weight_schema (s : Schema) : (Node.schema s).weight times = s.facets.entries +
    times s "object" * weightFor times s "object" + times s "array" * weightFor times s "array" +
      weightComposed times s := by
  obtain ⟨facets, ⟨properties, items, additional, oneOf, anyOf, allOf⟩⟩ := s
  rw [weight]
  rfl

end Sums

end Node

/-! ### Parts of a schema -/

section Spread

variable {s : Schema} {nodes : List Node}

/-- The spread of the parts that go with a name of a type. -/
def SchemaOf.spreadFor (s : Schema) (name : String) : Nat := Node.weightFor SchemaOf.times s name

/-- The spread of the members of a composition. -/
def spreadAll (nodes : List Node) : Nat := (nodes.map Node.spread).sum

theorem spread_schema (s : Schema) : (Node.schema s).spread = s.facets.entries +
    s.times "object" * s.spreadFor "object" + s.times "array" * s.spreadFor "array" +
      Node.weightComposed SchemaOf.times s :=
  Node.weight_schema ..

theorem SchemaOf.times_pos (s : Schema) (name : String) : 0 < s.times name := by
  unfold times
  split
  · split_ifs
    · exact Nat.lt_of_lt_of_le Nat.one_pos (Nat.le_max_left ..)
    · exact Nat.one_pos
  · exact Nat.one_pos

theorem Facets.entries_pos (f : Facets) : 0 < f.entries := by
  unfold entries
  omega

/-- The schema itself, the parts for one name and the members of all compositions are counted. -/
theorem spreadFor_le_spread (s : Schema) (name : String) : s.facets.entries + s.spreadFor name +
    Node.weightComposed SchemaOf.times s ≤ (Node.schema s).spread := by
  have hobject := Nat.le_mul_of_pos_left (s.spreadFor "object") (s.times_pos "object")
  have harray := Nat.le_mul_of_pos_left (s.spreadFor "array") (s.times_pos "array")
  have hname : s.spreadFor name = 0 ∨ name = "object" ∨ name = "array" := by
    unfold SchemaOf.spreadFor Node.weightFor
    split_ifs with ho ha
    · exact Or.inr (Or.inl ho)
    · exact Or.inr (Or.inr ha)
    · exact Or.inl rfl
  rw [spread_schema]
  rcases hname with hname | rfl | rfl <;> omega

/-- A type with as many nodes, for some parts and compositions, leaves room for null besides. -/
theorem room_of_le {n : Nat} (name : String)
    (h : n ≤ 4 * (s.spreadFor name + Node.weightComposed SchemaOf.times s) + 2) :
    n + 2 ≤ 4 * (Node.schema s).spread := by
  have hspread := spreadFor_le_spread s name
  have hpos := s.facets.entries_pos
  omega

theorem room_of_eq_one {n : Nat} (h : n = 1) : n + 2 ≤ 4 * (Node.schema s).spread :=
  room_of_le "null" (by omega)

/-- The members of each composition are counted. -/
theorem spreadAll_le_weightComposed (h : s.parts.oneOf = some nodes ∨ s.parts.anyOf = some nodes ∨
    s.parts.allOf = some nodes) : spreadAll nodes ≤ Node.weightComposed SchemaOf.times s := by
  unfold Node.weightComposed spreadAll
  rcases h with h | h | h <;> rw [h, Node.weightAll?, Node.weightAll_eq] <;> unfold Node.spread <;>
    omega

/-- Parts are counted once for each time that a name which they go with is listed. -/
theorem sum_spreadFor (s : Schema) (names : List String) :
    (names.map fun name => s.spreadFor name + 1).sum = names.count "object" * s.spreadFor "object" +
      names.count "array" * s.spreadFor "array" + names.length := by
  induction names with
  | nil => simp
  | cons name names ih =>
    rw [List.map_cons, List.sum_cons, ih, List.length_cons]
    by_cases ho : name = "object"
    · subst ho
      simp only [List.count_cons_self, Nat.add_mul, Nat.one_mul,
        List.count_cons_of_ne (show "object" ≠ "array" by decide)]
      omega
    · by_cases ha : name = "array"
      · subst ha
        simp only [List.count_cons_self, Nat.add_mul, Nat.one_mul, List.count_cons_of_ne ho]
        omega
      · have hnone : s.spreadFor name = 0 := by
          rw [SchemaOf.spreadFor, Node.weightFor, if_neg ho, if_neg ha]
        rw [hnone, List.count_cons_of_ne ho, List.count_cons_of_ne ha]
        omega

/-- A type list that decides the shape counts the parts for each of its names other than null. -/
theorem sum_spreadFor_declaredTypes_le {names : List String} (hd : s.typesDecide = true)
    (ht : s.facets.types = some (.list names)) :
    (s.facets.declaredTypes.map fun name => s.spreadFor name + 1).sum + 1 ≤
      (Node.schema s).spread := by
  have hdeclared : s.facets.declaredTypes = names.filter (· ≠ "null") := by
    rw [Facets.declaredTypes, ht]
  have hentries : names.length + 1 ≤ s.facets.entries := by
    unfold Facets.entries
    rw [ht]
    dsimp only
    omega
  have htimes (name : String) : names.count name ≤ s.times name := by
    unfold SchemaOf.times
    rw [ht]
    dsimp only
    rw [if_pos hd]
    exact Nat.le_max_right ..
  have hcount (name : String) (hn : name ≠ "null") :
      (names.filter (· ≠ "null")).count name ≤ s.times name := by
    rw [List.count_filter (by simpa using hn)]
    exact htimes name
  have hobject := Nat.mul_le_mul_right (s.spreadFor "object") (hcount "object" (by decide))
  have harray := Nat.mul_le_mul_right (s.spreadFor "array") (hcount "array" (by decide))
  have hlength := List.length_filter_le (· ≠ "null") names
  rw [hdeclared, sum_spreadFor, spread_schema]
  omega

end Spread

/-! ### Drafts -/

/-- Sums over lists in parallel, where the first is bounded element by element. -/
theorem sum_map_le_of_forall₂ {α β : Type} {R : α → β → Prop} {l : List α} {l' : List β}
    {f : α → Nat} {g : β → Nat} {k : Nat} (h : List.Forall₂ R l l')
    (hle : ∀ x ∈ l, ∀ y, R x y → g y ≤ k * f x) : (l'.map g).sum ≤ k * (l.map f).sum := by
  have hpairs := forall₂_imp_of_mem (S := fun x y => g y ≤ k * f x) h hle
  rw [← List.sum_map_mul_left]
  exact (List.forall₂_map_left_iff.mpr (List.forall₂_map_right_iff.mpr hpairs.flip)).sum_le_sum

section Drafts

open Ty

variable {scope : Scope} {P : Mention → Prop} {ty : Ty} {pointer base : String}

/-- The types made of the parts of the schema are in proportion. -/
def PartsInProportion (scope : Scope) (P : Mention → Prop) (s : Schema) : Prop :=
  ∀ part : Node, part.PartOf s → ∀ ty, Drafted scope P part ty → ty.nodes ≤ 4 * part.spread

theorem sum_nodes_le {nodes : List Node} {tys : List Ty}
    (hs : ∀ node ∈ nodes, ∀ ty, Drafted scope P node ty → ty.nodes ≤ 4 * node.spread)
    (h : List.Forall₂ (Drafted scope P) nodes tys) :
    (tys.map Ty.nodes).sum ≤ 4 * spreadAll nodes :=
  sum_map_le_of_forall₂ h hs

variable {s : Schema} (hs : PartsInProportion scope P s)
include hs

theorem nodes_draftObject_le
    (h : (draftObject scope s (draftParts scope pointer s.parts)).Yields P ty) :
    ty.nodes ≤ 4 * s.spreadFor "object" + 1 := by
  simp only [draftObject, Draft.yields_bind, Draft.yields_pure] at h
  obtain ⟨fields, hf, additional, ha, rfl⟩ := h
  have hfields : nodesOfFields fields ≤
      4 * (s.parts.properties.map fun entry => entry.2.spread).sum := by
    rw [nodesOfFields_eq]
    refine sum_map_le_of_forall₂ (draftFields_yields hf) fun entry he field hd => ?_
    exact hs entry.2 (.property he) field.ty hd.2.2
  have hadditional : additional.elim 0 nodes ≤
      4 * Node.weight? SchemaOf.times s.parts.additional := by
    cases additional with
    | none => exact Nat.zero_le _
    | some ty =>
      obtain ⟨node, hn, hd⟩ := draftAdditional_yields ha rfl
      rw [hn]
      exact hs node (.additional hn) ty hd
  rw [nodes_object, nodesOfObject, nodesOfFields_nameFields, SchemaOf.spreadFor, Node.weightFor,
    if_pos rfl, Node.weightNamed_eq]
  unfold Node.spread at hfields
  dsimp only
  omega

theorem nodes_draftArray_le (h : (draftArray (draftParts scope pointer s.parts)).Yields P ty) :
    ty.nodes ≤ 4 * s.spreadFor "array" + 2 := by
  unfold draftArray at h
  split at h
  · next draft hd =>
    obtain ⟨node, hn, rfl⟩ := Option.map_eq_some_iff.mp hd
    obtain ⟨element, he, rfl⟩ := Draft.yields_map.mp h
    have hitems : s.spreadFor "array" = node.spread := by
      rw [SchemaOf.spreadFor, Node.weightFor, if_neg (by decide), if_pos rfl, hn]
      rfl
    have hle := hs node (.items hn) element ⟨_, he⟩
    rw [nodes, hitems]
    omega
  · obtain rfl := Draft.yields_pure.mp h
    simp [any, nodes]

theorem nodes_draftTyped_le {name : String}
    (h : (draftTyped scope pointer s (draftParts scope pointer s.parts) name).Yields P ty) :
    ty.nodes ≤ 4 * s.spreadFor name + 2 := by
  unfold draftTyped at h
  split_ifs at h with ho ha
  · rw [ho]
    exact (nodes_draftObject_le hs h).trans (Nat.le_succ _)
  · rw [ha]
    exact nodes_draftArray_le hs h
  · split at h
    · obtain rfl := Draft.yields_pure.mp h
      rw [nodes]
      omega
    · exact absurd h Draft.not_yields_fail

theorem nodes_draftTypes_le (hd : s.typesDecide = true)
    (h : (draftTypes scope pointer s (draftParts scope pointer s.parts)).Yields P ty) :
    ty.nodes + 2 ≤ 4 * (Node.schema s).spread := by
  have htyped {name : String}
      (h : (draftTyped scope pointer s (draftParts scope pointer s.parts) name).Yields P ty) :
      ty.nodes + 2 ≤ 4 * (Node.schema s).spread :=
    room_of_le name ((nodes_draftTyped_le hs h).trans (by omega))
  unfold draftTypes at h
  split at h
  · exact htyped h
  · next names ht =>
    split_ifs at h
    · exact absurd h Draft.not_yields_fail
    · split at h
      · obtain rfl := Draft.yields_pure.mp h
        exact room_of_eq_one (by simp [null, nodes])
      · exact htyped h
      · -- each entry of the list pays for one more type in the union
        obtain ⟨tys, htys, rfl⟩ := Draft.yields_map.mp h
        have hsum := sum_spreadFor_declaredTypes_le hd ht
        have htypes : (tys.map nodes).sum ≤
            4 * (s.facets.declaredTypes.map fun name => s.spreadFor name + 1).sum :=
          sum_map_le_of_forall₂ (List.forall₂_map_left_iff.mp (Draft.yields_all.mp htys))
            fun name _ ty hy => (nodes_draftTyped_le hs hy).trans (by omega)
        rw [nodes_unionOf]
        omega
  · split_ifs at h
    · exact room_of_le "object" ((nodes_draftObject_le hs h).trans (by omega))
    · exact room_of_le "array" ((nodes_draftArray_le hs h).trans (by omega))
    · obtain rfl := Draft.yields_pure.mp h
      exact room_of_eq_one (by simp [any, nodes])

theorem nodes_draftAllOf_le {members : List Node} (hn : s.parts.allOf = some members)
    (h : (draftAllOf scope pointer s members (draftParts scope pointer s.parts)
      (draftMembers scope base 0 members)).Yields P ty) :
    ty.nodes + 2 ≤ 4 * (Node.schema s).spread := by
  have hcomposed := spreadAll_le_weightComposed (Or.inr (Or.inr hn))
  have hmembers {tys : List Ty}
      (htys : List.Forall₂ (Drafted scope P) (members.filter Node.isSubstantial) tys) :
      (tys.map nodes).sum ≤ 4 * spreadAll members := by
    have hle := sum_nodes_le (fun node hm ty hd =>
      hs node (.allOf hn (List.mem_filter.mp hm).1) ty hd) htys
    have hsub : spreadAll (members.filter Node.isSubstantial) ≤ spreadAll members :=
      (List.filter_sublist.map Node.spread).sum_le_sum fun _ _ => Nat.zero_le _
    omega
  have hall (tys own : List Ty) :=
    nodes_allOfType_le (requiredNames members ++ s.facets.required) (tys ++ own)
  unfold draftAllOf at h
  split_ifs at h
  · exact absurd h Draft.not_yields_fail
  · simp only [Draft.yields_bind, Draft.yields_pure] at h
    obtain ⟨tys, htys, own, rfl, rfl⟩ := h
    have hle := hmembers (substantial_yields htys)
    refine room_of_le "object" ((hall tys []).trans ?_)
    rw [List.append_nil]
    omega
  · simp only [Draft.yields_bind, Draft.yields_pure] at h
    obtain ⟨tys, htys, object, ho, own, rfl, rfl⟩ := h
    have hle := hmembers (substantial_yields htys)
    have hown := nodes_draftObject_le hs ho
    refine room_of_le "object" ((hall tys [object]).trans ?_)
    rw [List.map_append, List.sum_append, List.map_singleton, List.sum_singleton]
    omega

omit hs in
theorem nodes_draftUnion_le {members : List Node} {keyword : String}
    (hm : ∀ node ∈ members, ∀ ty, Drafted scope P node ty → ty.nodes ≤ 4 * node.spread)
    (hcomposed : spreadAll members ≤ Node.weightComposed SchemaOf.times s)
    (h : (draftUnion scope pointer keyword s members
      (draftMembers scope base 0 members)).Yields P ty) :
    ty.nodes + 2 ≤ 4 * (Node.schema s).spread := by
  refine room_of_le "object" ?_
  unfold draftUnion at h
  split_ifs at h
  · exact absurd h Draft.not_yields_fail
  · obtain ⟨tys, htys, h⟩ := Draft.yields_bind.mp h
    have hle := sum_nodes_le hm (draftMembers_yields htys)
    split at h
    · obtain ⟨discriminator, -, h⟩ := Draft.yields_bind.mp h
      obtain rfl := Draft.yields_pure.mp h
      rw [nodes, nodesOfAll_eq]
      omega
    · split at h
      · obtain rfl := Draft.yields_pure.mp h
        rw [List.map_singleton, List.sum_singleton] at hle
        omega
      · obtain rfl := Draft.yields_pure.mp h
        rw [nodes_unionOf]
        omega

/-- **The keyword that decides the shape** leaves room for null. -/
theorem nodes_draftShape_le
    (h : (draftShape scope pointer s (draftParts scope pointer s.parts)).Yields P ty) :
    ty.nodes + 2 ≤ 4 * (Node.schema s).spread := by
  cases hr : s.facets.reference with
  | some target =>
    simp only [draftShape, hr, draftReference, Draft.yields_bind, Draft.yields_pure] at h
    obtain ⟨m, -, -, -, rfl⟩ := h
    exact room_of_eq_one (by rw [nodes])
  | none =>
  cases hc : s.facets.constant with
  | some value =>
    simp only [draftShape, hr, hc, Draft.yields_pure] at h
    rw [← h]
    exact room_of_eq_one (nodes_literalOrAny _)
  | none =>
  cases ha : s.parts.allOf with
  | some members =>
    simp only [draftShape, hr, hc, ha, draftParts, Option.map_some] at h
    exact nodes_draftAllOf_le hs ha h
  | none =>
  cases ho : s.parts.oneOf with
  | some members =>
    simp only [draftShape, hr, hc, ha, ho, draftParts, Option.map_some] at h
    exact nodes_draftUnion_le (fun node hm => hs node (.oneOf ho hm))
      (spreadAll_le_weightComposed (Or.inl ho)) h
  | none =>
  cases hn : s.parts.anyOf with
  | some members =>
    simp only [draftShape, hr, hc, ha, ho, hn, draftParts, Option.map_some] at h
    exact nodes_draftUnion_le (fun node hm => hs node (.anyOf hn hm))
      (spreadAll_le_weightComposed (Or.inr (Or.inl hn))) h
  | none =>
  cases hv : s.facets.values with
  | some values =>
    simp only [draftShape, hr, hc, ha, ho, hn, hv] at h
    split_ifs at h
    · exact absurd h Draft.not_yields_fail
    · obtain rfl := Draft.yields_pure.mp h
      have hle := nodes_enumType_le s.facets values
      have hspread := spreadFor_le_spread s "object"
      have hentries : values.length + 1 ≤ s.facets.entries := by
        unfold Facets.entries
        rw [hv, Option.getD_some]
        omega
      omega
  | none =>
    have hd : s.typesDecide = true := by
      simp [SchemaOf.typesDecide, hr, hc, ha, ho, hn, hv]
    simp only [draftShape, hr, hc, ha, ho, hn, hv] at h
    exact nodes_draftTypes_le hs hd h

omit hs in
/-- **A type made of a schema** is at most four times as large as the schema, its parts counted as
often as they are used. -/
theorem Drafted.nodes_le (node : Node) : ∀ {ty}, Drafted scope P node ty →
    ty.nodes ≤ 4 * node.spread := by
  induction node using Node.induct with
  | other value =>
    rintro ty ⟨pointer, h⟩
    obtain rfl := eq_any_of_draftNode_other h
    simp [any, nodes, Node.spread, Node.weight]
  | schema s ih =>
    rintro ty ⟨pointer, h⟩
    rw [draftNode_schema, Draft.yields_map] at h
    obtain ⟨inner, hi, rfl⟩ := h
    have hle := nodes_draftShape_le (fun part hp ty hd => ih part hp hd) hi
    split_ifs
    · exact (nodes_nullable_le inner).trans hle
    · exact (Nat.le_add_right ..).trans hle

end Drafts

/-! ### Type lists without repetition -/

/-- No type list that decides a shape has `object` or `array` twice. -/
inductive Node.NamesOnce : Node → Prop
  | other {value : Json} : NamesOnce (.other value)
  | schema {s : Schema} : s.times "object" = 1 → s.times "array" = 1 →
      (∀ part : Node, part.PartOf s → NamesOnce part) → NamesOnce (.schema s)

section Once

variable {s : Schema} {node : Node} {times times' : Schema → String → Nat}

theorem Node.weight?_congr : ∀ {node : Option Node},
    (∀ part, node = some part → part.weight times = part.weight times') →
      weight? times node = weight? times' node
  | none, _ => rfl
  | some node, h => h node rfl

theorem Node.weightAll?_congr : ∀ {nodes : Option (List Node)},
    (∀ own, nodes = some own → ∀ part ∈ own, part.weight times = part.weight times') →
      weightAll? times nodes = weightAll? times' nodes
  | none, _ => rfl
  | some nodes, h => by
    rw [weightAll?, weightAll?, weightAll_eq, weightAll_eq, List.map_congr_left (h nodes rfl)]

/-- A schema weighs the same where its parts do and are counted as often. -/
theorem Node.weight_congr
    (h : ∀ part : Node, part.PartOf s → part.weight times = part.weight times')
    (hobject : times s "object" = times' s "object") (harray : times s "array" = times' s "array") :
    (Node.schema s).weight times = (Node.schema s).weight times' := by
  have hproperties : weightNamed times s.parts.properties =
      weightNamed times' s.parts.properties := by
    rw [weightNamed_eq, weightNamed_eq,
      List.map_congr_left fun entry he => h entry.2 (.property he)]
  have hadditional := Node.weight?_congr fun part hp => h part (.additional hp)
  have hitems := Node.weight?_congr fun part hp => h part (.items hp)
  have hall := Node.weightAll?_congr fun own ho part hp => h part (.allOf ho hp)
  have hone := Node.weightAll?_congr fun own ho part hp => h part (.oneOf ho hp)
  have hany := Node.weightAll?_congr fun own ho part hp => h part (.anyOf ho hp)
  simp only [weight_schema, weightFor, weightComposed, hproperties, hadditional, hitems, hall, hone,
    hany, hobject, harray]

/-- **Without repeated names**, what a schema spreads to is its size. -/
theorem Node.spread_eq_size (h : node.NamesOnce) : node.spread = node.size := by
  induction h with
  | other => rw [spread, size, weight, weight]
  | schema ho ha _ ih => exact weight_congr ih ho ha

end Once

/-- **A type is in proportion to its schema**, whatever the named schemas are that it refers to: the
types that occur in it are at most four times what the schema spreads to, and so at most four times
its size if no type list repeats `object` or `array`. -/
theorem nodes_le_four_mul {scope : Scope} {place : String} {node : Node} {ty : Ty}
    (h : (draftNode scope place node).result = .ok ty) :
    ty.nodes ≤ 4 * node.spread ∧ (node.NamesOnce → ty.nodes ≤ 4 * node.size) := by
  have hd : Drafted scope (fun _ => True) node ty := ⟨place, h, fun _ _ => trivial⟩
  have hle := Drafted.nodes_le node hd
  exact ⟨hle, fun honce => Node.spread_eq_size honce ▸ hle⟩

/-- A schema of facets alone. -/
def facetNode (f : Facets) : Node := .schema ⟨f, ⟨[], none, none, none, none, none⟩⟩

/-- A tree that refers to itself, a list of a text or a number, or null. -/
def treeNode : Node :=
  .schema ⟨{ Facets.empty with types := some (.list ["object", "array", "null"]) },
    ⟨[("next", facetNode { Facets.empty with reference := some "#/components/schemas/Tree" })],
      some (facetNode { Facets.empty with values := some [.string "a", .number (.int 1)] }),
      none, none, none, none⟩⟩

/-- The type of the tree. -/
def treeType : Ty :=
  .unionOf [.object [⟨"next", "next", .reference "Tree", false, none, false⟩] none,
    .array (.unionOf [.literal (.string "a"), .literal (.number (.int 1))]), .null]

theorem namesOnce_facetNode (f : Facets)
    (hf : ∀ name, (⟨f, ⟨[], none, none, none, none, none⟩⟩ : Schema).times name = 1) :
    (facetNode f).NamesOnce := by
  refine .schema (hf _) (hf _) fun part hp => ?_
  cases hp with
  | property hm => cases hm
  | items hn | additional hn | oneOf hn | anyOf hn | allOf hn => cases hn

/-- The type of the tree has no more nodes where the tree is referred to. -/
theorem nodes_le_four_mul_tree :
    (draftNode ⟨[("Tree", treeNode)], [("Tree", "Tree")], .default⟩ "#/components/schemas/Tree"
        treeNode).result = .ok treeType ∧
      treeNode.NamesOnce ∧ treeType.nodes ≤ 4 * treeNode.size ∧
      treeType.nodes = 8 ∧ treeNode.size = 8 := by
  have h : (draftNode ⟨[("Tree", treeNode)], [("Tree", "Tree")], .default⟩
      "#/components/schemas/Tree" treeNode).result = .ok treeType := by rfl
  have honce : treeNode.NamesOnce := by
    refine .schema rfl rfl fun part hp => ?_
    cases hp with
    | property hm =>
      obtain ⟨rfl, rfl⟩ := Prod.mk.inj (List.mem_singleton.mp hm)
      exact namesOnce_facetNode _ fun _ => rfl
    | items hn =>
      obtain rfl := Option.some.inj hn
      exact namesOnce_facetNode _ fun _ => rfl
    | additional hn | oneOf hn | anyOf hn | allOf hn => cases hn
  exact ⟨h, honce, (nodes_le_four_mul h).2 honce, by decide, by decide⟩

/-! ### Type lists with repetition -/

/-- A schema whose type list has `array` twice. -/
def twiceArray (items : Option Node) : Node :=
  .schema ⟨{ Facets.empty with types := some (.list ["array", "array"]) },
    ⟨[], items, none, none, none, none⟩⟩

/-- Arrays of arrays, with `array` twice in each type list. -/
def nestedLists : Nat → Node
  | 0 => twiceArray none
  | n + 1 => twiceArray (some (nestedLists n))

/-- The union of an array type with itself, at each level. -/
def nestedTypes : Nat → Ty
  | 0 => .unionOf [.array .any, .array .any]
  | n + 1 => .unionOf [.array (nestedTypes n), .array (nestedTypes n)]

/-- Each level drafts its items twice. -/
theorem draftNode_nestedLists (scope : Scope) :
    ∀ (n : Nat) (place : String), draftNode scope place (nestedLists n) = pure (nestedTypes n)
  | 0, _ => rfl
  | n + 1, place => by
    have ih := draftNode_nestedLists scope n (Pointer.child place "items")
    have hstep : draftNode scope place (nestedLists (n + 1)) = id <$> (Ty.unionOf <$> Draft.all
        [Ty.array <$> draftNode scope (Pointer.child place "items") (nestedLists n),
          Ty.array <$> draftNode scope (Pointer.child place "items") (nestedLists n)]) := rfl
    rw [hstep, ih]
    rfl

theorem nodes_nestedTypes : ∀ n, (nestedTypes n).nodes + 3 = 8 * 2 ^ n
  | 0 => by decide
  | n + 1 => by
    have ih := nodes_nestedTypes n
    simp only [nestedTypes, Ty.unionOf, Ty.nodes, Ty.nodesOfAll]
    omega

theorem size_nestedLists : ∀ n, (nestedLists n).size = 3 * (n + 1)
  | 0 => by decide
  | n + 1 => by
    have hstep : (nestedLists (n + 1)).size = 3 + 1 * (nestedLists n).size := by
      rw [nestedLists, twiceArray, Node.size, Node.weight_schema]
      simp [Node.weightFor, Node.weightComposed, Node.weight?, Node.weightNamed, Node.weightAll?,
        Facets.entries, Facets.empty]
    rw [hstep, size_nestedLists n]
    omega

/-- **No factor bounds types by schemas** where type lists may repeat a name: the types double with
each level of arrays, and the schemas grow by three. -/
theorem exists_mul_size_lt_nodes (factor : Nat) :
    ∃ node ty, (∀ scope place, (draftNode scope place node).result = .ok ty) ∧
      factor * node.size < ty.nodes := by
  refine ⟨nestedLists (2 * factor), nestedTypes (2 * factor), fun scope place => ?_, ?_⟩
  · rw [draftNode_nestedLists]
    rfl
  · have hnodes := nodes_nestedTypes (2 * factor)
    have hpow : factor + 1 ≤ 2 ^ factor := Nat.lt_two_pow_self
    have hsquare : (factor + 1) * (factor + 1) ≤ 2 ^ (2 * factor) := by
      rw [Nat.two_mul, Nat.pow_add]
      exact Nat.mul_le_mul hpow hpow
    rw [size_nestedLists]
    nlinarith

/-- Four levels make more types than four times the size. -/
theorem not_nodes_le_four_mul_size : ¬ ∀ scope place node ty,
    (draftNode scope place node).result = .ok ty → ty.nodes ≤ 4 * node.size := by
  intro h
  have hle := h bareScope "#/x" (nestedLists 3) (nestedTypes 3) rfl
  exact absurd hle (by decide)

end ApiDecl
