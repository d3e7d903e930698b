import ApiDecl.Proofs.Json.Keyed
import ApiDecl.Yaml.Value

/-!
# Mappings with distinct keys

The object that a mapping of a YAML text becomes has distinct member names, and so has every object
inside it (`Json.keyed_of_ofYaml?`).  Keys that differ may become one name, such as `1` and `"1"`;
then the second member is written in the place of the first.
-/

namespace ApiDecl.Yaml

/-! ### Scalars -/

theorem keyed_of_realValue? {text : String} {value : Json} (h : realValue? text = some value) :
    value.Keyed := by
  unfold realValue? at h
  split_ifs at h
  · obtain rfl := Option.some.inj h
    exact .null
  · obtain ⟨x, -, rfl⟩ := Option.map_eq_some_iff.mp h
    exact .number _

/-- A text that denotes no number is a string. -/
theorem keyed_getD_realValue? (text : String) : ((realValue? text).getD (.string text)).Keyed := by
  cases h : realValue? text with
  | none => exact .string text
  | some value => exact keyed_of_realValue? h

theorem keyed_of_plainValue {text : String} {value : Json} (h : plainValue text = some value) :
    value.Keyed := by
  unfold plainValue at h
  split at h
  · obtain rfl := Option.some.inj h
    exact .null
  split at h
  · obtain rfl := Option.some.inj h
    exact .bool _
  · split_ifs at h
    · obtain rfl := Option.some.inj h
      exact .number _
    · obtain rfl := Option.some.inj h
      exact keyed_getD_realValue? text
  · split at h
    · obtain rfl := Option.some.inj h
      exact .string text
    · obtain rfl := Option.some.inj h
      exact keyed_getD_realValue? text

theorem keyed_of_taggedValue {tag text : String} {value : Json}
    (h : taggedValue tag text = some value) : value.Keyed := by
  unfold taggedValue at h
  split_ifs at h
  · obtain ⟨b, -, rfl⟩ := Option.map_eq_some_iff.mp h
    exact .bool b
  · split at h
    · split_ifs at h
      obtain rfl := Option.some.inj h
      exact .number _
    · cases h
  · exact keyed_of_realValue? h
  · obtain rfl := Option.some.inj h
    exact .null
  · obtain rfl := Option.some.inj h
    exact .string text

theorem keyed_of_scalarValue {tag : Option String} {plain : Bool} {text : String} {value : Json}
    (h : scalarValue tag plain text = some value) : value.Keyed := by
  have huntagged (h : (if plain then plainValue text else some (.string text)) = some value) :
      value.Keyed := by
    split_ifs at h
    · exact keyed_of_plainValue h
    · obtain rfl := Option.some.inj h
      exact .string text
  unfold scalarValue at h
  split at h
  · split at h
    · exact huntagged h
    · exact keyed_of_taggedValue h
  · exact huntagged h

/-! ### Nodes -/

/-- A tag makes an object with one member. -/
theorem keyed_underTag {value : Json} (h : value.Keyed) (p : Properties) :
    (underTag p value).Keyed := by
  unfold underTag
  split
  · exact h
  · exact .object (List.nodup_singleton _) (List.forall_mem_singleton.mpr h)

theorem keyed_of_objectOf? : ∀ {entries : List (Json × Json)} {seen : List Json}
    {members result : List (String × Json)}, KeyedMembers members →
      (∀ entry ∈ entries, entry.2.Keyed) → objectOf? seen members entries = some result →
        KeyedMembers result
  | [], _, _, _, hm, _, h => by
    obtain rfl := Option.some.inj h
    exact hm
  | (key, value) :: rest, seen, members, result, hm, he, h => by
    rw [List.forall_mem_cons] at he
    obtain ⟨name, -, h⟩ := Option.bind_eq_some_iff.mp h
    split_ifs at h
    exact keyed_of_objectOf? (hm.put name he.1) he.2 h

section Expand

variable {expand : Node → Nat → Option (Json × Nat)}
  (hexpand : ∀ node left result, expand node left = some result → result.1.Keyed)
include hexpand

theorem keyed_of_expandAll : ∀ {nodes : List Node} {left left' : Nat} {values : List Json},
    expandAll expand nodes left = some (values, left') → ∀ value ∈ values, value.Keyed
  | [], _, _, _, h => by
    cases h
    exact fun _ hm => absurd hm List.not_mem_nil
  | node :: rest, _, _, _, h => by
    obtain ⟨⟨value, _⟩, hv, h⟩ := Option.bind_eq_some_iff.mp h
    obtain ⟨⟨values, _⟩, hvs, h⟩ := Option.bind_eq_some_iff.mp h
    cases h
    exact List.forall_mem_cons.mpr ⟨hexpand _ _ _ hv, keyed_of_expandAll hvs⟩

theorem keyed_of_expandEntries : ∀ {entries : List (Node × Node)} {left left' : Nat}
    {values : List (Json × Json)}, expandEntries expand entries left = some (values, left') →
      ∀ value ∈ values, value.2.Keyed
  | [], _, _, _, h => by
    cases h
    exact fun _ hm => absurd hm List.not_mem_nil
  | (key, node) :: rest, _, _, _, h => by
    obtain ⟨⟨name, _⟩, -, h⟩ := Option.bind_eq_some_iff.mp h
    obtain ⟨⟨value, _⟩, hv, h⟩ := Option.bind_eq_some_iff.mp h
    obtain ⟨⟨values, _⟩, hvs, h⟩ := Option.bind_eq_some_iff.mp h
    cases h
    exact List.forall_mem_cons.mpr ⟨hexpand _ _ _ hv, keyed_of_expandEntries hvs⟩

end Expand

/-- The value of a scalar node is keyed. -/
theorem keyed_of_map_scalarValue {p : Properties} {plain : Bool} {text : String} {left : Nat}
    {result : Json × Nat} (h : ((scalarValue p.tag plain text).map fun value =>
      (underTag p value, left)) = some result) : result.1.Keyed := by
  obtain ⟨value, hv, rfl⟩ := Option.map_eq_some_iff.mp h
  exact keyed_underTag (keyed_of_scalarValue hv) p

/-- **The value of a node** is keyed, however deep it is. -/
theorem keyed_of_expand {targets : List (Nat × Node)} : ∀ (depth : Nat) (node : Node) (left : Nat)
    (result : Json × Nat), expand targets depth node left = some result → result.1.Keyed
  | 0, node, left, result, h => by
    obtain ⟨⟨target, left⟩, -, h⟩ := Option.bind_eq_some_iff.mp h
    cases target with
    | scalar p plain text => exact keyed_of_map_scalarValue h
    | _ => cases h
  | depth + 1, node, left, result, h => by
    obtain ⟨⟨target, left⟩, -, h⟩ := Option.bind_eq_some_iff.mp h
    cases target with
    | scalar p plain text => exact keyed_of_map_scalarValue h
    | sequence p items =>
      obtain ⟨⟨values, left⟩, hvs, h⟩ := Option.bind_eq_some_iff.mp h
      obtain rfl := Option.some.inj h
      exact keyed_underTag (.array (keyed_of_expandAll (keyed_of_expand depth) hvs)) p
    | mapping p entries =>
      obtain ⟨⟨values, left⟩, hvs, h⟩ := Option.bind_eq_some_iff.mp h
      obtain ⟨members, hm, h⟩ := Option.bind_eq_some_iff.mp h
      obtain rfl := Option.some.inj h
      have hmembers := keyed_of_objectOf? .nil
        (keyed_of_expandEntries (keyed_of_expand depth) hvs) hm
      exact keyed_underTag hmembers.keyed p
    | reference => cases h

end ApiDecl.Yaml

namespace ApiDecl

/-- **Objects read from YAML** have distinct member names. -/
theorem Json.keyed_of_ofYaml? {text : String} {value : Json} (h : Json.ofYaml? text = some value) :
    value.Keyed := by
  obtain ⟨tokens, -, h⟩ := Option.bind_eq_some_iff.mp h
  obtain ⟨node, -, h⟩ := Option.bind_eq_some_iff.mp h
  obtain ⟨result, hr, rfl⟩ := Option.map_eq_some_iff.mp h
  exact Yaml.keyed_of_expand _ _ _ _ hr

end ApiDecl
