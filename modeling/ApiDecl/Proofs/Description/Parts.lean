import ApiDecl.Description.Schema
import Mathlib.Data.List.Basic

/-!
# Induction on schemas

A schema holds further schemas under six keywords, some of them inside lists and pairs.  `PartOf`
lists them in one relation, and `Node.induct` is the induction along it: what holds of a schema
whenever it holds of its parts holds of everything that may stand where a schema is expected.
-/

namespace ApiDecl

/-- The node stands under a keyword of the schema. -/
inductive Node.PartOf : Node → Schema → Prop
  | property {s : Schema} {name : String} {node : Node} :
      (name, node) ∈ s.parts.properties → PartOf node s
  | items {s : Schema} {node : Node} : s.parts.items = some node → PartOf node s
  | additional {s : Schema} {node : Node} : s.parts.additional = some node → PartOf node s
  | oneOf {s : Schema} {nodes : List Node} {node : Node} :
      s.parts.oneOf = some nodes → node ∈ nodes → PartOf node s
  | anyOf {s : Schema} {nodes : List Node} {node : Node} :
      s.parts.anyOf = some nodes → node ∈ nodes → PartOf node s
  | allOf {s : Schema} {nodes : List Node} {node : Node} :
      s.parts.allOf = some nodes → node ∈ nodes → PartOf node s

theorem Node.PartOf.sizeOf_lt {node : Node} {s : Schema} (h : node.PartOf s) :
    sizeOf node < sizeOf s := by
  obtain ⟨facets, properties, items, additional, oneOf, anyOf, allOf⟩ := s
  simp only [SchemaOf.mk.sizeOf_spec, Parts.mk.sizeOf_spec]
  cases h with
  | @property _ name _ hm =>
    have := List.sizeOf_lt_of_mem hm
    simp only [Prod.mk.sizeOf_spec] at this
    omega
  | items hn | additional hn =>
    subst hn
    simp only [Option.some.sizeOf_spec]
    omega
  | oneOf hn hm | anyOf hn hm | allOf hn hm =>
    subst hn
    have := List.sizeOf_lt_of_mem hm
    simp only [Option.some.sizeOf_spec]
    omega

/-- **Induction on schemas** along their parts. -/
@[elab_as_elim]
theorem Node.induct {motive : Node → Prop} (other : ∀ value, motive (.other value))
    (schema : ∀ s : Schema, (∀ part : Node, part.PartOf s → motive part) → motive (.schema s)) :
    ∀ node, motive node
  | .other value => other value
  | .schema s => schema s fun part _h => induct other schema part
termination_by node => sizeOf node
decreasing_by
  have := _h.sizeOf_lt
  simp only [Node.schema.sizeOf_spec]
  omega

end ApiDecl
