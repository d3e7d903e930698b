import ApiDecl.Description.Component
import ApiDecl.Proofs.Json.Same

/-!
# Valid values

`Valid` says which JSON values a schema allows.  All keywords have to be met together, except that
null is valid wherever the schema is nullable and that a `$ref` stands for its target alone.  The
schemas may be cyclic, so validity is the least relation of this kind: a derivation is finite, and
`Meets` says what one step of it asks of the value, given a relation for the parts.

`Meets.imp` lets the relation for the parts be exchanged, which is what an induction over `Valid`
needs.
-/

namespace ApiDecl

/-- The value is of a type that the keyword `type` names. -/
def Facets.Types (f : Facets) (v : Json) : Prop :=
  match f.types with
  | none => True
  | some (.one name) => v.IsOf name
  | some (.list names) => ∃ name ∈ names, v.IsOf name

/-- Some keyword for objects is present. -/
def SchemaOf.describesMembers {ν : Type} (s : SchemaOf ν) : Prop :=
  s.parts.properties ≠ [] ∨ s.facets.required ≠ [] ∨ s.parts.additional.isSome

/-- The value meets the keywords of a schema other than `$ref`, where a relation tells whether the
parts of the value are valid for the parts of the schema. -/
structure Meets (R : Node → Json → Prop) (s : Schema) (v : Json) : Prop where
  constant : ∀ c, s.facets.constant = some c → v.Same c
  values : ∀ cs, s.facets.values = some cs → ∃ c ∈ cs, v.Same c
  types : s.facets.Types v
  allOf : ∀ nodes, s.parts.allOf = some nodes → ∀ node ∈ nodes, R node v
  oneOf : ∀ nodes, s.parts.oneOf = some nodes → ∃ node ∈ nodes, R node v
  anyOf : ∀ nodes, s.parts.anyOf = some nodes → ∃ node ∈ nodes, R node v
  object : s.describesMembers → ∃ members, v = .object members
  properties : ∀ members, v = .object members → ∀ entry ∈ s.parts.properties, ∀ w,
    Member.lookup entry.1 members = some w → R entry.2 w
  required : ∀ members, v = .object members → ∀ name ∈ s.facets.required,
    Member.has name members = true
  additional : ∀ members, v = .object members → ∀ node, s.parts.additional = some node → ∀ name w,
    Member.lookup name members = some w → name ∉ s.parts.properties.map Prod.fst → R node w
  array : s.parts.items.isSome → s.facets.types = none → ∃ items, v = .array items
  items : ∀ items, v = .array items → ∀ node, s.parts.items = some node →
    ∀ item ∈ items, R node item

theorem Meets.imp {R R' : Node → Json → Prop} (hR : ∀ node w, R node w → R' node w) {s : Schema}
    {v : Json} (h : Meets R s v) : Meets R' s v :=
  { h with
    allOf := fun nodes hn node hm => hR _ _ (h.allOf nodes hn node hm)
    oneOf := fun nodes hn => (h.oneOf nodes hn).imp fun _ hm => hm.imp_right (hR _ _)
    anyOf := fun nodes hn => (h.anyOf nodes hn).imp fun _ hm => hm.imp_right (hR _ _)
    properties := fun members hv entry he w hw => hR _ _ (h.properties members hv entry he w hw)
    additional := fun members hv node hn name w hw hu =>
      hR _ _ (h.additional members hv node hn name w hw hu)
    items := fun items hv node hn item hi => hR _ _ (h.items items hv node hn item hi) }

/-- The value is valid for what stands where a schema is expected: `true` allows all values, and
nothing else that is no schema allows any. -/
inductive Valid (schemas : List (String × Node)) : Node → Json → Prop
  | any {v : Json} : Valid schemas (.other (.bool true)) v
  | null {s : Schema} : s.facets.isNullable = true → Valid schemas (.schema s) .null
  | reference {s : Schema} {pointer component : String} {target : Node} {v : Json} :
      s.facets.reference = some pointer →
      Pool.schema.find schemas pointer = .ok (component, target) →
      Valid schemas target v → Valid schemas (.schema s) v
  | keywords {s : Schema} {v : Json} {R : Node → Json → Prop} : s.facets.reference = none →
      Meets R s v → (∀ node w, R node w → Valid schemas node w) → Valid schemas (.schema s) v

/-- Without `$ref`, a value that is not null is valid if it meets the keywords. -/
theorem valid_iff_meets {schemas : List (String × Node)} {s : Schema}
    (hs : s.facets.reference = none) {v : Json} (hv : v ≠ .null) :
    Valid schemas (.schema s) v ↔ Meets (Valid schemas) s v := by
  constructor
  · intro h
    cases h with
    | null => exact absurd rfl hv
    | reference hr => rw [hs] at hr; cases hr
    | keywords _ hm hR => exact hm.imp hR
  · exact fun h => .keywords hs h fun _ _ hw => hw

end ApiDecl
