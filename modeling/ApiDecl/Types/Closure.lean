import ApiDecl.Transform.Liveness
import ApiDecl.Types.OfSchema
import ApiDecl.Types.Programs

/-!
# Compiling named schemas

A schema that is mentioned has to be compiled, along with those that it mentions.  `Progress` says how far
that has come.  A component is entered at most once: when it is entered, the mentions of its own draft are
followed, depth first, before the draft counts.  An error ends everything, and the components that were
under way then stay so for good; `Progress.finish` finds the references to them.

* `Progress.run`: the components under way, followed to the end or to an error;
* `Progress.follow`, `Progress.draft`: mentions followed, and a draft with its mentions followed;
* `Progress.components`: every component compiled;
* `Progress.finish`: the types in the order of the components, the pruned table and the live names.
-/

namespace ApiDecl

/-- The compiled type of a component. -/
structure NamedType where
  /-- The name of the type. -/
  name : String
  /-- The name of the component. -/
  wireName : String
  ty : Ty
  description : Option String
  deprecated : Bool

/-- How far the compilation of named schemas has come. -/
structure Progress where
  /-- The type names of the components entered. -/
  entered : List String
  /-- The types compiled, in the order of their completion. -/
  types : List NamedType
  /-- The programs of the types compiled. -/
  table : Table
  /-- The first mention of each type. -/
  references : List (String × Mention)

/-- A component under way, with the mentions of its draft that are still to be followed. -/
structure Underway where
  mention : Mention
  node : Node
  rest : List Mention
  result : Except Error Ty

namespace Progress

/-- Nothing has been compiled. -/
def start : Progress := ⟨[], [], .empty, []⟩

/-- The type of a name, if it has been compiled. -/
def type? (p : Progress) (name : String) : Option NamedType := p.types.find? fun t => t.name == name

/-- Remembers a mention, unless its type has been mentioned before. -/
def refer (p : Progress) (m : Mention) : Progress :=
  if Member.has m.name p.references then p
  else { p with references := p.references ++ [(m.name, m)] }

/-- Takes the type of a component into the result, with its programs. -/
def complete (p : Progress) (scope : Scope) (m : Mention) (node : Node) (ty : Ty) : Progress :=
  let (description, deprecated) := scope.docs node
  let named : NamedType := ⟨m.name, m.component, ty, description, deprecated⟩
  { p with
    types := p.types ++ [named]
    table := Kind.all.foldl (fun table kind => table.insert kind m.name (ty.programs kind)) p.table }

/-- The number of mentions to be followed, each component under way counting too. -/
def pending : List Underway → Nat
  | [] => 0
  | top :: rest => top.rest.length + 1 + pending rest

/-- The component names of a scope whose types have not been entered. -/
def remaining (p : Progress) (scope : Scope) : List (String × String) :=
  scope.names.filter fun entry => !p.entered.contains entry.2

/-- A component of the scope that is entered now. -/
def enter (p : Progress) (m : Mention) : Progress := { p with entered := m.name :: p.entered }

/-- The component that a mention leads to, as it comes under way. -/
def underway (scope : Scope) (m : Mention) (node : Node) : Underway :=
  let draft := draftNode scope (Pool.schema.pointer m.component) node
  ⟨m, node, draft.mentions, draft.result⟩

/-- The schema of a mention that has not been entered yet. -/
def unentered? (p : Progress) (scope : Scope) (m : Mention) : Option Node :=
  if p.entered.contains m.name || !scope.names.contains (m.component, m.name) then none
  else Member.lookup m.component scope.schemas

theorem remaining_enter_lt {p : Progress} {scope : Scope} {m : Mention} {node : Node}
    (h : p.unentered? scope m = some node) :
    ((p.enter m).remaining scope).length < (p.remaining scope).length := by
  have hm : (m.component, m.name) ∈ p.remaining scope := by
    unfold unentered? at h
    split at h
    · simp at h
    · next hc =>
      simp only [Bool.or_eq_true, not_or, Bool.not_eq_true, Bool.not_eq_false'] at hc
      simp only [remaining, List.mem_filter]
      exact ⟨List.contains_iff_mem.1 (by simpa using hc.2), by simpa using hc.1⟩
  have hsub : (p.enter m).remaining scope =
      (p.remaining scope).filter fun entry => entry.2 != m.name := by
    simp only [remaining, enter, List.filter_filter]
    congr 1
    funext entry
    by_cases he : entry.2 = m.name <;> simp [he]
  rw [hsub]
  exact List.length_filter_lt_length_iff_exists.2 ⟨_, hm, by simp⟩

theorem remaining_refer (p : Progress) (scope : Scope) (m : Mention) :
    (p.refer m).remaining scope = p.remaining scope := by
  unfold refer
  split <;> rfl

theorem remaining_complete (p : Progress) (scope : Scope) (m : Mention) (node : Node) (ty : Ty) :
    (p.complete scope m node ty).remaining scope = p.remaining scope := rfl

/-- Follows the components under way, the innermost first, until none is left or one has an error. -/
def run (scope : Scope) (p : Progress) : List Underway → Progress × Except Error Unit
  | [] => (p, .ok ())
  | ⟨m, node, [], .ok ty⟩ :: stack => run scope (p.complete scope m node ty) stack
  | ⟨_, _, [], .error error⟩ :: _ => (p, .error error)
  | ⟨m, node, next :: rest, result⟩ :: stack =>
    match _h : p.unentered? scope next with
    | none => run scope (p.refer next) (⟨m, node, rest, result⟩ :: stack)
    | some child =>
      run scope ((p.enter next).refer next)
        (underway scope next child :: ⟨m, node, rest, result⟩ :: stack)
termination_by stack => ((p.remaining scope).length, pending stack)
decreasing_by
  · rw [remaining_complete]
    exact .right _ (by simp [pending])
  · rw [remaining_refer]
    exact .right _ (by simp [pending])
  · rw [remaining_refer]
    exact .left _ _ (remaining_enter_lt _h)

/-- Follows mentions, each to the end, until none is left or there is an error. -/
def follow (scope : Scope) (p : Progress) : List Mention → Progress × Except Error Unit
  | [] => (p, .ok ())
  | m :: rest =>
    match p.unentered? scope m with
    | none => follow scope (p.refer m) rest
    | some node =>
      match run scope ((p.enter m).refer m) [underway scope m node] with
      | (p, .ok ()) => follow scope p rest
      | (p, .error error) => (p, .error error)

/-- A draft counts after its mentions have been followed. -/
def draft {α : Type} (scope : Scope) (p : Progress) (d : Draft α) : Progress × Except Error α :=
  match p.follow scope d.mentions with
  | (p, .ok ()) => (p, d.result)
  | (p, .error error) => (p, .error error)

/-- Every component of a scope, compiled in order. -/
def components (scope : Scope) (p : Progress) : Progress × Except Error Unit :=
  let (p, result) := p.draft scope
    (Draft.all (scope.names.map fun entry => draftReference scope (Pool.schema.pointer entry.1)))
  (p, result.map fun _ => ())

/-- What the compilation of schemas results in. -/
structure Compiled where
  /-- In the order of the components. -/
  types : List NamedType
  table : Table
  live : LiveNames

/-- The result, if every type mentioned has been compiled. -/
def finish (scope : Scope) (p : Progress) : Except Error Compiled :=
  match p.references.find? fun entry => (p.type? entry.1).isNone with
  | some (name, m) => .error (.invalid m.pointer (.neverCompiled name))
  | none =>
    let (table, live) := p.table.prune
    .ok ⟨scope.names.filterMap fun entry => p.type? entry.2, table, live⟩

end Progress

end ApiDecl
