import ApiDecl.Proofs.Closed
import ApiDecl.Proofs.Description.Reading
import ApiDecl.Proofs.Types.Names

/-!
# Names of declarations

No two names of one namespace are the same, and all of them are identifiers (`names_wellFormed`):
types, operations, the fields of any one object, and the parameters of any one operation.  Fields
have distinct wire names, too, and parameters distinct slots.

Types take free names (`Scope.nodup_names`), operations are refused when a name is taken
(`draftInOrder_names`), and parameters are named after those of an operation have been put in place
of those of its path (`draftParameters_names`).  Wire names of fields are those of properties, which
are distinct in any document that is read (`Document.keyed_of_ofText`).
-/

namespace ApiDecl

variable {P : Mention → Prop} {scope : Scope} {d : Document} {c : Components}
  {base pointer : String}

/-! ### Parameters -/

theorem map_slot_nameBindings : ∀ (taken : List String) (bs : List Binding),
    (nameBindings taken bs).map Binding.slot = bs.map Binding.slot
  | _, [] => rfl
  | _, b :: rest => congrArg (b.slot :: ·) (map_slot_nameBindings _ rest)

theorem nodup_overrideBindings {shared own : List Binding} (h : (shared.map Binding.slot).Nodup) :
    ((overrideBindings shared own).map Binding.slot).Nodup := by
  refine List.foldlRecOn own _ h
    (motive := fun bs : List Binding => (bs.map Binding.slot).Nodup) fun bs hbs b _ => ?_
  rw [List.map_append, List.map_singleton]
  refine List.Nodup.append (hbs.sublist (List.filter_sublist.map _)) (List.nodup_singleton _) ?_
  intro slot hslot hb
  obtain ⟨other, hother, rfl⟩ := List.mem_map.mp hslot
  have hne := (List.mem_filter.mp hother).2
  rw [Bool.not_eq_true', ← Bool.not_eq_true, Binding.sameSlot_eq_true] at hne
  exact hne (List.mem_singleton.mp hb)

theorem draftParameter_name {p : Parameter} {b : Binding}
    (h : (draftParameter scope pointer p).Yields P b) : isIdentifier b.name = true := by
  unfold draftParameter at h
  dsimp only at h
  split at h <;>
  · obtain ⟨ty, -, h⟩ := Draft.yields_bind.mp h
    obtain rfl := Draft.yields_pure.mp h
    exact scope.options.isIdentifier_identifier _

theorem draftParameterList_names {entries : List (RefOr Parameter)} {bs : List Binding}
    (h : (draftParameterList scope c base [] 0 entries).Yields P bs) :
    ∀ b ∈ bs, isIdentifier b.name = true := by
  intro b hb
  obtain ⟨-, -, p, place, -, hy⟩ := exists_of_forall₂_right (draftParameterList_yields h).1 hb
  exact draftParameter_name hy

/-- The parameters have distinct names and distinct slots, and the names are identifiers. -/
def Binding.WellNamed (bs : List Binding) : Prop :=
  (bs.map Binding.name).Nodup ∧ (bs.map Binding.slot).Nodup ∧ ∀ b ∈ bs, isIdentifier b.name = true

/-- The parameters of an operation are named after those of its path have been overridden. -/
theorem draftParameters_names {item : PathItem} {o : Operation} {pathPointer : String}
    {bs : List Binding} (h : (draftParameters scope c item o pathPointer pointer).Yields P bs) :
    Binding.WellNamed bs := by
  obtain ⟨shared, own, hshared, hown, rfl⟩ := draftParameters_yields h
  obtain ⟨-, hnodup, -⟩ := draftParameterList_yields hshared
  refine ⟨?_, ?_, fun b hb => ?_⟩
  · rw [map_name_nameBindings]
    exact nodup_claimFields _ _
  · rw [map_slot_nameBindings]
    exact nodup_overrideBindings hnodup
  · have hname : b.name ∈ (nameBindings [] (overrideBindings shared own)).map Binding.name :=
      List.mem_map_of_mem hb
    rw [map_name_nameBindings] at hname
    refine isIdentifier_of_mem_claimFields (fun want hw => ?_) b.name hname
    obtain ⟨b', hb', rfl⟩ := List.mem_map.mp hw
    rw [mem_overrideBindings (draftParameterList_yields hown).2.1] at hb'
    rcases hb' with hb' | ⟨hb', -⟩
    · exact draftParameterList_names hown b' hb'
    · exact draftParameterList_names hshared b' hb'

/-! ### Operations -/

theorem isIdentifier_operationName (camelCase : String → String) (path : String) (method : Method)
    (o : Operation) : isIdentifier (operationName camelCase path method o) = true := by
  unfold operationName
  split
  · exact isIdentifier_sanitize _
  · exact isIdentifier_camelIdentifier camelCase _

theorem draftOperation_name {path name : String} {item : PathItem} {method : Method}
    {op : Operation} {o : OperationDeclaration}
    (h : (draftOperation scope d path item method name op).Yields P o) : o.name = name := by
  simp only [draftOperation, Draft.yields_bind, Draft.yields_pure] at h
  obtain ⟨_, -, _, -, _, -, rfl⟩ := h
  rfl

/-- Operations are refused when their name is taken. -/
theorem draftInOrder_names : ∀ {sources : List (String × PathItem × Method × Operation)}
    {taken : List String} {os : List OperationDeclaration},
      (draftInOrder scope d taken sources).Yields P os →
        (os.map OperationDeclaration.name).Nodup ∧
          ∀ o ∈ os, isIdentifier o.name = true ∧ o.name ∉ taken
  | [], _, os, h => by
    rw [draftInOrder, Draft.yields_pure] at h
    subst h
    exact ⟨List.nodup_nil, fun _ hm => absurd hm List.not_mem_nil⟩
  | (path, item, method, op) :: rest, taken, os, h => by
    unfold draftInOrder at h
    dsimp only at h
    split at h
    · simp at h
    · next hfree =>
      simp only [Draft.yields_bind, Draft.yields_pure] at h
      obtain ⟨o, ho, more, hrest, rfl⟩ := h
      obtain ⟨hnodup, hmore⟩ := draftInOrder_names hrest
      have hname := draftOperation_name ho
      rw [List.contains_iff_mem, ← hname] at hfree
      rw [List.map_cons, List.nodup_cons, List.forall_mem_cons]
      refine ⟨⟨fun hm => ?_, hnodup⟩, ⟨hname ▸ isIdentifier_operationName _ path method op, hfree⟩,
        fun other hm => ⟨(hmore other hm).1, fun ht => ?_⟩⟩
      · obtain ⟨other, hother, he⟩ := List.mem_map.mp hm
        refine (hmore other hother).2 ?_
        rw [he, hname]
        exact List.mem_cons_self
      · exact (hmore other hm).2 (List.mem_cons_of_mem _ ht)

/-! ### Declarations -/

/-- What is left of a list under a name is named in the order of the list. -/
theorem map_filterMap_sublist {α β γ : Type} {f : α → Option β} {g : β → γ} {k : α → γ}
    (hf : ∀ x y, f x = some y → g y = k x) :
    ∀ l : List α, ((l.filterMap f).map g).Sublist (l.map k)
  | [] => List.Sublist.slnil
  | x :: rest => by
    rw [List.filterMap_cons, List.map_cons]
    cases hx : f x with
    | none => exact (map_filterMap_sublist hf rest).cons _
    | some y =>
      rw [List.map_cons, hf x y hx]
      exact (map_filterMap_sublist hf rest).cons_cons _

namespace Declarations

variable {options : CasedOptions} {l : Declarations} {p : Progress}
  {operations : List OperationDeclaration}

namespace MadeOf

variable (h : l.MadeOf d options p operations)
include h

/-- The types declared are named by the scope. -/
theorem names_sublist : (l.types.map fun t => t.named.name).Sublist
    ((Scope.ofDocument d options).names.map Prod.snd) := by
  rw [h.types, List.map_map]
  exact map_filterMap_sublist (fun entry t ht => (Progress.mem_of_type? ht).2) _

theorem isIdentifier_name {t : TypeDeclaration} (ht : t ∈ l.types) :
    isIdentifier t.named.name = true := by
  have hm : t.named.name ∈ (Scope.ofDocument d options).names.map Prod.snd :=
    h.names_sublist.subset (List.mem_map_of_mem (f := fun t => t.named.name) ht)
  rw [Scope.map_snd_names] at hm
  refine isIdentifier_of_mem_claimAll (fun base hb => ?_) _ hm
  obtain ⟨component, -, rfl⟩ := List.mem_map.mp hb
  exact isIdentifier_sanitize component

theorem operation_names : (l.operations.map OperationDeclaration.name).Nodup ∧
    ∀ o ∈ l.operations, isIdentifier o.name = true := by
  have hnames : l.operations.map OperationDeclaration.name =
      operations.map OperationDeclaration.name := by
    rw [h.operations, List.map_map]
    rfl
  have hd := h.drafted
  suffices hall : (operations.map OperationDeclaration.name).Nodup ∧
      ∀ name ∈ operations.map OperationDeclaration.name, isIdentifier name = true by
    rw [hnames]
    exact ⟨hall.1, fun o ho => hall.2 _ (hnames ▸ List.mem_map_of_mem ho)⟩
  split_ifs at hd
  · subst hd
    exact ⟨List.nodup_nil, fun _ hm => absurd hm List.not_mem_nil⟩
  · obtain ⟨hnodup, hall⟩ := draftInOrder_names hd
    refine ⟨hnodup, fun name hm => ?_⟩
    obtain ⟨o, ho, rfl⟩ := List.mem_map.mp hm
    exact (hall o ho).1

theorem parameter_names {o : OperationDeclaration} (ho : o ∈ l.operations) :
    Binding.WellNamed o.parameters := by
  obtain ⟨source, -, own, ⟨name, hy⟩, rfl⟩ := h.exists_drafted ho
  exact draftParameters_names (draftOperation_yields hy).1

end MadeOf

end Declarations

/-- **Names never collide**, and all of them are identifiers, whatever function camel case is. -/
theorem names_wellFormed {options : Options} {camelCase : String → String} {l : Declarations}
    (hd : d.Keyed) (hl : d.compile ⟨options, camelCase⟩ = .ok l) :
    ((l.types.map fun t => t.named.name).Nodup ∧
      ∀ t ∈ l.types, isIdentifier t.named.name = true) ∧
    ((l.operations.map OperationDeclaration.name).Nodup ∧
      ∀ o ∈ l.operations, isIdentifier o.name = true) ∧
    (∀ ty, l.Shows ty → ∀ fields additional, ty.Contains (.object fields additional) →
      (fields.map FieldOf.name).Nodup ∧ (fields.map FieldOf.wireName).Nodup ∧
        ∀ field ∈ fields, isIdentifier field.name = true) ∧
    ∀ o ∈ l.operations, (o.parameters.map Binding.name).Nodup ∧
      (o.parameters.map fun b => (b.location, b.wireName)).Nodup ∧
        ∀ b ∈ o.parameters, isIdentifier b.name = true := by
  obtain ⟨p, operations, hm⟩ := Declarations.exists_of_compile_eq_ok hl
  refine ⟨⟨hm.names_sublist.nodup (Scope.nodup_names d _), fun t ht =>
    hm.isIdentifier_name ht⟩, hm.operation_names, fun ty hs fields additional hc => ?_,
    fun o ho => hm.parameter_names ho⟩
  have hQ := madeWith_wellNamed (Scope.ofDocument d ⟨options, camelCase⟩) p.Referred (R := d.Contains)
    (fun hs hp => .part hs hp) fun hs => hd _ hs
  exact hm.each hQ (fun _ hn => hn) hs _ hc

/-! ### A document in which names collide -/

/-- A text. -/
def textNode : Node := .schema ⟨{ Facets.empty with types := some (.one "string") },
  ⟨[], none, none, none, none, none⟩⟩

/-- An object whose members want one name. -/
def stampNode : Node := .schema ⟨.empty,
  ⟨[("created_at", textNode), ("createdAt", textNode)], none, none, none, none, none⟩⟩

/-- Two components that want one name, and an operation with three parameters that do. -/
def crowdedDocument : Document where
  format := some "3.0.0"
  info := ⟨"Stamps", "1", none⟩
  servers := []
  paths := [("/", ⟨[(.get, ⟨some "list.stamps", none, none, false, [],
    [.inline ⟨"X-Id", .query, false, none, none, false⟩,
      .inline ⟨"x_id", .query, false, none, none, false⟩], none, [], none⟩)],
    [.inline ⟨"X-Id", .header, false, none, none, false⟩]⟩)]
  components := ⟨[("A.B", stampNode), ("A_B", textNode)], [], [], [], []⟩
  security := none

/-- The declarations of the document. -/
def crowdedDeclarations : Declarations where
  title := "Stamps"
  version := "1"
  types := [⟨⟨"A_B", "A.B", .object
      [⟨"createdAt", "created_at", .scalar .string none, false, none, false⟩,
        ⟨"createdAt_2", "createdAt", .scalar .string none, false, none, false⟩] none,
      none, false⟩, false⟩,
    ⟨⟨"A_B_2", "A_B", .scalar .string none, none, false⟩, false⟩]
  operations := [⟨"list_stamps", .get, "/",
    [⟨"xId", "X-Id", .header, false, .scalar .string none⟩,
      ⟨"X_Id", "X-Id", .query, false, .scalar .string none⟩,
      ⟨"x_id", "x_id", .query, false, .scalar .string none⟩], none, [], [], none, none, false⟩]
  auth := []
  context := ⟨none, []⟩
  table := ⟨none, none⟩

set_option maxRecDepth 10000 in
theorem compile_crowdedDocument : crowdedDocument.compile .default = .ok crowdedDeclarations := by
  cbv

theorem eq_of_crowdedDocument_contains {node : Node} (h : crowdedDocument.Contains node) :
    node = stampNode ∨ node = textNode := by
  induction h with
  | component h =>
    simp only [crowdedDocument, List.mem_cons, List.not_mem_nil, or_false, Prod.mk.injEq] at h
    exact h.imp And.right And.right
  | parameter h hs =>
    simp only [crowdedDocument, Document.parameters, List.map_nil, List.nil_append,
      List.flatMap_cons, List.flatMap_nil, List.append_nil, List.cons_append, List.mem_cons,
      List.not_mem_nil, or_false, RefOr.inline.injEq] at h
    rcases h with rfl | rfl | rfl <;> cases hs
  | body h => simp [crowdedDocument, Document.bodies] at h
  | response h => simp [crowdedDocument, Document.responses] at h
  | part _ hp ih =>
    rcases ih with he | he
    · cases he
      rcases hp with hm | hm | hm | hm | hm | hm
      · simp only [List.mem_cons, List.not_mem_nil, or_false, Prod.mk.injEq] at hm
        exact Or.inr (hm.elim And.right And.right)
      all_goals cases hm
    · cases he
      rcases hp with hm | hm | hm | hm | hm | hm <;> cases hm

theorem keyed_crowdedDocument : crowdedDocument.Keyed := by
  intro s hs
  rcases eq_of_crowdedDocument_contains hs with he | he
  · cases he
    decide
  · cases he
    decide

/-- Where names are wanted twice, free ones are taken. -/
theorem names_wellFormed_crowded :
    crowdedDocument.Keyed ∧ crowdedDocument.compile .default = .ok crowdedDeclarations ∧
      ((crowdedDeclarations.types.map fun t => t.named.name).Nodup ∧
        ∀ t ∈ crowdedDeclarations.types, isIdentifier t.named.name = true) ∧
      ((crowdedDeclarations.operations.map OperationDeclaration.name).Nodup ∧
        ∀ o ∈ crowdedDeclarations.operations, isIdentifier o.name = true) ∧
      (∀ ty, crowdedDeclarations.Shows ty → ∀ fields additional,
        ty.Contains (.object fields additional) →
          (fields.map FieldOf.name).Nodup ∧ (fields.map FieldOf.wireName).Nodup ∧
            ∀ field ∈ fields, isIdentifier field.name = true) ∧
      ∀ o ∈ crowdedDeclarations.operations, (o.parameters.map Binding.name).Nodup ∧
        (o.parameters.map fun b => (b.location, b.wireName)).Nodup ∧
          ∀ b ∈ o.parameters, isIdentifier b.name = true :=
  ⟨keyed_crowdedDocument, compile_crowdedDocument,
    names_wellFormed keyed_crowdedDocument compile_crowdedDocument⟩

end ApiDecl
