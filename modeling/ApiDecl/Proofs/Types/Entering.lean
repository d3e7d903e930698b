import ApiDecl.Proofs.Session

/-!
# Entering components

`Progress.run` keeps a stack of components under way and comes to an end because names are used up.
`Follows` says the same without a stack and without a measure, one component within another: a
derivation is a finite run, and with the result it tells which components were entered on the way,
in order.  What mentions come to is derivable (`exists_follows_follow`, by way of `Unwinds` for the
stack), and nothing else is (`Follows.deterministic`), so every run is finite
(`exists_settles_iff`).

A mention leads into a component only if its name has not been entered, and the name stays entered.
So no component is entered twice (`Follows.nodup_components`), however the components refer to each
other.
-/

namespace ApiDecl

/-- The draft of the component that a mention leads to. -/
def Scope.body (scope : Scope) (m : Mention) (node : Node) : Draft Ty :=
  draftNode scope (Pool.schema.pointer m.component) node

namespace Progress

/-- Mentions are followed: to the mentions that components were entered by, in order, and to how far
the compilation has come then, in the end or at an error. -/
inductive Follows (scope : Scope) :
    Progress → List Mention → List Mention → Progress × Except Error Unit → Prop
  | done {p : Progress} : Follows scope p [] [] (p, .ok ())
  | known {p : Progress} {m : Mention} {rest entered : List Mention}
      {r : Progress × Except Error Unit} :
      p.unentered? scope m = none →
      Follows scope (p.refer m) rest entered r →
      Follows scope p (m :: rest) entered r
  | compiled {p q : Progress} {m : Mention} {node : Node} {followed : Except Error Unit} {ty : Ty}
      {rest within behind : List Mention} {r : Progress × Except Error Unit} :
      p.unentered? scope m = some node →
      Follows scope ((p.enter m).refer m) (scope.body m node).mentions within (q, followed) →
      (followed.bind fun _ => (scope.body m node).result) = .ok ty →
      Follows scope (q.complete scope m node ty) rest behind r →
      Follows scope p (m :: rest) (m :: (within ++ behind)) r
  | failed {p q : Progress} {m : Mention} {node : Node} {followed : Except Error Unit}
      {error : Error} {rest within : List Mention} :
      p.unentered? scope m = some node →
      Follows scope ((p.enter m).refer m) (scope.body m node).mentions within (q, followed) →
      (followed.bind fun _ => (scope.body m node).result) = .error error →
      Follows scope p (m :: rest) (m :: within) (q, .error error)

/-- Components under way are followed, the innermost first. -/
inductive Unwinds (scope : Scope) :
    Progress → List Underway → List Mention → Progress × Except Error Unit → Prop
  | done {p : Progress} : Unwinds scope p [] [] (p, .ok ())
  | compiled {p q : Progress} {m : Mention} {node : Node} {rest : List Mention}
      {result : Except Error Ty} {followed : Except Error Unit} {ty : Ty} {stack : List Underway}
      {within behind : List Mention} {r : Progress × Except Error Unit} :
      Follows scope p rest within (q, followed) →
      (followed.bind fun _ => result) = .ok ty →
      Unwinds scope (q.complete scope m node ty) stack behind r →
      Unwinds scope p (⟨m, node, rest, result⟩ :: stack) (within ++ behind) r
  | failed {p q : Progress} {m : Mention} {node : Node} {rest : List Mention}
      {result : Except Error Ty} {followed : Except Error Unit} {error : Error}
      {stack : List Underway} {within : List Mention} :
      Follows scope p rest within (q, followed) →
      (followed.bind fun _ => result) = .error error →
      Unwinds scope p (⟨m, node, rest, result⟩ :: stack) within (q, .error error)

variable {scope : Scope} {p : Progress} {m next : Mention} {node child : Node}
  {mentions rest entered entered' : List Mention} {result : Except Error Ty} {stack : List Underway}
  {r r' : Progress × Except Error Unit}

/-! ### Finite runs -/

/-- Following mentions comes to one end, by way of the same components. -/
theorem Follows.deterministic (h : Follows scope p mentions entered r)
    (h' : Follows scope p mentions entered' r') : entered = entered' ∧ r = r' := by
  induction h generalizing entered' r' with
  | done =>
    cases h'
    exact ⟨rfl, rfl⟩
  | known hn _ ih =>
    cases h' with
    | known _ h' => exact ih h'
    | compiled hn' | failed hn' =>
      rw [hn] at hn'
      cases hn'
  | compiled hn _ hr _ ih ihr =>
    cases h' with
    | known hn' =>
      rw [hn] at hn'
      cases hn'
    | compiled hn' h' hr' hrest' =>
      obtain rfl := Option.some.inj (hn.symm.trans hn')
      obtain ⟨rfl, he⟩ := ih h'
      cases he
      obtain rfl := Except.ok.inj (hr.symm.trans hr')
      obtain ⟨rfl, rfl⟩ := ihr hrest'
      exact ⟨rfl, rfl⟩
    | failed hn' h' hr' =>
      obtain rfl := Option.some.inj (hn.symm.trans hn')
      cases (ih h').2
      rw [hr] at hr'
      cases hr'
  | failed hn _ hr ih =>
    cases h' with
    | known hn' =>
      rw [hn] at hn'
      cases hn'
    | compiled hn' h' hr' =>
      obtain rfl := Option.some.inj (hn.symm.trans hn')
      cases (ih h').2
      rw [hr] at hr'
      cases hr'
    | failed hn' h' hr' =>
      obtain rfl := Option.some.inj (hn.symm.trans hn')
      obtain ⟨rfl, he⟩ := ih h'
      cases he
      obtain rfl := Except.error.inj (hr.symm.trans hr')
      exact ⟨rfl, rfl⟩

/-- A mention that leads into no component is passed over. -/
theorem Unwinds.known (hn : p.unentered? scope next = none)
    (h : Unwinds scope (p.refer next) (⟨m, node, rest, result⟩ :: stack) entered r) :
    Unwinds scope p (⟨m, node, next :: rest, result⟩ :: stack) entered r := by
  cases h with
  | compiled hf hr hs => exact .compiled (.known hn hf) hr hs
  | failed hf hr => exact .failed (.known hn hf) hr

/-- A component that comes under way is followed within the one that mentions it. -/
theorem Unwinds.enter (hn : p.unentered? scope next = some child)
    (h : Unwinds scope ((p.enter next).refer next)
      (underway scope next child :: ⟨m, node, rest, result⟩ :: stack) entered r) :
    Unwinds scope p (⟨m, node, next :: rest, result⟩ :: stack) (next :: entered) r := by
  cases h with
  | compiled hf hr hs =>
    cases hs with
    | compiled hf' hr' hs' =>
      rw [← List.append_assoc]
      exact .compiled (.compiled hn hf hr hf') hr' hs'
    | failed hf' hr' => exact .failed (.compiled hn hf hr hf') hr'
  | failed hf hr => exact .failed (.failed hn hf hr) rfl

/-- **Components under way** come to an end, one within another. -/
theorem exists_unwinds_run (scope : Scope) (p : Progress) (stack : List Underway) :
    ∃ entered, Unwinds scope p stack entered (run scope p stack) := by
  fun_induction Progress.run scope p stack with
  | case1 => exact ⟨[], .done⟩
  | case2 _ _ _ _ _ ih =>
    obtain ⟨entered, h⟩ := ih
    exact ⟨[] ++ entered, .compiled .done rfl h⟩
  | case3 => exact ⟨[], .failed .done rfl⟩
  | case4 _ _ _ _ _ _ _ hn ih =>
    obtain ⟨entered, h⟩ := ih
    exact ⟨entered, h.known hn⟩
  | case5 _ _ _ next _ _ _ _ hn ih =>
    obtain ⟨entered, h⟩ := ih
    exact ⟨next :: entered, h.enter hn⟩

/-- **Mentions come to an end**: what they come to is derivable. -/
theorem exists_follows_follow (scope : Scope) (p : Progress) (mentions : List Mention) :
    ∃ entered, Follows scope p mentions entered (p.follow scope mentions) := by
  fun_induction Progress.follow scope p mentions with
  | case1 => exact ⟨[], .done⟩
  | case2 _ _ _ hn ih =>
    obtain ⟨entered, h⟩ := ih
    exact ⟨entered, .known hn h⟩
  | case3 p m _ node hn _ hq ih =>
    obtain ⟨behind, h⟩ := ih
    obtain ⟨within, hrun⟩ := exists_unwinds_run scope ((p.enter m).refer m) [underway scope m node]
    rw [hq] at hrun
    cases hrun with
    | compiled hf hr hs =>
      cases hs
      exact ⟨_, .compiled hn hf hr h⟩
  | case4 p m _ node hn _ _ hq =>
    obtain ⟨within, hrun⟩ := exists_unwinds_run scope ((p.enter m).refer m) [underway scope m node]
    rw [hq] at hrun
    cases hrun with
    | compiled _ _ hs => cases hs
    | failed hf hr => exact ⟨m :: within, .failed hn hf hr⟩

/-- A draft is settled: its mentions are followed, and what came out counts if they come to no
error. -/
def Settles {α : Type} (scope : Scope) (p : Progress) (draft : Draft α) (entered : List Mention)
    (r : Progress × Except Error α) : Prop :=
  ∃ q followed, Follows scope p draft.mentions entered (q, followed) ∧
    r = (q, followed.bind fun _ => draft.result)

/-- **Settling a draft is finite** and has one result, the one that is computed. -/
theorem exists_settles_iff {α : Type} (scope : Scope) (p : Progress) (draft : Draft α) :
    ∃ entered, ∀ entered' r,
      Settles scope p draft entered' r ↔ entered' = entered ∧ r = p.draft scope draft := by
  obtain ⟨entered, h⟩ := exists_follows_follow scope p draft.mentions
  refine ⟨entered, fun entered' r => ⟨?_, ?_⟩⟩
  · rintro ⟨q, followed, h', rfl⟩
    obtain ⟨rfl, he⟩ := h'.deterministic h
    rw [draft_eq, ← he]
    exact ⟨rfl, rfl⟩
  · rintro ⟨rfl, rfl⟩
    exact ⟨_, _, h, draft_eq scope p draft⟩

/-! ### The components entered -/

/-- What is entered is put before what was entered already. -/
theorem Follows.entered_eq (h : Follows scope p mentions entered r) :
    r.1.entered = (entered.map Mention.name).reverse ++ p.entered := by
  induction h with
  | done => rfl
  | known _ _ ih => rw [ih, entered_refer]
  | @compiled p q m node _ ty _ within behind _ _ _ _ _ ih ihr =>
    have hq : (q.complete scope m node ty).entered = q.entered := rfl
    rw [ihr, hq, ih, entered_refer]
    simp [Progress.enter]
  | failed _ _ _ ih =>
    rw [ih, entered_refer]
    simp [Progress.enter]

/-- A component that comes under way is apart from what was entered before, and is entered then. -/
theorem nodup_enter (hn : p.unentered? scope m = some node) {names : List String}
    (hd : names.Nodup) (hp : names ⊆ p.entered) :
    (m.name :: names).Nodup ∧ m.name :: names ⊆ ((p.enter m).refer m).entered := by
  rw [entered_refer]
  exact ⟨List.nodup_cons.mpr ⟨fun hm => not_mem_entered_of_unentered? hn (hp hm), hd⟩,
    List.cons_subset_cons _ hp⟩

/-- What is entered is apart from names that were entered before. -/
theorem Follows.nodup_append (h : Follows scope p mentions entered r) {names : List String}
    (hd : names.Nodup) (hp : names ⊆ p.entered) :
    ((entered.map Mention.name).reverse ++ names).Nodup := by
  induction h generalizing names with
  | done => exact hd
  | known _ _ ih => exact ih hd (by rwa [entered_refer])
  | @compiled p q m node _ ty _ within _ _ hn hf _ _ ih ihr =>
    obtain ⟨hd, hp⟩ := nodup_enter hn hd hp
    -- what is entered behind the component is apart from what is entered within it, too
    have hq : (within.map Mention.name).reverse ++ m.name :: names ⊆ q.entered := by
      rw [hf.entered_eq]
      exact List.append_subset.mpr
        ⟨List.subset_append_left _ _, List.subset_append_of_subset_right _ hp⟩
    simpa using ihr (ih hd hp) hq
  | failed hn _ _ ih =>
    obtain ⟨hd, hp⟩ := nodup_enter hn hd hp
    simpa using ih hd hp

/-- What is entered has not been entered before. -/
theorem Follows.fresh (h : Follows scope p mentions entered r) :
    ∀ m ∈ entered, m.name ∉ p.entered := by
  intro m hm he
  have hd := h.nodup_append (List.nodup_singleton m.name)
    (List.cons_subset.mpr ⟨he, List.nil_subset _⟩)
  exact (List.nodup_append.mp hd).2.2 _ (List.mem_reverse.mpr (List.mem_map_of_mem hm)) _
    (List.mem_singleton_self _) rfl

/-- What is entered leads to components, if the mentions do. -/
theorem Follows.resolves (h : Follows scope p mentions entered r)
    (hm : ∀ m ∈ mentions, scope.Resolves m) : ∀ m ∈ entered, scope.Resolves m := by
  induction h with
  | done => exact hm
  | known _ _ ih => exact ih (List.forall_mem_cons.mp hm).2
  | compiled _ _ _ _ ih ihr =>
    obtain ⟨hm, hrest⟩ := List.forall_mem_cons.mp hm
    exact List.forall_mem_cons.mpr
      ⟨hm, List.forall_mem_append.mpr ⟨ih (only_draftNode scope _ _), ihr hrest⟩⟩
  | failed _ _ _ ih =>
    exact List.forall_mem_cons.mpr
      ⟨(List.forall_mem_cons.mp hm).1, ih (only_draftNode scope _ _)⟩

/-- **No component is entered twice**, by whatever mentions. -/
theorem Follows.nodup_components (h : Follows scope p mentions entered r)
    (hm : ∀ m ∈ mentions, scope.Resolves m) : (entered.map Mention.component).Nodup := by
  have hnames : (entered.map Mention.name).Nodup := by
    simpa using h.nodup_append List.nodup_nil (List.nil_subset _)
  -- the name of a component's type is the one that the scope gives it
  have hlookup : (entered.map Mention.component).map (Member.lookup · scope.names) =
      (entered.map Mention.name).map some := by
    rw [List.map_map, List.map_map]
    refine List.map_congr_left fun m hmem => ?_
    obtain ⟨pointer, hp⟩ := h.resolves hm m hmem
    exact Scope.lookup_of_resolve hp
  refine List.Nodup.of_map (Member.lookup · scope.names) ?_
  rw [hlookup]
  exact hnames.map (Option.some_injective _)

end Progress

end ApiDecl
