import ApiDecl.Proofs.Transform.Execution
import ApiDecl.Proofs.Transform.Pruning
import Mathlib.Data.List.Count

/-!
# How often a slot is converted

Programs may lead to one slot in several ways, as `entries` does to a member that `access` leads to as
well.  `Section.ways` counts the ways to a slot, layer by layer: the visits at the slot itself are
counted where the path ends, and each place of a path takes the visits above it to those below.  The
count asks nothing of the payload and not what happens in the run, and no run converts a slot more often
(`Executes.count_le`), whatever the conversions make of the values on the way.
-/

namespace ApiDecl

/-- The visit is a conversion. -/
def Visit.converts : Visit → Bool
  | .convert => true
  | .field _ _ | .items _ | .members _ => false

/-- The visits that a visit goes on with at one part of its slot. -/
def Visit.below (s : Section) (place : Place) : Visit → List Visit
  | .convert => []
  | .field name rest =>
    match place with
    | .member _ key => if key = name then visitsOf s rest else []
    | .item _ => []
  | .items rest =>
    match place with
    | .item _ => visitsOf s rest
    | .member _ _ => []
  | .members rest =>
    match place with
    | .member _ _ => visitsOf s rest
    | .item _ => []

namespace Section

/-- The number of ways in which visits at a slot lead to a conversion of the slot of a path below. -/
def ways (s : Section) : List Place → List Visit → Nat
  | [], visits => visits.countP Visit.converts
  | place :: path, visits => s.ways path (visits.flatMap (Visit.below s place))

variable {s : Section}

@[simp] theorem ways_nil (s : Section) (path : List Place) : s.ways path [] = 0 := by
  induction path with
  | nil => rfl
  | cons place path ih => exact ih

theorem ways_append (s : Section) (path : List Place) (visits more : List Visit) :
    s.ways path (visits ++ more) = s.ways path visits + s.ways path more := by
  induction path generalizing visits more with
  | nil => exact List.countP_append
  | cons place path ih => rw [ways, List.flatMap_append, ih, ways, ways]

/-- A way more through one more visit. -/
theorem ways_cons_le (s : Section) (path : List Place) (visit : Visit) (visits : List Visit) :
    s.ways path visits ≤ s.ways path (visit :: visits) := by
  have hsplit := s.ways_append path [visit] visits
  rw [List.singleton_append] at hsplit
  omega

theorem ways_le_of_sublist {visits more : List Visit} (h : visits.Sublist more)
    (path : List Place) : s.ways path visits ≤ s.ways path more := by
  induction h with
  | slnil => exact Nat.le_refl _
  | cons visit _ ih => exact Nat.le_trans ih (s.ways_cons_le path visit _)
  | @cons_cons visits more visit _ ih =>
    have hv := s.ways_append path [visit] visits
    have hm := s.ways_append path [visit] more
    rw [List.singleton_append] at hv hm
    omega

/-- The number of ways in which programs lead to the slot of a path. -/
def programWays (s : Section) (programs : List Program) (path : List Place) : Nat :=
  s.ways path (visitsOfAll s programs)

end Section

/-! ### Runs -/

/-- The number of ways in which a task leads to the slot of a path. -/
def Task.ways (s : Section) : Task → List Place → Nat
  | .program entered p, path => s.ways path (visitsOf (s.less entered) p)
  | .programs entered ps, path => s.ways path (visitsOfAll (s.less entered) ps)
  | .items index rest, .item i :: path => if index ≤ i then s.ways path (visitsOf s rest) else 0
  | .members index rest, .member i _ :: path =>
    if index ≤ i then s.ways path (visitsOf s rest) else 0
  | .items _ _, _ | .members _ _, _ => 0

/-- A name not entered yet is entered with all its programs. -/
theorem visitsOf_ref_less {s : Section} {entered : List String} {name : String} (rest : Program)
    (hn : name ∉ entered) : visitsOf (s.less entered) (.ref name :: rest) =
      visitsOfAll (s.less (name :: entered)) (s.programs name) := by
  have hl : Member.lookup name (s.less entered) = Member.lookup name s := by
    rw [Section.lookup_less, if_neg hn]
  rw [visitsOf]
  split
  · next programs hl' =>
    rw [hl] at hl'
    rw [Section.programs_of_lookup hl', Section.less]
  · next hl' =>
    rw [hl] at hl'
    rw [Section.programs_of_lookup_none hl', visitsOfAll]

section

variable (s : Section) (entered : List String) (rest : Program)

/-- The number of ways to the slot of a path through one place, where a program is run. -/
def Section.waysAt (place : Place) : List Place → Nat
  | [] => 0
  | first :: path => if first = place then s.ways path (visitsOf s rest) else 0

theorem Task.ways_access (name : String) (index : Nat) (path : List Place) :
    s.waysAt rest (.member index name) path ≤
      (Task.program entered (.access name :: rest)).ways s path := by
  cases path with
  | nil => exact Nat.zero_le _
  | cons first path =>
    rw [Section.waysAt]
    split_ifs with hf
    · subst hf
      simp [ways, visitsOf, Section.ways, Visit.below]
    · exact Nat.zero_le _

theorem Task.ways_loop (path : List Place) :
    (Task.program entered (.loop :: rest)).ways s path = (Task.items 0 rest).ways s path := by
  cases path with
  | nil => simp [ways, visitsOf, Section.ways, Visit.converts]
  | cons first path => cases first <;> simp [ways, visitsOf, Section.ways, Visit.below]

theorem Task.ways_entries (path : List Place) :
    (Task.program entered (.entries :: rest)).ways s path = (Task.members 0 rest).ways s path := by
  cases path with
  | nil => simp [ways, visitsOf, Section.ways, Visit.converts]
  | cons first path => cases first <;> simp [ways, visitsOf, Section.ways, Visit.below]

theorem Task.ways_items (index : Nat) (path : List Place) :
    s.waysAt rest (.item index) path + (Task.items (index + 1) rest).ways s path =
      (Task.items index rest).ways s path := by
  rcases path with _ | ⟨_ | _, path⟩
  · rfl
  · simp only [Section.waysAt, ways, Place.item.injEq]
    split_ifs <;> omega
  · rfl

theorem Task.ways_members (index : Nat) (name : String) (path : List Place) :
    s.waysAt rest (.member index name) path + (Task.members (index + 1) rest).ways s path ≤
      (Task.members index rest).ways s path := by
  rcases path with _ | ⟨_ | _, path⟩
  · exact Nat.le_refl _
  · exact Nat.le_refl _
  · simp only [Section.waysAt, ways, Place.member.injEq]
    split_ifs <;> omega

variable {s rest}

/-- What is converted below a place is converted as often as it is on its own. -/
theorem count_map_le {trace : List (List Place)}
    (h : ∀ path, trace.count path ≤ (Task.program [] rest).ways s path) (place : Place)
    (path : List Place) : (trace.map (place :: ·)).count path ≤ s.waysAt rest place path := by
  have hinj : Function.Injective (place :: · : List Place → List Place) := List.cons_injective
  cases path with
  | nil =>
    have hnot : [] ∉ trace.map (place :: ·) := by simp
    rw [List.count_eq_zero.mpr hnot]
    exact Nat.zero_le _
  | cons first path =>
    rw [Section.waysAt]
    split_ifs with hf
    · subst hf
      rw [List.count_map_of_injective _ _ hinj]
      exact h path
    · have hnot : first :: path ∉ trace.map (place :: ·) := by simp [Ne.symm hf]
      rw [List.count_eq_zero.mpr hnot]

end

section

variable {σ : Type} {s : Section} {h : Handler σ}

/-- **No slot is converted more often** than there are ways to it. -/
theorem Executes.count_le {path : List Key} {task : Task} {slot r : σ × Payload}
    {trace : List (List Place)} (hx : Executes s h path task slot trace r) (place : List Place) :
    trace.count place ≤ task.ways s place := by
  induction hx generalizing place with
  | done | absent | notKeyed | notArray | notObject | reentered | nil | noItem | noMember =>
    exact Nat.zero_le _
  | this =>
    rw [Task.ways, visitsOf]
    cases place with
    | nil => simp [Section.ways, Visit.converts]
    | cons first place => simp
  | access _ _ ih => exact Nat.le_trans (count_map_le ih _ place) (Task.ways_access ..)
  | loop _ ih =>
    rw [Task.ways_loop]
    exact ih place
  | entries _ ih =>
    rw [Task.ways_entries]
    exact ih place
  | select _ ih =>
    rw [Task.ways, visitsOf]
    exact ih place
  | ref hn _ ih =>
    rw [Task.ways, visitsOf_ref_less _ hn]
    exact ih place
  | cons _ _ ih ihs =>
    rw [List.count_append, Task.ways, visitsOfAll, Section.ways_append]
    exact Nat.add_le_add (ih place) (ihs place)
  | item _ _ _ ih ihs =>
    rw [List.count_append, ← Task.ways_items]
    exact Nat.add_le_add (count_map_le ih _ place) (ihs place)
  | member _ _ _ ih ihs =>
    rw [List.count_append]
    exact Nat.le_trans (Nat.add_le_add (count_map_le ih _ place) (ihs place)) (Task.ways_members ..)

end

/-! ### Pruning -/

section

variable {live : List String} {s s' : Section}

/-- What is left of a visit goes on below with what is left there. -/
theorem below_prunedVisit (hp : s'.PrunedOf live s) (hc : s.ClosedUnder live) (hs : s.StopsLast)
    (place : Place) {visit : Visit} (hv : stopsLast visit.rest = true) :
    (prunedVisit live visit).toList.flatMap (Visit.below s' place) =
      (visit.below s place).filterMap (prunedVisit live) := by
  -- below the places that a visit goes to, its program is pruned; below others it has no visits
  have hrest := visitsOfAll_pruned hp hc hs visit.rest hv
  cases visit with
  | convert => rfl
  | field name rest =>
    rw [Visit.rest] at hrest
    cases place with
    | item _ => cases hr : pruned live rest <;> simp [prunedVisit, Visit.below, hr]
    | member _ key =>
      by_cases hk : key = name
      · rw [Visit.below, if_pos hk, ← hrest]
        cases hr : pruned live rest <;>
          simp [prunedVisit, Visit.below, hr, hk, visitsOfAll]
      · cases hr : pruned live rest <;> simp [prunedVisit, Visit.below, hr, hk]
  | items rest =>
    rw [Visit.rest] at hrest
    cases place with
    | item _ =>
      rw [Visit.below, ← hrest]
      cases hr : pruned live rest <;> simp [prunedVisit, Visit.below, hr, visitsOfAll]
    | member _ _ => cases hr : pruned live rest <;> simp [prunedVisit, Visit.below, hr]
  | members rest =>
    rw [Visit.rest] at hrest
    cases place with
    | item _ => cases hr : pruned live rest <;> simp [prunedVisit, Visit.below, hr]
    | member _ _ =>
      rw [Visit.below, ← hrest]
      cases hr : pruned live rest <;> simp [prunedVisit, Visit.below, hr, visitsOfAll]

theorem stopsLast_below (hs : s.StopsLast) (place : Place) {visit next : Visit}
    (hv : stopsLast visit.rest = true) (hn : next ∈ visit.below s place) :
    stopsLast next.rest = true := by
  suffices hrest : next ∈ visitsOf s visit.rest from stopsLast_rest hs hv hrest
  cases visit with
  | convert => cases hn
  | field name rest =>
    cases place with
    | item _ => cases hn
    | member _ key =>
      rw [Visit.below] at hn
      split_ifs at hn
      · exact hn
      · cases hn
  | items rest =>
    cases place with
    | item _ => exact hn
    | member _ _ => cases hn
  | members rest =>
    cases place with
    | item _ => cases hn
    | member _ _ => exact hn

/-- Pruning changes no number of ways. -/
theorem Section.ways_pruned (hp : s'.PrunedOf live s) (hc : s.ClosedUnder live) (hs : s.StopsLast) :
    ∀ (path : List Place) {visits : List Visit}, (∀ visit ∈ visits, stopsLast visit.rest = true) →
      s'.ways path (visits.filterMap (prunedVisit live)) = s.ways path visits
  | [], visits, _ => by
    rw [ways, ways, List.countP_filterMap]
    refine List.countP_congr fun visit _ => ?_
    cases visit with
    | convert => simp [prunedVisit, Visit.converts]
    | field _ rest | items rest | members rest =>
      cases hr : pruned live rest <;> simp [prunedVisit, Visit.converts, hr]
  | place :: path, visits, hv => by
    have hbelow : (visits.filterMap (prunedVisit live)).flatMap (Visit.below s' place) =
        (visits.flatMap (Visit.below s place)).filterMap (prunedVisit live) := by
      rw [List.filterMap_flatMap, List.filterMap_eq_flatMap_toList, List.flatMap_assoc]
      exact List.flatMap_congr fun visit h => below_prunedVisit hp hc hs place (hv visit h)
    rw [ways, hbelow, ways]
    refine ways_pruned hp hc hs path fun next hn => ?_
    obtain ⟨visit, hmem, hn⟩ := List.mem_flatMap.mp hn
    exact stopsLast_below hs place (hv visit hmem) hn

/-- So pruned programs over the pruned section lead to a slot in as many ways. -/
theorem Section.programWays_pruned (hp : s'.PrunedOf live s) (hc : s.ClosedUnder live)
    (hs : s.StopsLast) {programs : List Program} (hl : allStopLast programs = true)
    (path : List Place) :
    s'.programWays (prunedAll live programs) path = s.programWays programs path := by
  rw [programWays, programWays, visitsOfAll_prunedAll hp hc hs programs hl]
  refine ways_pruned hp hc hs path fun visit hv => ?_
  obtain ⟨program, hm, hv⟩ := mem_visitsOfAll.mp hv
  exact stopsLast_rest hs (allStopLast_iff.mp hl program hm) hv

end

end ApiDecl
