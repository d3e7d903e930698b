import ApiDecl.Draft
import Mathlib.Data.List.Forall2

/-!
# What drafts yield

`Yields P` says of a draft that a value came out and that everything mentioned on the way has a
property.  A draft made of others yields what its parts yield: there is one equivalence for each
way of making one (`yields_pure`, `yields_bind`, `yields_map`, `yields_all`, and so on), so a draft
can be taken apart without being run.

`Only P` says of a draft, whether a value or an error came out, that everything mentioned on the way
has a property; it has the same kind of equivalences.

Two drafts are the `Same` if they mention the same and the same value comes out, or an error of
both.  This is a `Congruence`: it goes along the ways of making drafts.  They are the `SameUpTo` a
function if their errors are the same as well, and their values under the function.
-/

namespace ApiDecl

/-- A result that goes on is good if both of its parts are. -/
theorem bind_eq_ok {ε α β : Type} {result : Except ε α} {next : α → Except ε β} {b : β} :
    result >>= next = .ok b ↔ ∃ a, result = .ok a ∧ next a = .ok b := by
  cases result with
  | error error =>
    constructor
    · intro h
      cases h
    · rintro ⟨_, h, -⟩
      cases h
  | ok a =>
    constructor
    · exact fun h => ⟨a, rfl, h⟩
    · rintro ⟨_, ha, h⟩
      exact Except.ok.inj ha ▸ h

/-- Results that go on are the same under a function if they go on from what is the same under
another. -/
theorem map_bind_congr {ε α β γ δ : Type} {f : α → γ} {g : β → δ} {result result' : Except ε α}
    {next next' : α → Except ε β} (h : result.map f = result'.map f)
    (hnext : ∀ a a', f a = f a' → (next a).map g = (next' a').map g) :
    (result >>= next).map g = (result' >>= next').map g := by
  cases result with
  | error error =>
    cases result' with
    | error error' =>
      obtain rfl : error = error' := Except.error.inj h
      rfl
    | ok a' => cases h
  | ok a =>
    cases result' with
    | error error' => cases h
    | ok a' => exact hnext a a' (Except.ok.inj h)

/-! ### Lists in parallel -/

section Parallel

variable {α β : Type} {R : α → β → Prop}

theorem exists_of_forall₂_left : ∀ {l : List α} {l' : List β}, List.Forall₂ R l l' → ∀ {x}, x ∈ l →
    ∃ y ∈ l', R x y
  | _, _, .cons h t, x, hx => by
    rcases List.mem_cons.mp hx with rfl | hx
    · exact ⟨_, List.mem_cons_self, h⟩
    · obtain ⟨y, hy, hR⟩ := exists_of_forall₂_left t hx
      exact ⟨y, List.mem_cons_of_mem _ hy, hR⟩

theorem exists_of_forall₂_right {l : List α} {l' : List β} (h : List.Forall₂ R l l') {y : β}
    (hy : y ∈ l') : ∃ x ∈ l, R x y :=
  exists_of_forall₂_left h.flip hy

theorem forall₂_imp_of_mem {S : α → β → Prop} : ∀ {l : List α} {l' : List β}, List.Forall₂ R l l' →
    (∀ x ∈ l, ∀ y, R x y → S x y) → List.Forall₂ S l l'
  | _, _, .nil, _ => .nil
  | _, _, .cons h t, himp =>
    .cons (himp _ List.mem_cons_self _ h)
      (forall₂_imp_of_mem t fun x hx => himp x (List.mem_cons_of_mem _ hx))

theorem forall₂_getElem? : ∀ {l : List α} {l' : List β}, List.Forall₂ R l l' → ∀ {i : Nat} {x y},
    l[i]? = some x → l'[i]? = some y → R x y
  | _, _, .cons h _, 0, x, y, hx, hy => by
    obtain rfl := Option.some.inj hx
    obtain rfl := Option.some.inj hy
    exact h
  | _, _, .cons _ t, i + 1, x, y, hx, hy => forall₂_getElem? t (i := i) hx hy

/-- What agrees on related elements agrees on the lists. -/
theorem map_eq_map_of_forall₂ {γ : Type} {f : α → γ} {g : β → γ} (hR : ∀ x y, R x y → g y = f x) :
    ∀ {l : List α} {l' : List β}, List.Forall₂ R l l' → l'.map g = l.map f
  | _, _, .nil => rfl
  | _, _, .cons h t => by
    rw [List.map_cons, List.map_cons, hR _ _ h, map_eq_map_of_forall₂ hR t]

theorem forall₂_of_mapM_eq_some {f : α → Option β} :
    ∀ {l : List α} {l' : List β}, l.mapM f = some l' →
      List.Forall₂ (fun x y => f x = some y) l l'
  | [], l', h => by
    rw [List.mapM_nil] at h
    exact Option.some.inj h ▸ .nil
  | x :: l, l', h => by
    rw [List.mapM_cons] at h
    obtain ⟨y, hy, h⟩ := Option.bind_eq_some_iff.mp h
    obtain ⟨ys, hys, h⟩ := Option.bind_eq_some_iff.mp h
    exact Option.some.inj h ▸ .cons hy (forall₂_of_mapM_eq_some hys)

end Parallel

/-! ### Drafts -/

namespace Draft

variable {α β : Type} {P Q : Mention → Prop}

/-- A function of what comes out leaves the mentions alone. -/
theorem map_eq (draft : Draft α) (f : α → β) :
    f <$> draft = ⟨draft.mentions, draft.result.map f⟩ := by
  change (draft.bind fun a => Draft.pure (f a)) = _
  cases hr : draft.result with
  | error error => rw [bind_error hr]; rfl
  | ok a =>
    rw [bind_ok hr]
    simp [Draft.pure, Except.map]

/-- The value came out, and every mention has the property. -/
def Yields (P : Mention → Prop) (draft : Draft α) (value : α) : Prop :=
  draft.result = .ok value ∧ ∀ m ∈ draft.mentions, P m

theorem Yields.imp (hPQ : ∀ m, P m → Q m) {draft : Draft α} {value : α} (h : draft.Yields P value) :
    draft.Yields Q value :=
  ⟨h.1, fun m hm => hPQ m (h.2 m hm)⟩

@[simp] theorem yields_pure {a b : α} : (pure a : Draft α).Yields P b ↔ a = b :=
  ⟨fun h => Except.ok.inj h.1, fun h => h ▸ ⟨rfl, fun _ hm => absurd hm List.not_mem_nil⟩⟩

@[simp] theorem not_yields_fail {error : Error} {value : α} :
    ¬ (fail error : Draft α).Yields P value := by
  rintro ⟨h, -⟩
  cases h

@[simp] theorem yields_ofExcept {result : Except Error α} {value : α} :
    (ofExcept result).Yields P value ↔ result = .ok value :=
  ⟨And.left, fun h => ⟨h, fun _ hm => absurd hm List.not_mem_nil⟩⟩

@[simp] theorem yields_mention {m : Mention} {value : Unit} : (mention m).Yields P value ↔ P m :=
  ⟨fun h => h.2 m (List.mem_singleton.mpr rfl),
    fun h => ⟨rfl, fun _ hm => List.mem_singleton.mp hm ▸ h⟩⟩

/-- **A draft that goes on** yields what its second part yields, given what the first yields. -/
@[simp] theorem yields_bind {draft : Draft α} {next : α → Draft β} {b : β} :
    (draft >>= next).Yields P b ↔ ∃ a, draft.Yields P a ∧ (next a).Yields P b := by
  change (draft.bind next).Yields P b ↔ _
  cases hr : draft.result with
  | error error =>
    rw [bind_error hr]
    constructor
    · rintro ⟨h, -⟩
      cases h
    · rintro ⟨a, ha, -⟩
      rw [ha.1] at hr
      cases hr
  | ok a =>
    rw [bind_ok hr]
    constructor
    · rintro ⟨h, hm⟩
      exact ⟨a, ⟨hr, fun m h => hm m (List.mem_append_left _ h)⟩,
        ⟨h, fun m h => hm m (List.mem_append_right _ h)⟩⟩
    · rintro ⟨a', ⟨ha, hm⟩, h, hm'⟩
      rw [hr] at ha
      cases ha
      refine ⟨h, fun m hmem => ?_⟩
      rcases List.mem_append.mp hmem with hmem | hmem
      · exact hm m hmem
      · exact hm' m hmem

@[simp] theorem yields_map {draft : Draft α} {f : α → β} {b : β} :
    (f <$> draft).Yields P b ↔ ∃ a, draft.Yields P a ∧ f a = b := by
  change (draft >>= fun a => pure (f a)).Yields P b ↔ _
  simp only [yields_bind, yields_pure]

/-- Drafts in a row yield what each of them yields. -/
theorem yields_all : ∀ {drafts : List (Draft α)} {values : List α},
    (all drafts).Yields P values ↔ List.Forall₂ (Yields P) drafts values
  | [], values => by
    rw [all, yields_pure, List.forall₂_nil_left_iff, eq_comm]
  | draft :: rest, values => by
    simp only [all, yields_bind, yields_pure, yields_all]
    constructor
    · rintro ⟨value, hv, values', hvs, rfl⟩
      exact .cons hv hvs
    · intro h
      cases h with
      | cons hv hvs => exact ⟨_, hv, _, hvs, rfl⟩

theorem exists_yields_all : ∀ {drafts : List (Draft α)},
    (∀ draft ∈ drafts, ∃ value, draft.Yields P value) → ∃ values, (all drafts).Yields P values
  | [], _ => ⟨[], yields_pure.mpr rfl⟩
  | draft :: rest, h => by
    rw [List.forall_mem_cons] at h
    obtain ⟨value, hv⟩ := h.1
    obtain ⟨values, hvs⟩ := exists_yields_all h.2
    exact ⟨value :: values, yields_all.mpr (.cons hv (yields_all.mp hvs))⟩

/-! ### Mentions, whatever comes out -/

/-- Every mention has the property. -/
def Only (P : Mention → Prop) (draft : Draft α) : Prop := ∀ m ∈ draft.mentions, P m

@[simp] theorem only_pure {a : α} : (pure a : Draft α).Only P :=
  fun _ hm => absurd hm List.not_mem_nil

@[simp] theorem only_fail {error : Error} : (fail error : Draft α).Only P :=
  fun _ hm => absurd hm List.not_mem_nil

@[simp] theorem only_ofExcept {result : Except Error α} : (ofExcept result).Only P :=
  fun _ hm => absurd hm List.not_mem_nil

@[simp] theorem only_mention {m : Mention} : (mention m).Only P ↔ P m := List.forall_mem_singleton

/-- **A draft that goes on** mentions what its first part does, and what the second does if the
first comes to a value. -/
@[simp] theorem only_bind {draft : Draft α} {next : α → Draft β} : (draft >>= next).Only P ↔
    draft.Only P ∧ ∀ a, draft.result = .ok a → (next a).Only P := by
  change (draft.bind next).Only P ↔ _
  cases hr : draft.result with
  | error error =>
    rw [bind_error hr]
    exact ⟨fun h => ⟨h, fun _ ha => by cases ha⟩, And.left⟩
  | ok a =>
    rw [bind_ok hr]
    constructor
    · refine fun h => ⟨fun m hm => h m (List.mem_append_left _ hm), ?_⟩
      rintro _ ⟨⟩ m hm
      exact h m (List.mem_append_right _ hm)
    · rintro ⟨hd, hn⟩ m hm
      rcases List.mem_append.mp hm with hm | hm
      · exact hd m hm
      · exact hn a rfl m hm

@[simp] theorem only_map {draft : Draft α} {f : α → β} : (f <$> draft).Only P ↔ draft.Only P := by
  rw [map_eq]; rfl

theorem only_all : ∀ {drafts : List (Draft α)}, (∀ draft ∈ drafts, draft.Only P) →
    (all drafts).Only P
  | [], _ => only_pure
  | draft :: rest, h => by
    rw [List.forall_mem_cons] at h
    rw [all, only_bind]
    refine ⟨h.1, fun _ _ => ?_⟩
    rw [only_bind]
    exact ⟨only_all h.2, fun _ _ => only_pure⟩

/-! ### Drafts beside drafts -/

/-- A relation of drafts that goes along the ways of making them. -/
structure Congruence (R : ∀ ⦃α : Type⦄, Draft α → Draft α → Prop) : Prop where
  pure : ∀ {α : Type} (a : α), R (Pure.pure a) (Pure.pure a)
  fail : ∀ {α : Type} (error error' : Error), R (fail error : Draft α) (fail error')
  bind : ∀ {α β : Type} {draft draft' : Draft α} {next next' : α → Draft β}, R draft draft' →
    (∀ a, R (next a) (next' a)) → R (draft >>= next) (draft' >>= next')

namespace Congruence

variable {R : ∀ ⦃α : Type⦄, Draft α → Draft α → Prop} (hR : Congruence R)
include hR

theorem map {draft draft' : Draft α} (h : R draft draft') (f : α → β) :
    R (f <$> draft) (f <$> draft') :=
  hR.bind h fun a => hR.pure (f a)

theorem all : ∀ {drafts drafts' : List (Draft α)}, List.Forall₂ (R (α := α)) drafts drafts' →
    R (Draft.all drafts) (Draft.all drafts')
  | _, _, .nil => hR.pure []
  | _, _, .cons h rest => hR.bind h fun _ => hR.bind (all rest) fun _ => hR.pure _

end Congruence

/-- What counts of a draft is the same. -/
def Same (draft draft' : Draft α) : Prop :=
  draft.mentions = draft'.mentions ∧ ∀ a, draft.result = .ok a ↔ draft'.result = .ok a

theorem Same.refl (draft : Draft α) : draft.Same draft := ⟨rfl, fun _ => Iff.rfl⟩

theorem congruence_same : Congruence @Same where
  pure _ := Same.refl _
  fail error error' := by
    refine ⟨rfl, fun a => ⟨fun h => ?_, fun h => ?_⟩⟩ <;> cases h
  bind := by
    rintro α β draft draft' next next' ⟨hm, hr⟩ hnext
    change (draft.bind next).Same (draft'.bind next')
    cases hd : draft.result with
    | ok a =>
      obtain ⟨hmentions, hresult⟩ := hnext a
      rw [bind_ok hd, bind_ok ((hr a).mp hd)]
      exact ⟨by rw [hm, hmentions], hresult⟩
    | error error =>
      cases hd' : draft'.result with
      | ok a =>
        rw [(hr a).mpr hd'] at hd
        cases hd
      | error error' =>
        rw [bind_error hd, bind_error hd']
        refine ⟨hm, fun a => ⟨fun h => ?_, fun h => ?_⟩⟩ <;> cases h

theorem congruence_only (P : Mention → Prop) :
    Congruence fun α (draft _ : Draft α) => draft.Only P where
  pure _ := only_pure
  fail _ _ := only_fail
  bind h hnext := only_bind.mpr ⟨h, fun a _ => hnext a⟩

/-! ### Drafts that differ in part of their values -/

section UpTo

variable {γ δ : Type} {f : α → γ} {g : β → δ} {draft draft' : Draft α}

/-- The drafts mention the same, and come to the same error or to values that a function maps to the
same. -/
def SameUpTo (f : α → γ) (draft draft' : Draft α) : Prop :=
  draft.mentions = draft'.mentions ∧ draft.result.map f = draft'.result.map f

theorem SameUpTo.refl (f : α → γ) (draft : Draft α) : draft.SameUpTo f draft := ⟨rfl, rfl⟩

theorem sameUpTo_pure {a a' : α} (h : f a = f a') :
    (pure a : Draft α).SameUpTo f (pure a') :=
  ⟨rfl, congrArg Except.ok h⟩

/-- **Drafts that go on** are the same as far as what they go on with. -/
theorem SameUpTo.bind (h : draft.SameUpTo f draft') {next next' : α → Draft β}
    (hnext : ∀ a a', f a = f a' → (next a).SameUpTo g (next' a')) :
    (draft >>= next).SameUpTo g (draft' >>= next') := by
  obtain ⟨hm, hr⟩ := h
  change (draft.bind next).SameUpTo g (draft'.bind next')
  cases hd : draft.result with
  | error error =>
    cases hd' : draft'.result with
    | error error' =>
      rw [hd, hd'] at hr
      cases hr
      rw [bind_error hd, bind_error hd']
      exact ⟨hm, rfl⟩
    | ok a' =>
      rw [hd, hd'] at hr
      cases hr
  | ok a =>
    cases hd' : draft'.result with
    | error error' =>
      rw [hd, hd'] at hr
      cases hr
    | ok a' =>
      rw [hd, hd'] at hr
      obtain ⟨hmentions, hresult⟩ := hnext a a' (Except.ok.inj hr)
      rw [bind_ok hd, bind_ok hd']
      exact ⟨by rw [hm, hmentions], hresult⟩

/-- What both go on from may be the same altogether. -/
theorem sameUpTo_bind_self {next next' : α → Draft β} (h : ∀ a, (next a).SameUpTo g (next' a)) :
    (draft >>= next).SameUpTo g (draft >>= next') :=
  (SameUpTo.refl id draft).bind fun a a' ha => by
    obtain rfl : a = a' := ha
    exact h a

theorem SameUpTo.map (h : draft.SameUpTo f draft') {next next' : α → β}
    (hnext : ∀ a a', f a = f a' → g (next a) = g (next' a')) :
    (next <$> draft).SameUpTo g (next' <$> draft') :=
  h.bind fun a a' ha => sameUpTo_pure (hnext a a' ha)

theorem sameUpTo_all : ∀ {drafts drafts' : List (Draft α)}, List.Forall₂ (SameUpTo f) drafts drafts' →
    (all drafts).SameUpTo (List.map f) (all drafts')
  | _, _, .nil => SameUpTo.refl _ _
  | _, _, .cons h rest =>
    h.bind fun a a' ha => (sameUpTo_all rest).bind fun as as' has =>
      sameUpTo_pure (by rw [List.map_cons, List.map_cons, ha, has])

end UpTo

end Draft

end ApiDecl
