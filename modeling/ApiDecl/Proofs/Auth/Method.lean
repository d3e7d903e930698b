import ApiDecl.Auth.Method
import ApiDecl.Proofs.Auth.Request

/-!
# Requirements applied

Of several requirements the first is chosen whose schemes all have methods (`Chooses`), and the methods
of the chosen requirement are applied in order.  What methods in a row write, and the state that they
leave, is told by what each of them does in the state that it meets (`AuthMethods.Act`).

If none of them fails, then all of that is written (`AuthMethods.applyAll_eq_ok`).  If one of them fails,
then what those before it wrote stays in the request, and so does what it wrote itself
(`AuthMethods.applyRequirements_error`): nothing is taken back.  A method that asks a provider fails
before it writes (`AuthMethod.Asks.writes_eq_nil`).
-/

namespace ApiDecl

variable {σ : Type}

namespace AuthMethod

variable {method : AuthMethod σ} {state after : σ} {effect : Effect}

/-- The method writes what it makes of a configuration that it asks a provider for. -/
inductive Asks : AuthMethod σ → Prop
  | basic (provider : Option (Provider σ (String × String))) : Asks (.basic provider)
  | bearer (provider : Option (Provider σ String)) : Asks (.bearer provider)
  | apiKey (name : String) (location : KeyLocation) (provider : Option (Provider σ String)) :
      Asks (.apiKey name location provider)

theorem writes_eq_nil_of_provided {α : Type} {provider : Option (Provider σ α)}
    {credentials : α → Write} {error : AuthError} (h : provided provider credentials state = (after, effect))
    (he : effect.result = .error error) : effect.writes = [] := by
  unfold provided at h
  cases provider with
  | none =>
    obtain ⟨-, rfl⟩ := Prod.mk.inj h
    cases he
  | some ask =>
    dsimp only at h
    split at h
    · obtain ⟨-, rfl⟩ := Prod.mk.inj h
      cases he
    · obtain ⟨-, rfl⟩ := Prod.mk.inj h
      rfl

/-- A method that asks a provider fails before it writes. -/
theorem Asks.writes_eq_nil {error : AuthError} (h : method.Asks) (ha : method.act state = (after, effect))
    (he : effect.result = .error error) : effect.writes = [] := by
  cases h with
  | basic provider => exact writes_eq_nil_of_provided ha he
  | bearer provider => exact writes_eq_nil_of_provided ha he
  | apiKey name location provider => exact writes_eq_nil_of_provided ha he

end AuthMethod

/-! ### The requirement chosen -/

/-- The first of the requirements whose schemes are all given is chosen, if there is one. -/
inductive Chooses (given : String → Prop) : List (List String) → Option (List String) → Prop
  | nothing : Chooses given [] none
  | first {schemes : List String} {rest : List (List String)} :
      (∀ scheme ∈ schemes, given scheme) → Chooses given (schemes :: rest) (some schemes)
  | later {schemes : List String} {rest : List (List String)} {chosen : Option (List String)} :
      (∃ scheme ∈ schemes, ¬ given scheme) → Chooses given rest chosen →
        Chooses given (schemes :: rest) chosen

theorem chooses_find? {given : String → Prop} {contains : String → Bool}
    (h : ∀ scheme, contains scheme = true ↔ given scheme) : ∀ requirements : List (List String),
    Chooses given requirements (requirements.find? fun schemes => schemes.all contains)
  | [] => .nothing
  | schemes :: rest => by
    rw [List.find?_cons]
    cases hall : schemes.all contains with
    | true => exact .first fun scheme hs => (h scheme).mp (List.all_eq_true.mp hall scheme hs)
    | false =>
      obtain ⟨scheme, hs, hn⟩ := List.all_eq_false.mp hall
      exact .later ⟨scheme, hs, fun hg => hn ((h scheme).mpr hg)⟩ (chooses_find? h rest)

theorem Chooses.given_of_mem {given : String → Prop} {requirements : List (List String)}
    {schemes : List String} (h : Chooses given requirements (some schemes)) :
    ∀ scheme ∈ schemes, given scheme := by
  generalize hc : some schemes = chosen at h
  induction h with
  | nothing => cases hc
  | first hg =>
    obtain rfl := Option.some.inj hc
    exact hg
  | later _ _ ih => exact ih hc

/-! ### Methods in a row -/

namespace AuthMethods

variable {m : AuthMethods σ} {scheme : String} {schemes : List String} {state after : σ}
  {r r' : Request} {writes : List Write} {error : AuthError}

/-- The methods of schemes act one after the other, and none of them fails: what they write, and the
state that they leave. -/
inductive Act (m : AuthMethods σ) : List String → σ → List Write → σ → Prop
  | nil {state : σ} : Act m [] state [] state
  | cons {scheme : String} {rest : List String} {method : AuthMethod σ} {state between after : σ}
      {given more : List Write} : m.get? scheme = some method →
      method.act state = (between, ⟨given, .ok ()⟩) → Act m rest between more after →
        Act m (scheme :: rest) state (given ++ more) after

theorem contains_iff : m.contains scheme = true ↔ ∃ method, m.get? scheme = some method := by
  rw [contains, Member.has, Option.isSome_iff_exists, get?]

theorem apply_eq {method : AuthMethod σ} {effect : Effect} (hm : m.get? scheme = some method)
    (h : method.act state = (after, effect)) (r : Request) :
    m.apply scheme state r = (after, r.writeAll effect.writes, effect.result) := by
  rw [apply, hm]
  dsimp only
  rw [AuthMethod.apply, h]

/-- Methods that do not fail are all applied. -/
theorem applyAll_eq_ok (h : m.Act schemes state writes after) (r : Request) :
    m.applyAll schemes state r = (after, r.writeAll writes, .ok ()) := by
  induction h generalizing r with
  | nil => rfl
  | cons hm ha _ ih =>
    rw [applyAll, apply_eq hm ha]
    exact (ih _).trans (by rw [Request.writeAll_append])

/-- Methods in a row fail where the first of them does. -/
theorem exists_of_applyAll_eq_error : ∀ {schemes : List String} {state : σ} {r : Request},
    (∀ scheme ∈ schemes, m.contains scheme = true) →
      m.applyAll schemes state r = (after, r', .error error) →
      ∃ before failed behind writes between method own, schemes = before ++ failed :: behind ∧
        m.Act before state writes between ∧ m.get? failed = some method ∧
        method.act between = (after, ⟨own, .error error⟩) ∧ r' = r.writeAll (writes ++ own)
  | [], _, _, _, h => by cases h
  | scheme :: rest, state, r, hall, h => by
    obtain ⟨hs, hrest⟩ := List.forall_mem_cons.mp hall
    obtain ⟨method, hm⟩ := contains_iff.mp hs
    rcases ha : method.act state with ⟨between, given, result⟩
    rw [applyAll, apply_eq hm ha] at h
    cases result with
    | error failure =>
      simp only [Prod.mk.injEq, Except.error.injEq] at h
      obtain ⟨rfl, rfl, rfl⟩ := h
      exact ⟨[], scheme, rest, [], state, method, given, rfl, .nil, hm, ha, rfl⟩
    | ok _ =>
      obtain ⟨before, failed, behind, writes, last, method', own, rfl, hbefore, hfailed⟩ :=
        exists_of_applyAll_eq_error hrest h
      refine ⟨scheme :: before, failed, behind, given ++ writes, last, method', own, rfl,
        .cons hm ha hbefore, hfailed.1, hfailed.2.1, ?_⟩
      rw [hfailed.2.2, List.append_assoc, Request.writeAll_append r given]

/-- Of the requirements the chosen one is applied. -/
theorem exists_applyRequirements_eq {given : String → Prop}
    (h : ∀ scheme, m.contains scheme = true ↔ given scheme) (requirements : List (List String))
    (state : σ) (r : Request) : ∃ chosen, Chooses given requirements chosen ∧
      m.applyRequirements requirements state r = m.applyAll (chosen.getD []) state r := by
  refine ⟨_, chooses_find? h requirements, ?_⟩
  rw [applyRequirements]
  cases requirements.find? fun schemes => schemes.all m.contains <;> rfl

/-- **A failure** is that of the method of some scheme of the chosen requirement.  It leaves in the request
what the methods before it wrote and what it wrote itself, in order, and nothing else; a method that asks a
provider wrote nothing.  If nothing was written, the request is as it was. -/
theorem applyRequirements_error {requirements : List (List String)}
    (h : m.applyRequirements requirements state r = (after, r', .error error)) :
    ∃ before failed behind writes between method own,
      Chooses (fun scheme => m.contains scheme = true) requirements
        (some (before ++ failed :: behind)) ∧
      m.Act before state writes between ∧ m.get? failed = some method ∧
      method.act between = (after, ⟨own, .error error⟩) ∧ (method.Asks → own = []) ∧
      Request.Takes (writes ++ own) r r' ∧ (writes = [] → own = [] → r' = r) := by
  obtain ⟨chosen, hc, happly⟩ := exists_applyRequirements_eq (fun _ => Iff.rfl) requirements state r
  rw [happly] at h
  cases chosen with
  | none => cases h
  | some schemes =>
    obtain ⟨before, failed, behind, writes, between, method, own, rfl, hbefore, hm, ha, rfl⟩ :=
      exists_of_applyAll_eq_error hc.given_of_mem h
    refine ⟨before, failed, behind, writes, between, method, own, hc, hbefore, hm, ha,
      fun hasks => hasks.writes_eq_nil ha rfl, r.takes_writeAll _, ?_⟩
    rintro rfl rfl
    rfl

/-! ### Credentials written before a failure -/

/-- A provider that gives a token the first time, and fails when it is asked again. -/
def onceProvider : Provider Bool String := fun asked =>
  if asked then (true, .error (.provider "vault sealed")) else (true, .ok "t")

/-- A key for a header, a token that is given once, and a method that signs a request and then fails. -/
def sealedMethods : AuthMethods Bool :=
  [("key", .apiKey "X-Key" .header (some (.fixed "k"))), ("token", .bearer (some onceProvider)),
    ("signature", ⟨"Signature", fun asked =>
      (asked, ⟨[⟨.query, "signature", "s"⟩], .error (.provider "clock skewed")⟩)⟩)]

/-- The key stays in the request although the token fails. -/
theorem applyRequirements_sealed :
    sealedMethods.applyRequirements [["key", "token"]] true .empty =
      (true, ⟨[("X-Key", "k")], [], []⟩, .error (.provider "vault sealed")) ∧
    (⟨[("X-Key", "k")], [], []⟩ : Request) ≠ .empty :=
  ⟨by rfl, by decide⟩

/-- What was written before the signature stays, and the signature, too. -/
theorem applyRequirements_error_sealed :
    sealedMethods.applyRequirements [["other"], ["key", "token", "signature"]] false .empty =
      (true, ⟨[("X-Key", "k"), ("Authorization", "Bearer t")], [("signature", "s")], []⟩,
        .error (.provider "clock skewed")) ∧
    ∃ before failed behind writes between method own,
      Chooses (fun scheme => sealedMethods.contains scheme = true)
        [["other"], ["key", "token", "signature"]] (some (before ++ failed :: behind)) ∧
      sealedMethods.Act before false writes between ∧ sealedMethods.get? failed = some method ∧
      method.act between = (true, ⟨own, .error (.provider "clock skewed")⟩) ∧
      (method.Asks → own = []) ∧
      Request.Takes (writes ++ own) .empty
        ⟨[("X-Key", "k"), ("Authorization", "Bearer t")], [("signature", "s")], []⟩ ∧
      (writes = [] → own = [] →
        (⟨[("X-Key", "k"), ("Authorization", "Bearer t")], [("signature", "s")], []⟩ : Request) =
          .empty) :=
  ⟨by rfl, applyRequirements_error (by rfl)⟩

end AuthMethods

end ApiDecl
