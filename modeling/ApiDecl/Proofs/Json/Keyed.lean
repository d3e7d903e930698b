import ApiDecl.Json.Reader
import ApiDecl.Proofs.Json.Member

/-!
# Objects with distinct names

An object that is read from text has distinct member names, and so has every object inside it
(`Json.Keyed`, `Json.keyed_of_parse`): a member whose name is there already is written in its place.
The scanner makes tokens of values without members only (`keyed_of_scan`), and each token keeps what
the open containers hold so far keyed (`Reading.Keyed`).
-/

namespace ApiDecl

/-- The members of every object in the value have distinct names. -/
inductive Json.Keyed : Json → Prop
  | null : Keyed .null
  | bool (value : Bool) : Keyed (.bool value)
  | number (value : Number) : Keyed (.number value)
  | string (value : String) : Keyed (.string value)
  | array {items : List Json} : (∀ item ∈ items, Keyed item) → Keyed (.array items)
  | object {members : List (String × Json)} : (members.map Prod.fst).Nodup →
      (∀ member ∈ members, Keyed member.2) → Keyed (.object members)

/-- Members with distinct names and such values. -/
structure KeyedMembers (members : List (String × Json)) : Prop where
  nodup : (members.map Prod.fst).Nodup
  values : ∀ member ∈ members, member.2.Keyed

theorem KeyedMembers.nil : KeyedMembers [] :=
  ⟨List.nodup_nil, fun _ h => absurd h List.not_mem_nil⟩

theorem KeyedMembers.keyed {members : List (String × Json)} (h : KeyedMembers members) :
    (Json.object members).Keyed :=
  .object h.nodup h.values

/-- Members stay keyed when one is written. -/
theorem KeyedMembers.put {members : List (String × Json)} (h : KeyedMembers members) (name : String)
    {value : Json} (hv : value.Keyed) : KeyedMembers (Member.put name value members) := by
  refine ⟨Member.nodup_put h.nodup name value, fun member hm => ?_⟩
  rcases Member.entry_of_mem_put hm with he | hm
  · rwa [he]
  · exact h.values member hm

/-- What each step keeps holds when all have been taken. -/
theorem foldlM_keeps {σ α : Type} {step : σ → α → Option σ} {I : σ → Prop} :
    ∀ {l : List α} {s s' : σ}, (∀ s a s', a ∈ l → I s → step s a = some s' → I s') → I s →
      l.foldlM step s = some s' → I s'
  | [], s, s', _, hs, h => by
    obtain rfl := Option.some.inj h
    exact hs
  | a :: l, s, s', hstep, hs, h => by
    obtain ⟨middle, hm, h⟩ := Option.bind_eq_some_iff.mp h
    exact foldlM_keeps (fun s b s' hb => hstep s b s' (List.mem_cons_of_mem _ hb))
      (hstep s a middle List.mem_cons_self hs hm) h

/-! ### Tokens -/

/-- The value of a token is keyed, if it has one. -/
def Token.Keyed : Token → Prop
  | .scalar value => value.Keyed
  | _ => True

section Scan

variable {tokens tokens' : List Token} {c : Char} {scan scan' : Scan}

theorem Scan.keyed_of_start (h : ∀ t ∈ tokens, t.Keyed)
    (hs : Scan.start tokens c = some (scan, tokens')) : ∀ t ∈ tokens', t.Keyed := by
  revert hs
  unfold Scan.start
  repeat'
    refine iteInduction (motive := fun found => found = some (scan, tokens') →
      ∀ t ∈ tokens', t.Keyed) (fun _ => ?_) (fun _ => ?_)
  all_goals
    intro hs
    cases hs
  all_goals
    first
    | exact h
    | exact List.forall_mem_cons.mpr ⟨trivial, h⟩

theorem Scan.keyed_of_close (h : ∀ t ∈ tokens, t.Keyed) (hs : scan.close tokens = some tokens') :
    ∀ t ∈ tokens', t.Keyed := by
  cases scan with
  | between =>
    obtain rfl := Option.some.inj hs
    exact h
  | numeral done =>
    obtain ⟨value, -, rfl⟩ := Option.map_eq_some_iff.mp hs
    exact List.forall_mem_cons.mpr ⟨.number value, h⟩
  | word done =>
    obtain ⟨t, ht, rfl⟩ := Option.map_eq_some_iff.mp hs
    refine List.forall_mem_cons.mpr ⟨?_, h⟩
    unfold wordToken at ht
    split_ifs at ht
    · obtain rfl := Option.some.inj ht
      exact .null
    · obtain rfl := Option.some.inj ht
      exact .bool true
    · obtain rfl := Option.some.inj ht
      exact .bool false
  | _ => cases hs

theorem Scan.keyed_of_step (h : ∀ t ∈ tokens, t.Keyed)
    (hs : Scan.step (scan, tokens) c = some (scan', tokens')) : ∀ t ∈ tokens', t.Keyed := by
  cases scan with
  | between => exact keyed_of_start h hs
  | text done =>
    simp only [step] at hs
    split_ifs at hs
    · cases hs
      exact List.forall_mem_cons.mpr ⟨.string _, h⟩
    · cases hs; exact h
    · cases hs; exact h
  | escape done =>
    simp only [step] at hs
    split_ifs at hs
    · cases hs; exact h
    · obtain ⟨value, -, he⟩ := Option.map_eq_some_iff.mp hs
      cases he; exact h
  | unit done first count value =>
    obtain ⟨digit, -, hs⟩ := Option.bind_eq_some_iff.mp hs
    dsimp only at hs
    split_ifs at hs
    · obtain ⟨next, -, he⟩ := Option.map_eq_some_iff.mp hs
      cases he; exact h
    · cases hs; exact h
  | pairBackslash done first =>
    simp only [step] at hs
    split_ifs at hs
    cases hs; exact h
  | pairMark done first =>
    simp only [step] at hs
    split_ifs at hs
    cases hs; exact h
  | numeral done =>
    simp only [step] at hs
    split_ifs at hs
    · cases hs; exact h
    · obtain ⟨closed, hc, hs⟩ := Option.bind_eq_some_iff.mp hs
      exact keyed_of_start (keyed_of_close h hc) hs
  | word done =>
    simp only [step] at hs
    split_ifs at hs
    · cases hs; exact h
    · obtain ⟨closed, hc, hs⟩ := Option.bind_eq_some_iff.mp hs
      exact keyed_of_start (keyed_of_close h hc) hs

end Scan

theorem keyed_of_scan {text : String} {tokens : List Token} (h : Token.scan text = some tokens) :
    ∀ t ∈ tokens, t.Keyed := by
  obtain ⟨⟨last, found⟩, hf, h⟩ := Option.bind_eq_some_iff.mp h
  obtain ⟨closed, hc, h⟩ := Option.bind_eq_some_iff.mp h
  obtain rfl := Option.some.inj h
  have hfound : ∀ t ∈ found, t.Keyed :=
    foldlM_keeps (I := fun s : Scan × List Token => ∀ t ∈ s.2, t.Keyed)
      (fun _ _ _ _ hs hstep => Scan.keyed_of_step hs hstep) (fun _ h => absurd h List.not_mem_nil) hf
  exact fun t ht => Scan.keyed_of_close hfound hc t (List.mem_reverse.mp ht)

/-! ### Values -/

/-- What the container holds so far is keyed. -/
def Frame.Keyed : Frame → Prop
  | .array done => ∀ item ∈ done, item.Keyed
  | .object done _ => KeyedMembers done

/-- So is what all open containers hold, and the value if it is complete. -/
def Reading.Keyed : Reading → Prop
  | .awaitValue frames | .firstItem frames | .firstName frames => ∀ frame ∈ frames, frame.Keyed
  | .awaitName done frames | .afterMember done frames =>
    KeyedMembers done ∧ ∀ frame ∈ frames, frame.Keyed
  | .awaitColon done _ frames => KeyedMembers done ∧ ∀ frame ∈ frames, frame.Keyed
  | .afterItem done frames => (∀ item ∈ done, item.Keyed) ∧ ∀ frame ∈ frames, frame.Keyed
  | .finished value => value.Keyed

namespace Reading

variable {value : Json} {frames : List Frame} {reading reading' : Reading} {token : Token}

theorem keyed_give (hv : value.Keyed) (h : ∀ frame ∈ frames, frame.Keyed) :
    (give value frames).Keyed := by
  cases frames with
  | nil => exact hv
  | cons frame rest =>
    rw [List.forall_mem_cons] at h
    cases frame with
    | array done => exact ⟨List.forall_mem_cons.mpr ⟨hv, h.1⟩, h.2⟩
    | object done name => exact ⟨KeyedMembers.put h.1 name hv, h.2⟩

theorem keyed_of_start (ht : token.Keyed) (h : ∀ frame ∈ frames, frame.Keyed)
    (hs : start frames token = some reading) : reading.Keyed := by
  cases token with
  | scalar value =>
    obtain rfl := Option.some.inj hs
    exact keyed_give ht h
  | openArray | openObject =>
    simp only [start] at hs
    split_ifs at hs
    obtain rfl := Option.some.inj hs
    exact h
  | _ => cases hs

/-- **One token further**, what is held is still keyed. -/
theorem keyed_of_step (ht : token.Keyed) (h : reading.Keyed)
    (hs : reading.step token = some reading') : reading'.Keyed := by
  cases reading with
  | awaitValue frames => exact keyed_of_start ht h hs
  | firstItem frames =>
    have hopen : ∀ frame ∈ Frame.array [] :: frames, frame.Keyed :=
      List.forall_mem_cons.mpr ⟨fun _ hm => absurd hm List.not_mem_nil, h⟩
    cases token with
    | closeArray =>
      obtain rfl := Option.some.inj hs
      exact keyed_give (.array fun _ hm => absurd hm List.not_mem_nil) h
    | _ => exact keyed_of_start ht hopen hs
  | firstName frames =>
    cases token with
    | closeObject =>
      obtain rfl := Option.some.inj hs
      exact keyed_give KeyedMembers.nil.keyed h
    | scalar value =>
      cases value with
      | string key =>
        obtain rfl := Option.some.inj hs
        exact ⟨.nil, h⟩
      | _ => cases hs
    | _ => cases hs
  | awaitName done frames =>
    cases token with
    | scalar value =>
      cases value with
      | string key =>
        obtain rfl := Option.some.inj hs
        exact h
      | _ => cases hs
    | _ => cases hs
  | awaitColon done key frames =>
    cases token with
    | colon =>
      obtain rfl := Option.some.inj hs
      exact List.forall_mem_cons.mpr h
    | _ => cases hs
  | afterItem done frames =>
    cases token with
    | comma =>
      obtain rfl := Option.some.inj hs
      exact List.forall_mem_cons.mpr h
    | closeArray =>
      obtain rfl := Option.some.inj hs
      exact keyed_give (.array fun item hm => h.1 item (List.mem_reverse.mp hm)) h.2
    | _ => cases hs
  | afterMember done frames =>
    cases token with
    | comma =>
      obtain rfl := Option.some.inj hs
      exact h
    | closeObject =>
      obtain rfl := Option.some.inj hs
      exact keyed_give h.1.keyed h.2
    | _ => cases hs
  | finished value => cases hs

end Reading

/-- **Objects read from text** have distinct member names. -/
theorem Json.keyed_of_parse {text : String} {value : Json} (h : Json.parse text = some value) :
    value.Keyed := by
  obtain ⟨tokens, ht, h⟩ := Option.bind_eq_some_iff.mp h
  obtain ⟨reading, hr, h⟩ := Option.bind_eq_some_iff.mp h
  have hstart : (Reading.awaitValue []).Keyed := fun _ hm => absurd hm List.not_mem_nil
  have hread : reading.Keyed := foldlM_keeps
    (fun _ token _ hm hs hstep => Reading.keyed_of_step (keyed_of_scan ht token hm) hs hstep)
    hstart hr
  cases reading with
  | finished found =>
    obtain rfl := Option.some.inj h
    exact hread
  | _ => cases h

end ApiDecl
