import ApiDecl.Auth.Request
import ApiDecl.Proofs.Json.Member
import Mathlib.Data.List.Induction

/-!
# Parameters written and read back

Parameters are written into a request one after the other.  Each of the three stores depends on what
is written there and on nothing else (`headers_writeAll`, `query_writeAll`, `cookies_writeAll`), and it
holds for each name the value written last (`lastValue`), once.

Written over others, headers and cookies keep their places (`Overlays`), and query parameters are left
out where they stood and follow at the end.  So what becomes of a request is told without a look at the
steps (`Request.Takes`, `takes_writeAll`).

Headers are kept by their spelling but read without regard to case.  So a header is read as it was
last written in the spelling that came first (`header?_writeAll`), and that is the last write of the
header just if the first spelling has its value (`writeAll_reads_last`).
-/

namespace ApiDecl

/-- What is written to a location, in order. -/
def entriesAt (location : KeyLocation) (writes : List Write) : List (String × String) :=
  (writes.filter fun w => w.location = location).map fun w => (w.name, w.value)

/-- The value of the last entry whose name is meant. -/
def lastValue (meant : String → Bool) (entries : List (String × String)) : Option String :=
  (entries.filter fun entry => meant entry.1).getLast?.map Prod.snd

/-- The first name that is meant, as it is spelled there. -/
def firstSpelling (meant : String → Bool) (entries : List (String × String)) : Option String :=
  (entries.map Prod.fst).find? meant

/-- The names that are not among those known, each once, in their order. -/
def freshNames (known names : List String) : List String :=
  (names.filter fun name => name ∉ known).eraseDups

/-- A store becomes another by entries that are taken over in order: each name has the value given last,
or else the one that it had, and the names that are new stand behind the others. -/
structure Overlays (entries before after : List (String × String)) : Prop where
  lookup : ∀ name, Member.lookup name after =
    (lastValue (· == name) entries).or (Member.lookup name before)
  names : after.map Prod.fst =
    before.map Prod.fst ++ freshNames (before.map Prod.fst) (entries.map Prod.fst)

/-- The entries whose name is not given again behind them. -/
def lastEntries : List (String × String) → List (String × String)
  | [] => []
  | entry :: rest =>
    if entry.1 ∈ rest.map Prod.fst then lastEntries rest else entry :: lastEntries rest

/-! ### One store -/

section Entries

variable (meant : String → Bool) (name : String) (entries : List (String × String))
  (entry : String × String)

theorem lastValue_append : lastValue meant (entries ++ [entry]) =
    if meant entry.1 then some entry.2 else lastValue meant entries := by
  cases hm : meant entry.1 <;> simp [lastValue, hm]

theorem firstSpelling_append : firstSpelling meant (entries ++ [entry]) =
    (firstSpelling meant entries).or (if meant entry.1 then some entry.1 else none) := by
  cases hm : meant entry.1 <;> simp [firstSpelling, hm]

theorem freshNames_append (known names : List String) : freshNames known (names ++ [name]) =
    if name ∈ known ++ freshNames known names then freshNames known names
    else freshNames known names ++ [name] := by
  unfold freshNames
  rw [List.filter_append, List.eraseDups_append]
  by_cases hk : name ∈ known
  · simp [hk, List.removeAll]
  · by_cases hn : name ∈ names
    · simp [hk, hn, List.removeAll, List.mem_eraseDups]
    · simp [hk, hn, List.removeAll, List.mem_eraseDups, List.eraseDups_cons]

theorem overlays_foldl_put (before : List (String × String)) : Overlays entries before
    (entries.foldl (fun done entry => Member.put entry.1 entry.2 done) before) := by
  induction entries using List.reverseRecOn with
  | nil => exact ⟨fun _ => rfl, by simp [freshNames]⟩
  | append_singleton entries entry ih =>
    rw [List.foldl_concat]
    generalize entries.foldl (fun done entry => Member.put entry.1 entry.2 done) before = after at ih
    refine ⟨fun name => ?_, ?_⟩
    · rw [lastValue_append]
      split_ifs with he
      · rw [← beq_iff_eq.mp he, Member.lookup_put_self, Option.some_or]
      · rw [Member.lookup_put_of_ne fun hn => he (beq_iff_eq.mpr hn.symm), ih.lookup]
    · rw [List.map_append, List.map_singleton, freshNames_append]
      simp only [← ih.names]
      split_ifs with hmem
      · rw [Member.map_fst_put_of_mem hmem, ih.names]
      · rw [Member.put_of_not_mem hmem, List.map_append, ih.names, List.map_singleton,
          List.append_assoc]

/-- An entry that is added at the end is the last of its name. -/
theorem lastEntries_append : lastEntries (entries ++ [entry]) =
    (lastEntries entries).filter (fun old => old.1 != entry.1) ++ [entry] := by
  induction entries with
  | nil => rfl
  | cons first rest ih =>
    rw [List.cons_append, lastEntries, lastEntries, ih, List.map_append]
    by_cases hr : first.1 ∈ rest.map Prod.fst
    · rw [if_pos (List.mem_append_left _ hr), if_pos hr]
    · rw [if_neg hr]
      by_cases he : first.1 = entry.1 <;> simp [hr, he]

namespace Member

theorem ofList_append :
    ofList (entries ++ [entry]) = put entry.1 entry.2 (ofList entries) :=
  List.foldl_concat ..

/-- What is looked up was written last. -/
theorem lookup_ofList : lookup name (ofList entries) = lastValue (· == name) entries :=
  ((overlays_foldl_put entries []).lookup name).trans Option.or_none

theorem nodup_ofList : ((ofList entries).map Prod.fst).Nodup := by
  induction entries using List.reverseRecOn with
  | nil => exact List.nodup_nil
  | append_singleton entries entry ih =>
    rw [ofList_append]
    exact nodup_put ih entry.1 entry.2

/-- Names stand in the order in which they were first written. -/
theorem find?_ofList :
    ((ofList entries).map Prod.fst).find? meant = firstSpelling meant entries := by
  induction entries using List.reverseRecOn with
  | nil => rfl
  | append_singleton entries entry ih =>
    rw [ofList_append, firstSpelling_append, ← ih]
    by_cases hmem : entry.1 ∈ (ofList entries).map Prod.fst
    · rw [map_fst_put_of_mem hmem]
      split_ifs with hm
      · -- a name that is meant is found where it stands already
        rw [Option.or_of_isSome (List.find?_isSome.mpr ⟨_, hmem, hm⟩)]
      · rw [Option.or_none]
    · rw [put_of_not_mem hmem, List.map_append, List.find?_append, List.map_singleton,
        List.find?_singleton]

end Member

/-- Entries to which one is added at the end, without those of its name. -/
def moveToEnd (entries : List (String × String)) (entry : String × String) :
    List (String × String) :=
  entries.filter (fun old => old.1 != entry.1) ++ [entry]

theorem foldl_moveToEnd (before : List (String × String)) : entries.foldl moveToEnd before =
    (before.filter fun old => old.1 ∉ entries.map Prod.fst) ++ lastEntries entries := by
  induction entries using List.reverseRecOn with
  | nil => simp [lastEntries]
  | append_singleton entries entry ih =>
    rw [List.foldl_concat, moveToEnd, ih, lastEntries_append, List.filter_append,
      List.filter_filter, List.append_assoc]
    congr 1
    refine List.filter_congr fun old _ => ?_
    rw [List.map_append, List.map_singleton, Bool.eq_iff_iff]
    simp only [Bool.and_eq_true, bne_iff_ne, decide_eq_true_eq, List.mem_append, List.mem_singleton,
      not_or]
    exact and_comm

theorem lookup_foldl_moveToEnd :
    Member.lookup name (entries.foldl moveToEnd []) = lastValue (· == name) entries := by
  induction entries using List.reverseRecOn with
  | nil => rfl
  | append_singleton entries entry ih =>
    rw [List.foldl_concat, moveToEnd, Member.lookup_append, lastValue_append]
    split_ifs with he
    · rw [← beq_iff_eq.mp he, Member.lookup_filter_self, Option.none_or, Member.lookup, if_pos rfl]
    · have hne : entry.1 ≠ name := fun hn => he (beq_iff_eq.mpr hn)
      rw [Member.lookup_filter_of_ne hne.symm, ih, Member.lookup, if_neg hne, Member.lookup,
        Option.or_none]

theorem nodup_foldl_moveToEnd : ((entries.foldl moveToEnd []).map Prod.fst).Nodup := by
  induction entries using List.reverseRecOn with
  | nil => exact List.nodup_nil
  | append_singleton entries entry ih =>
    rw [List.foldl_concat, moveToEnd, List.map_append, List.map_singleton]
    refine (ih.sublist (List.filter_sublist.map _)).append (List.nodup_singleton _) ?_
    rw [List.disjoint_singleton]
    simp

end Entries

/-! ### The three stores of a request -/

namespace Request

section Write

variable {w : Write} (r : Request)

theorem headers_write_of_ne (h : w.location ≠ .header) : (r.write w).headers = r.headers := by
  unfold write
  cases hw : w.location with
  | header => exact absurd hw h
  | query => rfl
  | cookie => rfl

theorem query_write_of_ne (h : w.location ≠ .query) : (r.write w).query = r.query := by
  unfold write
  cases hw : w.location with
  | header => rfl
  | query => exact absurd hw h
  | cookie => rfl

theorem cookies_write_of_ne (h : w.location ≠ .cookie) : (r.write w).cookies = r.cookies := by
  unfold write
  cases hw : w.location with
  | header => rfl
  | query => rfl
  | cookie => exact absurd hw h

theorem headers_write (h : w.location = .header) :
    (r.write w).headers = Member.put w.name w.value r.headers := by
  unfold write; rw [h]; rfl

theorem query_write (h : w.location = .query) :
    (r.write w).query = moveToEnd r.query (w.name, w.value) := by
  unfold write; rw [h]; rfl

theorem cookies_write (h : w.location = .cookie) :
    (r.write w).cookies = Member.put w.name w.value r.cookies := by
  unfold write; rw [h]; rfl

end Write

end Request

theorem entriesAt_append {location : KeyLocation} {w : Write} (h : w.location = location)
    (writes : List Write) :
    entriesAt location (writes ++ [w]) = entriesAt location writes ++ [(w.name, w.value)] := by
  simp [entriesAt, h]

theorem entriesAt_append_of_ne {location : KeyLocation} {w : Write} (h : w.location ≠ location)
    (writes : List Write) : entriesAt location (writes ++ [w]) = entriesAt location writes := by
  simp [entriesAt, h]

namespace Request

variable {r : Request}

theorem writeAll_append (r : Request) (writes more : List Write) :
    r.writeAll (writes ++ more) = (r.writeAll writes).writeAll more :=
  List.foldl_append

/-- A store that takes what is written to its location, and stays otherwise, takes what is written there
in order. -/
theorem store_writeAll {location : KeyLocation} {store : Request → List (String × String)}
    {add : List (String × String) → String × String → List (String × String)}
    (hself : ∀ r w, w.location = location → store (r.write w) = add (store r) (w.name, w.value))
    (hother : ∀ r w, w.location ≠ location → store (r.write w) = store r) (r : Request)
    (writes : List Write) :
    store (r.writeAll writes) = (entriesAt location writes).foldl add (store r) := by
  induction writes using List.reverseRecOn with
  | nil => rfl
  | append_singleton writes w ih =>
    rw [writeAll_append]
    by_cases hw : w.location = location
    · rw [entriesAt_append hw, List.foldl_concat, ← ih]
      exact hself _ w hw
    · rw [entriesAt_append_of_ne hw, ← ih]
      exact hother _ w hw

theorem headers_writeAll (writes : List Write) :
    (empty.writeAll writes).headers = Member.ofList (entriesAt .header writes) :=
  store_writeAll (fun r _ => r.headers_write) (fun r _ => r.headers_write_of_ne) empty writes

theorem query_writeAll (writes : List Write) :
    (empty.writeAll writes).query = (entriesAt .query writes).foldl moveToEnd [] :=
  store_writeAll (fun r _ => r.query_write) (fun r _ => r.query_write_of_ne) empty writes

theorem cookies_writeAll (writes : List Write) :
    (empty.writeAll writes).cookies = Member.ofList (entriesAt .cookie writes) :=
  store_writeAll (fun r _ => r.cookies_write) (fun r _ => r.cookies_write_of_ne) empty writes

/-- A request becomes another by parameters that are written in order.  Headers and cookies keep their
places and take the values given last.  A query parameter is left out where it stood, and stands behind
the others where it was given last. -/
structure Takes (writes : List Write) (r r' : Request) : Prop where
  headers : Overlays (entriesAt .header writes) r.headers r'.headers
  query : r'.query =
    (r.query.filter fun old => old.1 ∉ (entriesAt .query writes).map Prod.fst) ++
      lastEntries (entriesAt .query writes)
  cookies : Overlays (entriesAt .cookie writes) r.cookies r'.cookies

theorem takes_writeAll (r : Request) (writes : List Write) : Takes writes r (r.writeAll writes) where
  headers := by
    have h : (r.writeAll writes).headers = (entriesAt .header writes).foldl
        (fun done entry => Member.put entry.1 entry.2 done) r.headers :=
      store_writeAll (fun r _ => r.headers_write) (fun r _ => r.headers_write_of_ne) r writes
    exact h ▸ overlays_foldl_put _ _
  query :=
    (store_writeAll (fun r _ => r.query_write) (fun r _ => r.query_write_of_ne) r writes).trans
      (foldl_moveToEnd _ _)
  cookies := by
    have h : (r.writeAll writes).cookies = (entriesAt .cookie writes).foldl
        (fun done entry => Member.put entry.1 entry.2 done) r.cookies :=
      store_writeAll (fun r _ => r.cookies_write) (fun r _ => r.cookies_write_of_ne) r writes
    exact h ▸ overlays_foldl_put _ _

/-- A header is read as it was last written in the spelling that came first. -/
theorem header?_writeAll (writes : List Write) (name : String) :
    (empty.writeAll writes).header? name =
      (firstSpelling (sameIgnoringCase · name) (entriesAt .header writes)).bind fun spelling =>
        lastValue (· == spelling) (entriesAt .header writes) := by
  rw [header?, headers_writeAll, Member.find?_fst (sameIgnoringCase · name), Member.find?_ofList]
  exact Option.bind_congr fun spelling _ => Member.lookup_ofList spelling _

theorem query?_writeAll (writes : List Write) (name : String) :
    (empty.writeAll writes).query? name = lastValue (· == name) (entriesAt .query writes) := by
  rw [query?, query_writeAll, lookup_foldl_moveToEnd]

/-- Nothing is read of a header that was never written. -/
theorem lastValue_eq_none_of_firstSpelling {meant : String → Bool}
    {entries : List (String × String)} (h : firstSpelling meant entries = none) :
    lastValue meant entries = none := by
  rw [firstSpelling, List.find?_eq_none] at h
  have hnone : entries.filter (fun entry => meant entry.1) = [] :=
    List.filter_eq_nil_iff.mpr fun entry he => h entry.1 (List.mem_map_of_mem he)
  rw [lastValue, hnone]
  rfl

/-- **Parameters are read back as last written**, and each name is held once; a write changes no
other store.  A header is read as last written, in whatever case, just if the spelling of it that
came first was last given the same value. -/
theorem writeAll_reads_last (writes : List Write) :
    (∀ name, (empty.writeAll writes).header? name =
        lastValue (sameIgnoringCase · name) (entriesAt .header writes) ↔
      ∀ spelling, firstSpelling (sameIgnoringCase · name) (entriesAt .header writes) = some spelling →
        lastValue (· == spelling) (entriesAt .header writes) =
          lastValue (sameIgnoringCase · name) (entriesAt .header writes)) ∧
    (∀ name, (empty.writeAll writes).query? name =
      lastValue (· == name) (entriesAt .query writes)) ∧
    ((empty.writeAll writes).query.map Prod.fst).Nodup ∧
    (∀ name value, (name, value) ∈ (empty.writeAll writes).query ↔
      lastValue (· == name) (entriesAt .query writes) = some value) ∧
    ((empty.writeAll writes).cookies.map Prod.fst).Nodup ∧
    (∀ name value, (name, value) ∈ (empty.writeAll writes).cookies ↔
      lastValue (· == name) (entriesAt .cookie writes) = some value) ∧
    ∀ (r : Request) (w : Write),
      (w.location ≠ .header → (r.write w).headers = r.headers) ∧
      (w.location ≠ .query → (r.write w).query = r.query) ∧
      (w.location ≠ .cookie → (r.write w).cookies = r.cookies) := by
  have hquery : ((empty.writeAll writes).query.map Prod.fst).Nodup := by
    rw [query_writeAll]; exact nodup_foldl_moveToEnd _
  have hcookies : ((empty.writeAll writes).cookies.map Prod.fst).Nodup := by
    rw [cookies_writeAll]; exact Member.nodup_ofList _
  refine ⟨fun name => ?_, query?_writeAll writes, hquery, fun name value => ?_, hcookies,
    fun name value => ?_, fun r w => ⟨r.headers_write_of_ne, r.query_write_of_ne,
      r.cookies_write_of_ne⟩⟩
  · rw [header?_writeAll]
    cases hf : firstSpelling (sameIgnoringCase · name) (entriesAt .header writes) with
    | none => simp [lastValue_eq_none_of_firstSpelling hf]
    | some spelling => simp
  · rw [← query?_writeAll, query?]
    exact ⟨Member.lookup_of_mem hquery, Member.mem_of_lookup⟩
  · rw [← Member.lookup_ofList, ← cookies_writeAll]
    exact ⟨Member.lookup_of_mem hcookies, Member.mem_of_lookup⟩

/-- A header that is written again in lower case is read as it was before. -/
theorem header_ne_lastValue_key :
    (empty.writeAll [⟨.header, "X-Key", "old"⟩, ⟨.header, "x-key", "new"⟩]).header? "x-key" =
      some "old" ∧
    lastValue (sameIgnoringCase · "x-key")
      (entriesAt .header [⟨.header, "X-Key", "old"⟩, ⟨.header, "x-key", "new"⟩]) = some "new" := by
  decide

end Request

end ApiDecl
