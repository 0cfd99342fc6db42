import AppBackup.Lib.Base64
import AppBackup.Lib.Fields
import AppBackup.Lib.Pagination
import AppBackup.Lib.Text
import AppBackup.Persistence.Schema
import Mathlib.Data.List.Sort
import Mathlib.Data.Prod.Lex
import Mathlib.Order.Lex

/- The catalog of installed applications (`persistence/store.go`): `ReplaceInstances`
   takes over what a synchronisation found, `ListInstances` reads the active instances a
   page at a time. Texts are compared by their bytes, as SQLite does. The case of a letter
   (`unicode.ToLower`) and SHA-256 are parameters, `lower` and `hash`; icons, sizes,
   probe times and database findings are left out.

   The first insert of an application writes the name in lower case to `name_sort`, the
   upsert of a later synchronisation the name as it is; the cursor always holds the name
   in lower case.

   What is proved:
     1. `Synced.keyed` -- after any history of synchronisations the ids are keys, so no two
        rows of a listing have one place;
     2. `listInstances_eq`, `followPages_eq` -- following the cursors is following the pages of
        the sorted listing, each cursor standing for what it reads back as;
     3. `pages_exact_iff` -- the pages are exact just if each cursor lies between its row and
        the next; `pagination_exact_iff` says so of every filter and limit. -/
namespace AppBackup.Persistence
open Table Base64

structure ApplicationFilter where
  query : String
  mode : String
  capabilityStatus : String
  protectionStatus : String
  cursor : String
  limit : Int

structure ApplicationPage where
  items : List ApplicationInstance
  nextCursor : String

/-- `strings.ToLower`. -/
def toLower (lower : Char → Char) (text : String) : String := String.ofList (text.toList.map lower)

/-! ## Synchronisation -/

def applicationIn (tenant appId : String) (a : ApplicationRow) : Bool :=
  a.tenantUid == tenant && a.appId == appId

def deployedAs (tenant appId deployId : String) (i : InstanceRow) : Bool :=
  i.tenantUid == tenant && i.appId == appId && i.deployId == deployId

namespace Store

/-- One instance of the loop of `ReplaceInstances`. -/
def replaceInstance (lower : Char → Char) (tenant : String) (s : Store) (x : ApplicationInstance) :
    Except StoreError Store :=
  if x.tenantUid ≠ tenant then .error (.invalid "instance tenant mismatch")
  else
    .ok { s with
      applications := upsert (applicationIn tenant x.appId)
        (fun a => { a with name := x.name, version := x.version, nameSort := x.name })
        ⟨tenant, x.appId, x.name, x.version, toLower lower x.name⟩ s.applications
      instances := upsert (deployedAs tenant x.appId x.deployId)
        (fun i => { i with
          multiInstance := x.multiInstance
          capabilityStatus := x.capabilityStatus
          active := true })
        ⟨tenant, x.appId, x.deployId, x.multiInstance, x.capabilityStatus, true⟩ s.instances }

def replaceInstances (lower : Char → Char) (s : Store) (tenant : String)
    (instances : List ApplicationInstance) : Except StoreError Store :=
  instances.foldlM (replaceInstance lower tenant)
    { s with
      instances := updateWhere (·.tenantUid == tenant) (fun i => { i with active := false })
        s.instances }

end Store

/-! ## The filter -/

/-- The `LIKE` of SQLite: `%` is any text, `_` any character, ASCII letters of either case
are the same. -/
def likeChars : List Char → List Char → Bool
  | [], text => text.isEmpty
  | '%' :: pattern, text => text.tails.any (likeChars pattern)
  | '_' :: pattern, text =>
    match text with
    | [] => false
    | _ :: rest => likeChars pattern rest
  | p :: pattern, text =>
    match text with
    | [] => false
    | c :: rest => p.toLower == c.toLower && likeChars pattern rest

/-- `LIKE` reads both texts up to a NUL. -/
def like (pattern text : String) : Bool :=
  likeChars (pattern.toList.takeWhile (· ≠ '\x00')) (text.toList.takeWhile (· ≠ '\x00'))

/-- `lower(…)` of SQLite. -/
def sqlLower (text : String) : String := String.ofList (text.toList.map Char.toLower)

/-- `EXISTS (SELECT 1 FROM snapshots …)`. -/
def Store.backedUp (s : Store) (i : InstanceRow) : Bool :=
  s.snapshots.any fun sn =>
    sn.tenantUid == i.tenantUid && sn.deployId == i.deployId && sn.status == .completed

/-- A row of `application_instances i JOIN applications a`. -/
abbrev Joined := ApplicationRow × InstanceRow

def Store.joined (s : Store) : List Joined :=
  s.instances.flatMap fun i =>
    (s.applications.filter (applicationIn i.tenantUid i.appId)).map fun a => (a, i)

def queryText (lower : Char → Char) (filter : ApplicationFilter) : String :=
  Text.trimSpace (toLower lower filter.query)

/-- The `WHERE` clause of `ListInstances` but for the cursor. -/
def listed (lower : Char → Char) (s : Store) (tenant : String) (filter : ApplicationFilter)
    (r : Joined) : Bool :=
  let text := queryText lower filter
  let pattern := "%" ++ text ++ "%"
  r.2.tenantUid == tenant && r.2.active &&
  (text == "" || like pattern r.1.nameSort || like pattern (sqlLower r.1.appId) ||
    like pattern (sqlLower r.2.deployId)) &&
  (filter.mode != "single" || !r.2.multiInstance) &&
  (filter.mode != "multi" || r.2.multiInstance) &&
  (filter.capabilityStatus == "" ||
    if filter.capabilityStatus = "BACKUPABLE" then r.2.capabilityStatus.accepts
    else r.2.capabilityStatus.text == filter.capabilityStatus) &&
  (filter.protectionStatus != "PROTECTED" || s.backedUp r.2) &&
  (filter.protectionStatus != "UNPROTECTED" || !s.backedUp r.2)

/-- The instances a filter is about. -/
def Store.listing (lower : Char → Char) (s : Store) (tenant : String) (filter : ApplicationFilter) :
    List Joined :=
  s.joined.filter (listed lower s tenant filter)

/-! ## The cursor -/

/-- The bytes of `strings.Join(values, "\x00")`. -/
def joinNul (values : List (List Byte)) : List Byte := [0].intercalate values

def scopedCursor (hash : List Byte → List Byte) (parts : List String) : String :=
  encode (hash (joinNul ("mimi-cursor-v2" :: parts |>.map utf8)))

def encodeCursor (scope : String) (values : List String) : String :=
  encode (joinNul (scope :: values |>.map utf8))

/-- The three parts of a cursor of the scope; none of the empty cursor. -/
def decodeCursor (value scope : String) : Except StoreError (List Byte × List Byte × List Byte) :=
  if value = "" then .ok ([], [], [])
  else
    match decode value with
    | none => .error (.invalid "invalid cursor")
    | some decoded =>
      match decoded.splitOn 0 with
      | [first, name, appId, deploy] =>
        if first = utf8 scope then .ok (name, appId, deploy) else .error (.invalid "invalid cursor: scope")
      | _ => .error (.invalid "invalid cursor: scope")

/-! ## Pages -/

/-- `a.name_sort, a.appid, i.deploy_id`, as `ORDER BY` compares them. -/
abbrev SortKey := List Byte ×ₗ List Byte ×ₗ List Byte

def sortKey (r : Joined) : SortKey :=
  toLex (utf8 r.1.nameSort, toLex (utf8 r.1.appId, utf8 r.2.deployId))

/-- The condition `ListInstances` adds for a cursor. -/
def afterCursor (name appId deploy : List Byte) (r : Joined) : Bool :=
  decide (name < utf8 r.1.nameSort) ||
  (utf8 r.1.nameSort == name && (decide (appId < utf8 r.1.appId) ||
    (utf8 r.1.appId == appId && decide (deploy < utf8 r.2.deployId))))

/-- `scanInstance`. -/
def scanInstance (tenant : String) (r : Joined) : ApplicationInstance where
  tenantUid := tenant
  appId := r.1.appId
  name := r.1.name
  version := r.1.version
  deployId := r.2.deployId
  multiInstance := r.2.multiInstance
  capabilityStatus := r.2.capabilityStatus

/-- A page has 1 to 200 instances, 50 by default. -/
def pageLimit (limit : Int) : Nat := min (if limit ≤ 0 then 50 else limit.toNat) 200

def cursorScope (lower : Char → Char) (hash : List Byte → List Byte) (tenant : String)
    (filter : ApplicationFilter) : String :=
  scopedCursor hash ["applications", tenant, queryText lower filter, filter.mode,
    filter.capabilityStatus, filter.protectionStatus]

theorem pageLimit_pos (limit : Int) : 0 < pageLimit limit := by
  unfold pageLimit
  split <;> omega

/-- The page of the rows the query gave: it asks for one more than the limit, and makes the
cursor from the last row within it. -/
def cutPage (lower : Char → Char) (scope tenant : String) (limit : Nat) (rows : List Joined) :
    ApplicationPage :=
  let items := (rows.take (limit + 1)).map (scanInstance tenant)
  if h : limit < items.length then
    let last := items[limit - 1]
    ⟨items.take limit, encodeCursor scope [toLower lower last.name, last.appId, last.deployId]⟩
  else ⟨items, ""⟩

def Store.listInstances (lower : Char → Char) (hash : List Byte → List Byte) (s : Store)
    (tenant : String) (filter : ApplicationFilter) : Except StoreError ApplicationPage := do
  let scope := cursorScope lower hash tenant filter
  let (name, appId, deploy) ← decodeCursor filter.cursor scope
  let rows := (s.listing lower tenant filter).filter fun r =>
    filter.cursor == "" || afterCursor name appId deploy r
  return cutPage lower scope tenant (pageLimit filter.limit) (Pagination.orderBy sortKey rows)

/-- The instances of all pages from a cursor on, the `k`-th page asked for with `limits k`;
`none` when the fuel ends or a cursor is refused. -/
def Store.followPages (lower : Char → Char) (hash : List Byte → List Byte) (s : Store)
    (tenant : String) (filter : ApplicationFilter) (limits : Nat → Int) :
    Nat → Nat → String → Option (List ApplicationInstance)
  | 0, _, _ => none
  | fuel + 1, k, cursor =>
    match s.listInstances lower hash tenant { filter with limit := limits k, cursor := cursor } with
    | .error _ => none
    | .ok p =>
      if p.nextCursor = "" then some p.items
      else (followPages lower hash s tenant filter limits fuel (k + 1) p.nextCursor).map (p.items ++ ·)

/-! ## The keys of the catalog -/

def ApplicationRow.key (a : ApplicationRow) : String × String := (a.tenantUid, a.appId)
def InstanceRow.key (i : InstanceRow) : String × String × String := (i.tenantUid, i.appId, i.deployId)

/-- The primary keys of the two tables. -/
structure Store.Keyed (s : Store) : Prop where
  applications : (s.applications.map ApplicationRow.key).Nodup
  instances : (s.instances.map InstanceRow.key).Nodup

/-- The databases a history of synchronisations leads to; no other statement writes the
two tables. -/
inductive Synced (lower : Char → Char) : Store → Prop
  | empty {s : Store} (happs : s.applications = []) (hinsts : s.instances = []) : Synced lower s
  | sync {s s' : Store} {tenant : String} {instances : List ApplicationInstance}
      (h : Synced lower s) (hsync : s.replaceInstances lower tenant instances = .ok s') : Synced lower s'
  | other {s s' : Store} (h : Synced lower s) (happs : s'.applications = s.applications)
      (hinsts : s'.instances = s.instances) : Synced lower s'

theorem applicationIn_iff {tenant appId : String} {a : ApplicationRow} :
    applicationIn tenant appId a = true ↔ a.key = (tenant, appId) := by
  simp [applicationIn, ApplicationRow.key]

theorem deployedAs_iff {tenant appId deployId : String} {i : InstanceRow} :
    deployedAs tenant appId deployId i = true ↔ i.key = (tenant, appId, deployId) := by
  simp [deployedAs, InstanceRow.key, and_assoc]

theorem Store.Keyed.replaceInstance {lower : Char → Char} {tenant : String} {s s' : Store}
    {x : ApplicationInstance} (h : s.Keyed) (hs : s.replaceInstance lower tenant x = .ok s') :
    s'.Keyed := by
  unfold Store.replaceInstance at hs
  by_cases hten : x.tenantUid ≠ tenant
  · rw [if_pos hten] at hs
    cases hs
  · rw [if_neg hten] at hs
    obtain rfl := Except.ok.inj hs
    constructor
    · apply upsert_nodup _ _ h.applications
      · intro a
        exact applicationIn_iff
      · intro a
        rfl
    · apply upsert_nodup _ _ h.instances
      · intro i
        exact deployedAs_iff
      · intro i
        rfl

theorem Synced.keyed {lower : Char → Char} {s : Store} (h : Synced lower s) : s.Keyed := by
  induction h with
  | empty happs hinsts => exact ⟨by simp [happs], by simp [hinsts]⟩
  | sync _ hsync ih =>
    refine foldlM_invariant hsync ⟨ih.applications, ?_⟩ ?_
    · show ((updateWhere _ _ _).map InstanceRow.key).Nodup
      rw [map_updateWhere]
      · exact ih.instances
      · intro i
        rfl
    · intro s s' x _ hs hstep
      exact hs.replaceInstance hstep
  | other _ happs hinsts ih =>
    constructor
    · rw [happs]
      exact ih.applications
    · rw [hinsts]
      exact ih.instances

theorem Store.Keyed.joined {s : Store} (h : s.Keyed) :
    s.joined.Pairwise fun r r' => r.2.key ≠ r'.2.key := by
  unfold Store.joined
  rw [List.pairwise_flatMap]
  constructor
  · intro i _
    rw [List.pairwise_map]
    have hone : (s.applications.filter (applicationIn i.tenantUid i.appId)).length ≤ 1 := by
      refine length_filter_key_le_one h.applications ?_
      intro a a' ha ha'
      rw [applicationIn_iff.mp ha, applicationIn_iff.mp ha']
    generalize s.applications.filter (applicationIn i.tenantUid i.appId) = l at hone
    match l, hone with
    | [], _ => exact List.Pairwise.nil
    | [a], _ => exact List.pairwise_singleton _ a
  · refine (List.pairwise_map.mp h.instances).imp ?_
    intro i i' hne r hr r' hr'
    obtain ⟨a, -, rfl⟩ := List.mem_map.mp hr
    obtain ⟨a', -, rfl⟩ := List.mem_map.mp hr'
    exact hne

theorem mem_joined {s : Store} {r : Joined} (h : r ∈ s.joined) :
    r.1.key = (r.2.tenantUid, r.2.appId) := by
  obtain ⟨i, -, hr⟩ := List.mem_flatMap.mp h
  obtain ⟨a, ha, rfl⟩ := List.mem_map.mp hr
  exact applicationIn_iff.mp (List.mem_filter.mp ha).2

theorem listed_tenant {lower : Char → Char} {s : Store} {tenant : String} {filter : ApplicationFilter}
    {r : Joined} (h : listed lower s tenant filter r = true) : r.2.tenantUid = tenant := by
  unfold listed at h
  simp only [Bool.and_eq_true, beq_iff_eq] at h
  exact h.1.1.1.1.1.1.1

theorem listing_key {lower : Char → Char} {s : Store} {tenant : String} {filter : ApplicationFilter}
    {r r' : Joined} (hr : r ∈ s.listing lower tenant filter) (hr' : r' ∈ s.listing lower tenant filter)
    (happ : r.1.appId = r'.1.appId) (hdeploy : r.2.deployId = r'.2.deployId) : r.2.key = r'.2.key := by
  obtain ⟨hr, hten⟩ := List.mem_filter.mp hr
  obtain ⟨hr', hten'⟩ := List.mem_filter.mp hr'
  have hjoin : r.1.appId = r.2.appId := congrArg (·.2) (mem_joined hr)
  have hjoin' : r'.1.appId = r'.2.appId := congrArg (·.2) (mem_joined hr')
  unfold InstanceRow.key
  rw [listed_tenant hten, listed_tenant hten', ← hjoin, ← hjoin', happ, hdeploy]

theorem Store.Keyed.listing {s : Store} (h : s.Keyed) (lower : Char → Char) (tenant : String)
    (filter : ApplicationFilter) :
    (s.listing lower tenant filter).Pairwise fun r r' => sortKey r ≠ sortKey r' := by
  have hjoined := h.joined.sublist (List.filter_sublist (p := listed lower s tenant filter))
  refine hjoined.imp_of_mem ?_
  intro r r' hr hr' hne hkey
  have hname := Prod.ext_iff.mp (toLex_inj.mp hkey)
  have hids := Prod.ext_iff.mp (toLex_inj.mp hname.2)
  exact hne (listing_key hr hr' (utf8_injective hids.1) (utf8_injective hids.2))

/-! ## The cursor reads back -/

/-- The key a cursor made from a row stands for. -/
def cursorKey (lower : Char → Char) (r : Joined) : SortKey :=
  toLex (utf8 (toLower lower r.1.name), toLex (utf8 r.1.appId, utf8 r.2.deployId))

/-- Nothing the cursor of a row holds has a NUL in it. -/
def NulFree (lower : Char → Char) (r : Joined) : Prop :=
  0 ∉ utf8 (toLower lower r.1.name) ∧ 0 ∉ utf8 r.1.appId ∧ 0 ∉ utf8 r.2.deployId

instance (lower : Char → Char) (r : Joined) : Decidable (NulFree lower r) :=
  inferInstanceAs (Decidable (_ ∧ _ ∧ _))

/-- What the cursor of a row reads back as. -/
def resume (lower : Char → Char) (r : Joined) : Option SortKey :=
  if NulFree lower r then some (cursorKey lower r) else none

theorem decodeCursor_encodeCursor {scope : String} (hscope : 0 ∉ utf8 scope) (name appId deploy : String) :
    decodeCursor (encodeCursor scope [name, appId, deploy]) scope =
      if 0 ∉ utf8 name ∧ 0 ∉ utf8 appId ∧ 0 ∉ utf8 deploy then
        .ok (utf8 name, utf8 appId, utf8 deploy)
      else .error (.invalid "invalid cursor: scope") := by
  have hfields : (∀ field ∈ [utf8 scope, utf8 name, utf8 appId, utf8 deploy], 0 ∉ field) ↔
      0 ∉ utf8 name ∧ 0 ∉ utf8 appId ∧ 0 ∉ utf8 deploy := by
    simp [hscope]
  unfold decodeCursor encodeCursor joinNul
  rw [if_neg (encode_ne_empty (by simp [List.intercalate_cons_cons])), decode_encode]
  simp only [List.map_cons, List.map_nil]
  by_cases hnul : 0 ∉ utf8 name ∧ 0 ∉ utf8 appId ∧ 0 ∉ utf8 deploy
  · rw [if_pos hnul, List.splitOn_intercalate 0 (hfields.mpr hnul) (by simp)]
    simp
  · have hlen : (([0].intercalate [utf8 scope, utf8 name, utf8 appId, utf8 deploy]).splitOn 0).length ≠ 4 := by
      intro hlen
      exact hnul (hfields.mp (Fields.notMem_of_length_splitOn (by simp) hlen))
    rw [if_neg hnul]
    generalize ([0].intercalate [utf8 scope, utf8 name, utf8 appId, utf8 deploy]).splitOn 0 = parts
      at hlen ⊢
    match parts, hlen with
    | [], _ => rfl
    | [_], _ => rfl
    | [_, _], _ => rfl
    | [_, _, _], _ => rfl
    | [_, _, _, _], hlen => exact absurd rfl hlen
    | _ :: _ :: _ :: _ :: _ :: _, _ => rfl

/-! ## The pages of a listing -/

theorem afterCursor_eq (name appId deploy : List Byte) (r : Joined) :
    afterCursor name appId deploy r = decide (toLex (name, toLex (appId, deploy)) < sortKey r) := by
  rw [Bool.eq_iff_iff, decide_eq_true_iff]
  unfold afterCursor sortKey
  simp only [Prod.Lex.toLex_lt_toLex, Bool.or_eq_true, Bool.and_eq_true, beq_iff_eq, decide_eq_true_iff,
    @eq_comm _ name, @eq_comm _ appId]

theorem nul_notMem_cursorScope (lower : Char → Char) (hash : List Byte → List Byte) (tenant : String)
    (filter : ApplicationFilter) : 0 ∉ utf8 (cursorScope lower hash tenant filter) :=
  nul_notMem_encode _

theorem encodeCursor_ne_empty (scope : String) (name appId deploy : String) :
    encodeCursor scope [name, appId, deploy] ≠ "" :=
  encode_ne_empty (by simp [joinNul, List.intercalate_cons_cons])

/-- A listing in the order of `ORDER BY`. -/
def Store.sorted (lower : Char → Char) (s : Store) (tenant : String) (filter : ApplicationFilter) :
    List Joined :=
  Pagination.orderBy sortKey (s.listing lower tenant filter)

/-- The cursor `ListInstances` makes from a row. -/
def cursorOf (lower : Char → Char) (scope : String) (r : Joined) : String :=
  encodeCursor scope [toLower lower r.1.name, r.1.appId, r.2.deployId]

/-- What a cursor stands for: the empty one for none, one made from a row for its key. -/
def StandsFor (lower : Char → Char) (scope cursor : String) : Option SortKey → Prop
  | none => cursor = ""
  | some c => ∃ r, cursor = cursorOf lower scope r ∧ resume lower r = some c

section
variable {lower : Char → Char} {hash : List Byte → List Byte} {s : Store} {tenant : String}
  {filter : ApplicationFilter}

theorem resume_eq_some {r : Joined} {c : SortKey} :
    resume lower r = some c ↔ NulFree lower r ∧ cursorKey lower r = c := by
  unfold resume
  by_cases h : NulFree lower r <;> simp [h]

theorem decodeCursor_cursorOf (r : Joined) :
    decodeCursor (cursorOf lower (cursorScope lower hash tenant filter) r)
        (cursorScope lower hash tenant filter) =
      if NulFree lower r then
        .ok (utf8 (toLower lower r.1.name), utf8 r.1.appId, utf8 r.2.deployId)
      else .error (.invalid "invalid cursor: scope") :=
  decodeCursor_encodeCursor (nul_notMem_cursorScope _ _ _ _) _ _ _

/-- The rows left after a cursor. -/
theorem decodeCursor_standsFor {cursor : String} {c : Option SortKey}
    (hc : StandsFor lower (cursorScope lower hash tenant filter) cursor c) :
    ∃ name appId deploy, decodeCursor cursor (cursorScope lower hash tenant filter) =
      .ok (name, appId, deploy) ∧ ∀ rows : List Joined,
        rows.filter (fun r => cursor == "" || afterCursor name appId deploy r) =
          Pagination.above sortKey c rows := by
  cases c with
  | none =>
    obtain rfl : cursor = "" := hc
    exact ⟨[], [], [], by simp [decodeCursor], fun rows => rfl⟩
  | some c =>
    obtain ⟨r, rfl, hr⟩ := hc
    obtain ⟨hnul, rfl⟩ := resume_eq_some.mp hr
    refine ⟨utf8 (toLower lower r.1.name), utf8 r.1.appId, utf8 r.2.deployId, ?_, ?_⟩
    · rw [decodeCursor_cursorOf, if_pos hnul]
    · intro rows
      apply List.filter_congr
      intro r' _
      have hne : cursorOf lower (cursorScope lower hash tenant filter) r ≠ "" :=
        encodeCursor_ne_empty _ _ _ _
      rw [beq_eq_false_iff_ne.mpr hne, Bool.false_or, afterCursor_eq]
      rfl

theorem cutPage_eq {limit : Nat} (hlimit : 0 < limit) (scope : String) (c : Option SortKey)
    (rows : List Joined) : cutPage lower scope tenant limit (Pagination.above sortKey c rows) =
      match Pagination.page sortKey rows limit c with
      | (items, none) => ⟨items.map (scanInstance tenant), ""⟩
      | (items, some last) => ⟨items.map (scanInstance tenant), cursorOf lower scope last⟩ := by
  unfold cutPage
  simp only [List.length_map, List.length_take]
  by_cases hmore : limit < (Pagination.above sortKey c rows).length
  · have hlast : (Pagination.above sortKey c rows)[limit - 1]? =
        some (Pagination.above sortKey c rows)[limit - 1] := List.getElem?_eq_getElem (by omega)
    rw [dif_pos (by omega), Pagination.page_more hmore, hlast]
    simp only [List.getElem_map, List.getElem_take, ← List.map_take, List.take_take,
      Nat.min_eq_left (Nat.le_succ limit)]
    rfl
  · rw [dif_neg (by omega), Pagination.page_last (by omega), List.take_of_length_le (by omega)]

/-- A call of `ListInstances` reads one page of the sorted listing. -/
theorem listInstances_eq (hs : s.Keyed) {cursor : String} {c : Option SortKey}
    (hc : StandsFor lower (cursorScope lower hash tenant filter) cursor c) (limit : Int) :
    s.listInstances lower hash tenant { filter with limit := limit, cursor := cursor } =
      .ok (cutPage lower (cursorScope lower hash tenant filter) tenant (pageLimit limit)
        (Pagination.above sortKey c (s.sorted lower tenant filter))) := by
  obtain ⟨name, appId, deploy, hdecode, hafter⟩ := decodeCursor_standsFor hc
  have habove : Pagination.orderBy sortKey ((s.listing lower tenant filter).filter fun r =>
      cursor == "" || afterCursor name appId deploy r) =
      Pagination.above sortKey c (s.sorted lower tenant filter) := by
    rw [Pagination.orderBy_filter (hs.listing lower tenant filter)]
    exact hafter _
  rw [← habove]
  show (decodeCursor cursor (cursorScope lower hash tenant filter)).bind _ = _
  rw [hdecode]
  rfl

/-- Following the cursors of `ListInstances` is following the pages of the sorted listing. -/
theorem followPages_eq (hs : s.Keyed) (limits : Nat → Int) (fuel : Nat) :
    ∀ (k : Nat) {cursor : String} {c : Option SortKey},
      StandsFor lower (cursorScope lower hash tenant filter) cursor c →
      s.followPages lower hash tenant filter limits fuel k cursor =
        (Pagination.follow sortKey (resume lower) (s.sorted lower tenant filter)
          (fun k => pageLimit (limits k)) fuel k c).map (·.map (scanInstance tenant)) := by
  induction fuel with
  | zero =>
    intro k cursor c _
    rfl
  | succ fuel ih =>
    intro k cursor c hc
    rw [Store.followPages, Pagination.follow, listInstances_eq hs hc, cutPage_eq (pageLimit_pos _)]
    obtain ⟨items, last⟩ := Pagination.page sortKey (s.sorted lower tenant filter) (pageLimit (limits k)) c
    cases last with
    | none => rfl
    | some last =>
      have hne : cursorOf lower (cursorScope lower hash tenant filter) last ≠ "" :=
        encodeCursor_ne_empty _ _ _ _
      simp only
      rw [if_neg hne]
      cases hlast : resume lower last with
      | some c' =>
        rw [ih (k + 1) (c := some c') ⟨last, rfl, hlast⟩, Option.map_map, Option.map_map]
        congr 1
        funext rows
        simp
      | none =>
        -- The cursor has a NUL in one of its parts, and the next call refuses it.
        have hnul : ¬NulFree lower last := by
          intro hnul
          rw [resume_eq_some.mpr ⟨hnul, rfl⟩] at hlast
          cases hlast
        have hrefused : s.followPages lower hash tenant filter limits fuel (k + 1)
            (cursorOf lower (cursorScope lower hash tenant filter) last) = none := by
          cases fuel with
          | zero => rfl
          | succ fuel =>
            have herror : s.listInstances lower hash tenant { filter with
                limit := limits (k + 1)
                cursor := cursorOf lower (cursorScope lower hash tenant filter) last } =
                .error (.invalid "invalid cursor: scope") := by
              show (decodeCursor (cursorOf lower (cursorScope lower hash tenant filter) last)
                (cursorScope lower hash tenant filter)).bind _ = _
              rw [decodeCursor_cursorOf, if_neg hnul]
              rfl
            rw [Store.followPages, herror]
        rw [hrefused]
        rfl

end

/-! ## Exact pagination -/

/-- Whatever the page limits, following the cursors from the empty one ends, and gives each
listed instance once, in strictly increasing order of the sort key. -/
def PagesExactly (lower : Char → Char) (hash : List Byte → List Byte) (s : Store) (tenant : String)
    (filter : ApplicationFilter) : Prop :=
  ∀ limits : Nat → Int, ∃ (fuel : Nat) (rows : List Joined),
    s.followPages lower hash tenant filter limits fuel 0 "" = some (rows.map (scanInstance tenant)) ∧
    rows.Perm (s.listing lower tenant filter) ∧ rows.Pairwise fun r r' => sortKey r < sortKey r'

/-- The cursor made from `r` holds no NUL and stands between `r` and the next row. -/
def CursorBetween (lower : Char → Char) (r next : Joined) : Prop :=
  NulFree lower r ∧ sortKey r ≤ cursorKey lower r ∧ cursorKey lower r < sortKey next

instance (lower : Char → Char) (r next : Joined) : Decidable (CursorBetween lower r next) :=
  inferInstanceAs (Decidable (_ ∧ _ ∧ _))

theorem between_iff {lower : Char → Char} {r next : Joined} :
    Pagination.Between sortKey (resume lower) r next ↔ CursorBetween lower r next := by
  unfold Pagination.Between CursorBetween
  constructor
  · intro ⟨c, hc, hlow, hhigh⟩
    obtain ⟨hnul, rfl⟩ := resume_eq_some.mp hc
    exact ⟨hnul, hlow, hhigh⟩
  · intro ⟨hnul, hlow, hhigh⟩
    exact ⟨cursorKey lower r, resume_eq_some.mpr ⟨hnul, rfl⟩, hlow, hhigh⟩

theorem Store.Keyed.scanInstance_inj {s : Store} (h : s.Keyed) {lower : Char → Char} {tenant : String}
    {filter : ApplicationFilter} {r r' : Joined} (hr : r ∈ s.listing lower tenant filter)
    (hr' : r' ∈ s.listing lower tenant filter) (he : scanInstance tenant r = scanInstance tenant r') :
    r = r' := by
  have hkeys : (s.joined.map fun r => r.2.key).Nodup := List.pairwise_map.mpr h.joined
  apply eq_of_key hkeys (List.mem_filter.mp hr).1 (List.mem_filter.mp hr').1
  exact listing_key hr hr' (congrArg (·.appId) he) (congrArg (·.deployId) he)

/-- The pages are exact when, and only when, every cursor of the listing lies between the
row it was made from and the next one. -/
theorem pages_exact_iff {lower : Char → Char} {hash : List Byte → List Byte} {s : Store}
    (h : s.Keyed) (tenant : String) (filter : ApplicationFilter) :
    PagesExactly lower hash s tenant filter ↔
      (s.sorted lower tenant filter).IsChain (CursorBetween lower) := by
  have hsorted := Pagination.orderBy_lt (h.listing lower tenant filter)
  have hperm : (s.sorted lower tenant filter).Perm (s.listing lower tenant filter) :=
    Pagination.orderBy_perm _ _
  have hstart : StandsFor lower (cursorScope lower hash tenant filter) "" none := rfl
  rw [← List.IsChain.iff fun _ _ => between_iff]
  constructor
  · intro hexact
    obtain ⟨fuel, rows, hfollow, hrows, hlt⟩ := hexact fun _ => 1
    obtain rfl : rows = s.sorted lower tenant filter :=
      Pagination.eq_of_perm_of_lt (hrows.trans hperm.symm) hlt hsorted
    rw [followPages_eq h _ fuel 0 hstart] at hfollow
    obtain ⟨rows, hrows, he⟩ := Option.map_eq_some_iff.mp hfollow
    obtain rfl : rows = s.sorted lower tenant filter := by
      refine eq_of_map_eq ?_ he
      intro r hr r' hr'
      exact h.scanInstance_inj (hperm.mem_iff.mp (Pagination.follow_mem hrows r hr))
        (hperm.mem_iff.mp hr')
    exact Pagination.between_of_follow hsorted _ [] fuel 0 none rfl hrows
  · intro hchain limits
    obtain ⟨fuel, hfuel⟩ := Pagination.follow_all hsorted hchain fun k => pageLimit_pos (limits k)
    refine ⟨fuel, s.sorted lower tenant filter, ?_, hperm, hsorted⟩
    rw [followPages_eq h limits fuel 0 hstart]
    exact congrArg (Option.map _) hfuel

/-- Pages are exact as long as `name_sort` is the name in lower case, with no NUL in it or in
the ids. -/
theorem pages_exact_of_lower {lower : Char → Char} {hash : List Byte → List Byte} {s : Store}
    (h : s.Keyed) {tenant : String} {filter : ApplicationFilter}
    (hrows : ∀ r ∈ s.listing lower tenant filter,
      r.1.nameSort = toLower lower r.1.name ∧ NulFree lower r) :
    PagesExactly lower hash s tenant filter := by
  apply (pages_exact_iff h tenant filter).mpr
  have hsorted := Pagination.orderBy_lt (h.listing lower tenant filter)
  have hperm : (s.sorted lower tenant filter).Perm (s.listing lower tenant filter) :=
    Pagination.orderBy_perm _ _
  refine List.Pairwise.isChain (hsorted.imp_of_mem ?_)
  intro r next hr _ hlt
  obtain ⟨hname, hnul⟩ := hrows r (hperm.mem_iff.mp hr)
  have hkey : sortKey r = cursorKey lower r := by
    unfold sortKey cursorKey
    rw [hname]
  exact ⟨hnul, hkey.le, hkey ▸ hlt⟩

/-- After any history of synchronisations, pagination is exact if and only if each cursor of
the listing has no NUL in it and stands between the row it was made from and the next. -/
theorem pagination_exact_iff (lower : Char → Char) (hash : List Byte → List Byte) {s : Store}
    (h : Synced lower s) (tenant : String) (filter : ApplicationFilter) :
    PagesExactly lower hash s tenant filter ↔
      (s.sorted lower tenant filter).IsChain (CursorBetween lower) :=
  pages_exact_iff h.keyed tenant filter

/-! ### A catalog of two applications -/

def catalogAB : List ApplicationInstance :=
  [⟨"tenant-a", "cloud.a", "Beta", "", "deploy-a", true, .backupable⟩,
    ⟨"tenant-a", "cloud.b", "alpha", "", "deploy-b", true, .backupable⟩]

/-- The database after `n` synchronisations that found the same applications. -/
def syncedTimes : Nat → Store
  | 0 => Store.empty
  | n + 1 =>
    match (syncedTimes n).replaceInstances Char.toLower "tenant-a" catalogAB with
    | .ok s => s
    | .error _ => syncedTimes n

theorem syncedTimes_synced (n : Nat) : Synced Char.toLower (syncedTimes n) := by
  induction n with
  | zero => exact .empty rfl rfl
  | succ n ih =>
    unfold syncedTimes
    split
    next s hs => exact .sync ih hs
    next => exact ih

def noFilter : ApplicationFilter := ⟨"", "", "", "", "", 0⟩

theorem pagination_exact_first_sync :
    PagesExactly Char.toLower id (syncedTimes 1) "tenant-a" noFilter :=
  (pagination_exact_iff _ _ (syncedTimes_synced 1) _ _).mpr (by decide +kernel)

/-- After a second synchronisation `Beta` comes first, its cursor says `beta`, and `alpha` is
in no page. -/
theorem pagination_skips_resynced :
    ¬∀ s, Synced Char.toLower s → ∀ filter, PagesExactly Char.toLower id s "tenant-a" filter := by
  intro h
  have hchain := (pages_exact_iff (syncedTimes_synced 2).keyed _ _).mp
    (h _ (syncedTimes_synced 2) noFilter)
  exact absurd hchain (by decide +kernel)

end AppBackup.Persistence
