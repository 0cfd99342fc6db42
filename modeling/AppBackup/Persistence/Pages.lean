import AppBackup.Lib.Decimal
import AppBackup.Persistence.Instances
import AppBackup.Persistence.Library
import AppBackup.Persistence.Operations
import AppBackup.Persistence.Queue

/- The lists that are read a page at a time by a time and an id, newest first: tasks,
   batches, snapshots, alerts and the audit trail (`persistence/queue.go`, `store.go`,
   `operations.go`). The five queries have one shape: the rows of a filter below the
   cursor, one more than the limit of them, and a cursor made from the last row within
   it. A cursor holds the hash of what it was issued for.

   Between two fetches the tables may change in any way: the walk at the end reads its
   `k`-th page from whatever database there is by then.

   What is proved:
     1. `fetch_page` -- the five queries are one, at their own key sets;
     2. `page_places`, `page_nextCursor` -- one fetch is a page of the sorted places, and its
        cursor one of its scope;
     3. `walk_stable` -- a walk over changing databases returns no row twice, and each row that
        is there throughout just once;
     4. `rejects_foreign` -- a cursor issued for other parts is refused, as far as the hash has
        no collisions. -/
namespace AppBackup

/-- The text of the `status` column of a task. -/
def TaskStatus.text : TaskStatus → String
  | queued => "QUEUED"
  | leased => "LEASED"
  | prechecking => "PRECHECKING"
  | scanning => "SCANNING"
  | sqliteSnapshot => "SQLITE_SNAPSHOT"
  | zipWriting => "ZIP_WRITING"
  | verifying => "VERIFYING"
  | committing => "COMMITTING"
  | succeeded => "SUCCEEDED"
  | succeededWithWarnings => "SUCCEEDED_WITH_WARNINGS"
  | failed => "FAILED"
  | cancelled => "CANCELLED"
  | timedOut => "TIMED_OUT"
  | skipped => "SKIPPED"
  | interrupted => "INTERRUPTED"

namespace Persistence
open Table Base64

structure TaskFilter where
  limit : Int
  cursor : String
  status : String
  batchId : String
  deployId : String

structure AlertFilter where
  cursor : String
  limit : Int
  status : String

/-- `domain.TaskPage` and its like. -/
structure Page (ι : Type) where
  items : List ι
  nextCursor : String

/-- The control database with all its tables. -/
structure Database where
  store : Store
  operations : Operations

/-! ## The cursor -/

/-- What `scopedCursor` hashes. -/
def scopeText (parts : List String) : List Byte := joinNul ("mimi-cursor-v2" :: parts |>.map utf8)

def encodeTimeCursor (scope : String) (timestamp : Int) (id : String) : String :=
  encode (joinNul [utf8 scope, Decimal.formatInt timestamp, utf8 id])

def decodeTimeCursor (value scope : String) : Except StoreError (Int × List Byte) :=
  if value = "" then .ok (0, [])
  else
    match decode value with
    | none => .error (.invalid "invalid cursor")
    | some decoded =>
      match decoded.splitOn 0 with
      | [first, timestamp, id] =>
        if first = utf8 scope ∧ id ≠ [] then
          match Decimal.parseInt timestamp with
          | some timestamp => .ok (timestamp, id)
          | none => .error (.invalid "invalid cursor: timestamp")
        else .error (.invalid "invalid cursor: shape")
      | _ => .error (.invalid "invalid cursor: shape")

/-! ## One query -/

/-- A row's place in its list: its time and its id. -/
abbrev Place := Int × String

/-- `created_at < ? OR (created_at = ? AND id < ?)`. -/
def below (timestamp : Int) (id : List Byte) (p : Place) : Bool :=
  decide (p.1 < timestamp) || (p.1 == timestamp && decide (utf8 p.2 < id))

/-- `created_at DESC, id DESC`, as `ORDER BY` compares them. -/
abbrev Rank := (Int ×ₗ List Byte)ᵒᵈ

def rank (p : Place) : Rank := OrderDual.toDual (toLex (p.1, utf8 p.2))

/-- What the five queries differ in: the columns that give a row its place, the scan of a
row, and the fields of an item its place is read from. -/
structure Keyset (ρ ι : Type) where
  column : ρ → Place
  scan : ρ → ι
  field : ι → Time × String
  field_scan : ∀ r, (unix (field (scan r)).1, (field (scan r)).2) = column r

namespace Keyset
variable {ρ ι : Type}

/-- The place of an item. -/
def place (q : Keyset ρ ι) (item : ι) : Place := (unix (q.field item).1, (q.field item).2)

/-- The page of the rows the query gave. -/
def cut (q : Keyset ρ ι) (scope : String) (limit : Nat) (rows : List ρ) : Page ι :=
  let items := (rows.take (limit + 1)).map q.scan
  if h : limit < items.length then
    let last := items[limit - 1]
    ⟨items.take limit, encodeTimeCursor scope (unix (q.field last).1) (q.field last).2⟩
  else ⟨items, ""⟩

/-- A page has 1 to 200 items, 50 by default. -/
def limitOf (limit : Int) : Nat := if limit ≤ 0 ∨ 200 < limit then 50 else limit.toNat

def page (q : Keyset ρ ι) (scope cursor : String) (limit : Int) (rows : List ρ) :
    Except StoreError (Page ι) := do
  let (timestamp, id) ← decodeTimeCursor cursor scope
  let rows := rows.filter fun r => cursor == "" || below timestamp id (q.column r)
  return q.cut scope (limitOf limit) (Pagination.orderBy (fun r => rank (q.column r)) rows)

end Keyset

/-! ## The five lists -/

theorem unix_ofUnix (seconds : Int) : unix (ofUnix seconds) = seconds :=
  Int.mul_ediv_cancel seconds (by decide)

def taskKeyset : Keyset TaskRow BackupTask where
  column r := (r.createdAt, r.id)
  scan := scanTask
  field item := (item.createdAt, item.id)
  field_scan r := by
    show (unix (ofUnix r.createdAt), r.id) = _
    rw [unix_ofUnix]

def batchKeyset : Keyset BatchRow BackupBatch where
  column r := (r.createdAt, r.id)
  scan := scanBatch
  field item := (item.createdAt, item.id)
  field_scan r := by
    show (unix (ofUnix r.createdAt), r.id) = _
    rw [unix_ofUnix]

def snapshotKeyset : Keyset SnapshotRow Snapshot where
  column r := (r.finishedAt, r.id)
  scan := scanSnapshot
  field item := (item.finishedAt, item.id)
  field_scan r := by
    show (unix (ofUnix r.finishedAt), r.id) = _
    rw [unix_ofUnix]

def alertKeyset : Keyset AlertRow Alert where
  column r := (r.createdAt, r.id)
  scan := scanAlert
  field item := (item.createdAt, item.id)
  field_scan r := by
    show (unix (ofUnix r.createdAt), r.id) = _
    rw [unix_ofUnix]

def auditKeyset : Keyset AuditRow AuditEntry where
  column r := (r.createdAt, r.id)
  scan := scanAudit
  field item := (item.createdAt, item.id)
  field_scan r := by
    show (unix (ofUnix r.createdAt), r.id) = _
    rw [unix_ofUnix]

/-- The `WHERE` clause of `TasksPage` but for the cursor. -/
def taskListed (tenant status batchId deployId : String) (t : TaskRow) : Bool :=
  t.tenantUid == tenant && (status == "" || t.status.text == status) &&
  (batchId == "" || t.batchId == batchId) && (deployId == "" || t.deployId == deployId)

def Store.tasksPage (hash : List Byte → List Byte) (s : Store) (tenant : String) (filter : TaskFilter) :
    Except StoreError (Page BackupTask) :=
  let scope := scopedCursor hash ["tasks", tenant, filter.status, filter.batchId, filter.deployId]
  taskKeyset.page scope filter.cursor filter.limit
    (s.tasks.filter (taskListed tenant filter.status filter.batchId filter.deployId))

def Store.batchesPage (hash : List Byte → List Byte) (s : Store) (tenant cursor : String) (limit : Int) :
    Except StoreError (Page BackupBatch) :=
  batchKeyset.page (scopedCursor hash ["batches", tenant]) cursor limit
    (s.batches.filter (·.tenantUid == tenant))

/-- `WHERE tenant_uid=? AND retention_status <> 'TRASHED'`. -/
def snapshotListed (tenant : String) (sn : SnapshotRow) : Bool :=
  sn.tenantUid == tenant && sn.retentionStatus != .trashed

def Store.listSnapshotsPage (hash : List Byte → List Byte) (s : Store) (tenant cursor : String)
    (limit : Int) : Except StoreError (Page Snapshot) :=
  snapshotKeyset.page (scopedCursor hash ["snapshots", tenant]) cursor limit
    (s.snapshots.filter (snapshotListed tenant))

/-- `ALL` is no filter. -/
def plainStatus (status : String) : String := if status = "ALL" then "" else status

def alertListed (tenant status : String) (r : AlertRow) : Bool :=
  r.tenantUid == tenant && (status == "" || r.status.text == status)

def Operations.alertsPage (hash : List Byte → List Byte) (s : Operations) (tenant : String)
    (filter : AlertFilter) : Except StoreError (Page Alert) :=
  let status := plainStatus filter.status
  alertKeyset.page (scopedCursor hash ["alerts", tenant, status]) filter.cursor filter.limit
    (s.alerts.filter (alertListed tenant status))

def Operations.auditsPage (hash : List Byte → List Byte) (s : Operations) (tenant cursor : String)
    (limit : Int) : Except StoreError (Page AuditEntry) :=
  auditKeyset.page (scopedCursor hash ["audit", tenant]) cursor limit
    (s.audits.filter (·.tenantUid == tenant))

/-! ## A list and its walks -/

/-- One of the five lists, with its tenant and its filter. -/
inductive Listing where
  | tasks (tenant status batchId deployId : String)
  | batches (tenant : String)
  | snapshots (tenant : String)
  | alerts (tenant status : String)
  | audits (tenant : String)
  deriving DecidableEq

/-- A page as the places of its items. -/
def Keyset.places {ρ ι : Type} (q : Keyset ρ ι) (page : Except StoreError (Page ι)) :
    Except StoreError (Page Place) :=
  page.map fun p => ⟨p.items.map q.place, p.nextCursor⟩

namespace Listing

/-- The same list under its plain filter. -/
def plain : Listing → Listing
  | alerts tenant status => alerts tenant (plainStatus status)
  | l => l

/-- The parts of the scope of a cursor. -/
def parts : Listing → List String
  | tasks tenant status batchId deployId => ["tasks", tenant, status, batchId, deployId]
  | batches tenant => ["batches", tenant]
  | snapshots tenant => ["snapshots", tenant]
  | alerts tenant status => ["alerts", tenant, plainStatus status]
  | audits tenant => ["audit", tenant]

/-- The places of the rows the list is about. -/
def rows (db : Database) : Listing → List Place
  | tasks tenant status batchId deployId =>
    (db.store.tasks.filter (taskListed tenant status batchId deployId)).map taskKeyset.column
  | batches tenant => (db.store.batches.filter (·.tenantUid == tenant)).map batchKeyset.column
  | snapshots tenant => (db.store.snapshots.filter (snapshotListed tenant)).map snapshotKeyset.column
  | alerts tenant status =>
    (db.operations.alerts.filter (alertListed tenant (plainStatus status))).map alertKeyset.column
  | audits tenant => (db.operations.audits.filter (·.tenantUid == tenant)).map auditKeyset.column

/-- One fetch of the list. -/
def fetch (hash : List Byte → List Byte) (db : Database) (cursor : String) (limit : Int) :
    Listing → Except StoreError (Page Place)
  | tasks tenant status batchId deployId =>
    taskKeyset.places (db.store.tasksPage hash tenant ⟨limit, cursor, status, batchId, deployId⟩)
  | batches tenant => batchKeyset.places (db.store.batchesPage hash tenant cursor limit)
  | snapshots tenant => snapshotKeyset.places (db.store.listSnapshotsPage hash tenant cursor limit)
  | alerts tenant status =>
    alertKeyset.places (db.operations.alertsPage hash tenant ⟨cursor, limit, status⟩)
  | audits tenant => auditKeyset.places (db.operations.auditsPage hash tenant cursor limit)

/-- The first `n` pages from a cursor on, the `k`-th with the limit `limits k` from the
database `db k`, and whether the last of them had no next cursor. -/
def walk (hash : List Byte → List Byte) (l : Listing) (db : Nat → Database) (limits : Nat → Int) :
    Nat → Nat → String → Except StoreError (List Place × Bool)
  | 0, _, _ => .ok ([], false)
  | n + 1, k, cursor => do
    let page ← l.fetch hash (db k) cursor (limits k)
    if page.nextCursor = "" then return (page.items, true)
    let more ← walk hash l db limits n (k + 1) page.nextCursor
    return (page.items ++ more.1, more.2)

end Listing

/-! ## The cursor reads back -/

/-- A row whose id is not empty and has no NUL in it, and whose time fits its column. -/
def Clean (p : Place) : Prop := p.2 ≠ "" ∧ 0 ∉ utf8 p.2 ∧ Decimal.Fits p.1

instance (p : Place) : Decidable (Clean p) := inferInstanceAs (Decidable (_ ∧ _ ∧ _))

theorem rank_injective : Function.Injective rank := by
  intro p p' h
  have hpair := Prod.ext_iff.mp (toLex_inj.mp (OrderDual.toDual_inj.mp h))
  exact Prod.ext hpair.1 (utf8_injective hpair.2)

theorem below_eq (p p' : Place) : below p.1 (utf8 p.2) p' = decide (rank p < rank p') := by
  rw [Bool.eq_iff_iff, decide_eq_true_iff]
  unfold below rank
  simp only [OrderDual.toDual_lt_toDual, Prod.Lex.toLex_lt_toLex, Bool.or_eq_true, Bool.and_eq_true,
    beq_iff_eq, decide_eq_true_iff]

theorem utf8_ne_nil {text : String} (h : text ≠ "") : utf8 text ≠ [] := by
  intro hnil
  exact h (utf8_injective hnil)

theorem encodeTimeCursor_ne_empty (scope : String) (timestamp : Int) (id : String) :
    encodeTimeCursor scope timestamp id ≠ "" :=
  encode_ne_empty (by simp [joinNul, List.intercalate_cons_cons])

theorem nul_notMem_scopedCursor (hash : List Byte → List Byte) (parts : List String) :
    0 ∉ utf8 (scopedCursor hash parts) :=
  nul_notMem_encode _

theorem decodeTimeCursor_encodeTimeCursor {scope : String} (hscope : 0 ∉ utf8 scope) {p : Place}
    (hp : Clean p) : decodeTimeCursor (encodeTimeCursor scope p.1 p.2) scope = .ok (p.1, utf8 p.2) := by
  have hfields : ∀ field ∈ [utf8 scope, Decimal.formatInt p.1, utf8 p.2], 0 ∉ field := by
    simp [hscope, hp.2.1, Decimal.nul_notMem_formatInt]
  unfold decodeTimeCursor
  rw [if_neg (encodeTimeCursor_ne_empty _ _ _)]
  unfold encodeTimeCursor joinNul
  rw [decode_encode]
  simp only [List.splitOn_intercalate 0 hfields (by simp), Decimal.parseInt_formatInt hp.2.2]
  rw [if_pos ⟨trivial, utf8_ne_nil hp.1⟩]

/-- The first field of a cursor is the scope it was issued for. -/
theorem decodeTimeCursor_other {scope scope' : String} (hscope : 0 ∉ utf8 scope) (hne : scope ≠ scope')
    (rest : List (List Byte)) (hrest : rest ≠ []) :
    decodeTimeCursor (encode (joinNul (utf8 scope :: rest))) scope' =
      .error (.invalid "invalid cursor: shape") := by
  obtain ⟨field, fields, rfl⟩ := List.exists_cons_of_ne_nil hrest
  have hsplit : (joinNul (utf8 scope :: field :: fields)).splitOn 0 =
      utf8 scope :: (joinNul (field :: fields)).splitOn 0 := by
    unfold joinNul
    rw [List.intercalate_cons_cons, List.append_assoc, List.singleton_append]
    exact List.splitOn_append_cons_self_of_not_mem hscope _
  have hfirst : utf8 scope ≠ utf8 scope' := fun h => hne (utf8_injective h)
  unfold decodeTimeCursor
  rw [if_neg (encode_ne_empty (by simp [joinNul, List.intercalate_cons_cons])), decode_encode]
  simp only [hsplit]
  generalize (joinNul (field :: fields)).splitOn 0 = parts
  -- only a text of three parts is compared with the scope
  obtain _ | ⟨second, _ | ⟨third, _ | ⟨fourth, more⟩⟩⟩ := parts
  · rfl
  · rfl
  · exact if_neg fun h => hfirst h.1
  · rfl

/-- What a cursor stands for: the empty one for none, one made from a row for its rank. -/
def CursorFor (scope cursor : String) : Option Rank → Prop
  | none => cursor = ""
  | some c => ∃ p : Place, Clean p ∧ cursor = encodeTimeCursor scope p.1 p.2 ∧ c = rank p

theorem decodeTimeCursor_cursorFor {scope cursor : String} (hscope : 0 ∉ utf8 scope) {c : Option Rank}
    (hc : CursorFor scope cursor c) :
    ∃ timestamp id, decodeTimeCursor cursor scope = .ok (timestamp, id) ∧
      ∀ places : List Place, places.filter (fun p => cursor == "" || below timestamp id p) =
        Pagination.above rank c places := by
  cases c with
  | none =>
    obtain rfl : cursor = "" := hc
    exact ⟨0, [], rfl, fun places => rfl⟩
  | some c =>
    obtain ⟨p, hp, rfl, rfl⟩ := hc
    refine ⟨p.1, utf8 p.2, decodeTimeCursor_encodeTimeCursor hscope hp, ?_⟩
    intro places
    apply List.filter_congr
    intro p' _
    rw [beq_eq_false_iff_ne.mpr (encodeTimeCursor_ne_empty _ _ _), Bool.false_or, below_eq]

/-! ## One page is one page of the places -/

/-- A page of places with its cursor. -/
def pageOf (scope : String) : List Place × Option Place → Page Place
  | (items, none) => ⟨items, ""⟩
  | (items, some last) => ⟨items, encodeTimeCursor scope last.1 last.2⟩

namespace Keyset
variable {ρ ι : Type} (q : Keyset ρ ι)

theorem limitOf_pos (limit : Int) : 0 < limitOf limit := by
  unfold limitOf
  split <;> omega

theorem place_scan (r : ρ) : q.place (q.scan r) = q.column r := q.field_scan r

theorem map_place_scan (rows : List ρ) : (rows.map q.scan).map q.place = rows.map q.column := by
  rw [List.map_map]
  apply List.map_congr_left
  intro r _
  exact q.place_scan r

theorem cut_places (scope : String) {limit : Nat} (hlimit : 0 < limit) (c : Option Rank)
    (rows : List ρ) (places : List Place)
    (hrows : rows.map q.column = Pagination.above rank c places) :
    (⟨(q.cut scope limit rows).items.map q.place, (q.cut scope limit rows).nextCursor⟩ : Page Place) =
      pageOf scope (Pagination.page rank places limit c) := by
  have hlen : rows.length = (Pagination.above rank c places).length := by
    rw [← hrows, List.length_map]
  unfold cut
  simp only [List.length_map, List.length_take]
  by_cases hmore : limit < rows.length
  · have hin : limit - 1 < rows.length := by omega
    have hlast : (Pagination.above rank c places)[limit - 1]? = some (q.column rows[limit - 1]) := by
      rw [← hrows, List.getElem?_map, List.getElem?_eq_getElem (by omega), Option.map_some]
    rw [dif_pos (by omega), Pagination.page_more (by omega), hlast]
    simp only [List.getElem_map, List.getElem_take, ← List.map_take, List.take_take,
      Nat.min_eq_left (Nat.le_succ limit), pageOf, map_place_scan, ← hrows]
    rw [← q.field_scan]
  · rw [dif_neg (by omega), Pagination.page_last (by omega), List.take_of_length_le (by omega)]
    simp only [pageOf, map_place_scan, hrows]

/-- A fetch from a cursor of the scope is one page of the sorted places. -/
theorem page_places {scope cursor : String} (hscope : 0 ∉ utf8 scope) {c : Option Rank}
    (hc : CursorFor scope cursor c) (limit : Int) {rows : List ρ}
    (hkeys : (rows.map q.column).Pairwise fun p p' => rank p ≠ rank p') :
    q.places (q.page scope cursor limit rows) =
      .ok (pageOf scope (Pagination.page rank (Pagination.orderBy rank (rows.map q.column))
        (limitOf limit) c)) := by
  obtain ⟨timestamp, id, hdecode, hbelow⟩ := decodeTimeCursor_cursorFor hscope hc
  have hpage : q.page scope cursor limit rows =
      .ok (q.cut scope (limitOf limit) (Pagination.orderBy (fun r => rank (q.column r))
        (rows.filter fun r => cursor == "" || below timestamp id (q.column r)))) := by
    show (decodeTimeCursor cursor scope).bind _ = _
    rw [hdecode]
    rfl
  have habove : (rows.filter fun r => cursor == "" || below timestamp id (q.column r)).map q.column =
      Pagination.above rank c (rows.map q.column) := by
    rw [← hbelow, List.filter_map]
    rfl
  have hsorted : (Pagination.orderBy (fun r => rank (q.column r))
      (rows.filter fun r => cursor == "" || below timestamp id (q.column r))).map q.column =
      Pagination.above rank c (Pagination.orderBy rank (rows.map q.column)) := by
    calc (Pagination.orderBy (fun r => rank (q.column r))
          (rows.filter fun r => cursor == "" || below timestamp id (q.column r))).map q.column
        = Pagination.orderBy rank (Pagination.above rank c (rows.map q.column)) := by
          rw [Pagination.orderBy_map q.column, habove]
      _ = Pagination.above rank c (Pagination.orderBy rank (rows.map q.column)) :=
          Pagination.orderBy_filter hkeys _
  rw [hpage]
  exact congrArg Except.ok (q.cut_places scope (limitOf_pos limit) c _ _ hsorted)

theorem page_nextCursor {scope cursor : String} {limit : Int} {rows : List ρ} {page : Page Place}
    (h : q.places (q.page scope cursor limit rows) = .ok page) (hnext : page.nextCursor ≠ "") :
    ∃ timestamp id, page.nextCursor = encodeTimeCursor scope timestamp id := by
  unfold places Keyset.page at h
  cases hdecode : decodeTimeCursor cursor scope with
  | error e =>
    rw [hdecode] at h
    cases h
  | ok found =>
    rw [hdecode] at h
    obtain rfl := Except.ok.inj h
    unfold cut at hnext ⊢
    simp only at hnext ⊢
    by_cases hmore : limitOf limit < (((Pagination.orderBy (fun r => rank (q.column r))
        (rows.filter fun r => cursor == "" || below found.1 found.2 (q.column r))).take
          (limitOf limit + 1)).map q.scan).length
    · rw [dif_pos hmore]
      exact ⟨_, _, rfl⟩
    · rw [dif_neg hmore] at hnext
      exact absurd rfl hnext

end Keyset

/-! ## The pages of a walk -/

theorem places_distinct {ρ : Type} {column : ρ → Place} {id : ρ → String} {rows : List ρ}
    (hcolumn : ∀ r, (column r).2 = id r) (h : (rows.map id).Nodup) (p : ρ → Bool) :
    ((rows.filter p).map column).Pairwise fun q q' => rank q ≠ rank q' := by
  have hids : (rows.filter p).Pairwise fun r r' => id r ≠ id r' :=
    (List.pairwise_map.mp h).sublist List.filter_sublist
  rw [List.pairwise_map]
  refine hids.imp ?_
  intro r r' hne hrank
  apply hne
  rw [← hcolumn, ← hcolumn, rank_injective hrank]

namespace Listing
variable {hash : List Byte → List Byte}

/-- The scope of the cursors of a list. -/
def scope (hash : List Byte → List Byte) (l : Listing) : String := scopedCursor hash l.parts

theorem rows_distinct (l : Listing) (db : Database) :
    (l.rows db).Pairwise fun p p' => rank p ≠ rank p' := by
  cases l with
  | tasks => exact places_distinct (fun _ => rfl) db.store.tasks_pk _
  | batches => exact places_distinct (fun _ => rfl) db.store.batches_pk _
  | snapshots => exact places_distinct (fun _ => rfl) db.store.snapshots_pk _
  | alerts => exact places_distinct (fun _ => rfl) db.operations.alerts_pk _
  | audits => exact places_distinct (fun _ => rfl) db.operations.audits_pk _

theorem fetch_page (l : Listing) (db : Database) (cursor : String) (limit : Int) :
    ∃ (ρ ι : Type) (q : Keyset ρ ι) (rows : List ρ),
      l.fetch hash db cursor limit = q.places (q.page (l.scope hash) cursor limit rows) ∧
        rows.map q.column = l.rows db := by
  cases l with
  | tasks => exact ⟨_, _, taskKeyset, _, rfl, rfl⟩
  | batches => exact ⟨_, _, batchKeyset, _, rfl, rfl⟩
  | snapshots => exact ⟨_, _, snapshotKeyset, _, rfl, rfl⟩
  | alerts => exact ⟨_, _, alertKeyset, _, rfl, rfl⟩
  | audits => exact ⟨_, _, auditKeyset, _, rfl, rfl⟩

theorem fetch_eq (l : Listing) (db : Database) {cursor : String} {c : Option Rank}
    (hc : CursorFor (l.scope hash) cursor c) (limit : Int) :
    l.fetch hash db cursor limit = .ok (pageOf (l.scope hash)
      (Pagination.page rank (Pagination.orderBy rank (l.rows db)) (Keyset.limitOf limit) c)) := by
  obtain ⟨ρ, ι, q, rows, hfetch, hrows⟩ := @fetch_page hash l db cursor limit
  rw [hfetch, ← hrows]
  apply q.page_places (nul_notMem_scopedCursor _ _) hc
  rw [hrows]
  exact l.rows_distinct db

/-- No cursor of a walk is refused, and its pages are those of the sorted places. -/
theorem walk_eq (l : Listing) {db : Nat → Database} (hclean : ∀ k, ∀ p ∈ l.rows (db k), Clean p)
    (limits : Nat → Int) (n : Nat) : ∀ (k : Nat) {cursor : String} {c : Option Rank},
      CursorFor (l.scope hash) cursor c →
        l.walk hash db limits n k cursor = .ok (Pagination.walk rank (fun k => l.rows (db k))
          (fun k => Keyset.limitOf (limits k)) n k c) := by
  induction n with
  | zero =>
    intro k cursor c _
    rfl
  | succ n ih =>
    intro k cursor c hc
    rw [walk, Pagination.walk, l.fetch_eq (db k) hc]
    obtain hpage | ⟨items, last, rest, hpage, -, hsplit⟩ := Pagination.page_split rank
      (Pagination.orderBy rank (l.rows (db k))) (Keyset.limitOf_pos (limits k)) c
    · rw [hpage]
      rfl
    · rw [hpage]
      have hlast : Clean last := by
        apply hclean k
        have hmem : last ∈ Pagination.above rank c (Pagination.orderBy rank (l.rows (db k))) := by
          rw [hsplit]
          simp
        exact (Pagination.orderBy_perm rank _).mem_iff.mp (Pagination.mem_above.mp hmem).1
      have hnext : (pageOf (l.scope hash) (items ++ [last], some last)).nextCursor ≠ "" :=
        encodeTimeCursor_ne_empty _ _ _
      show (if (pageOf (l.scope hash) (items ++ [last], some last)).nextCursor = "" then
        pure _ else _) = _
      rw [if_neg hnext]
      show (l.walk hash db limits n (k + 1) (encodeTimeCursor (l.scope hash) last.1 last.2)).bind _ = _
      have hcursor : CursorFor (l.scope hash) (encodeTimeCursor (l.scope hash) last.1 last.2)
          (some (rank last)) := ⟨last, hlast, rfl, rfl⟩
      rw [ih (k + 1) hcursor]
      rfl

end Listing

/-! ## Stable pages -/

/-- `p` comes before `q` in a list: it is newer, or of the same time with the larger id. -/
def Newer (p q : Place) : Prop := q.1 < p.1 ∨ (q.1 = p.1 ∧ utf8 q.2 < utf8 p.2)

theorem newer_iff {p q : Place} : Newer p q ↔ rank p < rank q := by
  unfold Newer rank
  rw [OrderDual.toDual_lt_toDual, Prod.Lex.toLex_lt_toLex]

/-- Fetched one after the other, whatever happens to the tables in between, the pages of a
list are never refused and are in its order, of rows listed at one of the fetches; once they
have come to an end, each row that was there and listed at every fetch has been returned
exactly once, and over tables that stay as they are they do come to an end. -/
def PagesStable (hash : List Byte → List Byte) (l : Listing) (db : Nat → Database)
    (limits : Nat → Int) : Prop :=
  (∀ n, ∃ places ended, l.walk hash db limits n 0 "" = .ok (places, ended) ∧
    places.Pairwise Newer ∧ (∀ p ∈ places, ∃ k < n, p ∈ l.rows (db k)) ∧
    (ended = true → ∀ p, (∀ k < n, p ∈ l.rows (db k)) → places.count p = 1)) ∧
  ((∀ k, db k = db 0) → ∃ n places, l.walk hash db limits n 0 "" = .ok (places, true))

theorem walk_stable (hash : List Byte → List Byte) (l : Listing) (db : Nat → Database)
    (limits : Nat → Int) (hclean : ∀ k, ∀ p ∈ l.rows (db k), Clean p) :
    PagesStable hash l db limits := by
  have hkeys : ∀ k, (l.rows (db k)).Pairwise fun p p' => rank p ≠ rank p' :=
    fun k => l.rows_distinct (db k)
  have hlimits : ∀ k, 0 < Keyset.limitOf (limits k) := fun k => Keyset.limitOf_pos (limits k)
  have hstart : CursorFor (l.scope hash) "" none := rfl
  refine ⟨?_, ?_⟩
  · intro n
    refine ⟨_, _, l.walk_eq hclean limits n 0 hstart, ?_, ?_, ?_⟩
    · refine (Pagination.walk_sorted hlimits hkeys n 0 none).1.imp ?_
      intro p q hlt
      exact newer_iff.mpr hlt
    · intro p hp
      obtain ⟨k, hk, hmem⟩ := Pagination.walk_mem hlimits n 0 none p hp
      exact ⟨k, hk, by simpa using hmem⟩
    · intro hended p hp
      have hsorted := (Pagination.walk_sorted hlimits hkeys n 0 none).1
      obtain ⟨p', hp', he⟩ := Pagination.walk_complete hlimits hkeys n 0 none (rank p) hended
        (fun c hc => by cases hc) fun i hi => ⟨p, by simpa using hp i hi, rfl⟩
      obtain rfl := rank_injective he
      apply List.count_eq_one_of_mem ?_ hp'
      refine hsorted.imp ?_
      intro q q' hlt heq
      rw [heq] at hlt
      exact lt_irrefl _ hlt
  · intro hsame
    obtain ⟨n, hn⟩ := Pagination.walk_ends hlimits hkeys (fun k => by rw [hsame k])
      _ 0 none (Nat.le_refl _)
    refine ⟨n, (Pagination.walk rank (fun k => l.rows (db k))
      (fun k => Keyset.limitOf (limits k)) n 0 none).1, ?_⟩
    rw [l.walk_eq hclean limits n 0 hstart, ← hn]

/-! ## Foreign cursors -/

def NulFreeParts (parts : List String) : Prop := ∀ part ∈ parts, 0 ∉ utf8 part

instance (parts : List String) : Decidable (NulFreeParts parts) :=
  inferInstanceAs (Decidable (∀ part ∈ parts, _))

/-- The hash tells the two scopes apart. -/
def CollisionFree (hash : List Byte → List Byte) (parts parts' : List String) : Prop :=
  hash (scopeText parts) = hash (scopeText parts') → scopeText parts = scopeText parts'

theorem scopeText_inj {parts parts' : List String} (hparts : NulFreeParts parts)
    (hparts' : NulFreeParts parts') (h : scopeText parts = scopeText parts') : parts = parts' := by
  have hsplit : ∀ {parts : List String}, NulFreeParts parts →
      (scopeText parts).splitOn 0 = ("mimi-cursor-v2" :: parts).map utf8 := by
    intro parts hparts
    apply List.splitOn_intercalate 0
    · intro field hfield
      obtain ⟨part, hpart, rfl⟩ := List.mem_map.mp hfield
      obtain rfl | hpart := List.mem_cons.mp hpart
      · decide
      · exact hparts part hpart
    · simp
  have hmap := congrArg (List.splitOn 0) h
  rw [hsplit hparts, hsplit hparts'] at hmap
  exact (List.cons.inj (List.map_injective_iff.mpr utf8_injective hmap)).2

theorem scopedCursor_inj {hash : List Byte → List Byte} {parts parts' : List String}
    (hfree : CollisionFree hash parts parts') (hparts : NulFreeParts parts)
    (hparts' : NulFreeParts parts') (h : scopedCursor hash parts = scopedCursor hash parts') :
    parts = parts' := by
  have hhash := congrArg decode h
  unfold scopedCursor at hhash
  rw [decode_encode, decode_encode] at hhash
  exact scopeText_inj hparts hparts' (hfree (Option.some.inj hhash))

/-- A cursor issued for other parts is refused. -/
theorem Listing.fetch_foreign {hash : List Byte → List Byte} (l : Listing) {parts : List String}
    (hfree : CollisionFree hash parts l.parts) (hparts : NulFreeParts parts)
    (hl : NulFreeParts l.parts) (hne : parts ≠ l.parts) {rest : List (List Byte)} (hrest : rest ≠ [])
    (db : Database) (limit : Int) :
    l.fetch hash db (encode (joinNul (utf8 (scopedCursor hash parts) :: rest))) limit =
      .error (.invalid "invalid cursor: shape") := by
  obtain ⟨ρ, ι, q, rows, hfetch, -⟩ := @fetch_page hash l db
    (encode (joinNul (utf8 (scopedCursor hash parts) :: rest))) limit
  have hscope : scopedCursor hash parts ≠ l.scope hash := by
    intro h
    exact hne (scopedCursor_inj hfree hparts hl h)
  rw [hfetch]
  unfold Keyset.places Keyset.page
  rw [decodeTimeCursor_other (nul_notMem_scopedCursor _ _) hscope rest hrest]
  rfl

/-- The parts of the scope of the cursors of `ListInstances`. -/
def applicationParts (lower : Char → Char) (tenant : String) (filter : ApplicationFilter) : List String :=
  ["applications", tenant, queryText lower filter, filter.mode, filter.capabilityStatus,
    filter.protectionStatus]

/-- A cursor that was issued for another list, tenant or filter is refused, also one of the
list of applications. -/
def RejectsForeign (hash : List Byte → List Byte) (l : Listing) : Prop :=
  (∀ (l' : Listing) (db' : Database) (cursor : String) (limit' : Int) (page : Page Place),
    l'.plain ≠ l.plain → NulFreeParts l'.parts → NulFreeParts l.parts →
    CollisionFree hash l'.parts l.parts →
    l'.fetch hash db' cursor limit' = .ok page → page.nextCursor ≠ "" →
    ∀ db limit, l.fetch hash db page.nextCursor limit =
      .error (.invalid "invalid cursor: shape")) ∧
  ∀ (lower : Char → Char) (s : Store) (tenant : String) (filter : ApplicationFilter)
    (page : ApplicationPage),
    NulFreeParts (applicationParts lower tenant filter) → NulFreeParts l.parts →
    CollisionFree hash (applicationParts lower tenant filter) l.parts →
    s.listInstances lower hash tenant filter = .ok page → page.nextCursor ≠ "" →
    ∀ db limit, l.fetch hash db page.nextCursor limit =
      .error (.invalid "invalid cursor: shape")

theorem Listing.parts_inj {l l' : Listing} (h : l.parts = l'.parts) : l.plain = l'.plain := by
  cases l <;> cases l' <;> simp_all [parts, plain]

theorem Listing.fetch_nextCursor {hash : List Byte → List Byte} {l : Listing} {db : Database}
    {cursor : String} {limit : Int} {page : Page Place} (h : l.fetch hash db cursor limit = .ok page)
    (hnext : page.nextCursor ≠ "") :
    ∃ timestamp id, page.nextCursor = encodeTimeCursor (l.scope hash) timestamp id := by
  obtain ⟨ρ, ι, q, rows, hfetch, -⟩ := @fetch_page hash l db cursor limit
  rw [hfetch] at h
  exact q.page_nextCursor h hnext

theorem listInstances_nextCursor {lower : Char → Char} {hash : List Byte → List Byte} {s : Store}
    {tenant : String} {filter : ApplicationFilter} {page : ApplicationPage}
    (h : s.listInstances lower hash tenant filter = .ok page) (hnext : page.nextCursor ≠ "") :
    ∃ name appId deploy, page.nextCursor =
      encodeCursor (scopedCursor hash (applicationParts lower tenant filter)) [name, appId, deploy] := by
  unfold Store.listInstances at h
  simp only at h
  cases hdecode : decodeCursor filter.cursor (cursorScope lower hash tenant filter) with
  | error e =>
    rw [hdecode] at h
    cases h
  | ok found =>
    rw [hdecode] at h
    obtain rfl := Except.ok.inj h
    unfold cutPage at hnext ⊢
    simp only at hnext ⊢
    split at hnext
    next hmore =>
      rw [dif_pos hmore]
      exact ⟨_, _, _, rfl⟩
    next => exact absurd rfl hnext

theorem rejects_foreign (hash : List Byte → List Byte) (l : Listing) : RejectsForeign hash l := by
  refine ⟨?_, ?_⟩
  · intro l' db' cursor limit' page hne hparts hl hfree hpage hnext db limit
    obtain ⟨timestamp, id, hcursor⟩ := Listing.fetch_nextCursor hpage hnext
    rw [hcursor]
    exact l.fetch_foreign hfree hparts hl (fun h => hne (Listing.parts_inj h)) (by simp) db limit
  · intro lower s tenant filter page hparts hl hfree hpage hnext db limit
    obtain ⟨name, appId, deploy, hcursor⟩ := listInstances_nextCursor hpage hnext
    have hkind : applicationParts lower tenant filter ≠ l.parts := by
      intro h
      have hhead : some "applications" = l.parts.head? := congrArg List.head? h
      cases l <;> simp [Listing.parts] at hhead
    rw [hcursor]
    exact l.fetch_foreign hfree hparts hl hkind (by simp) db limit

/-- Keyset pages are stable under concurrent writes, and their cursors are good for nothing
else. -/
theorem pages_stable (hash : List Byte → List Byte) (l : Listing) (db : Nat → Database)
    (limits : Nat → Int) (hclean : ∀ k, ∀ p ∈ l.rows (db k), Clean p) :
    PagesStable hash l db limits ∧ RejectsForeign hash l :=
  ⟨walk_stable hash l db limits hclean, rejects_foreign hash l⟩

/-! ### An audit trail -/

/-- The control database with the audit entries of one tenant at given times. -/
def auditTrail (entries : List (String × Int)) (h : (entries.map (·.1)).Nodup) : Database where
  store := Store.empty
  operations := { Operations.empty with
    audits := entries.map fun e => ⟨e.1, "tenant-a", "plan.created", "", "", "", "", e.2⟩
    audits_pk := by rw [List.map_map]; exact h }

/-- The entry the first page ended with is gone by the second fetch, and a newer one is there. -/
def auditTrailAt : Nat → Database
  | 0 => auditTrail [("audit-1", 1700000000), ("audit-2", 1700000000), ("audit-3", 1700000005)] (by decide)
  | _ => auditTrail [("audit-1", 1700000000), ("audit-2", 1700000000), ("audit-4", 1700000009)] (by decide)

theorem pages_stable_audits :
    PagesStable id (.audits "tenant-a") auditTrailAt (fun _ => 1) ∧
      RejectsForeign id (.audits "tenant-a") := by
  apply pages_stable id (.audits "tenant-a") auditTrailAt fun _ => 1
  intro k
  cases k with
  | zero => decide
  | succ k => exact (by decide : ∀ p ∈ (Listing.audits "tenant-a").rows (auditTrailAt 1), Clean p)

example : ((Listing.audits "tenant-a").walk id auditTrailAt (fun _ => 1) 3 0 "").toOption =
    some ([(1700000005, "audit-3"), (1700000000, "audit-2"), (1700000000, "audit-1")], true) := by
  decide +kernel

end Persistence

end AppBackup
