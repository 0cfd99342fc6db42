import Mathlib.Algebra.Ring.Int.Defs
import AppBackup.Domain.Types
import AppBackup.Lib.Table
import AppBackup.Persistence.Schema

/- Alerts, the audit trail and the event log (`persistence/operations.go`). No statement
   takes a row out of these tables. The event log is numbered by `AUTOINCREMENT`: a new
   event gets an id at least one larger than any the table ever had. Settings and the
   overview are left out. -/
namespace AppBackup

inductive AlertStatus where
  | open | muted | resolved
  deriving DecidableEq

/-- The text of the `status` column. -/
def AlertStatus.text : AlertStatus → String
  | «open» => "OPEN"
  | muted => "MUTED"
  | resolved => "RESOLVED"

structure Alert where
  id : String
  tenantUid : String
  level : String
  type : String
  code : String
  title : String
  message : String
  referenceType : String
  referenceId : String
  status : AlertStatus
  readAt : Option Time
  resolvedAt : Option Time
  mutedUntil : Option Time
  createdAt : Time
  updatedAt : Time

structure AuditEntry where
  id : String
  tenantUid : String
  action : String
  subject : String
  entityType : String
  entityId : String
  metadata : String
  createdAt : Time

structure Event where
  id : Int
  tenantUid : String
  type : String
  data : String
  createdAt : Time

namespace Persistence
open Table

structure AlertRow where
  id : String
  tenantUid : String
  level : String
  type : String
  code : String
  title : String
  message : String
  referenceType : String
  referenceId : String
  status : AlertStatus
  readAt : Option Int
  resolvedAt : Option Int
  mutedUntil : Option Int
  createdAt : Int
  updatedAt : Int

structure AuditRow where
  id : String
  tenantUid : String
  action : String
  subject : String
  entityType : String
  entityId : String
  metadata : String
  createdAt : Int

structure EventRow where
  id : Int
  tenantUid : String
  type : String
  data : String
  createdAt : Int

/-- The three tables, with the largest id the event log ever had. -/
structure Operations where
  alerts : List AlertRow
  audits : List AuditRow
  events : List EventRow
  sequence : Int
  alerts_pk : (alerts.map (·.id)).Nodup
  audits_pk : (audits.map (·.id)).Nodup
  events_pk : (events.map (·.id)).Pairwise (· < ·)
  events_positive : ∀ e ∈ events, 0 < e.id
  events_sequence : ∀ e ∈ events, e.id ≤ sequence
  sequence_range : 0 ≤ sequence ∧ sequence < 2 ^ 63

/-! ## Rows -/

def alertRow (value : Alert) : AlertRow where
  id := value.id
  tenantUid := value.tenantUid
  level := value.level
  type := value.type
  code := value.code
  title := value.title
  message := value.message
  referenceType := value.referenceType
  referenceId := value.referenceId
  status := value.status
  readAt := none
  resolvedAt := none
  mutedUntil := none
  createdAt := unix value.createdAt
  updatedAt := unix value.updatedAt

def scanAlert (r : AlertRow) : Alert where
  id := r.id
  tenantUid := r.tenantUid
  level := r.level
  type := r.type
  code := r.code
  title := r.title
  message := r.message
  referenceType := r.referenceType
  referenceId := r.referenceId
  status := r.status
  readAt := fromUnix r.readAt
  resolvedAt := fromUnix r.resolvedAt
  mutedUntil := fromUnix r.mutedUntil
  createdAt := ofUnix r.createdAt
  updatedAt := ofUnix r.updatedAt

def auditRow (value : AuditEntry) : AuditRow where
  id := value.id
  tenantUid := value.tenantUid
  action := value.action
  subject := value.subject
  entityType := value.entityType
  entityId := value.entityId
  metadata := value.metadata
  createdAt := unix value.createdAt

/-- The scan of a row of `AuditsPage`. -/
def scanAudit (r : AuditRow) : AuditEntry where
  id := r.id
  tenantUid := r.tenantUid
  action := r.action
  subject := r.subject
  entityType := r.entityType
  entityId := r.entityId
  metadata := r.metadata
  createdAt := ofUnix r.createdAt

/-- The scan of a row of `EventsAfter`. -/
def scanEvent (r : EventRow) : Event where
  id := r.id
  tenantUid := r.tenantUid
  type := r.type
  data := r.data
  createdAt := ofUnix r.createdAt

def alertIn (tenant id : String) (r : AlertRow) : Bool := r.tenantUid == tenant && r.id == id

namespace Operations

def empty : Operations where
  alerts := []
  audits := []
  events := []
  sequence := 0
  alerts_pk := List.nodup_nil
  audits_pk := List.nodup_nil
  events_pk := List.Pairwise.nil
  events_positive := by simp
  events_sequence := by simp
  sequence_range := by decide

/-! ## Alerts and audits -/

def createAlert (s : Operations) (value : Alert) : Except StoreError Operations :=
  if h : value.id ∉ s.alerts.map (·.id) then
    .ok { s with
      alerts := s.alerts ++ [alertRow value]
      alerts_pk := by
        rw [List.map_append]
        exact nodup_snoc s.alerts_pk h }
  else .error (.unique "alerts")

/-- An update of `alerts` that does not write the id: refused when it touches no row. -/
def updateAlert (s : Operations) (p : AlertRow → Bool) (f : AlertRow → AlertRow)
    (hf : ∀ r, (f r).id = r.id) : Except StoreError Operations :=
  if s.alerts.countP p = 1 then
    .ok { s with
      alerts := updateWhere p f s.alerts
      alerts_pk := by rw [map_updateWhere _ hf]; exact s.alerts_pk }
  else .error .notFound

def markAlertRead (s : Operations) (tenant id : String) (now : Time) : Except StoreError Operations :=
  s.updateAlert (alertIn tenant id)
    (fun r => { r with readAt := r.readAt.or (some (unix now)), updatedAt := unix now }) fun _ => rfl

def resolveAlert (s : Operations) (tenant id : String) (now : Time) : Except StoreError Operations :=
  s.updateAlert (fun r => alertIn tenant id r && r.status != .resolved)
    (fun r => { r with status := .resolved, resolvedAt := some (unix now), updatedAt := unix now })
    fun _ => rfl

def muteAlert (s : Operations) (tenant id : String) (mutedUntil now : Time) : Except StoreError Operations :=
  s.updateAlert (fun r => alertIn tenant id r && r.status != .resolved)
    (fun r => { r with status := .muted, mutedUntil := some (unix mutedUntil), updatedAt := unix now })
    fun _ => rfl

def appendAudit (s : Operations) (value : AuditEntry) : Except StoreError Operations :=
  if h : value.id ∉ s.audits.map (·.id) then
    .ok { s with
      audits := s.audits ++ [auditRow value]
      audits_pk := by
        rw [List.map_append]
        exact nodup_snoc s.audits_pk h }
  else .error (.unique "audit_entries")

/-! ## Events -/

/-- The row `AppendEvent` inserts; `gap` is what SQLite leaves between two ids. -/
def newEvent (s : Operations) (tenant type data : String) (now : Time) (gap : Nat) : EventRow where
  id := s.sequence + 1 + gap
  tenantUid := tenant
  type := type
  data := data
  createdAt := unix now

/-- Refused when there is no id left. -/
def appendEvent (s : Operations) (tenant type data : String) (now : Time) (gap : Nat) :
    Except StoreError Operations :=
  if h : s.sequence + 1 + gap < 2 ^ 63 then
    .ok { s with
      events := s.events ++ [s.newEvent tenant type data now gap]
      sequence := s.sequence + 1 + gap
      events_pk := by
        rw [List.map_append, List.pairwise_append]
        refine ⟨s.events_pk, List.pairwise_singleton _ _, ?_⟩
        intro i hi j hj
        obtain ⟨e, he, rfl⟩ := List.mem_map.mp hi
        obtain rfl := List.mem_singleton.mp hj
        have hle := s.events_sequence e he
        show e.id < s.sequence + 1 + gap
        omega
      events_positive := by
        intro e he
        obtain he | he := List.mem_append.mp he
        · exact s.events_positive e he
        · have hrange := s.sequence_range
          rw [List.mem_singleton.mp he]
          show 0 < s.sequence + 1 + gap
          omega
      events_sequence := by
        intro e he
        obtain he | he := List.mem_append.mp he
        · have hle := s.events_sequence e he
          omega
        · rw [List.mem_singleton.mp he]
          exact Int.le_refl _
      sequence_range := by
        have hrange := s.sequence_range
        omega }
  else .error (.invalid "database or disk is full")

/-- At most `limit` events, 100 by default and at most. The log is kept in the order of its
ids. -/
def eventsAfter (s : Operations) (tenant : String) (after : Int) (limit : Int) : List Event :=
  let limit := if limit ≤ 0 ∨ 100 < limit then 100 else limit.toNat
  ((s.events.filter fun e => e.tenantUid == tenant && decide (after < e.id)).take limit).map scanEvent

/-- `COALESCE(MAX(id), 0)`. -/
def latestEventID (s : Operations) (tenant : String) : Int :=
  ((s.events.filter (·.tenantUid == tenant)).map (·.id)).foldl max 0

/-! ## What they read -/

theorem appendEvent_ok {s s' : Operations} {tenant type data : String} {now : Time} {gap : Nat}
    (h : s.appendEvent tenant type data now gap = .ok s') :
    s'.events = s.events ++ [s.newEvent tenant type data now gap] := by
  unfold appendEvent at h
  split at h
  · obtain rfl := Except.ok.inj h
    rfl
  · cases h

theorem foldl_max_spec (ids : List Int) : ∀ start : Int,
    start ≤ ids.foldl max start ∧ ∀ bound, start ≤ bound → (∀ i ∈ ids, i ≤ bound) →
      ids.foldl max start ≤ bound := by
  induction ids with
  | nil =>
    intro start
    exact ⟨Int.le_refl _, fun bound h _ => h⟩
  | cons i ids ih =>
    intro start
    obtain ⟨hstart, hbound⟩ := ih (max start i)
    rw [List.foldl_cons]
    refine ⟨by omega, ?_⟩
    intro bound hle hall
    apply hbound bound
    · have hi := hall i (List.mem_cons_self ..)
      omega
    · exact fun j hj => hall j (List.mem_cons_of_mem _ hj)

theorem latestEventID_range (s : Operations) (tenant : String) :
    0 ≤ s.latestEventID tenant ∧ s.latestEventID tenant ≤ s.sequence := by
  obtain ⟨hstart, hbound⟩ := foldl_max_spec ((s.events.filter (·.tenantUid == tenant)).map (·.id)) 0
  refine ⟨hstart, hbound s.sequence s.sequence_range.1 ?_⟩
  intro i hi
  obtain ⟨e, he, rfl⟩ := List.mem_map.mp hi
  exact s.events_sequence e (List.mem_filter.mp he).1

end Operations

end Persistence

end AppBackup
