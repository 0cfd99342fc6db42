import AppBackup.Persistence.Jobs
import Mathlib.Data.List.Sort

/- The snapshots of the backup library (`persistence/library.go`): all of a tenant, those of a
   plan that are active, newest first, one by its id, the move of one to the trash, and the end of
   those that were moved there long ago. -/
namespace AppBackup.Persistence
open Table

/-- `scanSnapshot`. -/
def scanSnapshot (r : SnapshotRow) : Snapshot where
  id := r.id
  tenantUid := r.tenantUid
  jobId := r.jobId
  appId := r.appId
  applicationName := r.applicationName
  applicationVersion := r.applicationVersion
  deployId := r.deployId
  multiInstance := r.multiInstance
  sharedInstanceWarning := r.sharedInstanceWarning
  status := r.status
  storagePath := r.storagePath
  archiveName := r.archiveName
  archiveSize := r.archiveSize
  archiveSha256 := r.archiveSha256
  originalBytes := r.originalBytes
  fileCount := r.fileCount
  directoryCount := r.directoryCount
  sqliteCount := r.sqliteCount
  skippedCount := r.skippedCount
  warningCount := r.warningCount
  capturedAt := ofUnix r.capturedAt
  finishedAt := ofUnix r.finishedAt
  verificationStatus := r.verificationStatus
  verifiedAt := fromUnix r.verifiedAt
  planId := r.planId
  batchId := r.batchId
  taskId := r.taskId
  triggerType := r.triggerType
  retentionStatus := r.retentionStatus
  scope := r.scope.orFull
  trashedAt := fromUnix r.trashedAt

/-- `ORDER BY captured_at DESC, id DESC`. -/
def capturedFirst (r r' : SnapshotRow) : Bool :=
  decide (r'.capturedAt < r.capturedAt) || (r.capturedAt == r'.capturedAt && decide (r'.id ≤ r.id))

/-- The `WHERE` clause of `SnapshotsForPlan`. -/
def activeOfPlan (tenant planId : String) (r : SnapshotRow) : Bool :=
  r.tenantUid == tenant && r.planId == planId && r.retentionStatus == .active

def snapshotIn (tenant id : String) (r : SnapshotRow) : Bool := r.tenantUid == tenant && r.id == id

/-- What `MarkSnapshotTrashed` sets. -/
def trashedRow (storagePath : String) (now : Time) (r : SnapshotRow) : SnapshotRow :=
  { r with
    status := .trashed, retentionStatus := .trashed, storagePath := storagePath
    trashedAt := some (unix now) }

/-- The `WHERE` clause of `DeleteTrashedBefore`. -/
def trashedBy (tenant : String) (before : Time) (r : SnapshotRow) : Bool :=
  r.tenantUid == tenant && r.retentionStatus == .trashed && r.trashedAt.any fun seconds => seconds ≤ unix before

namespace Store

def allSnapshots (s : Store) (tenant : String) : List Snapshot :=
  ((s.snapshots.filter (·.tenantUid == tenant)).insertionSort (fun r r' => capturedFirst r r' = true)).map scanSnapshot

def snapshotsForPlan (s : Store) (tenant planId : String) : List Snapshot :=
  ((s.snapshots.filter (activeOfPlan tenant planId)).insertionSort
    (fun r r' => capturedFirst r r' = true)).map scanSnapshot

def snapshot (s : Store) (tenant id : String) : Except StoreError Snapshot :=
  match s.snapshots.find? (snapshotIn tenant id) with
  | some r => .ok (scanSnapshot r)
  | none => .error .notFound

def markSnapshotTrashed (s : Store) (tenant id storagePath : String) (now : Time) :
    Except StoreError Store :=
  let hit := fun r => snapshotIn tenant id r && r.retentionStatus == .active
  if s.snapshots.countP hit = 1 then
    .ok (s.updateSnapshots hit (trashedRow storagePath now) fun _ => rfl)
  else .error .notFound

/-- The `SELECT` of `DeleteTrashedBefore`. -/
def trashedBefore (s : Store) (tenant : String) (before : Time) : List Snapshot :=
  (s.snapshots.filter (trashedBy tenant before)).map scanSnapshot

/-- The `DELETE` of `DeleteTrashedBefore`. -/
def deleteTrashed (s : Store) (tenant id : String) : Store :=
  s.deleteSnapshots fun r => snapshotIn tenant id r && r.retentionStatus == .trashed

/-! ## What they read and leave -/

theorem snapshotIn_iff {tenant id : String} {r : SnapshotRow} :
    snapshotIn tenant id r = true ↔ r.tenantUid = tenant ∧ r.id = id := by
  simp [snapshotIn]

theorem mem_snapshotsForPlan {s : Store} {tenant planId : String} {item : Snapshot} :
    item ∈ s.snapshotsForPlan tenant planId ↔ ∃ r ∈ s.snapshots, r.tenantUid = tenant ∧
      r.planId = planId ∧ r.retentionStatus = .active ∧ scanSnapshot r = item := by
  unfold snapshotsForPlan
  simp only [List.mem_map, List.mem_insertionSort, List.mem_filter, activeOfPlan, Bool.and_eq_true,
    beq_iff_eq]
  constructor
  · intro ⟨r, ⟨hr, ⟨hten, hplan⟩, hact⟩, he⟩
    exact ⟨r, hr, hten, hplan, hact, he⟩
  · intro ⟨r, hr, hten, hplan, hact, he⟩
    exact ⟨r, ⟨hr, ⟨hten, hplan⟩, hact⟩, he⟩

theorem mem_allSnapshots {s : Store} {tenant : String} {item : Snapshot} :
    item ∈ s.allSnapshots tenant ↔ ∃ r ∈ s.snapshots, r.tenantUid = tenant ∧ scanSnapshot r = item := by
  unfold allSnapshots
  simp only [List.mem_map, List.mem_insertionSort, List.mem_filter, beq_iff_eq]
  constructor
  · intro ⟨r, ⟨hr, hten⟩, he⟩
    exact ⟨r, hr, hten, he⟩
  · intro ⟨r, hr, hten, he⟩
    exact ⟨r, ⟨hr, hten⟩, he⟩

theorem allSnapshots_countP (s : Store) (tenant : String) (p : Snapshot → Bool) :
    (s.allSnapshots tenant).countP p = (s.snapshots.filter (·.tenantUid == tenant)).countP fun r =>
    p (scanSnapshot r) := by
  unfold allSnapshots
  rw [List.countP_map]
  exact (List.perm_insertionSort (fun r r' => capturedFirst r r' = true) _).countP_eq _

theorem snapshotsForPlan_nodup (s : Store) (tenant planId : String) :
    ((s.snapshotsForPlan tenant planId).map (·.id)).Nodup := by
  unfold snapshotsForPlan
  rw [List.map_map]
  have hperm := (List.perm_insertionSort (fun r r' => capturedFirst r r' = true)
    (s.snapshots.filter (activeOfPlan tenant planId))).map SnapshotRow.id
  have hids : (Snapshot.id ∘ scanSnapshot) = SnapshotRow.id := rfl
  rw [hids, hperm.nodup_iff]
  exact s.snapshots_pk.sublist (List.filter_sublist.map _)

theorem snapshot_of_mem {s : Store} {r : SnapshotRow} (hr : r ∈ s.snapshots) :
    s.snapshot r.tenantUid r.id = .ok (scanSnapshot r) := by
  have hfind : s.snapshots.find? (snapshotIn r.tenantUid r.id) = some r := by
    refine find?_of_key s.snapshots_pk ?_ hr (snapshotIn_iff.mpr ⟨rfl, rfl⟩)
    intro r₁ r₂ h₁ h₂
    rw [(snapshotIn_iff.mp h₁).2, (snapshotIn_iff.mp h₂).2]
  unfold snapshot
  rw [hfind]

theorem markSnapshotTrashed_of_mem {s : Store} {r : SnapshotRow} (storagePath : String) (now : Time)
    (hr : r ∈ s.snapshots) (hact : r.retentionStatus = .active) :
    ∃ s', s.markSnapshotTrashed r.tenantUid r.id storagePath now = .ok s' ∧
      s'.snapshots = updateWhere (fun r' => r'.id == r.id) (trashedRow storagePath now) s.snapshots := by
  have hhit : ∀ r', (snapshotIn r.tenantUid r.id r' && r'.retentionStatus == .active) = true ↔
      (snapshotIn r.tenantUid r.id r' = true ∧ r'.retentionStatus = .active) := by
    intro r'
    simp
  have hone : s.snapshots.countP
      (fun r' => snapshotIn r.tenantUid r.id r' && r'.retentionStatus == .active) = 1 := by
    refine countP_eq_one s.snapshots_pk ?_ hr ((hhit r).mpr ⟨snapshotIn_iff.mpr ⟨rfl, rfl⟩, hact⟩)
    intro r₁ r₂ h₁ h₂
    rw [(snapshotIn_iff.mp ((hhit r₁).mp h₁).1).2, (snapshotIn_iff.mp ((hhit r₂).mp h₂).1).2]
  unfold markSnapshotTrashed
  simp only [hone, if_true]
  refine ⟨_, rfl, ?_⟩
  show updateWhere _ _ s.snapshots = _
  unfold updateWhere
  apply List.map_congr_left
  intro r' hr'
  by_cases hid : r'.id = r.id
  · rw [eq_of_key s.snapshots_pk hr' hr hid]
    have hin : snapshotIn r.tenantUid r.id r = true := snapshotIn_iff.mpr ⟨rfl, rfl⟩
    simp [hin, hact]
  · have hout : snapshotIn r.tenantUid r.id r' = false := by
      simp [snapshotIn, hid]
    simp [hout, hid]

end Store

end AppBackup.Persistence
