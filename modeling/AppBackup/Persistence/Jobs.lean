import AppBackup.Persistence.Schema

/- Backup jobs and snapshots (`persistence/store.go`). `CreateBackupJob` looks for
   an active job of the instance before it inserts; `StartBackupJob`,
   `FailBackupJob` and `CommitSnapshot` are guarded by the job's status in their
   `WHERE` clause and report `ErrNotFound` when it touched no row, which rolls
   `CommitSnapshot` back with the snapshot it inserted. -/
namespace AppBackup.Persistence
open Table

/-- The row `Instance` selects: the active instance of a deployment, joined with its
application. -/
def Store.findInstance (s : Store) (tenant deployId : String) : Option ApplicationInstance :=
  s.instances.findSome? fun i =>
    if i.tenantUid = tenant ∧ i.deployId = deployId ∧ i.active = true then
      (s.applications.find? fun a => a.tenantUid == i.tenantUid && a.appId == i.appId).map fun a =>
        { tenantUid := tenant, appId := a.appId, name := a.name, version := a.version,
          deployId := i.deployId, multiInstance := i.multiInstance,
          capabilityStatus := i.capabilityStatus }
    else none

def Store.instance (s : Store) (tenant deployId : String) : Except StoreError ApplicationInstance :=
  match s.findInstance tenant deployId with
  | some i => .ok i
  | none => .error .notFound

/-- The values `CreateBackupJob` inserts. -/
def jobRow (job : BackupJob) : JobRow where
  id := job.id
  tenantUid := job.tenantUid
  oidcSubject := job.oidcSubject
  userRole := job.userRole
  appId := job.appId
  applicationName := job.applicationName
  applicationVersion := job.applicationVersion
  deployId := job.deployId
  multiInstance := job.multiInstance
  sharedRiskAccepted := job.sharedRiskAccepted
  status := .queued
  errorCode := ""
  snapshotId := ""
  createdAt := unix job.createdAt
  startedAt := none
  finishedAt := none
  planId := job.planId
  batchId := job.batchId
  taskId := job.taskId
  triggerType := job.triggerType
  scheduledAt := nullableUnix job.scheduledAt
  scope := job.scope

/-- `scanBackupJob`. -/
def scanBackupJob (r : JobRow) : BackupJob where
  id := r.id
  tenantUid := r.tenantUid
  oidcSubject := r.oidcSubject
  userRole := r.userRole
  appId := r.appId
  applicationName := r.applicationName
  applicationVersion := r.applicationVersion
  deployId := r.deployId
  multiInstance := r.multiInstance
  sharedRiskAccepted := r.sharedRiskAccepted
  status := r.status
  errorCode := r.errorCode
  snapshotId := r.snapshotId
  planId := r.planId
  batchId := r.batchId
  taskId := r.taskId
  triggerType := r.triggerType
  scope := r.scope.orFull
  scheduledAt := fromUnix r.scheduledAt
  createdAt := ofUnix r.createdAt
  startedAt := fromUnix r.startedAt
  finishedAt := fromUnix r.finishedAt

/-- The values `CommitSnapshot` inserts. -/
def snapshotRow (snapshot : Snapshot) : SnapshotRow where
  id := snapshot.id
  tenantUid := snapshot.tenantUid
  jobId := snapshot.jobId
  appId := snapshot.appId
  applicationName := snapshot.applicationName
  applicationVersion := snapshot.applicationVersion
  deployId := snapshot.deployId
  multiInstance := snapshot.multiInstance
  sharedInstanceWarning := snapshot.sharedInstanceWarning
  status := snapshot.status
  storagePath := snapshot.storagePath
  archiveName := snapshot.archiveName
  archiveSize := snapshot.archiveSize
  archiveSha256 := snapshot.archiveSha256
  originalBytes := snapshot.originalBytes
  fileCount := snapshot.fileCount
  directoryCount := snapshot.directoryCount
  sqliteCount := snapshot.sqliteCount
  skippedCount := snapshot.skippedCount
  warningCount := snapshot.warningCount
  capturedAt := unix snapshot.capturedAt
  finishedAt := unix snapshot.finishedAt
  verificationStatus := snapshot.verificationStatus
  verifiedAt := nullableUnix snapshot.verifiedAt
  planId := snapshot.planId
  batchId := snapshot.batchId
  taskId := snapshot.taskId
  triggerType := snapshot.triggerType
  retentionStatus := snapshot.retentionStatus
  trashedAt := nullableUnix snapshot.trashedAt
  scope := snapshot.scope

/-- What `StartBackupJob` sets. -/
def startedRow (started : Time) (j : JobRow) : JobRow :=
  { j with status := .running, startedAt := some (unix started) }

/-- What `FailBackupJob` sets. -/
def failedRow (code : String) (finished : Time) (j : JobRow) : JobRow :=
  { j with status := .failed, errorCode := code, finishedAt := some (unix finished) }

/-- What `CommitSnapshot` sets. -/
def committedRow (snapshot : Snapshot) (j : JobRow) : JobRow :=
  { j with
    status := .succeeded, errorCode := "", snapshotId := snapshot.id,
    finishedAt := some (unix snapshot.finishedAt) }

/-- The `WHERE` clause of a guarded job update. -/
def jobIn (tenant id : String) (guard : JobStatus → Bool) (j : JobRow) : Bool :=
  j.id == id && j.tenantUid == tenant && guard j.status

namespace Store

def backupJob (s : Store) (tenant id : String) : Except StoreError BackupJob :=
  match s.jobs.find? (jobIn tenant id fun _ => true) with
  | some r => .ok (scanBackupJob r)
  | none => .error .notFound

def createBackupJob (s : Store) (job : BackupJob) : Except StoreError Store :=
  if job.id = "" ∨ job.tenantUid = "" ∨ job.appId = "" ∨ job.deployId = "" ∨ job.status ≠ .queued then
    .error (.invalid "invalid backup job")
  else if s.jobs.any fun j =>
      j.tenantUid == job.tenantUid && j.deployId == job.deployId && j.isActive then
    .error .conflict
  else s.insertJob (jobRow job)

/-- An update of one job by id and status, refused when it touches no row. -/
def moveJob (s : Store) (tenant id : String) (guard : JobStatus → Bool) (set : JobRow → JobRow)
    (hset : ∀ j, (set j).keys = j.keys) : Except StoreError Store :=
  match s.updateJobs (jobIn tenant id guard) set hset with
  | .error e => .error e
  | .ok s' => if s.jobs.countP (jobIn tenant id guard) = 1 then .ok s' else .error .notFound

def startBackupJob (s : Store) (tenant id : String) (started : Time) : Except StoreError Store :=
  s.moveJob tenant id (· == .queued) (startedRow started) fun _ => rfl

def failBackupJob (s : Store) (tenant id code : String) (finished : Time) :
    Except StoreError Store :=
  s.moveJob tenant id (·.active) (failedRow code finished) fun _ => rfl

def commitSnapshot (s : Store) (snapshot : Snapshot) : Except StoreError Store :=
  if snapshot.id = "" ∨ snapshot.tenantUid = "" ∨ snapshot.jobId = "" ∨ snapshot.storagePath = "" ∨
      snapshot.archiveSha256 = "" then
    .error (.invalid "invalid snapshot")
  else
    match s.insertSnapshot (snapshotRow snapshot) with
    | .error e => .error e
    | .ok s' =>
      s'.moveJob snapshot.tenantUid snapshot.jobId (· == .running) (committedRow snapshot)
        fun _ => rfl

/-! ## What they leave -/

theorem createBackupJob_ok {s s' : Store} {job : BackupJob} (h : s.createBackupJob job = .ok s') :
    s'.toTables = { s.toTables with jobs := s.jobs ++ [jobRow job] } := by
  unfold createBackupJob at h
  split at h
  · cases h
  · split at h
    · cases h
    · exact insertJob_ok h

theorem jobIn_iff {tenant id : String} {guard : JobStatus → Bool} {j : JobRow} :
    jobIn tenant id guard j = true ↔ j.id = id ∧ j.tenantUid = tenant ∧ guard j.status = true := by
  simp [jobIn, and_assoc]

/-- A guarded update that went through touched the one job of that id, which was
in a status it starts from. -/
theorem moveJob_ok {s s' : Store} {tenant id : String} {guard : JobStatus → Bool}
    {set : JobRow → JobRow} {hset : ∀ j, (set j).keys = j.keys}
    (h : s.moveJob tenant id guard set hset = .ok s') :
    (∃ j ∈ s.jobs, j.id = id ∧ j.tenantUid = tenant ∧ guard j.status = true) ∧
    s'.toTables = { s.toTables with jobs := updateWhere (jobIn tenant id guard) set s.jobs } := by
  unfold moveJob at h
  cases hu : s.updateJobs (jobIn tenant id guard) set hset with
  | error e => rw [hu] at h; cases h
  | ok s₁ =>
    rw [hu] at h
    simp only at h
    split at h
    · next hc =>
      cases h
      obtain ⟨j, hj, hp⟩ := exists_of_countP_one hc
      exact ⟨⟨j, hj, jobIn_iff.mp hp⟩, updateJobs_ok hu⟩
    · cases h

/-- A guarded update of a job that is there, and that brings nothing into the
active index, goes through. -/
theorem moveJob_of_mem {s : Store} {tenant id : String} {guard : JobStatus → Bool}
    {set : JobRow → JobRow} {hset : ∀ j, (set j).keys = j.keys}
    (hq : ∀ j, guard j.status = true → (set j).isActive = true → j.isActive = true) {j : JobRow}
    (hj : j ∈ s.jobs) (hid : j.id = id) (ht : j.tenantUid = tenant)
    (hf : guard j.status = true) : ∃ s', s.moveJob tenant id guard set hset = .ok s' := by
  obtain ⟨s', hs'⟩ := updateJobs_of_quiet s hset fun j (hp : jobIn tenant id guard j = true) =>
    hq j (jobIn_iff.mp hp).2.2
  have hc : s.jobs.countP (jobIn tenant id guard) = 1 :=
    countP_eq_one s.jobs_pk (fun r r' hr hr' => (jobIn_iff.mp hr).1.trans (jobIn_iff.mp hr').1.symm)
      hj (jobIn_iff.mpr ⟨hid, ht, hf⟩)
  exact ⟨s', by simp [moveJob, hs', hc]⟩

theorem failBackupJob_of_mem {s : Store} {tenant id : String} (code : String) (finished : Time)
    {j : JobRow} (hj : j ∈ s.jobs) (hid : j.id = id) (ht : j.tenantUid = tenant)
    (hact : j.status.active = true) : ∃ s', s.failBackupJob tenant id code finished = .ok s' := by
  refine moveJob_of_mem ?_ hj hid ht hact
  intro j hj _
  exact hj

theorem commitSnapshot_ok {s s' : Store} {snapshot : Snapshot}
    (h : s.commitSnapshot snapshot = .ok s') :
    (∃ j ∈ s.jobs, j.id = snapshot.jobId ∧ j.tenantUid = snapshot.tenantUid ∧ j.status = .running) ∧
    s'.toTables = { s.toTables with
      snapshots := s.snapshots ++ [snapshotRow snapshot]
      jobs := updateWhere (jobIn snapshot.tenantUid snapshot.jobId (· == .running))
        (committedRow snapshot) s.jobs } := by
  unfold commitSnapshot at h
  split at h
  · cases h
  · cases hi : s.insertSnapshot (snapshotRow snapshot) with
    | error e => rw [hi] at h; cases h
    | ok s₁ =>
      rw [hi] at h
      have ht := insertSnapshot_ok hi
      obtain ⟨⟨j, hj, hid, hten, hst⟩, hs'⟩ := moveJob_ok h
      rw [ht] at hj hs'
      exact ⟨⟨j, hj, hid, hten, by simpa using hst⟩, hs'⟩

end Store

end AppBackup.Persistence
