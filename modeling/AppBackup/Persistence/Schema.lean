import AppBackup.Domain.Types
import AppBackup.Lib.Table

/- The control database after its migrations (`persistence/store.go`), and the
   statements the services run on it. A row holds the columns of its table; a
   `Store` is the tables with the primary keys, unique indexes and foreign keys of
   the schema as fields, so a database SQLite would refuse cannot be built. An
   `INSERT` checks the constraints of the row it adds; an `UPDATE` comes with the
   proof that it writes no key column, and the one that may bring a job into
   `backup_jobs_active_instance_idx` checks that index.

   Foreign keys are on (`PRAGMA foreign_keys=ON`, one connection), and a delete of
   a plan takes its targets with it. -/
namespace AppBackup.Persistence
open Table

/-- The errors of the store: the two sentinels, a refused argument, the two
constraint failures SQLite reports, and a NULL read into an integer. -/
inductive StoreError where
  | notFound
  | conflict
  | invalid (message : String)
  | unique (index : String)
  | foreignKey
  | nullScan
  deriving DecidableEq

/-- What the store makes of a driver error whose text contains `UNIQUE`. -/
def StoreError.uniqueAsConflict : StoreError → StoreError
  | unique _ => conflict
  | e => e

structure ApplicationRow where
  tenantUid : String
  appId : String
  name : String
  version : String
  nameSort : String

structure InstanceRow where
  tenantUid : String
  appId : String
  deployId : String
  multiInstance : Bool
  capabilityStatus : CapabilityStatus
  active : Bool

structure PlanRow where
  id : String
  tenantUid : String
  name : String
  targetKind : String
  sharedRiskAccepted : Bool
  scheduleType : String
  executionTime : String
  cronExpression : String
  timezone : String
  enabled : Bool
  catchUp : Bool
  maxCatchUpSeconds : Int
  maxRetries : Int
  retryBackoffSeconds : Int
  retention : RetentionPolicy
  createdBySubject : String
  createdAt : Int
  updatedAt : Int
  lastScheduledAt : Option Int
  nextRunAt : Option Int
  pauseReason : Option PlanPauseReason

structure TargetRow where
  planId : String
  tenantUid : String
  deployId : String
  sharedRiskAccepted : Bool
  scope : BackupScope

structure BatchRow where
  id : String
  tenantUid : String
  planId : String
  planName : String
  triggerType : String
  status : BatchStatus
  scheduledAt : Int
  createdAt : Int
  startedAt : Option Int
  finishedAt : Option Int
  totalTasks : Nat
  succeededCount : Nat
  failedCount : Nat
  skippedCount : Nat
  runningCount : Nat
  queuedCount : Nat

structure TaskRow where
  id : String
  tenantUid : String
  batchId : String
  planId : String
  backupJobId : String
  appId : String
  applicationName : String
  deployId : String
  multiInstance : Bool
  sharedRiskAccepted : Bool
  triggerType : String
  status : TaskStatus
  priority : Int
  attemptCount : Nat
  maxRetries : Int
  retryBackoffSeconds : Int
  errorCode : String
  availableAt : Int
  scheduledAt : Int
  createdAt : Int
  startedAt : Option Int
  finishedAt : Option Int
  leaseToken : String
  workerId : String
  leaseExpiresAt : Option Int
  heartbeatAt : Option Int
  snapshotId : String
  scope : BackupScope
  scopeValidation : Option PlanPauseReason

structure AttemptRow where
  id : String
  tenantUid : String
  taskId : String
  attempt : Nat
  status : AttemptStatus
  errorCode : String
  workerId : String
  startedAt : Int
  finishedAt : Option Int

structure JobRow where
  id : String
  tenantUid : String
  oidcSubject : String
  userRole : Role
  appId : String
  applicationName : String
  applicationVersion : String
  deployId : String
  multiInstance : Bool
  sharedRiskAccepted : Bool
  status : JobStatus
  errorCode : String
  snapshotId : String
  createdAt : Int
  startedAt : Option Int
  finishedAt : Option Int
  planId : String
  batchId : String
  taskId : String
  triggerType : String
  scheduledAt : Option Int
  scope : BackupScope

structure SnapshotRow where
  id : String
  tenantUid : String
  jobId : String
  appId : String
  applicationName : String
  applicationVersion : String
  deployId : String
  multiInstance : Bool
  sharedInstanceWarning : Bool
  status : SnapshotStatus
  storagePath : String
  archiveName : String
  archiveSize : Int
  archiveSha256 : String
  originalBytes : Int
  fileCount : Int
  directoryCount : Int
  sqliteCount : Int
  skippedCount : Int
  warningCount : Int
  capturedAt : Int
  finishedAt : Int
  verificationStatus : VerificationStatus
  verifiedAt : Option Int
  planId : String
  batchId : String
  taskId : String
  triggerType : String
  retentionStatus : RetentionStatus
  trashedAt : Option Int
  scope : BackupScope

/-! ## Keys -/

/-- `batches_tenant_plan_schedule_idx`, `WHERE plan_id <> ''`. -/
def BatchRow.planned (b : BatchRow) : Bool := b.planId != ""
def BatchRow.schedule (b : BatchRow) : String × String × Int := (b.tenantUid, b.planId, b.scheduledAt)

/-- `backup_jobs_active_instance_idx`, `WHERE status IN ('QUEUED', 'RUNNING')`. -/
def JobRow.isActive (j : JobRow) : Bool := j.status.active
def JobRow.instance (j : JobRow) : String × String := (j.tenantUid, j.deployId)

/-! The columns of a row that no statement writes after the insert. -/

def BatchRow.keys (b : BatchRow) : String × String × String × Int :=
  (b.id, b.tenantUid, b.planId, b.scheduledAt)

def TaskRow.keys (t : TaskRow) : String × String × String × String × String × String :=
  (t.id, t.tenantUid, t.batchId, t.planId, t.backupJobId, t.deployId)

def AttemptRow.keys (a : AttemptRow) : String × String × String × Nat :=
  (a.id, a.tenantUid, a.taskId, a.attempt)

def JobRow.keys (j : JobRow) : String × String × String × String :=
  (j.id, j.tenantUid, j.deployId, j.planId)

def SnapshotRow.keys (sn : SnapshotRow) : String × String × String × String × String :=
  (sn.id, sn.tenantUid, sn.jobId, sn.deployId, sn.planId)

theorem BatchRow.keys_eq {b b' : BatchRow} : b.keys = b'.keys ↔
    b.id = b'.id ∧ b.tenantUid = b'.tenantUid ∧ b.planId = b'.planId ∧
      b.scheduledAt = b'.scheduledAt := by
  simp [keys]

theorem TaskRow.keys_eq {t t' : TaskRow} : t.keys = t'.keys ↔
    t.id = t'.id ∧ t.tenantUid = t'.tenantUid ∧ t.batchId = t'.batchId ∧ t.planId = t'.planId ∧
      t.backupJobId = t'.backupJobId ∧ t.deployId = t'.deployId := by
  simp [keys]

theorem AttemptRow.keys_eq {a a' : AttemptRow} : a.keys = a'.keys ↔
    a.id = a'.id ∧ a.tenantUid = a'.tenantUid ∧ a.taskId = a'.taskId ∧ a.attempt = a'.attempt := by
  simp [keys]

theorem JobRow.keys_eq {j j' : JobRow} : j.keys = j'.keys ↔
    j.id = j'.id ∧ j.tenantUid = j'.tenantUid ∧ j.deployId = j'.deployId ∧ j.planId = j'.planId := by
  simp [keys]

theorem SnapshotRow.keys_eq {sn sn' : SnapshotRow} : sn.keys = sn'.keys ↔
    sn.id = sn'.id ∧ sn.tenantUid = sn'.tenantUid ∧ sn.jobId = sn'.jobId ∧
      sn.deployId = sn'.deployId ∧ sn.planId = sn'.planId := by
  simp [keys]

/-- The rows of the control database. -/
structure Tables where
  applications : List ApplicationRow
  instances : List InstanceRow
  plans : List PlanRow
  targets : List TargetRow
  batches : List BatchRow
  tasks : List TaskRow
  attempts : List AttemptRow
  jobs : List JobRow
  snapshots : List SnapshotRow

/-- The control database: rows that meet the constraints of the schema. -/
structure Store extends Tables where
  plans_pk : (plans.map (·.id)).Nodup
  targets_pk : (targets.map fun t => (t.planId, t.deployId)).Nodup
  batches_pk : (batches.map (·.id)).Nodup
  batches_schedule : (indexKeys BatchRow.planned BatchRow.schedule batches).Nodup
  tasks_pk : (tasks.map (·.id)).Nodup
  tasks_job : (tasks.map (·.backupJobId)).Nodup
  tasks_batch_deploy : (tasks.map fun t => (t.batchId, t.deployId)).Nodup
  tasks_batch : ∀ t ∈ tasks, t.batchId ∈ batches.map (·.id)
  attempts_pk : (attempts.map (·.id)).Nodup
  attempts_number : (attempts.map fun a => (a.taskId, a.attempt)).Nodup
  attempts_task : ∀ a ∈ attempts, a.taskId ∈ tasks.map (·.id)
  jobs_pk : (jobs.map (·.id)).Nodup
  jobs_active : (indexKeys JobRow.isActive JobRow.instance jobs).Nodup
  snapshots_pk : (snapshots.map (·.id)).Nodup
  snapshots_job_unique : (snapshots.map (·.jobId)).Nodup
  snapshots_job : ∀ sn ∈ snapshots, sn.jobId ∈ jobs.map (·.id)

theorem Store.ext_tables {s s' : Store} (h : s.toTables = s'.toTables) : s = s' := by
  cases s; cases s'; cases h; rfl

namespace Store

/-- The database after its migrations, before any row. -/
def empty : Store where
  applications := []
  instances := []
  plans := []
  targets := []
  batches := []
  tasks := []
  attempts := []
  jobs := []
  snapshots := []
  plans_pk := List.nodup_nil
  targets_pk := List.nodup_nil
  batches_pk := List.nodup_nil
  batches_schedule := List.nodup_nil
  tasks_pk := List.nodup_nil
  tasks_job := List.nodup_nil
  tasks_batch_deploy := List.nodup_nil
  tasks_batch := by simp
  attempts_pk := List.nodup_nil
  attempts_number := List.nodup_nil
  attempts_task := by simp
  jobs_pk := List.nodup_nil
  jobs_active := List.nodup_nil
  snapshots_pk := List.nodup_nil
  snapshots_job_unique := List.nodup_nil
  snapshots_job := by simp

/-! ## Inserts -/

def insertBatch (s : Store) (b : BatchRow) : Except StoreError Store :=
  if h : b.id ∉ s.batches.map (·.id) ∧
      (b.planned = true → b.schedule ∉ indexKeys BatchRow.planned BatchRow.schedule s.batches) then
    .ok { s with
      batches := s.batches ++ [b]
      batches_pk := by simpa using nodup_snoc s.batches_pk h.1
      batches_schedule := indexKeys_snoc_nodup s.batches_schedule h.2
      tasks_batch := fun t ht => by
        simpa using Or.inl (List.mem_map.mp (s.tasks_batch t ht)) }
  else .error (.unique "backup_batches")

def insertTask (s : Store) (t : TaskRow) : Except StoreError Store :=
  if hu : t.id ∉ s.tasks.map (·.id) ∧ t.backupJobId ∉ s.tasks.map (·.backupJobId) ∧
      (t.batchId, t.deployId) ∉ s.tasks.map (fun t => (t.batchId, t.deployId)) then
    if hf : t.batchId ∈ s.batches.map (·.id) then
      .ok { s with
        tasks := s.tasks ++ [t]
        tasks_pk := by simpa using nodup_snoc s.tasks_pk hu.1
        tasks_job := by simpa using nodup_snoc s.tasks_job hu.2.1
        tasks_batch_deploy := by simpa using nodup_snoc s.tasks_batch_deploy hu.2.2
        tasks_batch := fun t' ht' => by
          rcases List.mem_append.mp ht' with ht' | ht'
          · exact s.tasks_batch t' ht'
          · rw [List.mem_singleton.mp ht']; exact hf
        attempts_task := fun a ha => by
          simpa using Or.inl (List.mem_map.mp (s.attempts_task a ha)) }
    else .error .foreignKey
  else .error (.unique "backup_tasks")

def insertAttempt (s : Store) (a : AttemptRow) : Except StoreError Store :=
  if hu : a.id ∉ s.attempts.map (·.id) ∧
      (a.taskId, a.attempt) ∉ s.attempts.map (fun a => (a.taskId, a.attempt)) then
    if hf : a.taskId ∈ s.tasks.map (·.id) then
      .ok { s with
        attempts := s.attempts ++ [a]
        attempts_pk := by simpa using nodup_snoc s.attempts_pk hu.1
        attempts_number := by simpa using nodup_snoc s.attempts_number hu.2
        attempts_task := fun a' ha' => by
          rcases List.mem_append.mp ha' with ha' | ha'
          · exact s.attempts_task a' ha'
          · rw [List.mem_singleton.mp ha']; exact hf }
    else .error .foreignKey
  else .error (.unique "task_attempts")

def insertJob (s : Store) (j : JobRow) : Except StoreError Store :=
  if h : j.id ∉ s.jobs.map (·.id) ∧
      (j.isActive = true → j.instance ∉ indexKeys JobRow.isActive JobRow.instance s.jobs) then
    .ok { s with
      jobs := s.jobs ++ [j]
      jobs_pk := by simpa using nodup_snoc s.jobs_pk h.1
      jobs_active := indexKeys_snoc_nodup s.jobs_active h.2
      snapshots_job := fun sn hsn => by
        simpa using Or.inl (List.mem_map.mp (s.snapshots_job sn hsn)) }
  else .error (.unique "backup_jobs")

def insertSnapshot (s : Store) (sn : SnapshotRow) : Except StoreError Store :=
  if hu : sn.id ∉ s.snapshots.map (·.id) ∧ sn.jobId ∉ s.snapshots.map (·.jobId) then
    if hf : sn.jobId ∈ s.jobs.map (·.id) then
      .ok { s with
        snapshots := s.snapshots ++ [sn]
        snapshots_pk := by simpa using nodup_snoc s.snapshots_pk hu.1
        snapshots_job_unique := by simpa using nodup_snoc s.snapshots_job_unique hu.2
        snapshots_job := fun sn' hsn' => by
          rcases List.mem_append.mp hsn' with hsn' | hsn'
          · exact s.snapshots_job sn' hsn'
          · rw [List.mem_singleton.mp hsn']; exact hf }
    else .error .foreignKey
  else .error (.unique "snapshots")

def insertPlan (s : Store) (p : PlanRow) : Except StoreError Store :=
  if h : p.id ∉ s.plans.map (·.id) then
    .ok { s with
      plans := s.plans ++ [p]
      plans_pk := by simpa using nodup_snoc s.plans_pk h }
  else .error (.unique "backup_plans")

/-- The plan of a target is the one its transaction has just written. -/
def insertTarget (s : Store) (t : TargetRow) : Except StoreError Store :=
  if h : (t.planId, t.deployId) ∉ s.targets.map (fun t => (t.planId, t.deployId)) then
    .ok { s with
      targets := s.targets ++ [t]
      targets_pk := by simpa using nodup_snoc s.targets_pk h }
  else .error (.unique "plan_targets")

/-! ## Updates and deletes -/

/-- An update of `backup_batches` that writes no key column. -/
def updateBatches (s : Store) (p : BatchRow → Bool) (f : BatchRow → BatchRow)
    (hf : ∀ b, (f b).keys = b.keys) : Store :=
  have hid : ∀ b, (f b).id = b.id := fun b => (BatchRow.keys_eq.mp (hf b)).1
  have hs : ∀ b, (f b).schedule = b.schedule := fun b => congrArg (·.2) (hf b)
  { s with
    batches := updateWhere p f s.batches
    batches_pk := by rw [map_updateWhere _ hid]; exact s.batches_pk
    batches_schedule := by
      refine indexKeys_updateWhere_nodup (fun b _ h => ?_) hs s.batches_schedule
      have hp : (f b).planId = b.planId := (BatchRow.keys_eq.mp (hf b)).2.2.1
      simpa [BatchRow.planned, hp] using h
    tasks_batch := fun t ht => by rw [map_updateWhere _ hid]; exact s.tasks_batch t ht }

/-- An update of `backup_tasks` that writes no key column. -/
def updateTasks (s : Store) (p : TaskRow → Bool) (f : TaskRow → TaskRow)
    (hf : ∀ t, (f t).keys = t.keys) : Store :=
  have hkeys := fun t => TaskRow.keys_eq.mp (hf t)
  have hid : ∀ t, (f t).id = t.id := fun t => (hkeys t).1
  have hbatch : ∀ t, (f t).batchId = t.batchId := fun t => (hkeys t).2.2.1
  have hjob : ∀ t, (f t).backupJobId = t.backupJobId := fun t => (hkeys t).2.2.2.2.1
  have hbd : ∀ t, ((f t).batchId, (f t).deployId) = (t.batchId, t.deployId) :=
    fun t => Prod.ext (hbatch t) (hkeys t).2.2.2.2.2
  { s with
    tasks := updateWhere p f s.tasks
    tasks_pk := by rw [map_updateWhere _ hid]; exact s.tasks_pk
    tasks_job := by rw [map_updateWhere _ hjob]; exact s.tasks_job
    tasks_batch_deploy := by rw [map_updateWhere _ hbd]; exact s.tasks_batch_deploy
    tasks_batch := fun t ht => by
      obtain ⟨t₀, h₀, rfl⟩ := mem_updateWhere.mp ht
      split
      · rw [hbatch]; exact s.tasks_batch t₀ h₀
      · exact s.tasks_batch t₀ h₀
    attempts_task := fun a ha => by rw [map_updateWhere _ hid]; exact s.attempts_task a ha }

/-- An update of `task_attempts` that writes no key column. -/
def updateAttempts (s : Store) (p : AttemptRow → Bool) (f : AttemptRow → AttemptRow)
    (hf : ∀ a, (f a).keys = a.keys) : Store :=
  have hid : ∀ a, (f a).id = a.id := fun a => congrArg (·.1) (hf a)
  have hn : ∀ a, ((f a).taskId, (f a).attempt) = (a.taskId, a.attempt) :=
    fun a => congrArg (·.2.2) (hf a)
  { s with
    attempts := updateWhere p f s.attempts
    attempts_pk := by rw [map_updateWhere _ hid]; exact s.attempts_pk
    attempts_number := by rw [map_updateWhere _ hn]; exact s.attempts_number
    attempts_task := fun a ha => by
      obtain ⟨a₀, h₀, rfl⟩ := mem_updateWhere.mp ha
      have : (f a₀).taskId = a₀.taskId := congrArg (·.2.2.1) (hf a₀)
      split
      · rw [this]; exact s.attempts_task a₀ h₀
      · exact s.attempts_task a₀ h₀ }

/-- An update of `backup_jobs` that writes no key column but may write the
status, and so checks the partial index. -/
def updateJobs (s : Store) (p : JobRow → Bool) (f : JobRow → JobRow)
    (hf : ∀ j, (f j).keys = j.keys) : Except StoreError Store :=
  have hid : ∀ j, (f j).id = j.id := fun j => congrArg (·.1) (hf j)
  if h : (indexKeys JobRow.isActive JobRow.instance (updateWhere p f s.jobs)).Nodup then
    .ok { s with
      jobs := updateWhere p f s.jobs
      jobs_pk := by rw [map_updateWhere _ hid]; exact s.jobs_pk
      jobs_active := h
      snapshots_job := fun sn hsn => by
        rw [map_updateWhere _ hid]; exact s.snapshots_job sn hsn }
  else .error (.unique "backup_jobs_active_instance_idx")

/-- An update of `snapshots` that writes no key column. -/
def updateSnapshots (s : Store) (p : SnapshotRow → Bool) (f : SnapshotRow → SnapshotRow)
    (hf : ∀ sn, (f sn).keys = sn.keys) : Store :=
  have hid : ∀ sn, (f sn).id = sn.id := fun sn => (SnapshotRow.keys_eq.mp (hf sn)).1
  have hjob : ∀ sn, (f sn).jobId = sn.jobId := fun sn => (SnapshotRow.keys_eq.mp (hf sn)).2.2.1
  { s with
    snapshots := updateWhere p f s.snapshots
    snapshots_pk := by rw [map_updateWhere _ hid]; exact s.snapshots_pk
    snapshots_job_unique := by rw [map_updateWhere _ hjob]; exact s.snapshots_job_unique
    snapshots_job := fun sn hsn => by
      obtain ⟨sn₀, h₀, rfl⟩ := mem_updateWhere.mp hsn
      split
      · rw [hjob]; exact s.snapshots_job sn₀ h₀
      · exact s.snapshots_job sn₀ h₀ }

/-- An update of `backup_plans` that does not write the id. -/
def updatePlans (s : Store) (p : PlanRow → Bool) (f : PlanRow → PlanRow)
    (hf : ∀ r, (f r).id = r.id) : Store :=
  { s with
    plans := updateWhere p f s.plans
    plans_pk := by rw [map_updateWhere _ hf]; exact s.plans_pk }

/-- `DELETE FROM snapshots WHERE p`. -/
def deleteSnapshots (s : Store) (p : SnapshotRow → Bool) : Store :=
  { s with
    snapshots := s.snapshots.filter fun sn => !p sn
    snapshots_pk := s.snapshots_pk.sublist (List.filter_sublist.map _)
    snapshots_job_unique := s.snapshots_job_unique.sublist (List.filter_sublist.map _)
    snapshots_job := fun sn hsn => s.snapshots_job sn (List.mem_filter.mp hsn).1 }

/-- `DELETE FROM plan_targets WHERE p`. -/
def deleteTargets (s : Store) (p : TargetRow → Bool) : Store :=
  { s with
    targets := s.targets.filter fun t => !p t
    targets_pk := s.targets_pk.sublist (List.filter_sublist.map _) }

/-- `DELETE FROM backup_plans WHERE p`, with the cascade to `plan_targets`. -/
def deletePlans (s : Store) (p : PlanRow → Bool) : Store :=
  let gone := (s.plans.filter p).map (·.id)
  { s with
    plans := s.plans.filter fun r => !p r
    targets := s.targets.filter fun t => !gone.contains t.planId
    plans_pk := s.plans_pk.sublist (List.filter_sublist.map _)
    targets_pk := s.targets_pk.sublist (List.filter_sublist.map _) }

/-! ## What the statements leave

   Each statement's effect is one equation on the rows, which gives the table it
   writes and says of the others that they are as before. -/

@[simp] theorem updateBatches_tables (s : Store) (p : BatchRow → Bool) (f : BatchRow → BatchRow)
    (hf : ∀ b, (f b).keys = b.keys) : (s.updateBatches p f hf).toTables =
      { s.toTables with batches := updateWhere p f s.batches } := rfl

@[simp] theorem updateTasks_tables (s : Store) (p : TaskRow → Bool) (f : TaskRow → TaskRow)
    (hf : ∀ t, (f t).keys = t.keys) : (s.updateTasks p f hf).toTables =
      { s.toTables with tasks := updateWhere p f s.tasks } := rfl

theorem updateTasks_miss {s : Store} {p : TaskRow → Bool} {f : TaskRow → TaskRow}
    {hf : ∀ t, (f t).keys = t.keys} (h : ∀ t ∈ s.tasks, p t = false) : s.updateTasks p f hf = s := by
  apply ext_tables
  rw [updateTasks_tables, updateWhere_miss h]

@[simp] theorem updateAttempts_tables (s : Store) (p : AttemptRow → Bool)
    (f : AttemptRow → AttemptRow) (hf : ∀ a, (f a).keys = a.keys) :
    (s.updateAttempts p f hf).toTables =
      { s.toTables with attempts := updateWhere p f s.attempts } := rfl

@[simp] theorem updateSnapshots_tables (s : Store) (p : SnapshotRow → Bool)
    (f : SnapshotRow → SnapshotRow) (hf : ∀ sn, (f sn).keys = sn.keys) :
    (s.updateSnapshots p f hf).toTables =
      { s.toTables with snapshots := updateWhere p f s.snapshots } := rfl

@[simp] theorem deleteSnapshots_tables (s : Store) (p : SnapshotRow → Bool) :
    (s.deleteSnapshots p).toTables =
      { s.toTables with snapshots := s.snapshots.filter fun sn => !p sn } := rfl

@[simp] theorem updatePlans_tables (s : Store) (p : PlanRow → Bool) (f : PlanRow → PlanRow)
    (hf : ∀ r, (f r).id = r.id) : (s.updatePlans p f hf).toTables =
      { s.toTables with plans := updateWhere p f s.plans } := rfl

@[simp] theorem deleteTargets_tables (s : Store) (p : TargetRow → Bool) :
    (s.deleteTargets p).toTables =
      { s.toTables with targets := s.targets.filter fun t => !p t } := rfl

theorem updateJobs_ok {s s' : Store} {p : JobRow → Bool} {f : JobRow → JobRow}
    {hf : ∀ j, (f j).keys = j.keys} (h : s.updateJobs p f hf = .ok s') :
    s'.toTables = { s.toTables with jobs := updateWhere p f s.jobs } := by
  unfold updateJobs at h
  split at h
  · cases h; rfl
  · cases h

theorem insertBatch_ok {s s' : Store} {b : BatchRow} (h : s.insertBatch b = .ok s') :
    s'.toTables = { s.toTables with batches := s.batches ++ [b] } := by
  unfold insertBatch at h
  split at h
  · cases h; rfl
  · cases h

theorem insertTask_ok {s s' : Store} {t : TaskRow} (h : s.insertTask t = .ok s') :
    s'.toTables = { s.toTables with tasks := s.tasks ++ [t] } := by
  unfold insertTask at h
  split at h
  · split at h
    · cases h; rfl
    · cases h
  · cases h

theorem insertAttempt_ok {s s' : Store} {a : AttemptRow} (h : s.insertAttempt a = .ok s') :
    s'.toTables = { s.toTables with attempts := s.attempts ++ [a] } := by
  unfold insertAttempt at h
  split at h
  · split at h
    · cases h; rfl
    · cases h
  · cases h

theorem insertJob_ok {s s' : Store} {j : JobRow} (h : s.insertJob j = .ok s') :
    s'.toTables = { s.toTables with jobs := s.jobs ++ [j] } := by
  unfold insertJob at h
  split at h
  · cases h; rfl
  · cases h

theorem insertSnapshot_ok {s s' : Store} {sn : SnapshotRow} (h : s.insertSnapshot sn = .ok s') :
    s'.toTables = { s.toTables with snapshots := s.snapshots ++ [sn] } := by
  unfold insertSnapshot at h
  split at h
  · split at h
    · cases h; rfl
    · cases h
  · cases h

theorem insertPlan_ok {s s' : Store} {p : PlanRow} (h : s.insertPlan p = .ok s') :
    s'.toTables = { s.toTables with plans := s.plans ++ [p] } := by
  unfold insertPlan at h
  split at h
  · cases h; rfl
  · cases h

theorem insertTarget_ok {s s' : Store} {t : TargetRow} (h : s.insertTarget t = .ok s') :
    s'.toTables = { s.toTables with targets := s.targets ++ [t] } := by
  unfold insertTarget at h
  split at h
  · cases h; rfl
  · cases h

/-- An update that brings no job into the partial index is never refused. -/
theorem updateJobs_of_quiet (s : Store) {p : JobRow → Bool} {f : JobRow → JobRow}
    (hf : ∀ j, (f j).keys = j.keys)
    (hq : ∀ j, p j = true → (f j).isActive = true → j.isActive = true) :
    ∃ s', s.updateJobs p f hf = .ok s' := by
  have hk : ∀ j, (f j).instance = j.instance := fun j => by
    obtain ⟨-, ht, hd, -⟩ := JobRow.keys_eq.mp (hf j)
    exact Prod.ext ht hd
  unfold updateJobs
  rw [dif_pos (indexKeys_updateWhere_nodup hq hk s.jobs_active)]
  exact ⟨_, rfl⟩

end Store

end AppBackup.Persistence
