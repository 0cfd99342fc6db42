import Mathlib.Data.List.Sort
import AppBackup.Persistence.Jobs

/- Batches, tasks and attempts (`persistence/queue.go`). Five transactions end a
   stay of a task in some status and share their statements: the task row, its
   running attempts, its job, then `refreshBatch`. `TaskMove` is what differs
   between them, `runMove` the statements and `closeTask` the transaction that
   first checks it touched one row; `CompleteTask`, `RetryTask`,
   `FinishTaskFailure`, `ResetTaskForManualRetry` and the body of the loop of
   `RequeueExpiredTasks` are each one such value.

   `CancelTask`, and the bulk updates of `UpdatePlan` and `PausePlanForScope`,
   write tasks without refreshing their batch. `CancelTask` is no transaction: it
   reads the task, then runs two statements (`cancelTaskRow`, `cancelTaskJob`). -/
namespace AppBackup.Persistence
open Table

/-! ## Rows -/

/-- The values `CreateBatch` inserts. -/
def batchRow (batch : BackupBatch) : BatchRow where
  id := batch.id
  tenantUid := batch.tenantUid
  planId := batch.planId
  planName := batch.planName
  triggerType := batch.triggerType
  status := batch.status
  scheduledAt := unix batch.scheduledAt
  createdAt := unix batch.createdAt
  startedAt := nullableUnix batch.startedAt
  finishedAt := nullableUnix batch.finishedAt
  totalTasks := batch.totalTasks
  succeededCount := batch.succeeded
  failedCount := batch.failed
  skippedCount := batch.skipped
  runningCount := batch.running
  queuedCount := batch.queued

def scanBatch (r : BatchRow) : BackupBatch where
  id := r.id
  tenantUid := r.tenantUid
  planId := r.planId
  planName := r.planName
  triggerType := r.triggerType
  status := r.status
  scheduledAt := ofUnix r.scheduledAt
  createdAt := ofUnix r.createdAt
  startedAt := fromUnix r.startedAt
  finishedAt := fromUnix r.finishedAt
  totalTasks := r.totalTasks
  succeeded := r.succeededCount
  failed := r.failedCount
  skipped := r.skippedCount
  running := r.runningCount
  queued := r.queuedCount

/-- The values `AddTask` inserts: no lease, no start, no end, no snapshot. -/
def taskRow (task : BackupTask) : TaskRow where
  id := task.id
  tenantUid := task.tenantUid
  batchId := task.batchId
  planId := task.planId
  backupJobId := task.backupJobId
  appId := task.appId
  applicationName := task.applicationName
  deployId := task.deployId
  multiInstance := task.multiInstance
  sharedRiskAccepted := task.sharedRiskAccepted
  triggerType := task.triggerType
  status := task.status
  priority := task.priority
  attemptCount := task.attemptCount
  maxRetries := task.maxRetries
  retryBackoffSeconds := task.retryBackoffSeconds
  errorCode := task.errorCode
  availableAt := unix task.availableAt
  scheduledAt := unix task.scheduledAt
  createdAt := unix task.createdAt
  startedAt := none
  finishedAt := none
  leaseToken := ""
  workerId := ""
  leaseExpiresAt := none
  heartbeatAt := none
  snapshotId := ""
  scope := task.scope
  scopeValidation := task.scopeValidation

def scanTask (r : TaskRow) : BackupTask where
  id := r.id
  tenantUid := r.tenantUid
  batchId := r.batchId
  planId := r.planId
  backupJobId := r.backupJobId
  appId := r.appId
  applicationName := r.applicationName
  deployId := r.deployId
  multiInstance := r.multiInstance
  sharedRiskAccepted := r.sharedRiskAccepted
  triggerType := r.triggerType
  status := r.status
  priority := r.priority
  attemptCount := r.attemptCount
  maxRetries := r.maxRetries
  retryBackoffSeconds := r.retryBackoffSeconds
  errorCode := r.errorCode
  availableAt := ofUnix r.availableAt
  scheduledAt := ofUnix r.scheduledAt
  createdAt := ofUnix r.createdAt
  startedAt := fromUnix r.startedAt
  finishedAt := fromUnix r.finishedAt
  leaseExpiresAt := fromUnix r.leaseExpiresAt
  heartbeatAt := fromUnix r.heartbeatAt
  snapshotId := r.snapshotId
  scope := r.scope.orFull
  scopeValidation := r.scopeValidation

/-- `lease_token='', worker_id='', lease_expires_at=NULL, heartbeat_at=NULL`. -/
def TaskRow.unleased (t : TaskRow) : TaskRow :=
  { t with leaseToken := "", workerId := "", leaseExpiresAt := none, heartbeatAt := none }

/-- `WHERE tenant_uid=? AND id=?` and a guard on the row. -/
def taskIn (tenant id : String) (guard : TaskRow → Bool) (t : TaskRow) : Bool :=
  t.tenantUid == tenant && t.id == id && guard t

/-- `WHERE tenant_uid=? AND task_id=? AND status='RUNNING'`. -/
def runningAttempt (tenant taskId : String) (a : AttemptRow) : Bool :=
  a.tenantUid == tenant && a.taskId == taskId && a.status == .running

/-! ## `refreshBatch` -/

/-- The status lists of the sums `refreshBatch` takes. -/
def succeededGroup : List TaskStatus := [.succeeded, .succeededWithWarnings]
def failedGroup : List TaskStatus := [.failed, .timedOut, .interrupted, .cancelled]
def skippedGroup : List TaskStatus := [.skipped]
def queuedGroup : List TaskStatus := [.queued]
def notRunningGroup : List TaskStatus :=
  [.queued, .succeeded, .succeededWithWarnings, .failed, .timedOut, .interrupted, .cancelled, .skipped]

def isSucceeded (t : TaskRow) : Bool := succeededGroup.contains t.status
def isFailed (t : TaskRow) : Bool := failedGroup.contains t.status
def isSkipped (t : TaskRow) : Bool := skippedGroup.contains t.status
def isRunning (t : TaskRow) : Bool := !notRunningGroup.contains t.status
def isQueued (t : TaskRow) : Bool := queuedGroup.contains t.status

/-- `WHERE tenant_uid=? AND batch_id=?`. -/
def inBatch (tenant batchId : String) (t : TaskRow) : Bool :=
  t.tenantUid == tenant && t.batchId == batchId

structure BatchCounts where
  total : Nat
  succeeded : Nat
  failed : Nat
  skipped : Nat
  running : Nat
  queued : Nat
  deriving DecidableEq

def batchCounts (tasks : List TaskRow) (tenant batchId : String) : BatchCounts :=
  let own := tasks.filter (inBatch tenant batchId)
  { total := own.length, succeeded := own.countP isSucceeded, failed := own.countP isFailed,
    skipped := own.countP isSkipped, running := own.countP isRunning, queued := own.countP isQueued }

/-- Nothing of the batch waits or runs. -/
def BatchCounts.finished (c : BatchCounts) : Bool := c.total == 0 || (c.queued == 0 && c.running == 0)

/-- The status `refreshBatch` computes. -/
def BatchCounts.status (c : BatchCounts) : BatchStatus :=
  if c.finished then
    if c.failed > 0 then .failed else if c.succeeded > 0 then .succeeded else .skipped
  else if c.running > 0 ∨ c.succeeded > 0 ∨ c.failed > 0 ∨ c.skipped > 0 then .running
  else .queued

/-- The columns `refreshBatch` sets. -/
def setCounts (c : BatchCounts) (now : Time) (b : BatchRow) : BatchRow :=
  { b with
    status := c.status
    totalTasks := c.total
    succeededCount := c.succeeded
    failedCount := c.failed
    skippedCount := c.skipped
    runningCount := c.running
    queuedCount := c.queued
    startedAt := b.startedAt.or (if c.status = .running then some (unix now) else none)
    finishedAt := if c.finished then some (unix now) else none }

/-- `WHERE tenant_uid=? AND id=?`. -/
def batchIn (tenant batchId : String) (b : BatchRow) : Bool :=
  b.tenantUid == tenant && b.id == batchId

/-- The batches after a refresh of one of them over `tasks`. -/
def refreshed (tasks : List TaskRow) (tenant batchId : String) (now : Time)
    (batches : List BatchRow) : List BatchRow :=
  updateWhere (batchIn tenant batchId) (setCounts (batchCounts tasks tenant batchId) now) batches

/-- The sums over no row are NULL, which the scan into integers refuses. -/
def Store.refreshBatch (s : Store) (tenant batchId : String) (now : Time) :
    Except StoreError Store :=
  let c := batchCounts s.tasks tenant batchId
  if c.total = 0 then .error .nullScan
  else .ok (s.updateBatches (batchIn tenant batchId) (setCounts c now) fun _ => rfl)

/-! ## The transactions on one task -/

/-- What a closing transaction writes: the task row; the status, and the error code
where it sets one, its running attempts end with; and the job status it re-queues
the job from, with whether it clears `started_at`. -/
structure TaskMove where
  set : TaskRow → TaskRow
  endAttempt : Option (TaskStatus × Option String)
  requeueJob : Option (JobStatus × Bool)
  set_keys : ∀ t, (set t).keys = t.keys

def AttemptRow.endedWith (status : TaskStatus) (code : Option String) (now : Time) (a : AttemptRow) :
    AttemptRow :=
  { a with status := .ended status, errorCode := code.getD a.errorCode, finishedAt := some (unix now) }

def JobRow.requeued (clearStart : Bool) (j : JobRow) : JobRow :=
  { j with
    status := .queued, errorCode := "", finishedAt := none
    startedAt := if clearStart then none else j.startedAt }

/-- The attempts after the move. -/
def TaskMove.attempts (m : TaskMove) (tenant id : String) (now : Time) (rows : List AttemptRow) :
    List AttemptRow :=
  match m.endAttempt with
  | none => rows
  | some (status, code) => updateWhere (runningAttempt tenant id) (.endedWith status code now) rows

/-- The jobs after the move. -/
def TaskMove.jobs (m : TaskMove) (tenant jobId : String) (rows : List JobRow) : List JobRow :=
  match m.requeueJob with
  | none => rows
  | some (status, clearStart) =>
    updateWhere (jobIn tenant jobId (· == status)) (.requeued clearStart) rows

namespace Store

def moveAttempts (s : Store) (tenant id : String) (m : TaskMove) (now : Time) : Store :=
  match m.endAttempt with
  | none => s
  | some (status, code) =>
    s.updateAttempts (runningAttempt tenant id) (.endedWith status code now) fun _ => rfl

def moveTaskJob (s : Store) (tenant jobId : String) (m : TaskMove) : Except StoreError Store :=
  match m.requeueJob with
  | none => .ok s
  | some (status, clearStart) =>
    s.updateJobs (jobIn tenant jobId (· == status)) (.requeued clearStart) fun _ => rfl

/-- The statements of a closing transaction on task `id`, of job `jobId` and batch
`batchId`. -/
def runMove (s : Store) (tenant id jobId batchId : String) (guard : TaskRow → Bool) (m : TaskMove)
    (now : Time) : Except StoreError Store :=
  match ((s.updateTasks (taskIn tenant id guard) m.set m.set_keys).moveAttempts tenant id m now).moveTaskJob
      tenant jobId m with
  | .error e => .error e
  | .ok s' => s'.refreshBatch tenant batchId now

/-- A closing transaction: refused when it touches no task. The columns
`batch_id` and `backup_job_id` it then reads are none it writes. -/
def closeTask (s : Store) (tenant id : String) (guard : TaskRow → Bool) (missing : StoreError)
    (m : TaskMove) (now : Time) : Except StoreError Store :=
  if s.tasks.countP (taskIn tenant id guard) ≠ 1 then .error missing
  else
    match s.tasks.find? (taskIn tenant id fun _ => true) with
    | none => .error .notFound
    | some t => s.runMove tenant id t.backupJobId t.batchId guard m now

end Store

/-! ### Their moves -/

def completeMove (snapshotId : String) (now : Time) : TaskMove where
  set t := { t.unleased with
    status := .succeeded, snapshotId := snapshotId, finishedAt := some (unix now) }
  endAttempt := some (.succeeded, none)
  requeueJob := none
  set_keys _ := rfl

def retryMove (code : String) (availableAt : Time) : TaskMove where
  set t := { t.unleased with
    status := .queued, errorCode := code, availableAt := unix availableAt }
  endAttempt := some (.failed, some code)
  requeueJob := some (.failed, false)
  set_keys _ := rfl

def failureMove (status : TaskStatus) (code : String) (now : Time) : TaskMove where
  set t := { t.unleased with
    status := status, errorCode := code, finishedAt := some (unix now) }
  endAttempt := some (status, some code)
  requeueJob := none
  set_keys _ := rfl

def expiredMove (now : Time) : TaskMove where
  set t := { t.unleased with
    status := .queued, errorCode := "WORKER_INTERRUPTED", availableAt := unix now }
  endAttempt := some (.interrupted, some "WORKER_INTERRUPTED")
  requeueJob := some (.running, true)
  set_keys _ := rfl

def manualRetryMove (now : Time) : TaskMove where
  set t := { t.unleased with
    status := .queued, errorCode := "MANUAL_RETRY", availableAt := unix now, finishedAt := none }
  endAttempt := none
  requeueJob := some (.failed, true)
  set_keys _ := rfl

/-- The statuses `ResetTaskForManualRetry` starts from. -/
def resettable : List TaskStatus := [.failed, .timedOut, .interrupted, .cancelled]

/-- The statuses `SetTaskStatus` moves between. -/
def leasedGroup : List TaskStatus :=
  [.leased, .prechecking, .scanning, .sqliteSnapshot, .zipWriting, .verifying, .committing]

/-- The statuses `HeartbeatTask` leaves alone. -/
def noHeartbeat : List TaskStatus :=
  [.succeeded, .failed, .cancelled, .timedOut, .skipped, .interrupted]

/-- The statuses `RequeueExpiredTasks` leaves alone. -/
def noRecovery : List TaskStatus :=
  [.queued, .succeeded, .failed, .cancelled, .timedOut, .skipped, .interrupted]

namespace Store

/-! ## Batches and tasks -/

def createBatch (s : Store) (batch : BackupBatch) : Except StoreError Store :=
  if batch.id = "" ∨ batch.tenantUid = "" ∨ batch.triggerType = "" then
    .error (.invalid "invalid backup batch")
  else (s.insertBatch (batchRow batch)).mapError StoreError.uniqueAsConflict

def addTask (s : Store) (task : BackupTask) (now : Time) : Except StoreError Store :=
  if task.id = "" ∨ task.tenantUid = "" ∨ task.batchId = "" ∨ task.backupJobId = "" ∨
      task.deployId = "" then
    .error (.invalid "invalid backup task")
  else
    match s.insertTask (taskRow task) with
    | .error e => .error e.uniqueAsConflict
    | .ok s' => s'.refreshBatch task.tenantUid task.batchId now

def batch (s : Store) (tenant id : String) : Except StoreError BackupBatch :=
  match s.batches.find? (batchIn tenant id) with
  | some r => .ok (scanBatch r)
  | none => .error .notFound

/-- `ORDER BY created_at DESC, id DESC`. -/
def newerBatch (a b : BatchRow) : Prop :=
  b.createdAt < a.createdAt ∨ (a.createdAt = b.createdAt ∧ b.id ≤ a.id)

instance : DecidableRel newerBatch := fun _ _ =>
  inferInstanceAs (Decidable (_ < _ ∨ (_ = _ ∧ _ ≤ _)))

/-- `Batches`: the first page, without a cursor. -/
def recentBatches (s : Store) (tenant : String) (limit : Nat) : List BackupBatch :=
  let limit := if limit = 0 ∨ limit > 200 then 50 else limit
  (((s.batches.filter fun b => b.tenantUid == tenant).insertionSort newerBatch).take limit).map scanBatch

def task (s : Store) (tenant id : String) : Except StoreError BackupTask :=
  match s.tasks.find? (taskIn tenant id fun _ => true) with
  | some r => .ok (scanTask r)
  | none => .error .notFound

/-- `ORDER BY priority DESC, available_at, created_at, id`. -/
def claimBefore (a b : TaskRow) : Bool :=
  a.priority > b.priority || a.priority == b.priority && (a.availableAt < b.availableAt ||
    a.availableAt == b.availableAt && (a.createdAt < b.createdAt ||
      a.createdAt == b.createdAt && decide (a.id < b.id)))

/-- `WHERE tenant_uid=? AND status='QUEUED' AND available_at<=?`. -/
def claimable (tenant : String) (now : Time) (t : TaskRow) : Bool :=
  t.tenantUid == tenant && t.status == .queued && t.availableAt ≤ unix now

/-- The columns `ClaimNextTask` sets. -/
def claimRow (workerId leaseToken : String) (now expires : Time) (t : TaskRow) : TaskRow :=
  { t with
    status := .leased, attemptCount := t.attemptCount + 1, workerId := workerId
    leaseToken := leaseToken, leaseExpiresAt := some (unix expires)
    heartbeatAt := some (unix now), startedAt := t.startedAt.or (some (unix now)) }

/-- The attempt `ClaimNextTask` inserts for a task it read. -/
def claimAttempt (tenant workerId : String) (now : Time) (t : TaskRow) : AttemptRow where
  id := t.id ++ "-" ++ toString (t.attemptCount + 1)
  tenantUid := tenant
  taskId := t.id
  attempt := t.attemptCount + 1
  status := .running
  errorCode := ""
  workerId := workerId
  startedAt := unix now
  finishedAt := none

/-- The task `ClaimNextTask` returns: the one it read, with what it wrote. -/
def claimedTask (now expires : Time) (t : TaskRow) : BackupTask :=
  { scanTask t with
    status := .leased, attemptCount := t.attemptCount + 1, startedAt := some now
    leaseExpiresAt := some expires, heartbeatAt := some now }

def claimNextTask (s : Store) (tenant workerId leaseToken : String) (now expires : Time) :
    Except StoreError (Store × BackupTask) :=
  match firstBy claimBefore (s.tasks.filter (claimable tenant now)) with
  | none => .error .notFound
  | some t =>
    if s.tasks.countP (taskIn tenant t.id (·.status == .queued)) ≠ 1 then .error .notFound
    else
      match (s.updateTasks (taskIn tenant t.id (·.status == .queued))
          (claimRow workerId leaseToken now expires) fun _ => rfl).insertAttempt
          (claimAttempt tenant workerId now t) with
      | .error e => .error e
      | .ok s' =>
        match s'.refreshBatch tenant t.batchId now with
        | .error e => .error e
        | .ok s'' => .ok (s'', claimedTask now expires t)

def setTaskStatus (s : Store) (tenant id token : String) (status : TaskStatus) :
    Except StoreError Store :=
  let hit := taskIn tenant id fun t => t.leaseToken == token && leasedGroup.contains t.status
  if s.tasks.countP hit ≠ 1 then .error .notFound
  else .ok (s.updateTasks hit (fun t => { t with status := status }) fun _ => rfl)

def setTaskScopeValidation (s : Store) (tenant id token : String) (value : PlanPauseReason) : Store :=
  s.updateTasks (taskIn tenant id (·.leaseToken == token))
    (fun t => { t with scopeValidation := some value }) fun _ => rfl

def heartbeatTask (s : Store) (tenant id token : String) (now expires : Time) : Store :=
  s.updateTasks
    (taskIn tenant id fun t => t.leaseToken == token && !noHeartbeat.contains t.status)
    (fun t => { t with heartbeatAt := some (unix now), leaseExpiresAt := some (unix expires) })
    fun _ => rfl

def completeTask (s : Store) (tenant id token snapshotId : String) (now : Time) :
    Except StoreError Store :=
  s.closeTask tenant id (·.leaseToken == token) .notFound (completeMove snapshotId now) now

def retryTask (s : Store) (tenant id token code : String) (availableAt now : Time) :
    Except StoreError Store :=
  s.closeTask tenant id (·.leaseToken == token) .notFound (retryMove code availableAt) now

def finishTaskFailure (s : Store) (tenant id token : String) (status : TaskStatus) (code : String)
    (now : Time) : Except StoreError Store :=
  s.closeTask tenant id (·.leaseToken == token) .notFound (failureMove status code now) now

def resetTaskForManualRetry (s : Store) (tenant id : String) (now : Time) : Except StoreError Store :=
  s.closeTask tenant id (fun t => resettable.contains t.status) .conflict (manualRetryMove now) now

/-- The rows `RequeueExpiredTasks` reads. -/
def expired (tenant : String) (now : Time) (t : TaskRow) : Bool :=
  t.tenantUid == tenant && !noRecovery.contains t.status &&
    t.leaseExpiresAt.any fun at_ => at_ ≤ unix now

/-- The body of the loop of `RequeueExpiredTasks`. -/
def requeueExpired (tenant : String) (now : Time) (s : Store) (item : TaskRow) :
    Except StoreError Store :=
  s.runMove tenant item.id item.backupJobId item.batchId (fun _ => true) (expiredMove now) now

def requeueExpiredTasks (s : Store) (tenant : String) (now : Time) : Except StoreError Store :=
  (s.tasks.filter (expired tenant now)).foldlM (requeueExpired tenant now) s

/-! ## `CancelTask` -/

def cancelledRow (now : Time) (t : TaskRow) : TaskRow :=
  { t with status := .cancelled, finishedAt := some (unix now), errorCode := "TASK_CANCELLED" }

def cancelledJob (now : Time) (j : JobRow) : JobRow :=
  { j with status := .failed, errorCode := "BACKUP_CANCELLED", finishedAt := some (unix now) }

/-- The first statement: a waiting task is cancelled. -/
def cancelTaskRow (s : Store) (tenant id : String) (now : Time) : Store :=
  s.updateTasks (taskIn tenant id (·.status == .queued)) (cancelledRow now) fun _ => rfl

/-- The second statement: its waiting job fails. The error of the statement is
dropped. -/
def cancelTaskJob (s : Store) (tenant jobId : String) (now : Time) : Store :=
  match s.updateJobs (jobIn tenant jobId (· == .queued)) (cancelledJob now) fun _ => rfl with
  | .ok s' => s'
  | .error _ => s

def cancelTask (s : Store) (tenant id : String) (now : Time) : Except StoreError (Store × BackupTask) :=
  match s.task tenant id with
  | .error e => .error e
  | .ok t =>
    if t.status = .queued then
      let s' := (s.cancelTaskRow tenant id now).cancelTaskJob tenant t.backupJobId now
      match s'.task tenant id with
      | .error e => .error e
      | .ok t' => .ok (s', t')
    else if leasedGroup.contains t.status then .ok (s, t)
    else .error .conflict

/-! ## What they leave -/

theorem refreshBatch_ok {s s' : Store} {tenant batchId : String} {now : Time}
    (h : s.refreshBatch tenant batchId now = .ok s') :
    s'.toTables = { s.toTables with
      batches := refreshed s.tasks tenant batchId now s.batches } := by
  unfold refreshBatch at h
  simp only at h
  split at h
  · cases h
  · cases h; rfl

/-- A batch with a task is never refused. -/
theorem refreshBatch_of_mem {s : Store} {tenant batchId : String} (now : Time) {t : TaskRow}
    (ht : t ∈ s.tasks) (hb : inBatch tenant batchId t = true) :
    ∃ s', s.refreshBatch tenant batchId now = .ok s' := by
  have hpos : (batchCounts s.tasks tenant batchId).total ≠ 0 := by
    apply Nat.pos_iff_ne_zero.mp
    exact List.length_pos_of_mem (List.mem_filter.mpr ⟨ht, hb⟩)
  unfold refreshBatch
  simp only [hpos, if_false]
  exact ⟨_, rfl⟩

theorem moveAttempts_tables (s : Store) (tenant id : String) (m : TaskMove) (now : Time) :
    (s.moveAttempts tenant id m now).toTables =
      { s.toTables with attempts := m.attempts tenant id now s.attempts } := by
  unfold moveAttempts TaskMove.attempts
  split <;> rfl

theorem moveTaskJob_ok {s s' : Store} {tenant jobId : String} {m : TaskMove}
    (h : s.moveTaskJob tenant jobId m = .ok s') :
    s'.toTables = { s.toTables with jobs := m.jobs tenant jobId s.jobs } := by
  unfold moveTaskJob at h
  unfold TaskMove.jobs
  split at h
  · cases h; rfl
  · exact updateJobs_ok h

/-- The rows a closing transaction leaves. -/
def movedTables (s : Tables) (tenant id jobId batchId : String) (guard : TaskRow → Bool)
    (m : TaskMove) (now : Time) : Tables :=
  let tasks := updateWhere (taskIn tenant id guard) m.set s.tasks
  { s with
    tasks := tasks
    attempts := m.attempts tenant id now s.attempts
    jobs := m.jobs tenant jobId s.jobs
    batches := refreshed tasks tenant batchId now s.batches }

theorem runMove_ok {s s' : Store} {tenant id jobId batchId : String} {guard : TaskRow → Bool}
    {m : TaskMove} {now : Time} (h : s.runMove tenant id jobId batchId guard m now = .ok s') :
    s'.toTables = movedTables s.toTables tenant id jobId batchId guard m now := by
  unfold runMove at h
  split at h
  · cases h
  · next s₁ hj =>
    have h₁ := moveTaskJob_ok hj
    rw [moveAttempts_tables, updateTasks_tables] at h₁
    rw [refreshBatch_ok h, h₁]
    rfl

theorem taskIn_iff {tenant id : String} {guard : TaskRow → Bool} {t : TaskRow} :
    taskIn tenant id guard t = true ↔ t.tenantUid = tenant ∧ t.id = id ∧ guard t = true := by
  simp [taskIn, and_assoc]

theorem find?_taskIn {s : Store} {tenant id : String} {t : TaskRow} (ht : t ∈ s.tasks)
    (hid : t.id = id) (hten : t.tenantUid = tenant) :
    s.tasks.find? (taskIn tenant id fun _ => true) = some t := by
  apply find?_of_key s.tasks_pk _ ht
  · exact taskIn_iff.mpr ⟨hten, hid, rfl⟩
  · intro r r' hr hr'
    exact (taskIn_iff.mp hr).2.1.trans (taskIn_iff.mp hr').2.1.symm

theorem countP_taskIn {s : Store} {tenant id : String} {guard : TaskRow → Bool} {t : TaskRow}
    (ht : t ∈ s.tasks) (hp : taskIn tenant id guard t = true) :
    s.tasks.countP (taskIn tenant id guard) = 1 := by
  apply countP_eq_one s.tasks_pk _ ht hp
  intro r r' hr hr'
  exact (taskIn_iff.mp hr).2.1.trans (taskIn_iff.mp hr').2.1.symm

/-- A closing transaction that committed touched the row of that id, which met its
guard. -/
theorem closeTask_ok {s s' : Store} {tenant id : String} {guard : TaskRow → Bool}
    {missing : StoreError} {m : TaskMove} {now : Time}
    (h : s.closeTask tenant id guard missing m now = .ok s') :
    ∃ t ∈ s.tasks, taskIn tenant id guard t = true ∧
      s'.toTables = movedTables s.toTables tenant id t.backupJobId t.batchId guard m now := by
  unfold closeTask at h
  split at h
  · cases h
  · next hc =>
    obtain ⟨t, ht, hp⟩ := exists_of_countP_one (of_not_not hc)
    obtain ⟨hten, hid, -⟩ := taskIn_iff.mp hp
    rw [find?_taskIn ht hid hten] at h
    exact ⟨t, ht, hp, runMove_ok h⟩

theorem setTaskStatus_ok {s s' : Store} {tenant id token : String} {status : TaskStatus}
    (h : s.setTaskStatus tenant id token status = .ok s') :
    s'.toTables = { s.toTables with
      tasks := updateWhere
        (taskIn tenant id fun t => t.leaseToken == token && leasedGroup.contains t.status)
        (fun t => { t with status := status }) s.tasks } := by
  unfold setTaskStatus at h
  simp only at h
  split at h
  · cases h
  · cases h; rfl

theorem createBatch_ok {s s' : Store} {batch : BackupBatch} (h : s.createBatch batch = .ok s') :
    s'.toTables = { s.toTables with batches := s.batches ++ [batchRow batch] } := by
  unfold createBatch at h
  split at h
  · cases h
  · cases hi : s.insertBatch (batchRow batch) with
    | error e => rw [hi] at h; cases h
    | ok s₁ =>
      rw [hi] at h
      cases h
      exact insertBatch_ok hi

theorem addTask_ok {s s' : Store} {task : BackupTask} {now : Time}
    (h : s.addTask task now = .ok s') :
    s'.toTables = { s.toTables with
      tasks := s.tasks ++ [taskRow task]
      batches := refreshed (s.tasks ++ [taskRow task]) task.tenantUid task.batchId now s.batches } := by
  unfold addTask at h
  split at h
  · cases h
  · split at h
    · cases h
    · next s₁ hi =>
      rw [refreshBatch_ok h, insertTask_ok hi]

theorem refreshed_keys (tasks : List TaskRow) (tenant batchId : String) (now : Time)
    (batches : List BatchRow) :
    (refreshed tasks tenant batchId now batches).map BatchRow.keys = batches.map BatchRow.keys := by
  apply map_updateWhere
  intro b
  rfl

theorem addTask_batches {s s' : Store} {task : BackupTask} {now : Time}
    (h : s.addTask task now = .ok s') :
    s'.batches.map BatchRow.keys = s.batches.map BatchRow.keys := by
  rw [addTask_ok h]
  exact refreshed_keys _ _ _ _ _

/-- What a claim leaves: one waiting row leased, one more attempt, its batch
refreshed. -/
theorem claimNextTask_ok {s s' : Store} {tenant workerId token : String} {now expires : Time}
    {task : BackupTask}
    (h : s.claimNextTask tenant workerId token now expires = .ok (s', task)) :
    ∃ t ∈ s.tasks, t.tenantUid = tenant ∧ t.status = .queued ∧
      task = claimedTask now expires t ∧
      s'.toTables = { s.toTables with
        tasks := updateWhere (taskIn tenant t.id (·.status == .queued))
          (claimRow workerId token now expires) s.tasks
        attempts := s.attempts ++ [claimAttempt tenant workerId now t]
        batches := refreshed (updateWhere (taskIn tenant t.id (·.status == .queued))
          (claimRow workerId token now expires) s.tasks) tenant t.batchId now s.batches } := by
  unfold claimNextTask at h
  split at h
  · cases h
  · next t hf =>
    obtain ⟨ht, hc⟩ := List.mem_filter.mp (firstBy_mem hf)
    simp only [claimable, Bool.and_eq_true, beq_iff_eq] at hc
    split at h
    · cases h
    · split at h
      · cases h
      · next s₁ hi =>
        split at h
        · cases h
        · next s₂ hr =>
          cases h
          refine ⟨t, ht, hc.1.1, hc.1.2, rfl, ?_⟩
          rw [refreshBatch_ok hr, insertAttempt_ok hi]
          rfl

end Store

end AppBackup.Persistence
