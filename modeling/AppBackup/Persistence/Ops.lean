import AppBackup.Persistence.Plans

/- The store as a machine: every operation the services call, as one value, and
   what it does to the database. An operation that is refused rolls back, so it
   leaves the database as it was. `CancelTask` is the one operation that is not a
   transaction; here it runs to its end, and `Queue/World.lean` takes its
   statements apart. -/
namespace AppBackup.Persistence
open Table

inductive Op where
  | createPlan (plan : BackupPlan)
  | updatePlan (tenant : String) (plan : BackupPlan) (cancelQueued : Bool)
  | setPlanEnabled (tenant id : String) (enabled : Bool) (nextRun : Option Time) (updated : Time)
  | pausePlanForScope (tenant id : String) (reason : PlanPauseReason)
  | advancePlan (tenant id : String) (scheduledAt : Time) (nextRun : Option Time) (updated : Time)
  | createBatch (batch : BackupBatch)
  | addTask (task : BackupTask) (now : Time)
  | claimNextTask (tenant workerId token : String) (now expires : Time)
  | setTaskStatus (tenant id token : String) (status : TaskStatus)
  | setTaskScopeValidation (tenant id token : String) (value : PlanPauseReason)
  | heartbeatTask (tenant id token : String) (now expires : Time)
  | completeTask (tenant id token snapshotId : String) (now : Time)
  | retryTask (tenant id token code : String) (availableAt now : Time)
  | finishTaskFailure (tenant id token : String) (status : TaskStatus) (code : String) (now : Time)
  | cancelTask (tenant id : String) (now : Time)
  | requeueExpiredTasks (tenant : String) (now : Time)
  | resetTaskForManualRetry (tenant id : String) (now : Time)
  | createBackupJob (job : BackupJob)
  | startBackupJob (tenant id : String) (started : Time)
  | failBackupJob (tenant id code : String) (finished : Time)
  | commitSnapshot (snapshot : Snapshot)

namespace Op

/-- The store function an operation calls. -/
def apply (s : Store) : Op → Except StoreError Store
  | createPlan plan => s.createPlan plan
  | updatePlan tenant plan cancelQueued => s.updatePlan tenant plan cancelQueued
  | setPlanEnabled tenant id enabled nextRun updated => s.setPlanEnabled tenant id enabled nextRun updated
  | pausePlanForScope tenant id reason => s.pausePlanForScope tenant id reason
  | advancePlan tenant id scheduledAt nextRun updated =>
    .ok (s.advancePlan tenant id scheduledAt nextRun updated)
  | createBatch batch => s.createBatch batch
  | addTask task now => s.addTask task now
  | claimNextTask tenant workerId token now expires =>
    (s.claimNextTask tenant workerId token now expires).map (·.1)
  | setTaskStatus tenant id token status => s.setTaskStatus tenant id token status
  | setTaskScopeValidation tenant id token value => .ok (s.setTaskScopeValidation tenant id token value)
  | heartbeatTask tenant id token now expires => .ok (s.heartbeatTask tenant id token now expires)
  | completeTask tenant id token snapshotId now => s.completeTask tenant id token snapshotId now
  | retryTask tenant id token code availableAt now => s.retryTask tenant id token code availableAt now
  | finishTaskFailure tenant id token status code now =>
    s.finishTaskFailure tenant id token status code now
  | cancelTask tenant id now => (s.cancelTask tenant id now).map (·.1)
  | requeueExpiredTasks tenant now => s.requeueExpiredTasks tenant now
  | resetTaskForManualRetry tenant id now => s.resetTaskForManualRetry tenant id now
  | createBackupJob job => s.createBackupJob job
  | startBackupJob tenant id started => s.startBackupJob tenant id started
  | failBackupJob tenant id code finished => s.failBackupJob tenant id code finished
  | commitSnapshot snapshot => s.commitSnapshot snapshot

/-- The database after an operation: a refused one rolled back. -/
def next (s : Store) (op : Op) : Store :=
  match op.apply s with
  | .ok s' => s'
  | .error _ => s

theorem next_cases (s : Store) (op : Op) :
    op.apply s = .ok (op.next s) ∨ op.next s = s := by
  unfold next
  cases op.apply s with
  | ok s' => exact .inl rfl
  | error e => exact .inr rfl

theorem next_of_ok {s s' : Store} {op : Op} (h : op.apply s = .ok s') : op.next s = s' := by
  unfold next
  rw [h]

end Op

/-- The database after a list of operations, each run on what the ones before it
left. -/
def runOps (s : Store) (ops : List Op) : Store := ops.foldl Op.next s

/-! ## The shape of an operation's effect -/

namespace Store

theorem setPlanEnabled_ok {s s' : Store} {tenant id : String} {enabled : Bool}
    {nextRun : Option Time} {updated : Time}
    (h : s.setPlanEnabled tenant id enabled nextRun updated = .ok s') :
    ∃ plans, s'.toTables = { s.toTables with plans := plans } := by
  unfold setPlanEnabled at h
  split at h
  · cases h
  · cases h; exact ⟨_, rfl⟩

theorem cancelTaskJob_tables (s : Store) (tenant jobId : String) (now : Time) :
    (s.cancelTaskJob tenant jobId now).toTables = { s.toTables with
      jobs := updateWhere (jobIn tenant jobId (· == .queued)) (cancelledJob now) s.jobs } := by
  unfold cancelTaskJob
  split
  · next s' hs' => exact updateJobs_ok hs'
  · next e he =>
    -- a job that fails leaves the active index, so the statement is never refused
    have hquiet : ∀ j, jobIn tenant jobId (· == .queued) j = true →
        (cancelledJob now j).isActive = true → j.isActive = true := by
      intro j _ h
      simp [cancelledJob, JobRow.isActive, JobStatus.active] at h
    obtain ⟨s', hs'⟩ := updateJobs_of_quiet s (f := cancelledJob now) (fun _ => rfl) hquiet
    rw [hs'] at he
    cases he

/-- `CancelTask` either cancels a waiting task and its waiting job or writes
nothing. -/
theorem cancelTask_ok {s s' : Store} {tenant id : String} {now : Time} {task : BackupTask}
    (h : s.cancelTask tenant id now = .ok (s', task)) :
    ∃ t ∈ s.tasks, t.tenantUid = tenant ∧ t.id = id ∧
      ((t.status = .queued ∧
          s' = (s.cancelTaskRow tenant id now).cancelTaskJob tenant t.backupJobId now) ∨
        (leasedGroup.contains t.status = true ∧ s' = s)) := by
  unfold cancelTask at h
  split at h
  · cases h
  · next task₀ hread =>
    unfold Store.task at hread
    split at hread
    · next t hf =>
      cases hread
      have ht := List.mem_of_find?_eq_some hf
      obtain ⟨hten, hid, -⟩ := taskIn_iff.mp (List.find?_some hf)
      have hstatus : (scanTask t).status = t.status := rfl
      have hjob : (scanTask t).backupJobId = t.backupJobId := rfl
      rw [hstatus, hjob] at h
      refine ⟨t, ht, hten, hid, ?_⟩
      by_cases hq : t.status = .queued
      · rw [if_pos hq] at h
        simp only at h
        split at h
        · cases h
        · cases h
          exact .inl ⟨hq, rfl⟩
      · rw [if_neg hq] at h
        by_cases hl : leasedGroup.contains t.status = true
        · rw [if_pos hl] at h
          cases h
          exact .inr ⟨hl, rfl⟩
        · rw [if_neg hl] at h
          cases h
    · cases hread

theorem task_of_mem {s : Store} {t : TaskRow} (ht : t ∈ s.tasks) :
    s.task t.tenantUid t.id = .ok (scanTask t) := by
  unfold Store.task
  rw [find?_taskIn ht rfl rfl]

/-- On a waiting task `CancelTask` runs both its statements and reads the task
back. -/
theorem cancelTask_queued {s : Store} {t : TaskRow} (now : Time) (ht : t ∈ s.tasks)
    (hq : t.status = .queued) :
    ∃ task, s.cancelTask t.tenantUid t.id now =
      .ok ((s.cancelTaskRow t.tenantUid t.id now).cancelTaskJob t.tenantUid t.backupJobId now,
        task) := by
  have hrow : cancelledRow now t ∈
      ((s.cancelTaskRow t.tenantUid t.id now).cancelTaskJob t.tenantUid t.backupJobId now).tasks := by
    rw [cancelTaskJob_tables]
    apply mem_updateWhere_hit ht
    exact taskIn_iff.mpr ⟨rfl, rfl, by simp [hq]⟩
  have hread : ((s.cancelTaskRow t.tenantUid t.id now).cancelTaskJob t.tenantUid t.backupJobId
      now).task t.tenantUid t.id = .ok (scanTask (cancelledRow now t)) := task_of_mem hrow
  have hstatus : (scanTask t).status = .queued := hq
  have hjob : (scanTask t).backupJobId = t.backupJobId := rfl
  refine ⟨scanTask (cancelledRow now t), ?_⟩
  simp only [cancelTask, task_of_mem ht, hstatus, if_true, hjob, hread]

end Store

/-! ## The batch and the task of the queue's own test -/

def batchA : BackupBatch where
  id := "batch-a"
  tenantUid := "tenant-a"
  planId := "plan-a"
  planName := "Plan"
  triggerType := "scheduled"
  status := .queued
  scheduledAt := 0
  createdAt := 0
  startedAt := none
  finishedAt := none
  totalTasks := 0
  succeeded := 0
  failed := 0
  skipped := 0
  running := 0
  queued := 0

def jobA : BackupJob where
  id := "backup-a"
  tenantUid := "tenant-a"
  oidcSubject := "subject-a"
  userRole := .normal
  appId := "cloud.demo"
  applicationName := "Demo"
  applicationVersion := ""
  deployId := "deploy-a"
  multiInstance := true
  sharedRiskAccepted := false
  status := .queued
  errorCode := ""
  snapshotId := ""
  planId := "plan-a"
  batchId := "batch-a"
  taskId := "task-a"
  triggerType := "scheduled"
  scope := .full
  scheduledAt := some 0
  createdAt := 0
  startedAt := none
  finishedAt := none

def taskA : BackupTask where
  id := "task-a"
  tenantUid := "tenant-a"
  batchId := "batch-a"
  planId := "plan-a"
  backupJobId := "backup-a"
  appId := "cloud.demo"
  applicationName := "Demo"
  deployId := "deploy-a"
  multiInstance := true
  sharedRiskAccepted := false
  triggerType := "scheduled"
  status := .queued
  priority := 0
  attemptCount := 0
  maxRetries := 1
  retryBackoffSeconds := 60
  errorCode := ""
  availableAt := 0
  scheduledAt := 0
  createdAt := 0
  startedAt := none
  finishedAt := none
  leaseExpiresAt := none
  heartbeatAt := none
  snapshotId := ""
  scope := .full
  scopeValidation := none

end AppBackup.Persistence
