import Mathlib.Logic.Function.Basic
import AppBackup.Backup.Errors
import AppBackup.Persistence.Plans

/- Enqueuing (`queue/service.go`, and `CreateJob` and `ValidateScope` of
   `backup/service.go`). A call is a sequence of store transactions, so it returns
   what the source returns and the database it leaves; a call that fails midway
   leaves what it had committed.

   What a call takes from outside is in its draws: the hex of its random ids, none
   where the entropy source failed, its readings of the clock, and what the
   resolver and the probe find on disk. -/
namespace AppBackup.Queue
open Persistence

/-- The draws of one `enqueueInstance` or `recordSkipped`. -/
structure Draw where
  taskId : Option String
  jobId : Option String
  now : Nat → Time

/-- `randomID`. -/
def randomID (kind : String) : Option String → Except GoError String
  | some hex => .ok (kind ++ "-" ++ hex)
  | none => .error (.plain "entropy source failed")

/-- The draws of one `StartManual` or `RunPlan`: its batch, when it pauses the plan,
the n-th target it enqueues and the n-th it records as skipped, and the error the
scan of a scope ends with, if any. -/
structure Draws where
  batchId : Option String
  now : Time
  pausedAt : Time
  enqueue : Nat → Draw
  skip : Nat → Draw
  scan : ApplicationInstance → BackupScope → Option GoError

/-! ## `CreateJob` -/

/-- The job `CreateJob` builds. -/
def newJob (tenant id : String) (instance_ : ApplicationInstance) (sharedRiskAccepted : Bool)
    (subject : String) (role : Role) (planId batchId taskId triggerType : String)
    (scheduledAt now : Time) (scope : BackupScope) : BackupJob where
  id := id
  tenantUid := tenant
  oidcSubject := subject
  userRole := role
  appId := instance_.appId
  applicationName := instance_.name
  applicationVersion := instance_.version
  deployId := instance_.deployId
  multiInstance := instance_.multiInstance
  sharedRiskAccepted := sharedRiskAccepted
  status := .queued
  errorCode := ""
  snapshotId := ""
  planId := planId
  batchId := batchId
  taskId := taskId
  triggerType := triggerType
  scope := scope
  scheduledAt := some scheduledAt
  createdAt := now
  startedAt := none
  finishedAt := none

def createJob (s : Store) (tenant deployId : String) (sharedRiskAccepted : Bool) (subject : String)
    (role : Role) (planId batchId taskId triggerType : String) (scheduledAt : Time)
    (scope : BackupScope) (draw : Draw) : Except GoError (BackupJob × Store) :=
  match s.instance tenant deployId with
  | .error e => .error (.store e)
  | .ok instance_ =>
    if !instance_.capabilityStatus.accepts then
      .error (.backup "INSTANCE_NOT_BACKUPABLE" (.plain "instance is not backupable"))
    else
      match randomID "backup" draw.jobId with
      | .error e => .error e
      | .ok id =>
        let job := newJob tenant id instance_ sharedRiskAccepted subject role planId batchId taskId
          triggerType scheduledAt (draw.now 0) scope
        match s.createBackupJob job with
        | .error e => .error (.store e)
        | .ok s' => .ok (job, s')

/-! ## One target -/

/-- The arguments `StartManual` and `RunPlan` pass on with an instance. -/
structure Terms where
  sharedRiskAccepted : Bool
  subject : String
  role : Role
  maxRetries : Int
  retryBackoffSeconds : Int
  priority : Int
  scope : BackupScope

/-- The task `enqueueInstance` adds. -/
def queuedTask (tenant taskId jobId : String) (batch : BackupBatch)
    (instance_ : ApplicationInstance) (terms : Terms) (now : Time) : BackupTask where
  id := taskId
  tenantUid := tenant
  batchId := batch.id
  planId := batch.planId
  backupJobId := jobId
  appId := instance_.appId
  applicationName := instance_.name
  deployId := instance_.deployId
  multiInstance := instance_.multiInstance
  sharedRiskAccepted := terms.sharedRiskAccepted
  triggerType := batch.triggerType
  status := .queued
  priority := terms.priority
  attemptCount := 0
  maxRetries := terms.maxRetries
  retryBackoffSeconds := terms.retryBackoffSeconds
  errorCode := ""
  availableAt := now
  scheduledAt := batch.scheduledAt
  createdAt := now
  startedAt := none
  finishedAt := none
  leaseExpiresAt := none
  heartbeatAt := none
  snapshotId := ""
  scope := terms.scope
  scopeValidation := none

/-- The task `recordSkipped` adds. -/
def skippedTask (tenant id : String) (batch : BackupBatch) (instance_ : ApplicationInstance)
    (code : String) (scope : BackupScope) (validation : Option PlanPauseReason) (now : Time) :
    BackupTask where
  id := id
  tenantUid := tenant
  batchId := batch.id
  planId := batch.planId
  backupJobId := "skipped-" ++ id
  appId := instance_.appId
  applicationName := instance_.name
  deployId := instance_.deployId
  multiInstance := instance_.multiInstance
  sharedRiskAccepted := false
  triggerType := batch.triggerType
  status := .skipped
  priority := 0
  attemptCount := 0
  maxRetries := 0
  retryBackoffSeconds := 0
  errorCode := code
  availableAt := now
  scheduledAt := batch.scheduledAt
  createdAt := now
  startedAt := none
  finishedAt := some now
  leaseExpiresAt := none
  heartbeatAt := none
  snapshotId := ""
  scope := scope
  scopeValidation := validation

def enqueueInstance (s : Store) (tenant : String) (batch : BackupBatch)
    (instance_ : ApplicationInstance) (terms : Terms) (draw : Draw) :
    Except GoError (BackupJob × BackupTask) × Store :=
  match randomID "task" draw.taskId with
  | .error e => (.error e, s)
  | .ok taskId =>
    match createJob s tenant instance_.deployId terms.sharedRiskAccepted terms.subject terms.role
        batch.planId batch.id taskId batch.triggerType batch.scheduledAt terms.scope draw with
    | .error e => (.error e, s)
    | .ok (job, s₁) =>
      let task := queuedTask tenant taskId job.id batch instance_ terms (draw.now 1)
      match s₁.addTask task (draw.now 2) with
      | .ok s₂ => (.ok (job, task), s₂)
      | .error e =>
        -- the job is undone; the error of that is dropped
        match s₁.failBackupJob tenant job.id "QUEUE_PERSIST_FAILED" (draw.now 3) with
        | .ok s₂ => (.error (.store e), s₂)
        | .error _ => (.error (.store e), s₁)

def recordSkipped (s : Store) (tenant : String) (batch : BackupBatch)
    (instance_ : ApplicationInstance) (code : String) (scope : BackupScope)
    (validation : Option PlanPauseReason) (draw : Draw) : Except GoError Store :=
  match randomID "task" draw.taskId with
  | .error e => .error e
  | .ok id =>
    (s.addTask (skippedTask tenant id batch instance_ code scope validation (draw.now 0))
      (draw.now 1)).mapError .store

/-! ## `StartManual` -/

def manualBatch (tenant batchId : String) (now : Time) : BackupBatch where
  id := batchId
  tenantUid := tenant
  planId := "manual-" ++ batchId
  planName := "手动备份"
  triggerType := "manual"
  status := .queued
  scheduledAt := now
  createdAt := now
  startedAt := none
  finishedAt := none
  totalTasks := 0
  succeeded := 0
  failed := 0
  skipped := 0
  running := 0
  queued := 0

def startManual (s : Store) (tenant deployId : String) (sharedRiskAccepted : Bool) (subject : String)
    (role : Role) (draws : Draws) : Except GoError BackupJob × Store :=
  match s.instance tenant deployId with
  | .error e => (.error (.store e), s)
  | .ok instance_ =>
    match randomID "batch" draws.batchId with
    | .error e => (.error e, s)
    | .ok batchId =>
      let batch := manualBatch tenant batchId draws.now
      match s.createBatch batch with
      | .error e => (.error (.store e), s)
      | .ok s₁ =>
        let terms : Terms :=
          ⟨sharedRiskAccepted, subject, role, 0, 60, 0, ⟨"FULL", [], [], 1, ""⟩⟩
        match enqueueInstance s₁ tenant batch instance_ terms (draws.enqueue 0) with
        | (.error e, s₂) => (.error e, s₂)
        | (.ok (job, _), s₂) => (.ok job, s₂)

/-! ## `RunPlan` -/

def planBatch (tenant batchId : String) (plan : BackupPlan) (trigger : String)
    (scheduledAt now : Time) : BackupBatch where
  id := batchId
  tenantUid := tenant
  planId := plan.id
  planName := plan.name
  triggerType := trigger
  status := .queued
  scheduledAt := scheduledAt
  createdAt := now
  startedAt := none
  finishedAt := none
  totalTasks := 0
  succeeded := 0
  failed := 0
  skipped := 0
  running := 0
  queued := 0

/-- Only the hundred newest batches are looked at, and a stored time is a whole
second. -/
def existingBatch (s : Store) (tenant planId : String) (scheduledAt : Time) :
    Except GoError BackupBatch :=
  match (s.recentBatches tenant 100).find? fun b => b.planId == planId && b.scheduledAt == scheduledAt with
  | some b => .ok b
  | none => .error (.store .conflict)

/-- What `planInstances` returns: the instances found, and two maps by deployment. -/
structure PlanInstances where
  items : List ApplicationInstance
  accepted : String → Bool
  scopes : String → BackupScope

/-- The loop of `planInstances`. A target without an active instance is passed
over. -/
def planInstancesFrom (s : Store) (tenant : String) (plan : BackupPlan) :
    List PlanTarget → PlanInstances → Except GoError PlanInstances
  | [], found => .ok found
  | target :: rest, found =>
    match s.instance tenant target.deployId with
    | .error .notFound => planInstancesFrom s tenant plan rest found
    | .error e => .error (.store e)
    | .ok item =>
      let scope := if target.scope.mode = "" then ⟨"FULL", [], [], 1, ""⟩ else target.scope
      planInstancesFrom s tenant plan rest
        { items := found.items ++ [item]
          accepted := Function.update found.accepted item.deployId
            (target.sharedRiskAccepted || plan.sharedRiskAccepted)
          scopes := Function.update found.scopes item.deployId scope }

def planInstances (s : Store) (tenant : String) (plan : BackupPlan) :
    Except GoError PlanInstances :=
  if plan.targetKind ≠ "EXPLICIT" then .error (.plain "unsupported plan target kind")
  else planInstancesFrom s tenant plan plan.targets ⟨[], fun _ => false, fun _ => ⟨"", [], [], 0, ""⟩⟩

/-- `ValidateScope`: nothing to check on a full backup; else what the scan says. -/
def validateScope (s : Store) (tenant deployId : String) (scope : BackupScope)
    (scan : ApplicationInstance → BackupScope → Option GoError) : Option GoError :=
  if scope.mode = "" ∨ scope.mode = "FULL" then none
  else
    match s.instance tenant deployId with
    | .error e => some (.store e)
    | .ok instance_ => scan instance_ scope

/-- The first instance whose scope is not valid, with its error. -/
def firstInvalid (s : Store) (tenant : String) (scopes : String → BackupScope)
    (scan : ApplicationInstance → BackupScope → Option GoError) :
    List ApplicationInstance → Option (ApplicationInstance × GoError)
  | [] => none
  | instance_ :: rest =>
    match validateScope s tenant instance_.deployId (scopes instance_.deployId) scan with
    | some e => some (instance_, e)
    | none => firstInvalid s tenant scopes scan rest

/-- The loop that records every instance of a paused plan as skipped. -/
def recordPaused (s : Store) (tenant : String) (batch : BackupBatch) (found : PlanInstances)
    (reason : PlanPauseReason) (draw : Nat → Draw) :
    Nat → List ApplicationInstance → Except GoError Unit × Store
  | _, [] => (.ok (), s)
  | n, affected :: rest =>
    let code :=
      if affected.deployId = reason.deployId then reason.code else "PLAN_PAUSED_SCOPE_INVALID"
    match recordSkipped s tenant batch affected code (found.scopes affected.deployId) (some reason)
        (draw n) with
    | .error e => (.error e, s)
    | .ok s' => recordPaused s' tenant batch found reason draw (n + 1) rest

/-- What `RunPlan` passes on with an instance. -/
def planTerms (plan : BackupPlan) (found : PlanInstances) (deployId : String) : Terms :=
  ⟨found.accepted deployId, plan.createdBySubject, .normal, plan.retry.maxRetries,
    plan.retry.backoffSeconds, 10, found.scopes deployId⟩

/-- The body of the loop that enqueues: a conflict is recorded as a skipped task. -/
def enqueueOrSkip (s : Store) (tenant : String) (plan : BackupPlan) (batch : BackupBatch)
    (found : PlanInstances) (instance_ : ApplicationInstance) (draw skip : Draw) :
    Except GoError Unit × Store :=
  match enqueueInstance s tenant batch instance_ (planTerms plan found instance_.deployId) draw with
  | (.ok _, s') => (.ok (), s')
  | (.error e, s') =>
    if e.isConflict then
      match recordSkipped s' tenant batch instance_ "INSTANCE_ALREADY_QUEUED"
          (found.scopes instance_.deployId) none skip with
      | .error e' => (.error e', s')
      | .ok s'' => (.ok (), s'')
    else (.error e, s')

def enqueueAll (s : Store) (tenant : String) (plan : BackupPlan) (batch : BackupBatch)
    (found : PlanInstances) (draw skip : Nat → Draw) :
    Nat → List ApplicationInstance → Except GoError Unit × Store
  | _, [] => (.ok (), s)
  | n, instance_ :: rest =>
    match enqueueOrSkip s tenant plan batch found instance_ (draw n) (skip n) with
    | (.error e, s') => (.error e, s')
    | (.ok (), s') => enqueueAll s' tenant plan batch found draw skip (n + 1) rest

/-- The reason a plan is paused for. -/
def pauseReason (instance_ : ApplicationInstance) (failure : String × String) (scope : BackupScope)
    (now : Time) : PlanPauseReason :=
  ⟨"BACKUP_SCOPE_PATH_MISSING", instance_.deployId, failure.1, failure.2, now, scope.revision⟩

/-- `RunPlan` once its batch is there: the tasks of the batch, one target after the
other. -/
def expandPlan (s : Store) (tenant : String) (plan : BackupPlan) (batch : BackupBatch)
    (draws : Draws) : Except GoError Unit × Store :=
  match planInstances s tenant plan with
  | .error e => (.error e, s)
  | .ok found =>
    match firstInvalid s tenant found.scopes draws.scan found.items with
    | some (instance_, err) =>
      match err.scopeFailure with
      | none => (.error err, s)
      | some failure =>
        let reason := pauseReason instance_ failure (found.scopes instance_.deployId) draws.pausedAt
        match s.pausePlanForScope tenant plan.id reason with
        | .error e => (.error (.store e), s)
        | .ok s' => recordPaused s' tenant batch found reason draws.skip 0 found.items
    | none => enqueueAll s tenant plan batch found draws.enqueue draws.skip 0 found.items

def runPlan (s : Store) (tenant : String) (plan : BackupPlan) (trigger : String) (scheduledAt : Time)
    (draws : Draws) : Except GoError BackupBatch × Store :=
  match randomID "batch" draws.batchId with
  | .error e => (.error e, s)
  | .ok batchId =>
    let batch := planBatch tenant batchId plan trigger scheduledAt draws.now
    match s.createBatch batch with
    | .error .conflict => (existingBatch s tenant plan.id scheduledAt, s)
    | .error e => (.error (.store e), s)
    | .ok s₁ =>
      match expandPlan s₁ tenant plan batch draws with
      | (.error e, s₂) => (.error e, s₂)
      | (.ok (), s₂) => ((s₂.batch tenant batch.id).mapError .store, s₂)

/-! ## What they leave -/

theorem randomID_ok {kind id : String} {hex : Option String} (h : randomID kind hex = .ok id) :
    ∃ x, hex = some x ∧ id = kind ++ "-" ++ x := by
  unfold randomID at h
  split at h
  · next x => cases h; exact ⟨x, rfl, rfl⟩
  · cases h

/-- The library finds an instance under the deployment it is asked for. -/
theorem instance_deployId {s : Store} {tenant deployId : String} {i : ApplicationInstance}
    (h : s.instance tenant deployId = .ok i) : i.deployId = deployId := by
  unfold Store.instance at h
  split at h
  · next found hf =>
    cases h
    obtain ⟨row, -, hrow⟩ := List.exists_of_findSome?_eq_some hf
    split at hrow
    · next hcond =>
      obtain ⟨a, -, rfl⟩ := Option.map_eq_some_iff.mp hrow
      exact hcond.2.1
    · cases hrow
  · cases h

theorem instance_error {s : Store} {tenant deployId : String} {e : StoreError}
    (h : s.instance tenant deployId = .error e) : e = .notFound := by
  unfold Store.instance at h
  split at h
  · cases h
  · cases h; rfl

/-- A job is created from the instance the library finds, in a transaction of its
own. -/
theorem createJob_ok {s s' : Store} {tenant deployId subject planId batchId taskId triggerType : String}
    {shared : Bool} {role : Role} {scheduledAt : Time} {scope : BackupScope} {draw : Draw}
    {job : BackupJob}
    (h : createJob s tenant deployId shared subject role planId batchId taskId triggerType scheduledAt
      scope draw = .ok (job, s')) :
    ∃ i x, s.instance tenant deployId = .ok i ∧ i.capabilityStatus.accepts = true ∧
      draw.jobId = some x ∧
      job = newJob tenant ("backup" ++ "-" ++ x) i shared subject role planId batchId taskId triggerType
        scheduledAt (draw.now 0) scope ∧
      s.createBackupJob job = .ok s' := by
  unfold createJob at h
  split at h
  · cases h
  · next i hi =>
    split at h
    · cases h
    · next hc =>
      split at h
      · cases h
      · next id hid =>
        obtain ⟨x, hx, rfl⟩ := randomID_ok hid
        simp only at h
        split at h
        · cases h
        · next s₁ hs₁ =>
          cases h
          exact ⟨i, x, hi, by simpa using hc, hx, rfl, hs₁⟩

/-- An enqueue that goes through adds one waiting task of the instance. -/
theorem enqueueInstance_ok {s s' : Store} {tenant : String} {batch : BackupBatch}
    {instance_ : ApplicationInstance} {terms : Terms} {draw : Draw} {job : BackupJob}
    {task : BackupTask}
    (h : enqueueInstance s tenant batch instance_ terms draw = (.ok (job, task), s')) :
    ∃ s₁ taskId, randomID "task" draw.taskId = .ok taskId ∧
      createJob s tenant instance_.deployId terms.sharedRiskAccepted terms.subject terms.role
        batch.planId batch.id taskId batch.triggerType batch.scheduledAt terms.scope draw =
          .ok (job, s₁) ∧
      task = queuedTask tenant taskId job.id batch instance_ terms (draw.now 1) ∧
      s₁.addTask task (draw.now 2) = .ok s' := by
  unfold enqueueInstance at h
  split at h
  · cases h
  · next taskId hid =>
    split at h
    · cases h
    · next job₁ s₁ hjob =>
      simp only at h
      split at h
      · next s₂ hadd =>
        cases h
        exact ⟨s₁, taskId, hid, hjob, rfl, hadd⟩
      · split at h <;> cases h

/-- An enqueue that fails leaves the database as it was, or with one more job, which
it has tried to fail. -/
theorem enqueueInstance_error {s s' : Store} {tenant : String} {batch : BackupBatch}
    {instance_ : ApplicationInstance} {terms : Terms} {draw : Draw} {e : GoError}
    (h : enqueueInstance s tenant batch instance_ terms draw = (.error e, s')) :
    s' = s ∨ ∃ s₁ job taskId,
      createJob s tenant instance_.deployId terms.sharedRiskAccepted terms.subject terms.role
        batch.planId batch.id taskId batch.triggerType batch.scheduledAt terms.scope draw =
          .ok (job, s₁) ∧
      (s₁.failBackupJob tenant job.id "QUEUE_PERSIST_FAILED" (draw.now 3) = .ok s' ∨
        (s' = s₁ ∧ ∃ e', s₁.failBackupJob tenant job.id "QUEUE_PERSIST_FAILED" (draw.now 3) =
          .error e')) := by
  unfold enqueueInstance at h
  split at h
  · cases h; exact .inl rfl
  · next taskId hid =>
    split at h
    · cases h; exact .inl rfl
    · next job s₁ hjob =>
      simp only at h
      split at h
      · cases h
      · split at h
        · next s₂ hfail => cases h; exact .inr ⟨s₁, job, taskId, hjob, .inl hfail⟩
        · next e' hfail => cases h; exact .inr ⟨_, job, taskId, hjob, .inr ⟨rfl, e', hfail⟩⟩

theorem createJob_tables {s s' : Store}
    {tenant deployId subject planId batchId taskId triggerType : String}
    {shared : Bool} {role : Role} {scheduledAt : Time} {scope : BackupScope} {draw : Draw}
    {job : BackupJob}
    (h : createJob s tenant deployId shared subject role planId batchId taskId triggerType scheduledAt
      scope draw = .ok (job, s')) :
    s'.toTables = { s.toTables with jobs := s.jobs ++ [jobRow job] } := by
  obtain ⟨-, -, -, -, -, -, hcreate⟩ := createJob_ok h
  exact Store.createBackupJob_ok hcreate

theorem enqueueInstance_error_tables {s s' : Store} {tenant : String} {batch : BackupBatch}
    {instance_ : ApplicationInstance} {terms : Terms} {draw : Draw} {e : GoError}
    (h : enqueueInstance s tenant batch instance_ terms draw = (.error e, s')) :
    ∃ jobs, s'.toTables = { s.toTables with jobs := jobs } := by
  rcases enqueueInstance_error h with rfl | ⟨s₁, job, taskId, hjob, hfail | ⟨rfl, -⟩⟩
  · exact ⟨_, rfl⟩
  · have ht := (Store.moveJob_ok hfail).2
    rw [createJob_tables hjob] at ht
    exact ⟨_, ht⟩
  · exact ⟨_, createJob_tables hjob⟩

theorem recordSkipped_ok {s s' : Store} {tenant code : String} {batch : BackupBatch}
    {instance_ : ApplicationInstance} {scope : BackupScope} {validation : Option PlanPauseReason}
    {draw : Draw} (h : recordSkipped s tenant batch instance_ code scope validation draw = .ok s') :
    ∃ id, randomID "task" draw.taskId = .ok id ∧
      s.addTask (skippedTask tenant id batch instance_ code scope validation (draw.now 0))
        (draw.now 1) = .ok s' := by
  unfold recordSkipped at h
  split at h
  · cases h
  · next id hid =>
    refine ⟨id, hid, ?_⟩
    cases ha : s.addTask (skippedTask tenant id batch instance_ code scope validation (draw.now 0))
        (draw.now 1) with
    | error e => rw [ha] at h; cases h
    | ok s₁ => rw [ha] at h; cases h; rfl

end AppBackup.Queue
