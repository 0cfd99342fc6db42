import Mathlib.Algebra.Ring.Int.Defs
import AppBackup.Lib.Transition
import AppBackup.Persistence.Ops
import AppBackup.Queue.Service

/- The queue as it runs (`queue/service.go`, `ExecuteJob` of `backup/service.go`,
   `tenant/scope.go`): one database, and a process with its memory. Each worker,
   each `Cancel` and each enqueue is a thread of the process; a step of the world is
   one statement or transaction of one of them, or a move in memory under the
   mutex. A crash loses the memory and every thread, and keeps the database.

   A call whose context is done fails with the context's error and writes nothing;
   no statement fails for want of storage. Times, random ids and what the archive
   writer finds on disk are part of the action. -/
namespace AppBackup.Queue
open Persistence

/-! ## Contexts -/

/-- Why a context is done. -/
inductive CtxErr where
  | canceled | deadlineExceeded
  deriving DecidableEq

/-- `ctx.Err()`. -/
def CtxErr.error : CtxErr → GoError
  | canceled => .canceled
  | deadlineExceeded => .deadlineExceeded

/-! ## A call of `execute` -/

/-- The store call `execute` ends with. -/
inductive Closing where
  | complete (snapshotId : String) (now : Time)
  | retry (code : String) (availableAt now : Time)
  | finish (status : TaskStatus) (code : String) (now : Time)
  deriving DecidableEq

/-- What `execute` does next. From `reading` to `failing` it is inside
`ExecuteJob`, with the job it has read. -/
inductive Stage where
  | entered
  | registered
  | reading
  | starting (job : BackupJob)
  | running (job : BackupJob)
  | failing (err : GoError)
  | returned (err : Option GoError)
  | looking (now : Time)
  | validating (err : GoError) (now : Time)
  | pausing (err : GoError) (now : Time)
  | closing (c : Closing)
  | leaving

/-- A task leased under `token`, and how far `execute` has got with it. `done` is
the error of the context it runs under. -/
structure Execution where
  uid : String
  token : String
  task : BackupTask
  ctx : Nat
  done : Option CtxErr
  stage : Stage

/-- What the archive writer has put on disk. -/
structure Archive where
  storagePath : String
  archiveSize : Int
  archiveSha256 : String
  originalBytes : Int
  fileCount : Int
  directoryCount : Int
  sqliteCount : Int
  skippedCount : Int
  warningCount : Int
  capturedAt : Time
  finishedAt : Time
  verifiedAt : Time

/-- `strings.HasPrefix`. -/
def hasPrefix (value start : String) : Bool := start.toList.isPrefixOf value.toList

/-- `strings.TrimPrefix`. -/
def trimPrefix (value start : String) : String :=
  if hasPrefix value start then String.ofList (value.toList.drop start.toList.length) else value

def snapshotID (jobId : String) : String := "snapshot-" ++ trimPrefix jobId "backup-"

/-- The snapshot `execute` commits for a job. -/
def builtSnapshot (tenant : String) (job : BackupJob) (archive : Archive) : Snapshot where
  id := snapshotID job.id
  tenantUid := tenant
  jobId := job.id
  appId := job.appId
  applicationName := job.applicationName
  applicationVersion := job.applicationVersion
  deployId := job.deployId
  multiInstance := job.multiInstance
  sharedInstanceWarning := !job.multiInstance
  status := .completed
  storagePath := archive.storagePath
  archiveName := "snapshot.zip"
  archiveSize := archive.archiveSize
  archiveSha256 := archive.archiveSha256
  originalBytes := archive.originalBytes
  fileCount := archive.fileCount
  directoryCount := archive.directoryCount
  sqliteCount := archive.sqliteCount
  skippedCount := archive.skippedCount
  warningCount := archive.warningCount
  capturedAt := archive.capturedAt
  finishedAt := archive.finishedAt
  verificationStatus := .verified
  verifiedAt := some archive.verifiedAt
  planId := job.planId
  batchId := job.batchId
  taskId := job.taskId
  triggerType := job.triggerType
  retentionStatus := .active
  scope := job.scope
  trashedAt := none

namespace Execution

/-- The reason `execute` pauses the plan for. -/
def scopeReason (x : Execution) (err : GoError) (now : Time) : PlanPauseReason :=
  let failure := err.scopeFailure.getD ("", "selected path")
  ⟨err.code, x.task.deployId, failure.1, failure.2, now, x.task.scope.revision⟩

/-- How long a failed task waits before its next attempt. -/
def retryDelay (x : Execution) : Time :=
  let base := if x.task.retryBackoffSeconds ≤ 0 then 60 else x.task.retryBackoffSeconds
  base * second * 2 ^ min (x.task.attemptCount - 1) 6

/-- How `execute` closes a task that failed. -/
def failureClosing (x : Execution) (err : GoError) (now : Time) : Closing :=
  let code := err.code
  if retryable code && decide ((x.task.attemptCount : Int) ≤ x.task.maxRetries) then
    .retry code (now + x.retryDelay) now
  else
    .finish (if code = "BACKUP_TIMED_OUT" then .timedOut else .failed) code now

/-- Where `execute` goes when `ExecuteJob` has returned. -/
def afterReturn (x : Execution) (now : Time) : Option GoError → Stage
  | none => .looking now
  | some err =>
    if err.is .canceled then .closing (.finish .cancelled "BACKUP_CANCELLED" now)
    else if err.code = "BACKUP_SCOPE_PATH_MISSING" ∧ x.task.planId ≠ "" ∧
        hasPrefix x.task.planId "manual-" = false then .validating err now
    else .closing (x.failureClosing err now)

/-- The store call of a closing. -/
def closingOp (x : Execution) : Closing → Op
  | .complete snapshotId now => .completeTask x.uid x.task.id x.token snapshotId now
  | .retry code availableAt now => .retryTask x.uid x.task.id x.token code availableAt now
  | .finish status code now => .finishTaskFailure x.uid x.task.id x.token status code now

end Execution

/-- The deadline of `ExecuteJob` has passed. -/
def Execution.timedOut (x : Execution) : Execution :=
  { x with done := x.done.or (some .deadlineExceeded) }

/-- A cancel function ends its own context, unless it is done already. -/
def Execution.interrupted (ctx : Nat) (x : Execution) : Execution :=
  { x with done := if x.ctx = ctx then x.done.or (some .canceled) else x.done }

/-- A step of `execute`. -/
inductive ExecAct where
  | register
  | precheck
  | timeout
  | readJob
  | startJob (started : Time)
  | abort (err : GoError)
  | commit (archive : Archive)
  | failJob (finished : Time)
  | settle (now : Time)
  | lookup
  | validate
  | pause
  | close
  | leave

/-- The statements of `execute`: what each leaves of the database, and what comes
next. The job is read and moved under the tenant the process is bound to. -/
def Execution.act (x : Execution) (s : Store) (tenant : String) (a : ExecAct) :
    Option (Store × Stage) :=
  match x.stage, a with
  | .registered, .precheck =>
    match x.done with
    | some _ => some (s, .reading)
    | none => some ((Op.setTaskStatus x.uid x.task.id x.token .prechecking).next s, .reading)
  | .reading, .readJob =>
    match x.done with
    | some e => some (s, .returned (some e.error))
    | none =>
      match s.backupJob tenant x.task.backupJobId with
      | .error e => some (s, .returned (some (.store e)))
      | .ok job => some (s, .starting job)
  | .starting job, .startJob started =>
    match x.done with
    | some e => some (s, .returned (some e.error))
    | none =>
      match s.startBackupJob tenant x.task.backupJobId started with
      | .error e => some (s, .returned (some (.store e)))
      | .ok s' => some (s', .running { job with status := .running, startedAt := some started })
  | .running _, .abort err => some (s, .failing err)
  | .running job, .commit archive =>
    match x.done with
    | some e => some (s, .failing (.backup "CONTROL_DATABASE_WRITE_FAILED" e.error))
    | none =>
      match s.commitSnapshot (builtSnapshot tenant job archive) with
      | .error e => some (s, .failing (.backup "CONTROL_DATABASE_WRITE_FAILED" (.store e)))
      | .ok s' => some (s', .returned none)
  | .failing err, .failJob finished =>
    some ((Op.failBackupJob tenant x.task.backupJobId err.code finished).next s,
      .returned (some err))
  | .returned err, .settle now => some (s, x.afterReturn now err)
  | .looking now, .lookup =>
    match s.backupJob tenant x.task.backupJobId with
    | .error _ => some (s, .leaving)
    | .ok job => some (s, .closing (.complete job.snapshotId now))
  | .validating err now, .validate =>
    some ((Op.setTaskScopeValidation x.uid x.task.id x.token (x.scopeReason err now)).next s,
      .pausing err now)
  | .pausing err now, .pause =>
    some ((Op.pausePlanForScope tenant x.task.planId (x.scopeReason err now)).next s,
      .closing (x.failureClosing err now))
  | .closing c, .close => some ((x.closingOp c).next s, .leaving)
  | _, _ => none

/-! ## The threads -/

/-- The loop of a worker: idle before it reads the tenant, then the turns it takes
under that tenant. -/
inductive Worker where
  | idle
  | recovering (uid : String)
  | marking (uid : String)
  | claiming (uid : String)
  | busy (x : Execution)

/-- A call of `Cancel`: its read, the two statements on a waiting task, the look into
`cancelByID`, and the call of the function it found there. -/
inductive CancelCall where
  | idle
  | reading (id : String)
  | updating (id jobId : String) (now : Time)
  | failing (id jobId : String) (now : Time)
  | looking (id : String)
  | calling (id : String) (ctx : Nat)

/-- A call of `enqueueInstance` between its transactions, with the task it is to
add. -/
inductive EnqueueCall where
  | idle
  | adding (task : BackupTask)
  | undoing (jobId : String)

/-! ## The world -/

structure World where
  store : Store
  lease : Time
  tenant : String
  requeued : List String
  cancelByID : String → Option Nat
  nextCtx : Nat
  workers : Nat → Worker
  tickers : List (String × String × String)
  cancels : Nat → CancelCall
  enqueues : Nat → EnqueueCall

namespace World

/-- A process that has just started on a database, bound to no user yet. -/
def unbound (s : Store) (lease : Time) (nextCtx : Nat) : World where
  store := s
  lease := lease
  tenant := ""
  requeued := []
  cancelByID := fun _ => none
  nextCtx := nextCtx
  workers := fun _ => .idle
  tickers := []
  cancels := fun _ => .idle
  enqueues := fun _ => .idle

def setWorker (w : World) (i : Nat) (worker : Worker) : World :=
  { w with workers := Function.update w.workers i worker }

def setCancel (w : World) (k : Nat) (call : CancelCall) : World :=
  { w with cancels := Function.update w.cancels k call }

def setEnqueue (w : World) (k : Nat) (call : EnqueueCall) : World :=
  { w with enqueues := Function.update w.enqueues k call }

def onStore (w : World) (s : Store) : World := { w with store := s }

end World

def Worker.interrupted (ctx : Nat) : Worker → Worker
  | .busy x => .busy (x.interrupted ctx)
  | worker => worker

inductive Action where
  | bind (uid : String)
  | boot (uid : String) (now : Time)
  | crash
  | loop (i : Nat)
  | recover (i : Nat) (now : Time)
  | mark (i : Nat)
  | claim (i : Nat) (workerId : String) (hex : Option String) (now : Time)
  | execute (i : Nat) (a : ExecAct)
  | heartbeat (n : Nat) (now : Time)
  | cancel (k : Nat) (id : String)
  | cancelRead (k : Nat) (now : Time)
  | cancelRow (k : Nat)
  | cancelJob (k : Nat)
  | cancelLook (k : Nat)
  | cancelCall (k : Nat)
  | hangUp (k : Nat)
  | manualRetry (id : String) (now : Time)
  | createPlan (plan : BackupPlan)
  | updatePlan (plan : BackupPlan) (cancelQueued : Bool)
  | pausePlan (id : String) (reason : PlanPauseReason)
  | createBatch (batch : BackupBatch)
  | enqueueJob (k : Nat) (batch : BackupBatch) (instance_ : ApplicationInstance) (terms : Terms)
      (draw : Draw)
  | enqueueTask (k : Nat) (now : Time)
  | enqueueFails (k : Nat)
  | undoJob (k : Nat) (now : Time)
  | keepJob (k : Nat)
  | skipTask (batch : BackupBatch) (instance_ : ApplicationInstance) (code : String)
      (scope : BackupScope) (validation : Option PlanPauseReason) (draw : Draw)
  | library (applications : List ApplicationRow) (instances : List InstanceRow)

namespace World

/-- A turn of the worker's loop, up to the claim. -/
def loopStep (w : World) (i : Nat) : World :=
  if w.tenant = "" then w
  else if w.requeued.contains w.tenant then w.setWorker i (.claiming w.tenant)
  else w.setWorker i (.recovering w.tenant)

def recoverStep (w : World) (i : Nat) (uid : String) (now : Time) : World :=
  match w.store.requeueExpiredTasks uid now with
  | .error _ => w.setWorker i .idle
  | .ok s => (w.onStore s).setWorker i (.marking uid)

/-- `execute` begins with a context of its own. -/
def begin (w : World) (i : Nat) (token : String) (task : BackupTask) : World :=
  { w with
    nextCtx := w.nextCtx + 1
    workers := Function.update w.workers i (.busy {
      uid := if task.tenantUid = "" then w.tenant else task.tenantUid
      token := token
      task := task
      ctx := w.nextCtx
      done := none
      stage := .entered }) }

def claimStep (w : World) (i : Nat) (uid workerId : String) (hex : Option String) (now : Time) :
    World :=
  match randomID "lease" hex with
  | .error _ => w.setWorker i .idle
  | .ok token =>
    match w.store.claimNextTask uid workerId token now (now + w.lease) with
    | .error _ => w.setWorker i .idle
    | .ok (s, task) => (w.onStore s).begin i token task

/-- The steps of `execute`: those on the process's memory, and its statements. The
heartbeat starts with the first of these. -/
def executeStep (w : World) (i : Nat) (x : Execution) (a : ExecAct) : Option World :=
  match x.stage, a with
  | .entered, .register =>
    some ({ w with cancelByID := Function.update w.cancelByID x.task.id (some x.ctx) }.setWorker i
      (.busy { x with stage := .registered }))
  | .reading, .timeout | .starting _, .timeout | .running _, .timeout =>
    some (w.setWorker i (.busy x.timedOut))
  | .leaving, .leave =>
    some ({ w with cancelByID := Function.update w.cancelByID x.task.id none }.setWorker i .idle)
  | _, _ =>
    match x.act w.store w.tenant a with
    | none => none
    | some (s, stage) =>
      let w' := (w.onStore s).setWorker i (.busy { x with stage := stage })
      match a with
      | .precheck => some { w' with tickers := (x.uid, x.task.id, x.token) :: w.tickers }
      | _ => some w'

/-- A tick of a heartbeat that was started; it may come after `execute` has closed its
channel. -/
def heartbeatStep (w : World) (n : Nat) (now : Time) : Option World :=
  match w.tickers[n]? with
  | none => none
  | some (uid, id, token) =>
    some (w.onStore (w.store.heartbeatTask uid id token now (now + w.lease)))

def cancelReadStep (w : World) (k : Nat) (id : String) (now : Time) : World :=
  match w.store.task w.tenant id with
  | .error _ => w.setCancel k .idle
  | .ok t =>
    if t.status = .queued then w.setCancel k (.updating id t.backupJobId now)
    else if leasedGroup.contains t.status then w.setCancel k (.looking id)
    else w.setCancel k .idle

def cancelLookStep (w : World) (k : Nat) (id : String) : World :=
  match w.cancelByID id with
  | none => w.setCancel k .idle
  | some ctx => w.setCancel k (.calling id ctx)

def enqueueJobStep (w : World) (k : Nat) (batch : BackupBatch) (instance_ : ApplicationInstance)
    (terms : Terms) (draw : Draw) : Option World :=
  match randomID "task" draw.taskId with
  | .error _ => none
  | .ok taskId =>
    match createJob w.store w.tenant instance_.deployId terms.sharedRiskAccepted terms.subject
        terms.role batch.planId batch.id taskId batch.triggerType batch.scheduledAt terms.scope
        draw with
    | .error _ => none
    | .ok (job, s) =>
      some ((w.onStore s).setEnqueue k
        (.adding (queuedTask w.tenant taskId job.id batch instance_ terms (draw.now 1))))

def enqueueTaskStep (w : World) (k : Nat) (task : BackupTask) (now : Time) : World :=
  match w.store.addTask task now with
  | .error _ => w.setEnqueue k (.undoing task.backupJobId)
  | .ok s => (w.onStore s).setEnqueue k .idle

/-- One step of the world, where the action is one it can take. -/
def step (w : World) : Action → Option World
  | .bind uid =>
    if uid = "" then none
    else if w.tenant = "" then some { w with tenant := uid } else none
  | .boot uid now =>
    if uid = "" ∨ w.tenant ≠ "" then none
    else
      match w.store.requeueExpiredTasks uid now with
      | .error _ => none
      | .ok s => some { w with store := s, tenant := uid, requeued := [uid] }
  | .crash => some (unbound w.store w.lease w.nextCtx)
  | .loop i =>
    match w.workers i with
    | .idle => some (w.loopStep i)
    | _ => none
  | .recover i now =>
    match w.workers i with
    | .recovering uid => some (w.recoverStep i uid now)
    | _ => none
  | .mark i =>
    match w.workers i with
    | .marking uid => some ({ w with requeued := uid :: w.requeued }.setWorker i (.claiming uid))
    | _ => none
  | .claim i workerId hex now =>
    match w.workers i with
    | .claiming uid => some (w.claimStep i uid workerId hex now)
    | _ => none
  | .execute i a =>
    match w.workers i with
    | .busy x => w.executeStep i x a
    | _ => none
  | .heartbeat n now => w.heartbeatStep n now
  | .cancel k id =>
    match w.cancels k with
    | .idle => if w.tenant = "" then none else some (w.setCancel k (.reading id))
    | _ => none
  | .cancelRead k now =>
    match w.cancels k with
    | .reading id => some (w.cancelReadStep k id now)
    | _ => none
  | .cancelRow k =>
    match w.cancels k with
    | .updating id jobId now =>
      some ((w.onStore (w.store.cancelTaskRow w.tenant id now)).setCancel k (.failing id jobId now))
    | _ => none
  | .cancelJob k =>
    match w.cancels k with
    | .failing id jobId now =>
      some ((w.onStore (w.store.cancelTaskJob w.tenant jobId now)).setCancel k (.looking id))
    | _ => none
  | .cancelLook k =>
    match w.cancels k with
    | .looking id => some (w.cancelLookStep k id)
    | _ => none
  | .cancelCall k =>
    match w.cancels k with
    | .calling _ ctx =>
      some ({ w with workers := fun i => (w.workers i).interrupted ctx }.setCancel k .idle)
    | _ => none
  -- the request's own context is done, which fails the next statement
  | .hangUp k =>
    match w.cancels k with
    | .reading _ | .updating _ _ _ | .failing _ _ _ => some (w.setCancel k .idle)
    | _ => none
  | .manualRetry id now => some (w.onStore ((Op.resetTaskForManualRetry w.tenant id now).next w.store))
  | .createPlan plan => some (w.onStore ((Op.createPlan plan).next w.store))
  | .updatePlan plan cancelQueued =>
    some (w.onStore ((Op.updatePlan w.tenant plan cancelQueued).next w.store))
  | .pausePlan id reason => some (w.onStore ((Op.pausePlanForScope w.tenant id reason).next w.store))
  | .createBatch batch => some (w.onStore ((Op.createBatch batch).next w.store))
  | .enqueueJob k batch instance_ terms draw =>
    match w.enqueues k with
    | .idle => w.enqueueJobStep k batch instance_ terms draw
    | _ => none
  | .enqueueTask k now =>
    match w.enqueues k with
    | .adding task => some (w.enqueueTaskStep k task now)
    | _ => none
  | .enqueueFails k =>
    match w.enqueues k with
    | .adding task => some (w.setEnqueue k (.undoing task.backupJobId))
    | _ => none
  | .undoJob k now =>
    match w.enqueues k with
    | .undoing jobId =>
      some ((w.onStore ((Op.failBackupJob w.tenant jobId "QUEUE_PERSIST_FAILED" now).next w.store)).setEnqueue
        k .idle)
    | _ => none
  -- `CreateJob` called by itself ends with the job
  | .keepJob k =>
    match w.enqueues k with
    | .adding _ => some (w.setEnqueue k .idle)
    | _ => none
  | .skipTask batch instance_ code scope validation draw =>
    match recordSkipped w.store w.tenant batch instance_ code scope validation draw with
    | .error _ => none
    | .ok s => some (w.onStore s)
  | .library applications instances =>
    some (w.onStore { w.store with applications := applications, instances := instances })

/-- A process that has just started on an empty database. -/
def Fresh (w : World) : Prop := ∃ lease, w = unbound Store.empty lease 0

end World

theorem skipped_ne_backup (x y : String) : "skipped-" ++ x ≠ "backup-" ++ y := by
  intro h
  have hl := congrArg String.toList h
  simp at hl

end AppBackup.Queue
