import AppBackup.Queue.World

/- What a step of the world can do, as a relation: `Steps w a w'` has one case for each
   branch of `World.step`, with the guards of the branch and what it finds, and
   `step_sound` shows that every step is one of them. The proofs about runs go by cases
   on it and never unfold `step`. -/
namespace AppBackup.Queue
open Persistence

/-! ## The statements of `execute` -/

/-- The statements of `execute` and what they find. -/
inductive Execution.Acts (x : Execution) (s : Store) (tenant : String) :
    ExecAct → Store → Stage → Prop where
  | precheckDone (hx : x.stage = .registered) {e : CtxErr} (hd : x.done = some e) :
      Acts x s tenant .precheck s .reading
  | precheck (hx : x.stage = .registered) (hd : x.done = none) :
      Acts x s tenant .precheck ((Op.setTaskStatus x.uid x.task.id x.token .prechecking).next s)
        .reading
  | unread (hx : x.stage = .reading) {err : GoError} (hd : ∀ e, x.done = some e → err = e.error) :
      Acts x s tenant .readJob s (.returned (some err))
  | read (hx : x.stage = .reading) (hd : x.done = none) {job : BackupJob}
      (hj : s.backupJob tenant x.task.backupJobId = .ok job) :
      Acts x s tenant .readJob s (.starting job)
  | unstarted {job : BackupJob} (hx : x.stage = .starting job) {err : GoError} {started : Time}
      (hd : ∀ e, x.done = some e → err = e.error) :
      Acts x s tenant (.startJob started) s (.returned (some err))
  | started {job : BackupJob} (hx : x.stage = .starting job) (hd : x.done = none) {s' : Store}
      {started : Time} (hs : s.startBackupJob tenant x.task.backupJobId started = .ok s') :
      Acts x s tenant (.startJob started) s'
        (.running { job with status := .running, startedAt := some started })
  | broken {job : BackupJob} (hx : x.stage = .running job) (err : GoError) (a : ExecAct) :
      Acts x s tenant a s (.failing err)
  | committed {job : BackupJob} (hx : x.stage = .running job) (hd : x.done = none) {s' : Store}
      {archive : Archive} (hs : s.commitSnapshot (builtSnapshot tenant job archive) = .ok s') :
      Acts x s tenant (.commit archive) s' (.returned none)
  | failed {err : GoError} (hx : x.stage = .failing err) (finished : Time) :
      Acts x s tenant (.failJob finished)
        ((Op.failBackupJob tenant x.task.backupJobId err.code finished).next s)
        (.returned (some err))
  | settled {err : Option GoError} (hx : x.stage = .returned err) (now : Time) :
      Acts x s tenant (.settle now) s (x.afterReturn now err)
  | lost {now : Time} (hx : x.stage = .looking now) {e : StoreError}
      (hj : s.backupJob tenant x.task.backupJobId = .error e) : Acts x s tenant .lookup s .leaving
  | looked {now : Time} (hx : x.stage = .looking now) {job : BackupJob}
      (hj : s.backupJob tenant x.task.backupJobId = .ok job) :
      Acts x s tenant .lookup s (.closing (.complete job.snapshotId now))
  | validated {err : GoError} {now : Time} (hx : x.stage = .validating err now) :
      Acts x s tenant .validate
        ((Op.setTaskScopeValidation x.uid x.task.id x.token (x.scopeReason err now)).next s)
        (.pausing err now)
  | paused {err : GoError} {now : Time} (hx : x.stage = .pausing err now) :
      Acts x s tenant .pause
        ((Op.pausePlanForScope tenant x.task.planId (x.scopeReason err now)).next s)
        (.closing (x.failureClosing err now))
  | closed {c : Closing} (hx : x.stage = .closing c) :
      Acts x s tenant .close ((x.closingOp c).next s) .leaving

theorem act_cases {x : Execution} {s s' : Store} {tenant : String} {a : ExecAct} {stage : Stage}
    (h : x.act s tenant a = some (s', stage)) : x.Acts s tenant a s' stage := by
  have hsome : ∀ {e e' : CtxErr}, x.done = some e → x.done = some e' → e.error = e'.error := by
    intro e e' he he'
    rw [he] at he'
    cases he'
    rfl
  unfold Execution.act at h
  split at h
  · next hx =>
    split at h
    · next hd =>
      cases h
      exact .precheckDone hx hd
    · next hd =>
      cases h
      exact .precheck hx hd
  · next hx =>
    split at h
    · next hd =>
      cases h
      exact .unread hx (fun e' he' => hsome hd he')
    · next hd =>
      split at h
      · cases h
        refine .unread hx ?_
        intro e' he'
        rw [hd] at he'
        cases he'
      · next hj =>
        cases h
        exact .read hx hd hj
  · next hx =>
    split at h
    · next hd =>
      cases h
      exact .unstarted hx (fun e' he' => hsome hd he')
    · next hd =>
      split at h
      · cases h
        refine .unstarted hx ?_
        intro e' he'
        rw [hd] at he'
        cases he'
      · next hs =>
        cases h
        exact .started hx hd hs
  · next hx =>
    cases h
    exact .broken hx _ _
  · next hx =>
    split at h
    · cases h
      exact .broken hx _ _
    · next hd =>
      split at h
      · cases h
        exact .broken hx _ _
      · next hs =>
        cases h
        exact .committed hx hd hs
  · next hx =>
    cases h
    exact .failed hx _
  · next hx =>
    cases h
    exact .settled hx _
  · next hx =>
    split at h
    · next hj =>
      cases h
      exact .lost hx hj
    · next hj =>
      cases h
      exact .looked hx hj
  · next hx =>
    cases h
    exact .validated hx
  · next hx =>
    cases h
    exact .paused hx
  · next hx =>
    cases h
    exact .closed hx
  · cases h

/-- `ExecuteJob` has not returned, and its deadline may pass. -/
def Stage.timed : Stage → Prop
  | reading | starting _ | running _ => True
  | _ => False

namespace World

/-- The world after a statement of `execute`. -/
def afterAct (w : World) (i : Nat) (x : Execution) (s : Store) (stage : Stage)
    (tickers : List (String × String × String)) : World :=
  { (w.onStore s).setWorker i (.busy { x with stage := stage }) with tickers := tickers }

/-! ## The steps -/

inductive Steps (w : World) : Action → World → Prop where
  | bind {uid : String} (hu : uid ≠ "") (ht : w.tenant = "") :
      Steps w (.bind uid) { w with tenant := uid }
  | boot {uid : String} {now : Time} {s : Store} (hu : uid ≠ "") (ht : w.tenant = "")
      (hs : w.store.requeueExpiredTasks uid now = .ok s) :
      Steps w (.boot uid now) { w with store := s, tenant := uid, requeued := [uid] }
  | crash : Steps w .crash (unbound w.store w.lease w.nextCtx)
  | unready {i : Nat} (hi : w.workers i = .idle) (ht : w.tenant = "") : Steps w (.loop i) w
  | ready {i : Nat} (hi : w.workers i = .idle) (ht : w.tenant ≠ "")
      (hr : w.requeued.contains w.tenant = true) :
      Steps w (.loop i) (w.setWorker i (.claiming w.tenant))
  | stale {i : Nat} (hi : w.workers i = .idle) (ht : w.tenant ≠ "")
      (hr : w.requeued.contains w.tenant = false) :
      Steps w (.loop i) (w.setWorker i (.recovering w.tenant))
  | unrecovered {i : Nat} {uid : String} {now : Time} {e : StoreError}
      (hi : w.workers i = .recovering uid) (hs : w.store.requeueExpiredTasks uid now = .error e) :
      Steps w (.recover i now) (w.setWorker i .idle)
  | recovered {i : Nat} {uid : String} {now : Time} {s : Store} (hi : w.workers i = .recovering uid)
      (hs : w.store.requeueExpiredTasks uid now = .ok s) :
      Steps w (.recover i now) ((w.onStore s).setWorker i (.marking uid))
  | mark {i : Nat} {uid : String} (hi : w.workers i = .marking uid) :
      Steps w (.mark i) ({ w with requeued := uid :: w.requeued }.setWorker i (.claiming uid))
  | unclaimed {i : Nat} {uid workerId : String} {hex : Option String} {now : Time}
      (hi : w.workers i = .claiming uid) : Steps w (.claim i workerId hex now) (w.setWorker i .idle)
  | claimed {i : Nat} {uid workerId token : String} {hex : Option String} {now : Time} {s : Store}
      {task : BackupTask} (hi : w.workers i = .claiming uid) (hx : randomID "lease" hex = .ok token)
      (hs : w.store.claimNextTask uid workerId token now (now + w.lease) = .ok (s, task)) :
      Steps w (.claim i workerId hex now) ((w.onStore s).begin i token task)
  | register {i : Nat} {x : Execution} (hi : w.workers i = .busy x) (hx : x.stage = .entered) :
      Steps w (.execute i .register)
        ({ w with cancelByID := Function.update w.cancelByID x.task.id (some x.ctx) }.setWorker i
          (.busy { x with stage := .registered }))
  | timeout {i : Nat} {x : Execution} (hi : w.workers i = .busy x) (hx : x.stage.timed) :
      Steps w (.execute i .timeout) (w.setWorker i (.busy x.timedOut))
  | leave {i : Nat} {x : Execution} (hi : w.workers i = .busy x) (hx : x.stage = .leaving) :
      Steps w (.execute i .leave)
        ({ w with cancelByID := Function.update w.cancelByID x.task.id none }.setWorker i .idle)
  | act {i : Nat} {x : Execution} {a : ExecAct} {s : Store} {stage : Stage}
      (tickers : List (String × String × String)) (hi : w.workers i = .busy x)
      (ha : x.Acts w.store w.tenant a s stage) :
      Steps w (.execute i a) (w.afterAct i x s stage tickers)
  | heartbeat {n : Nat} {now : Time} (uid id token : String) :
      Steps w (.heartbeat n now) (w.onStore (w.store.heartbeatTask uid id token now (now + w.lease)))
  | cancel {k : Nat} {id : String} (hk : w.cancels k = .idle) (ht : w.tenant ≠ "") :
      Steps w (.cancel k id) (w.setCancel k (.reading id))
  | cancelRefused {k : Nat} {id : String} {now : Time} (hk : w.cancels k = .reading id) :
      Steps w (.cancelRead k now) (w.setCancel k .idle)
  | cancelWaiting {k : Nat} {id : String} {now : Time} {task : BackupTask}
      (hk : w.cancels k = .reading id) (hr : w.store.task w.tenant id = .ok task)
      (hq : task.status = .queued) :
      Steps w (.cancelRead k now) (w.setCancel k (.updating id task.backupJobId now))
  | cancelLeased {k : Nat} {id : String} {now : Time} {task : BackupTask}
      (hk : w.cancels k = .reading id) (hr : w.store.task w.tenant id = .ok task)
      (hl : leasedGroup.contains task.status = true) :
      Steps w (.cancelRead k now) (w.setCancel k (.looking id))
  | cancelRow {k : Nat} {id jobId : String} {now : Time} (hk : w.cancels k = .updating id jobId now) :
      Steps w (.cancelRow k)
        ((w.onStore (w.store.cancelTaskRow w.tenant id now)).setCancel k (.failing id jobId now))
  | cancelJob {k : Nat} {id jobId : String} {now : Time} (hk : w.cancels k = .failing id jobId now) :
      Steps w (.cancelJob k)
        ((w.onStore (w.store.cancelTaskJob w.tenant jobId now)).setCancel k (.looking id))
  | cancelMissed {k : Nat} {id : String} (hk : w.cancels k = .looking id)
      (hm : w.cancelByID id = none) : Steps w (.cancelLook k) (w.setCancel k .idle)
  | cancelFound {k : Nat} {id : String} {ctx : Nat} (hk : w.cancels k = .looking id)
      (hm : w.cancelByID id = some ctx) : Steps w (.cancelLook k) (w.setCancel k (.calling id ctx))
  | cancelCall {k : Nat} {id : String} {ctx : Nat} (hk : w.cancels k = .calling id ctx) :
      Steps w (.cancelCall k)
        ({ w with workers := fun i => (w.workers i).interrupted ctx }.setCancel k .idle)
  | hangUp {k : Nat} : Steps w (.hangUp k) (w.setCancel k .idle)
  | manualRetry {id : String} {now : Time} :
      Steps w (.manualRetry id now)
        (w.onStore ((Op.resetTaskForManualRetry w.tenant id now).next w.store))
  | createPlan {plan : BackupPlan} :
      Steps w (.createPlan plan) (w.onStore ((Op.createPlan plan).next w.store))
  | updatePlan {plan : BackupPlan} {cancelQueued : Bool} :
      Steps w (.updatePlan plan cancelQueued)
        (w.onStore ((Op.updatePlan w.tenant plan cancelQueued).next w.store))
  | pausePlan {id : String} {reason : PlanPauseReason} :
      Steps w (.pausePlan id reason)
        (w.onStore ((Op.pausePlanForScope w.tenant id reason).next w.store))
  | createBatch {batch : BackupBatch} :
      Steps w (.createBatch batch) (w.onStore ((Op.createBatch batch).next w.store))
  | enqueueJob {k : Nat} {batch : BackupBatch} {instance_ : ApplicationInstance} {terms : Terms}
      {draw : Draw} {taskId : String} {job : BackupJob} {s : Store} (hk : w.enqueues k = .idle)
      (hc : createJob w.store w.tenant instance_.deployId terms.sharedRiskAccepted terms.subject
        terms.role batch.planId batch.id taskId batch.triggerType batch.scheduledAt terms.scope
        draw = .ok (job, s)) :
      Steps w (.enqueueJob k batch instance_ terms draw) ((w.onStore s).setEnqueue k
        (.adding (queuedTask w.tenant taskId job.id batch instance_ terms (draw.now 1))))
  | unadded {k : Nat} {task : BackupTask} {now : Time} (hk : w.enqueues k = .adding task) :
      Steps w (.enqueueTask k now) (w.setEnqueue k (.undoing task.backupJobId))
  | added {k : Nat} {task : BackupTask} {now : Time} {s : Store} (hk : w.enqueues k = .adding task)
      (hs : w.store.addTask task now = .ok s) :
      Steps w (.enqueueTask k now) ((w.onStore s).setEnqueue k .idle)
  | enqueueFails {k : Nat} {task : BackupTask} (hk : w.enqueues k = .adding task) :
      Steps w (.enqueueFails k) (w.setEnqueue k (.undoing task.backupJobId))
  | undoJob {k : Nat} {jobId : String} {now : Time} (hk : w.enqueues k = .undoing jobId) :
      Steps w (.undoJob k now)
        ((w.onStore ((Op.failBackupJob w.tenant jobId "QUEUE_PERSIST_FAILED" now).next
          w.store)).setEnqueue k .idle)
  | keepJob {k : Nat} {task : BackupTask} (hk : w.enqueues k = .adding task) :
      Steps w (.keepJob k) (w.setEnqueue k .idle)
  | skipTask {batch : BackupBatch} {instance_ : ApplicationInstance} {code : String}
      {scope : BackupScope} {validation : Option PlanPauseReason} {draw : Draw} {s : Store}
      (hs : recordSkipped w.store w.tenant batch instance_ code scope validation draw = .ok s) :
      Steps w (.skipTask batch instance_ code scope validation draw) (w.onStore s)
  | library {applications : List ApplicationRow} {instances : List InstanceRow} :
      Steps w (.library applications instances)
        (w.onStore { w.store with applications := applications, instances := instances })

theorem executeStep_sound {w w' : World} {i : Nat} {x : Execution} {a : ExecAct}
    (hi : w.workers i = .busy x) (h : w.executeStep i x a = some w') :
    w.Steps (.execute i a) w' := by
  unfold executeStep at h
  split at h
  · next hx =>
    cases h
    exact .register hi hx
  · next hx =>
    cases h
    exact .timeout hi (by rw [hx]; exact trivial)
  · next hx =>
    cases h
    exact .timeout hi (by rw [hx]; exact trivial)
  · next hx =>
    cases h
    exact .timeout hi (by rw [hx]; exact trivial)
  · next hx =>
    cases h
    exact .leave hi hx
  · split at h
    · cases h
    · next s stage hact =>
      simp only at h
      split at h
      · cases h
        exact .act _ hi (act_cases hact)
      · cases h
        exact .act w.tickers hi (act_cases hact)

theorem loopStep_sound {w : World} {i : Nat} (hi : w.workers i = .idle) :
    w.Steps (.loop i) (w.loopStep i) := by
  unfold loopStep
  split
  · next ht => exact .unready hi ht
  · next ht =>
    split
    · next hr => exact .ready hi ht hr
    · next hr => exact .stale hi ht (by simpa using hr)

theorem recoverStep_sound {w : World} {i : Nat} {uid : String} (now : Time)
    (hi : w.workers i = .recovering uid) : w.Steps (.recover i now) (w.recoverStep i uid now) := by
  unfold recoverStep
  split
  · next hs => exact .unrecovered hi hs
  · next hs => exact .recovered hi hs

theorem claimStep_sound {w : World} {i : Nat} {uid : String} (workerId : String)
    (hex : Option String) (now : Time) (hi : w.workers i = .claiming uid) :
    w.Steps (.claim i workerId hex now) (w.claimStep i uid workerId hex now) := by
  unfold claimStep
  split
  · exact .unclaimed hi
  · next hx =>
    split
    · exact .unclaimed hi
    · next hs => exact .claimed hi hx hs

theorem cancelReadStep_sound {w : World} {k : Nat} {id : String} (now : Time)
    (hk : w.cancels k = .reading id) : w.Steps (.cancelRead k now) (w.cancelReadStep k id now) := by
  unfold cancelReadStep
  split
  · exact .cancelRefused hk
  · next hr =>
    split
    · next hq => exact .cancelWaiting hk hr hq
    · split
      · next hl => exact .cancelLeased hk hr hl
      · exact .cancelRefused hk

theorem cancelLookStep_sound {w : World} {k : Nat} {id : String} (hk : w.cancels k = .looking id) :
    w.Steps (.cancelLook k) (w.cancelLookStep k id) := by
  unfold cancelLookStep
  split
  · next hm => exact .cancelMissed hk hm
  · next hm => exact .cancelFound hk hm

theorem enqueueJobStep_sound {w w' : World} {k : Nat} {batch : BackupBatch}
    {instance_ : ApplicationInstance} {terms : Terms} {draw : Draw} (hk : w.enqueues k = .idle)
    (h : w.enqueueJobStep k batch instance_ terms draw = some w') :
    w.Steps (.enqueueJob k batch instance_ terms draw) w' := by
  unfold enqueueJobStep at h
  split at h
  · cases h
  · split at h
    · cases h
    · next hc =>
      cases h
      exact .enqueueJob hk hc

theorem enqueueTaskStep_sound {w : World} {k : Nat} {task : BackupTask} (now : Time)
    (hk : w.enqueues k = .adding task) : w.Steps (.enqueueTask k now) (w.enqueueTaskStep k task now) := by
  unfold enqueueTaskStep
  split
  · exact .unadded hk
  · next hs => exact .added hk hs

theorem bindStep_sound {w w' : World} {uid : String} (h : w.step (.bind uid) = some w') : w.Steps (.bind uid) w' := by
  simp only [step] at h
  split at h
  · cases h
  · next hu =>
    split at h
    · next ht =>
      cases h
      exact .bind hu ht
    · cases h

theorem bootStep_sound {w w' : World} {uid : String} {now : Time}
    (h : w.step (.boot uid now) = some w') : w.Steps (.boot uid now) w' := by
  simp only [step] at h
  split at h
  · cases h
  · next hb =>
    split at h
    · cases h
    · next hs =>
      cases h
      exact .boot (fun hu => hb (.inl hu)) (not_not.mp (fun ht => hb (.inr ht))) hs

theorem heartbeatStep_sound {w w' : World} {n : Nat} {now : Time}
    (h : w.step (.heartbeat n now) = some w') : w.Steps (.heartbeat n now) w' := by
  simp only [step] at h
  unfold heartbeatStep at h
  split at h
  · cases h
  · cases h
    exact .heartbeat _ _ _

theorem cancelStep_sound {w w' : World} {k : Nat} {id : String}
    (h : w.step (.cancel k id) = some w') : w.Steps (.cancel k id) w' := by
  simp only [step] at h
  split at h
  · next hk =>
    split at h
    · cases h
    · next ht =>
      cases h
      exact .cancel hk ht
  · cases h

theorem hangUpStep_sound {w w' : World} {k : Nat} (h : w.step (.hangUp k) = some w') : w.Steps (.hangUp k) w' := by
  simp only [step] at h
  split at h
  · cases h
    exact .hangUp
  · cases h
    exact .hangUp
  · cases h
    exact .hangUp
  · cases h

/-- Every step is one of the listed. -/
theorem step_sound {w w' : World} {a : Action} (h : w.step a = some w') : w.Steps a w' := by
  cases a
  case bind uid => exact bindStep_sound h
  case boot uid now => exact bootStep_sound h
  case heartbeat n now => exact heartbeatStep_sound h
  case cancel k id => exact cancelStep_sound h
  case hangUp k => exact hangUpStep_sound h
  -- what is left has one guard, which becomes a hypothesis of its case
  all_goals simp only [step] at h
  case crash =>
    cases h
    exact .crash
  case loop i =>
    split at h
    · next hi =>
      cases h
      exact loopStep_sound hi
    · cases h
  case recover i now =>
    split at h
    · next hi =>
      cases h
      exact recoverStep_sound now hi
    · cases h
  case mark i =>
    split at h
    · next hi =>
      cases h
      exact .mark hi
    · cases h
  case claim i workerId hex now =>
    split at h
    · next hi =>
      cases h
      exact claimStep_sound workerId hex now hi
    · cases h
  case execute i a =>
    split at h
    · next hi => exact executeStep_sound hi h
    · cases h
  case cancelRead k now =>
    split at h
    · next hk =>
      cases h
      exact cancelReadStep_sound now hk
    · cases h
  case cancelRow k =>
    split at h
    · next hk =>
      cases h
      exact .cancelRow hk
    · cases h
  case cancelJob k =>
    split at h
    · next hk =>
      cases h
      exact .cancelJob hk
    · cases h
  case cancelLook k =>
    split at h
    · next hk =>
      cases h
      exact cancelLookStep_sound hk
    · cases h
  case cancelCall k =>
    split at h
    · next hk =>
      cases h
      exact .cancelCall hk
    · cases h
  case manualRetry =>
    cases h
    exact .manualRetry
  case createPlan =>
    cases h
    exact .createPlan
  case updatePlan =>
    cases h
    exact .updatePlan
  case pausePlan =>
    cases h
    exact .pausePlan
  case createBatch =>
    cases h
    exact .createBatch
  case enqueueJob k batch instance_ terms draw =>
    split at h
    · next hk => exact enqueueJobStep_sound hk h
    · cases h
  case enqueueTask k now =>
    split at h
    · next hk =>
      cases h
      exact enqueueTaskStep_sound now hk
    · cases h
  case enqueueFails k =>
    split at h
    · next hk =>
      cases h
      exact .enqueueFails hk
    · cases h
  case undoJob k now =>
    split at h
    · next hk =>
      cases h
      exact .undoJob hk
    · cases h
  case keepJob k =>
    split at h
    · next hk =>
      cases h
      exact .keepJob hk
    · cases h
  case skipTask =>
    split at h
    · cases h
    · next hs =>
      cases h
      exact .skipTask hs
  case library =>
    cases h
    exact .library

end World

end AppBackup.Queue
