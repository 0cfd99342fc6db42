import AppBackup.Lib.Thread
import AppBackup.Persistence.Ops
import AppBackup.Queue.Service

/- `RunPlan` and what it calls, statement by statement: between two statements of one
   call those of any other may run. `Queue/Service.lean` has the same functions run
   alone on a database; `runPlan_alone` connects the two. -/
namespace AppBackup.Queue
open Persistence Threads Threads.Thread

/-- A statement or transaction of the store, as a service calls it. `write` carries the
copy of the plan its arguments were computed from, where the caller holds one: the
database does not see it. `clock` is a reading of the clock, which gives `now`. -/
inductive Stmt where
  | write (op : Op) (basis : Option BackupPlan)
  | deletePlan (tenant id : String)
  | duePlans (tenant : String) (now : Time)
  | planRow (tenant id : String)
  | planTargets (tenant id : String)
  | instance_ (tenant deployId : String)
  | recentBatches (tenant : String) (limit : Nat)
  | batch (tenant id : String)
  | clock (now : Time)

namespace Stmt

/-- What a statement answers. -/
def Answer : Stmt → Type
  | write .. | deletePlan .. => Except StoreError Unit
  | duePlans .. => List PlanRow
  | planRow .. => Except StoreError PlanRow
  | planTargets .. => List PlanTarget
  | instance_ .. => Except StoreError ApplicationInstance
  | recentBatches .. => List BackupBatch
  | batch .. => Except StoreError BackupBatch
  | clock .. => Unit

/-- A write: what is refused leaves the database as it was. -/
def commit (s : Store) : Except StoreError Store → Except StoreError Unit × Store
  | .ok s' => (.ok (), s')
  | .error e => (.error e, s)

def exec : (c : Stmt) → Store → c.Answer × Store
  | write op _, s => commit s (op.apply s)
  | deletePlan tenant id, s => commit s (s.deletePlan tenant id)
  | duePlans tenant now, s => (s.duePlans tenant now, s)
  | planRow tenant id, s =>
    (match s.plans.find? (planIn tenant id) with
      | some r => .ok r
      | none => .error .notFound, s)
  | planTargets tenant id, s => (s.planTargets tenant id, s)
  | instance_ tenant deployId, s => (s.instance tenant deployId, s)
  | recentBatches tenant limit, s => (s.recentBatches tenant limit, s)
  | batch tenant id, s => (s.batch tenant id, s)
  | clock _, s => ((), s)

theorem exec_planRow {tenant id : String} {s : Store} {r : PlanRow} :
    (exec (.planRow tenant id) s).1 = .ok r ↔ s.plans.find? (planIn tenant id) = some r := by
  simp only [exec]
  cases s.plans.find? (planIn tenant id) with
  | none => simp
  | some r' =>
    rw [Option.some_inj]
    exact ⟨Except.ok.inj, congrArg Except.ok⟩

theorem exec_planRow_none {tenant id : String} {s : Store} (h : s.plans.find? (planIn tenant id) = none) :
    (exec (.planRow tenant id) s).1 = .error .notFound := by
  simp only [exec, h]
  rfl

end Stmt

/-- What a service call does, one statement after the other. -/
abbrev Program (α : Type) : Type := ExceptT GoError (Thread Stmt Stmt.Answer) α

namespace Calls

def ofStore {α : Type} (x : Except StoreError α) : Program α := result (x.mapError .store)

def write (op : Op) (basis : Option BackupPlan) : Program Unit := do
  ofStore (← query (Stmt.write op basis))

def createJob (tenant deployId : String) (sharedRiskAccepted : Bool) (subject : String) (role : Role)
    (planId batchId taskId triggerType : String) (scheduledAt : Time) (scope : BackupScope)
    (draw : Draw) : Program BackupJob := do
  let found ← ofStore (← query (Stmt.instance_ tenant deployId))
  if !found.capabilityStatus.accepts then
    throw (.backup "INSTANCE_NOT_BACKUPABLE" (.plain "instance is not backupable"))
  else
    let id ← result (randomID "backup" draw.jobId)
    let job := newJob tenant id found sharedRiskAccepted subject role planId batchId taskId
      triggerType scheduledAt (draw.now 0) scope
    write (.createBackupJob job) none
    pure job

def enqueueInstance (tenant : String) (batch : BackupBatch) (instance_ : ApplicationInstance)
    (terms : Terms) (draw : Draw) : Program (BackupJob × BackupTask) := do
  let taskId ← result (randomID "task" draw.taskId)
  let job ← createJob tenant instance_.deployId terms.sharedRiskAccepted terms.subject terms.role
    batch.planId batch.id taskId batch.triggerType batch.scheduledAt terms.scope draw
  let task := queuedTask tenant taskId job.id batch instance_ terms (draw.now 1)
  match ← attempt (write (.addTask task (draw.now 2)) none) with
  | .ok () => pure (job, task)
  | .error e =>
    -- the job is undone; the error of that is dropped
    let _ ← attempt (write (.failBackupJob tenant job.id "QUEUE_PERSIST_FAILED" (draw.now 3)) none)
    throw e

def recordSkipped (tenant : String) (batch : BackupBatch) (instance_ : ApplicationInstance)
    (code : String) (scope : BackupScope) (validation : Option PlanPauseReason) (draw : Draw) :
    Program Unit := do
  let id ← result (randomID "task" draw.taskId)
  write (.addTask (skippedTask tenant id batch instance_ code scope validation (draw.now 0))
    (draw.now 1)) none

def existingBatch (tenant planId : String) (scheduledAt : Time) : Program BackupBatch := do
  let batches ← query (Stmt.recentBatches tenant 100)
  match batches.find? fun b => b.planId == planId && b.scheduledAt == scheduledAt with
  | some b => pure b
  | none => throw (.store .conflict)

/-- The loop of `planInstances`. -/
def planInstancesFrom (tenant : String) (plan : BackupPlan) :
    List PlanTarget → PlanInstances → Program PlanInstances
  | [], found => pure found
  | target :: rest, found => do
    match ← query (Stmt.instance_ tenant target.deployId) with
    | .error .notFound => planInstancesFrom tenant plan rest found
    | .error e => throw (.store e)
    | .ok item =>
      let scope := if target.scope.mode = "" then ⟨"FULL", [], [], 1, ""⟩ else target.scope
      planInstancesFrom tenant plan rest
        { items := found.items ++ [item]
          accepted := Function.update found.accepted item.deployId
            (target.sharedRiskAccepted || plan.sharedRiskAccepted)
          scopes := Function.update found.scopes item.deployId scope }

def planInstances (tenant : String) (plan : BackupPlan) : Program PlanInstances :=
  if plan.targetKind ≠ "EXPLICIT" then throw (.plain "unsupported plan target kind")
  else planInstancesFrom tenant plan plan.targets ⟨[], fun _ => false, fun _ => ⟨"", [], [], 0, ""⟩⟩

def validateScope (tenant deployId : String) (scope : BackupScope)
    (scan : ApplicationInstance → BackupScope → Option GoError) : Program (Option GoError) :=
  if scope.mode = "" ∨ scope.mode = "FULL" then pure none
  else do
    match ← query (Stmt.instance_ tenant deployId) with
    | .error e => pure (some (.store e))
    | .ok instance_ => pure (scan instance_ scope)

/-- The first instance whose scope is not valid, with its error. -/
def firstInvalid (tenant : String) (scopes : String → BackupScope)
    (scan : ApplicationInstance → BackupScope → Option GoError) :
    List ApplicationInstance → Program (Option (ApplicationInstance × GoError))
  | [] => pure none
  | instance_ :: rest => do
    match ← validateScope tenant instance_.deployId (scopes instance_.deployId) scan with
    | some e => pure (some (instance_, e))
    | none => firstInvalid tenant scopes scan rest

/-- The loop that records every instance of a paused plan as skipped. -/
def recordPaused (tenant : String) (batch : BackupBatch) (found : PlanInstances)
    (reason : PlanPauseReason) (draw : Nat → Draw) : Nat → List ApplicationInstance → Program Unit
  | _, [] => pure ()
  | n, affected :: rest => do
    let code :=
      if affected.deployId = reason.deployId then reason.code else "PLAN_PAUSED_SCOPE_INVALID"
    recordSkipped tenant batch affected code (found.scopes affected.deployId) (some reason) (draw n)
    recordPaused tenant batch found reason draw (n + 1) rest

/-- The body of the loop that enqueues: a conflict is recorded as a skipped task. -/
def enqueueOrSkip (tenant : String) (plan : BackupPlan) (batch : BackupBatch) (found : PlanInstances)
    (instance_ : ApplicationInstance) (draw skip : Draw) : Program Unit := do
  match ← attempt (enqueueInstance tenant batch instance_
      (planTerms plan found instance_.deployId) draw) with
  | .ok _ => pure ()
  | .error e =>
    if e.isConflict then
      recordSkipped tenant batch instance_ "INSTANCE_ALREADY_QUEUED"
        (found.scopes instance_.deployId) none skip
    else throw e

def enqueueAll (tenant : String) (plan : BackupPlan) (batch : BackupBatch) (found : PlanInstances)
    (draw skip : Nat → Draw) : Nat → List ApplicationInstance → Program Unit
  | _, [] => pure ()
  | n, instance_ :: rest => do
    enqueueOrSkip tenant plan batch found instance_ (draw n) (skip n)
    enqueueAll tenant plan batch found draw skip (n + 1) rest

/-- `RunPlan` once its batch is there. -/
def expandPlan (tenant : String) (plan : BackupPlan) (batch : BackupBatch) (draws : Draws) :
    Program Unit := do
  let found ← planInstances tenant plan
  match ← firstInvalid tenant found.scopes draws.scan found.items with
  | some (instance_, err) =>
    match err.scopeFailure with
    | none => throw err
    | some failure =>
      let reason := pauseReason instance_ failure (found.scopes instance_.deployId) draws.pausedAt
      write (.pausePlanForScope tenant plan.id reason) none
      recordPaused tenant batch found reason draws.skip 0 found.items
  | none => enqueueAll tenant plan batch found draws.enqueue draws.skip 0 found.items

def runPlan (tenant : String) (plan : BackupPlan) (trigger : String) (scheduledAt : Time)
    (draws : Draws) : Program BackupBatch := do
  let batchId ← result (randomID "batch" draws.batchId)
  let batch := planBatch tenant batchId plan trigger scheduledAt draws.now
  match ← attempt (write (.createBatch batch) none) with
  | .ok () =>
    expandPlan tenant plan batch draws
    ofStore (← query (Stmt.batch tenant batch.id))
  | .error (.store .conflict) => existingBatch tenant plan.id scheduledAt
  | .error e => throw e

/-! ## Alone on a database -/

theorem run_ofStore {α β : Type} (x : Except StoreError α) (f : α → Program β) (s : Store) :
    run Stmt.exec (ofStore x >>= f : Program β) s =
      match x with
      | .error e => (.error (.store e), s)
      | .ok a => run Stmt.exec (f a) s := by
  unfold ofStore
  rw [run_result]
  cases x with
  | error e => rfl
  | ok a => rfl

theorem run_write (op : Op) (basis : Option BackupPlan) (s : Store) :
    run Stmt.exec (write op basis) s =
      match op.apply s with
      | .ok s' => (.ok (), s')
      | .error e => (.error (.store e), s) := by
  unfold write
  rw [run_query]
  show run Stmt.exec (ofStore (Stmt.commit s (op.apply s)).1) (Stmt.commit s (op.apply s)).2 = _
  cases op.apply s with
  | ok s' => rfl
  | error e => rfl

theorem run_write_bind {β : Type} (op : Op) (basis : Option BackupPlan) (f : Unit → Program β)
    (s : Store) :
    run Stmt.exec (write op basis >>= f : Program β) s =
      match op.apply s with
      | .ok s' => run Stmt.exec (f ()) s'
      | .error e => (.error (.store e), s) := by
  rw [run_bindE, run_write]
  cases op.apply s with
  | ok s' => rfl
  | error e => rfl

/-- What the functions of `Queue/Service.lean` that return a database only when they
succeed leave where they fail: the database as it was. -/
def kept {α : Type} (s : Store) : Except GoError (α × Store) → Except GoError α × Store
  | .ok (a, s') => (.ok a, s')
  | .error e => (.error e, s)

theorem createJob_alone (s : Store) (tenant deployId : String) (shared : Bool) (subject : String)
    (role : Role) (planId batchId taskId triggerType : String) (scheduledAt : Time)
    (scope : BackupScope) (draw : Draw) :
    run Stmt.exec (createJob tenant deployId shared subject role planId batchId taskId triggerType
        scheduledAt scope draw) s =
      kept s (Queue.createJob s tenant deployId shared subject role planId batchId taskId triggerType
        scheduledAt scope draw) := by
  unfold createJob Queue.createJob
  rw [run_query]
  show run Stmt.exec (ofStore (s.instance tenant deployId) >>= _ : Program BackupJob) s = _
  rw [run_ofStore]
  cases s.instance tenant deployId with
  | error e => rfl
  | ok found =>
    simp only
    by_cases hc : (!found.capabilityStatus.accepts) = true
    · rw [if_pos hc, if_pos hc]
      rfl
    · rw [if_neg hc, if_neg hc, run_result]
      cases randomID "backup" draw.jobId with
      | error e => rfl
      | ok id =>
        simp only
        rw [run_write_bind]
        simp only [Op.apply]
        cases s.createBackupJob (newJob tenant id found shared subject role planId batchId taskId
            triggerType scheduledAt (draw.now 0) scope) with
        | error e => rfl
        | ok s' => rfl

theorem enqueueInstance_alone (s : Store) (tenant : String) (batch : BackupBatch)
    (instance_ : ApplicationInstance) (terms : Terms) (draw : Draw) :
    run Stmt.exec (enqueueInstance tenant batch instance_ terms draw) s =
      Queue.enqueueInstance s tenant batch instance_ terms draw := by
  unfold enqueueInstance Queue.enqueueInstance
  rw [run_result]
  cases randomID "task" draw.taskId with
  | error e => rfl
  | ok taskId =>
    simp only
    rw [run_bindE, createJob_alone]
    cases Queue.createJob s tenant instance_.deployId terms.sharedRiskAccepted terms.subject terms.role
        batch.planId batch.id taskId batch.triggerType batch.scheduledAt terms.scope draw with
    | error e => rfl
    | ok made =>
      obtain ⟨job, s₁⟩ := made
      simp only [kept]
      rw [run_attempt, run_write]
      simp only [Op.apply]
      cases s₁.addTask (queuedTask tenant taskId job.id batch instance_ terms (draw.now 1))
          (draw.now 2) with
      | ok s₂ => rfl
      | error e =>
        simp only
        rw [run_attempt, run_write]
        simp only [Op.apply]
        cases s₁.failBackupJob tenant job.id "QUEUE_PERSIST_FAILED" (draw.now 3) with
        | ok s₂ => rfl
        | error e' => rfl

theorem recordSkipped_alone (s : Store) (tenant : String) (batch : BackupBatch)
    (instance_ : ApplicationInstance) (code : String) (scope : BackupScope)
    (validation : Option PlanPauseReason) (draw : Draw) :
    run Stmt.exec (recordSkipped tenant batch instance_ code scope validation draw) s =
      match Queue.recordSkipped s tenant batch instance_ code scope validation draw with
      | .ok s' => (.ok (), s')
      | .error e => (.error e, s) := by
  unfold recordSkipped Queue.recordSkipped
  rw [run_result]
  cases randomID "task" draw.taskId with
  | error e => rfl
  | ok id =>
    simp only
    rw [run_write]
    simp only [Op.apply]
    cases s.addTask (skippedTask tenant id batch instance_ code scope validation (draw.now 0))
        (draw.now 1) with
    | ok s' => rfl
    | error e => rfl

theorem planInstancesFrom_alone (s : Store) (tenant : String) (plan : BackupPlan)
    (targets : List PlanTarget) (found : PlanInstances) :
    run Stmt.exec (planInstancesFrom tenant plan targets found) s =
      (Queue.planInstancesFrom s tenant plan targets found, s) := by
  induction targets generalizing found with
  | nil => rfl
  | cons target rest ih =>
    unfold planInstancesFrom Queue.planInstancesFrom
    rw [run_query]
    simp only [Stmt.exec]
    cases s.instance tenant target.deployId with
    | ok item => exact ih _
    | error e =>
      cases e with
      | notFound => exact ih found
      | conflict => rfl
      | invalid message => rfl
      | unique index => rfl
      | foreignKey => rfl
      | nullScan => rfl

theorem planInstances_alone (s : Store) (tenant : String) (plan : BackupPlan) :
    run Stmt.exec (planInstances tenant plan) s = (Queue.planInstances s tenant plan, s) := by
  unfold planInstances Queue.planInstances
  split
  · rfl
  · exact planInstancesFrom_alone s tenant plan plan.targets _

theorem validateScope_alone (s : Store) (tenant deployId : String) (scope : BackupScope)
    (scan : ApplicationInstance → BackupScope → Option GoError) :
    run Stmt.exec (validateScope tenant deployId scope scan) s =
      (.ok (Queue.validateScope s tenant deployId scope scan), s) := by
  unfold validateScope Queue.validateScope
  split
  · rfl
  · rw [run_query]
    simp only [Stmt.exec]
    cases s.instance tenant deployId with
    | error e => rfl
    | ok instance_ => rfl

theorem firstInvalid_alone (s : Store) (tenant : String) (scopes : String → BackupScope)
    (scan : ApplicationInstance → BackupScope → Option GoError) (items : List ApplicationInstance) :
    run Stmt.exec (firstInvalid tenant scopes scan items) s =
      (.ok (Queue.firstInvalid s tenant scopes scan items), s) := by
  induction items with
  | nil => rfl
  | cons instance_ rest ih =>
    unfold firstInvalid Queue.firstInvalid
    rw [run_bindE, validateScope_alone]
    cases Queue.validateScope s tenant instance_.deployId (scopes instance_.deployId) scan with
    | some e => rfl
    | none => exact ih

theorem recordPaused_alone (s : Store) (tenant : String) (batch : BackupBatch) (found : PlanInstances)
    (reason : PlanPauseReason) (draw : Nat → Draw) (n : Nat) (items : List ApplicationInstance) :
    run Stmt.exec (recordPaused tenant batch found reason draw n items) s =
      Queue.recordPaused s tenant batch found reason draw n items := by
  induction items generalizing s n with
  | nil => rfl
  | cons affected rest ih =>
    unfold recordPaused Queue.recordPaused
    simp only
    rw [run_bindE, recordSkipped_alone]
    cases Queue.recordSkipped s tenant batch affected
        (if affected.deployId = reason.deployId then reason.code else "PLAN_PAUSED_SCOPE_INVALID")
        (found.scopes affected.deployId) (some reason) (draw n) with
    | error e => rfl
    | ok s' => exact ih s' (n + 1)

theorem enqueueOrSkip_alone (s : Store) (tenant : String) (plan : BackupPlan) (batch : BackupBatch)
    (found : PlanInstances) (instance_ : ApplicationInstance) (draw skip : Draw) :
    run Stmt.exec (enqueueOrSkip tenant plan batch found instance_ draw skip) s =
      Queue.enqueueOrSkip s tenant plan batch found instance_ draw skip := by
  unfold enqueueOrSkip Queue.enqueueOrSkip
  rw [run_attempt, enqueueInstance_alone]
  rcases Queue.enqueueInstance s tenant batch instance_ (planTerms plan found instance_.deployId)
    draw with ⟨r, s'⟩
  cases r with
  | ok made => rfl
  | error e =>
    simp only
    split
    · rw [recordSkipped_alone]
      cases Queue.recordSkipped s' tenant batch instance_ "INSTANCE_ALREADY_QUEUED"
          (found.scopes instance_.deployId) none skip with
      | error e' => rfl
      | ok s'' => rfl
    · rfl

theorem enqueueAll_alone (s : Store) (tenant : String) (plan : BackupPlan) (batch : BackupBatch)
    (found : PlanInstances) (draw skip : Nat → Draw) (n : Nat) (items : List ApplicationInstance) :
    run Stmt.exec (enqueueAll tenant plan batch found draw skip n items) s =
      Queue.enqueueAll s tenant plan batch found draw skip n items := by
  induction items generalizing s n with
  | nil => rfl
  | cons instance_ rest ih =>
    unfold enqueueAll Queue.enqueueAll
    rw [run_bindE, enqueueOrSkip_alone]
    rcases Queue.enqueueOrSkip s tenant plan batch found instance_ (draw n) (skip n) with ⟨r, s'⟩
    cases r with
    | error e => rfl
    | ok u => exact ih s' (n + 1)

theorem expandPlan_alone (s : Store) (tenant : String) (plan : BackupPlan) (batch : BackupBatch)
    (draws : Draws) :
    run Stmt.exec (expandPlan tenant plan batch draws) s =
      Queue.expandPlan s tenant plan batch draws := by
  unfold expandPlan Queue.expandPlan
  rw [run_bindE, planInstances_alone]
  cases Queue.planInstances s tenant plan with
  | error e => rfl
  | ok found =>
    simp only
    rw [run_bindE, firstInvalid_alone]
    cases Queue.firstInvalid s tenant found.scopes draws.scan found.items with
    | none => exact enqueueAll_alone s tenant plan batch found draws.enqueue draws.skip 0 found.items
    | some invalid =>
      obtain ⟨instance_, err⟩ := invalid
      simp only
      cases err.scopeFailure with
      | none => rfl
      | some failure =>
        simp only
        rw [run_write_bind]
        simp only [Op.apply]
        cases s.pausePlanForScope tenant plan.id
            (pauseReason instance_ failure (found.scopes instance_.deployId) draws.pausedAt) with
        | error e => rfl
        | ok s' => exact recordPaused_alone s' tenant batch found _ draws.skip 0 found.items

/-- `RunPlan` with no other call in between is `runPlan` of `Queue/Service.lean`. -/
theorem runPlan_alone (s : Store) (tenant : String) (plan : BackupPlan) (trigger : String)
    (scheduledAt : Time) (draws : Draws) :
    run Stmt.exec (runPlan tenant plan trigger scheduledAt draws) s =
      Queue.runPlan s tenant plan trigger scheduledAt draws := by
  unfold runPlan Queue.runPlan
  rw [run_result]
  cases randomID "batch" draws.batchId with
  | error e => rfl
  | ok batchId =>
    simp only
    rw [run_attempt, run_write]
    simp only [Op.apply]
    cases s.createBatch (planBatch tenant batchId plan trigger scheduledAt draws.now) with
    | ok s₁ =>
      simp only
      rw [run_bindE, expandPlan_alone]
      rcases Queue.expandPlan s₁ tenant plan
        (planBatch tenant batchId plan trigger scheduledAt draws.now) draws with ⟨r, s₂⟩
      cases r with
      | error e => rfl
      | ok u => rfl
    | error e =>
      cases e with
      | conflict =>
        show run Stmt.exec (existingBatch tenant plan.id scheduledAt) s =
          (Queue.existingBatch s tenant plan.id scheduledAt, s)
        unfold existingBatch Queue.existingBatch
        rw [run_query]
        simp only [Stmt.exec]
        cases (s.recentBatches tenant 100).find?
            fun b => b.planId == plan.id && b.scheduledAt == scheduledAt with
        | some b => rfl
        | none => rfl
      | notFound => rfl
      | invalid message => rfl
      | unique index => rfl
      | foreignKey => rfl
      | nullScan => rfl

/-! ## The statements of an expansion -/

/-- What the expansion of a plan into a batch calls: it reads instances, it adds jobs, tasks of
the plan and the batch, a skipped one with its reason, and fails jobs, and it may pause the plan. -/
def Fills (tenant planId batchId : String) : Stmt → Prop
  | .write (.createBackupJob _) _ | .write (.failBackupJob ..) _ | .instance_ .. => True
  | .write (.addTask task _) _ => task.planId = planId ∧ task.batchId = batchId ∧
    task.tenantUid = tenant ∧ (task.status = .skipped → task.errorCode ≠ "")
  | .write (.pausePlanForScope tenant' id _) _ => tenant' = tenant ∧ id = planId
  | _ => False

/-- What `RunPlan` calls once its batch is there: it reads, it adds jobs and tasks and
fails jobs, and it may pause its own plan. -/
def Expands (tenant planId : String) : Stmt → Prop
  | .write (.createBackupJob _) _ | .write (.addTask ..) _ | .write (.failBackupJob ..) _ => True
  | .write (.pausePlanForScope tenant' id _) _ => tenant' = tenant ∧ id = planId
  | .write .. | .deletePlan .. | .clock .. => False
  | _ => True

/-- What the handling of a plan calls: it writes and reads the plan's own row, it creates batches
and tasks of the plan, and the jobs it writes are not read by plan. -/
def OfPlan (tenant planId : String) : Stmt → Prop
  | .write (.createBatch batch) _ => batch.tenantUid = tenant ∧ batch.planId = planId
  | .write (.addTask task _) _ => task.planId = planId
  | .write (.pausePlanForScope tenant' id _) _ | .write (.advancePlan tenant' id ..) _ =>
    tenant' = tenant ∧ id = planId
  | .planRow tenant' id => tenant' = tenant ∧ id = planId
  | .write (.createBackupJob _) _ | .write (.failBackupJob ..) _ | .planTargets .. | .instance_ ..
  | .recentBatches .. | .batch .. => True
  | _ => False

section Expands
variable {tenant planId batchId : String}

theorem expands_of_fills {c : Stmt} (h : Fills tenant planId batchId c) : Expands tenant planId c := by
  cases c with
  | write op basis =>
    cases op with
    | createBackupJob job => trivial
    | failBackupJob tenant' id code finished => trivial
    | addTask task now => trivial
    | pausePlanForScope tenant' id reason => exact h
    | _ => exact h.elim
  | instance_ tenant' deployId => trivial
  | _ => exact h.elim

theorem ofPlan_of_fills {c : Stmt} (h : Fills tenant planId batchId c) : OfPlan tenant planId c := by
  cases c with
  | write op basis =>
    cases op with
    | createBackupJob job => trivial
    | failBackupJob tenant' id code finished => trivial
    | addTask task now => exact h.1
    | pausePlanForScope tenant' id reason => exact h
    | _ => exact h.elim
  | instance_ tenant' deployId => trivial
  | _ => exact h.elim

theorem every_ofStore {α : Type} {P : Stmt → Prop} (x : Except StoreError α) :
    Every P (ofStore x : Program α) := every_result _

theorem every_write {P : Stmt → Prop} {op : Op} {basis : Option BackupPlan}
    (h : P (.write op basis)) : Every P (write op basis) :=
  every_bindE (every_query h) fun _ => every_ofStore _

theorem createJob_every {P : Stmt → Prop} (hread : ∀ deployId, P (.instance_ tenant deployId))
    (hwrite : ∀ job, P (.write (.createBackupJob job) none)) (deployId : String) (shared : Bool)
    (subject : String) (role : Role) (planId batchId taskId triggerType : String) (scheduledAt : Time)
    (scope : BackupScope) (draw : Draw) :
    Every P (createJob tenant deployId shared subject role planId batchId taskId triggerType scheduledAt
      scope draw) := by
  unfold createJob
  refine every_bindE (every_query (hread _)) fun found => ?_
  refine every_bindE (every_ofStore _) fun found => ?_
  split
  · exact every_pure _
  · refine every_bindE (every_result _) fun id => ?_
    exact every_bindE (every_write (hwrite _)) fun _ => every_pure _

theorem enqueueInstance_fills (batch : BackupBatch) (instance_ : ApplicationInstance)
    (terms : Terms) (draw : Draw) :
    Every (Fills tenant batch.planId batch.id) (enqueueInstance tenant batch instance_ terms draw) := by
  unfold enqueueInstance
  refine every_bindE (every_result _) fun taskId => ?_
  refine every_bindE (createJob_every (fun _ => trivial) (fun _ => trivial) ..) fun job => ?_
  refine every_bindE (every_attempt (every_write ⟨rfl, rfl, rfl, nofun⟩)) fun r => ?_
  cases r with
  | ok u => exact every_pure _
  | error e => exact every_bindE (every_attempt (every_write trivial)) fun _ => every_pure _

theorem recordSkipped_fills (batch : BackupBatch) (instance_ : ApplicationInstance) (code : String)
    (scope : BackupScope) (validation : Option PlanPauseReason) (draw : Draw) (hcode : code ≠ "") :
    Every (Fills tenant batch.planId batch.id) (recordSkipped tenant batch instance_ code scope validation draw) :=
  every_bindE (every_result _) fun _ => every_write ⟨rfl, rfl, rfl, fun _ => hcode⟩

theorem planInstancesFrom_fills (plan : BackupPlan) (targets : List PlanTarget)
    (found : PlanInstances) :
    Every (Fills tenant planId batchId) (planInstancesFrom tenant plan targets found) := by
  induction targets generalizing found with
  | nil => exact every_pure _
  | cons target rest ih =>
    unfold planInstancesFrom
    refine every_bindE (every_query trivial) fun r => ?_
    split
    · exact ih found
    · exact every_pure _
    · exact ih _

theorem planInstances_fills (plan : BackupPlan) :
    Every (Fills tenant planId batchId) (planInstances tenant plan) := by
  unfold planInstances
  split
  · exact every_pure _
  · exact planInstancesFrom_fills ..

/-- `ValidateScope` reads instances only. -/
theorem firstInvalid_every {P : Stmt → Prop} (hread : ∀ deployId, P (.instance_ tenant deployId))
    (scopes : String → BackupScope) (scan : ApplicationInstance → BackupScope → Option GoError)
    (items : List ApplicationInstance) : Every P (firstInvalid tenant scopes scan items) := by
  induction items with
  | nil => exact every_pure _
  | cons instance_ rest ih =>
    unfold firstInvalid
    refine every_bindE ?_ fun r => ?_
    · unfold validateScope
      split
      · exact every_pure _
      · refine every_bindE (every_query (hread _)) fun r => ?_
        split
        · exact every_pure _
        · exact every_pure _
    · cases r with
      | some e => exact every_pure _
      | none => exact ih

theorem recordPaused_fills (batch : BackupBatch) (found : PlanInstances) {reason : PlanPauseReason}
    (hreason : reason.code ≠ "") (draw : Nat → Draw) (n : Nat) (items : List ApplicationInstance) :
    Every (Fills tenant batch.planId batch.id) (recordPaused tenant batch found reason draw n items) := by
  induction items generalizing n with
  | nil => exact every_pure _
  | cons affected rest ih =>
    refine every_bindE (recordSkipped_fills _ _ _ _ _ _ ?_) fun _ => ih (n + 1)
    split
    · exact hreason
    · decide

theorem enqueueAll_fills (plan : BackupPlan) (batch : BackupBatch) (found : PlanInstances)
    (draw skip : Nat → Draw) (n : Nat) (items : List ApplicationInstance) :
    Every (Fills tenant batch.planId batch.id) (enqueueAll tenant plan batch found draw skip n items) := by
  induction items generalizing n with
  | nil => exact every_pure _
  | cons instance_ rest ih =>
    refine every_bindE ?_ fun _ => ih (n + 1)
    refine every_bindE (every_attempt (enqueueInstance_fills ..)) fun r => ?_
    cases r with
    | ok made => exact every_pure _
    | error e =>
      simp only
      split
      · exact recordSkipped_fills _ _ _ _ _ _ (by decide)
      · exact every_pure _

theorem expandPlan_fills {plan : BackupPlan} {batch : BackupBatch} (hbatch : batch.planId = plan.id)
    (draws : Draws) : Every (Fills tenant plan.id batch.id) (expandPlan tenant plan batch draws) := by
  rw [← hbatch]
  unfold expandPlan
  refine every_bindE (planInstances_fills plan) fun found => ?_
  refine every_bindE (firstInvalid_every (fun _ => trivial) ..) fun r => ?_
  cases r with
  | none => exact enqueueAll_fills ..
  | some invalid =>
    obtain ⟨instance_, err⟩ := invalid
    simp only
    split
    · exact every_pure _
    · have hcode : "BACKUP_SCOPE_PATH_MISSING" ≠ "" := by decide
      exact every_bindE (every_write ⟨rfl, hbatch.symm⟩) fun _ => recordPaused_fills _ _ hcode ..

/-- `RunPlan` creates its batch first; the rest of it is an expansion. -/
theorem runPlan_every {P : Stmt → Prop} {plan : BackupPlan} {trigger : String} {scheduledAt : Time}
    {draws : Draws}
    (hbatch : ∀ id, P (.write (.createBatch (planBatch tenant id plan trigger scheduledAt draws.now))
      none))
    (hrest : ∀ c, Expands tenant plan.id c → OfPlan tenant plan.id c → P c) :
    Every P (runPlan tenant plan trigger scheduledAt draws) := by
  unfold runPlan
  refine every_bindE (every_result _) fun id => ?_
  refine every_bindE (every_attempt (every_write (hbatch id))) fun r => ?_
  split
  · refine every_bindE ((expandPlan_fills rfl draws).mono ?_) fun _ => ?_
    · exact fun c hc => hrest c (expands_of_fills hc) (ofPlan_of_fills hc)
    · exact every_bindE (every_query (hrest _ trivial trivial)) fun _ => every_ofStore _
  · unfold existingBatch
    refine every_bindE (every_query (hrest _ trivial trivial)) fun batches => ?_
    split
    · exact every_pure _
    · exact every_pure _
  · exact every_pure _

end Expands

end Calls

end AppBackup.Queue
