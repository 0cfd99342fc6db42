import AppBackup.Lib.Text
import AppBackup.Persistence.Queue

/- Backup plans and their targets (`persistence/queue.go`). `UpdatePlan` and
   `PausePlanForScope` each end the waiting work of the plan in their own
   transaction: one bulk update of its tasks and one of its jobs. -/
namespace AppBackup.Persistence
open Table

/-- The values `CreatePlan` inserts; a new plan has no pause reason. -/
def planRow (plan : BackupPlan) : PlanRow where
  id := plan.id
  tenantUid := plan.tenantUid
  name := plan.name
  targetKind := plan.targetKind
  sharedRiskAccepted := plan.sharedRiskAccepted
  scheduleType := plan.scheduleType
  executionTime := plan.executionTime
  cronExpression := plan.cronExpression
  timezone := plan.timezone
  enabled := plan.enabled
  catchUp := plan.catchUp
  maxCatchUpSeconds := plan.maxCatchUpSeconds
  maxRetries := plan.retry.maxRetries
  retryBackoffSeconds := plan.retry.backoffSeconds
  retention := plan.retention
  createdBySubject := plan.createdBySubject
  createdAt := unix plan.createdAt
  updatedAt := unix plan.updatedAt
  lastScheduledAt := nullableUnix plan.lastScheduledAt
  nextRunAt := nullableUnix plan.nextRunAt
  pauseReason := none

/-- `scanPlan`, with the targets read after it. -/
def scanPlan (r : PlanRow) (targets : List PlanTarget) : BackupPlan where
  id := r.id
  tenantUid := r.tenantUid
  name := r.name
  targetKind := r.targetKind
  targets := targets
  sharedRiskAccepted := r.sharedRiskAccepted
  scheduleType := r.scheduleType
  executionTime := r.executionTime
  cronExpression := r.cronExpression
  timezone := r.timezone
  enabled := r.enabled
  catchUp := r.catchUp
  maxCatchUpSeconds := r.maxCatchUpSeconds
  retry := ⟨r.maxRetries, r.retryBackoffSeconds⟩
  retention := r.retention
  createdBySubject := r.createdBySubject
  createdAt := ofUnix r.createdAt
  updatedAt := ofUnix r.updatedAt
  lastScheduledAt := fromUnix r.lastScheduledAt
  nextRunAt := fromUnix r.nextRunAt
  pauseReason := r.pauseReason

/-- The columns `UpdatePlan` sets. -/
def updatedPlanRow (plan : BackupPlan) (r : PlanRow) : PlanRow :=
  { r with
    name := plan.name
    targetKind := plan.targetKind
    sharedRiskAccepted := plan.sharedRiskAccepted
    scheduleType := plan.scheduleType
    executionTime := plan.executionTime
    cronExpression := plan.cronExpression
    timezone := plan.timezone
    enabled := plan.enabled
    catchUp := plan.catchUp
    maxCatchUpSeconds := plan.maxCatchUpSeconds
    maxRetries := plan.retry.maxRetries
    retryBackoffSeconds := plan.retry.backoffSeconds
    retention := plan.retention
    updatedAt := unix plan.updatedAt
    nextRunAt := nullableUnix plan.nextRunAt
    pauseReason := none }

def targetRow (plan : BackupPlan) (target : PlanTarget) : TargetRow where
  planId := plan.id
  tenantUid := plan.tenantUid
  deployId := target.deployId
  sharedRiskAccepted := target.sharedRiskAccepted
  scope := target.scope

/-- `WHERE tenant_uid=? AND id=?`. -/
def planIn (tenant id : String) (r : PlanRow) : Bool := r.tenantUid == tenant && r.id == id

/-- `WHERE tenant_uid=? AND plan_id=? AND status='QUEUED'`, on tasks and on jobs. -/
def waitingTask (tenant planId : String) (t : TaskRow) : Bool :=
  t.tenantUid == tenant && t.planId == planId && t.status == .queued

def waitingJob (tenant planId : String) (j : JobRow) : Bool :=
  j.tenantUid == tenant && j.planId == planId && j.status == .queued

/-- How a bulk update ends the waiting tasks of a plan. -/
def endWaitingTask (status : TaskStatus) (code : String) (validation : Option PlanPauseReason)
    (at_ : Time) (t : TaskRow) : TaskRow :=
  { t with
    status := status, errorCode := code, finishedAt := some (unix at_)
    scopeValidation := validation.or t.scopeValidation }

/-- How it ends their jobs. -/
def endWaitingJob (code : String) (at_ : Time) (j : JobRow) : JobRow :=
  { j with status := .failed, errorCode := code, finishedAt := some (unix at_) }

theorem waitingTask_iff {tenant planId : String} {t : TaskRow} :
    waitingTask tenant planId t = true ↔
      t.tenantUid = tenant ∧ t.planId = planId ∧ t.status = .queued := by
  simp [waitingTask, and_assoc]

namespace Store

/-- The two bulk updates: the waiting tasks of the plan get `status`, their waiting
jobs fail. -/
def endWaiting (s : Store) (tenant planId : String) (status : TaskStatus) (code : String)
    (validation : Option PlanPauseReason) (at_ : Time) : Except StoreError Store :=
  (s.updateTasks (waitingTask tenant planId) (endWaitingTask status code validation at_)
    fun _ => rfl).updateJobs (waitingJob tenant planId) (endWaitingJob code at_) fun _ => rfl

def insertTargets (s : Store) (plan : BackupPlan) : List PlanTarget → Except StoreError Store
  | [] => .ok s
  | target :: rest =>
    if target.deployId = "" then .error (.invalid "plan target is required")
    else
      match s.insertTarget (targetRow plan target) with
      | .error e => .error e
      | .ok s' => s'.insertTargets plan rest

def replacePlanTargets (s : Store) (plan : BackupPlan) : Except StoreError Store :=
  (s.deleteTargets fun t => t.planId == plan.id && t.tenantUid == plan.tenantUid).insertTargets plan
    plan.targets

def createPlan (s : Store) (plan : BackupPlan) : Except StoreError Store :=
  if plan.id = "" ∨ plan.tenantUid = "" ∨ Text.trimSpace plan.name = "" then
    .error (.invalid "invalid backup plan")
  else
    match s.insertPlan (planRow plan) with
    | .error e => .error e
    | .ok s' => s'.replacePlanTargets plan

def updatePlan (s : Store) (tenant : String) (plan : BackupPlan) (cancelQueued : Bool) :
    Except StoreError Store :=
  if tenant = "" ∨ plan.id = "" ∨ plan.tenantUid ≠ tenant then
    .error (.invalid "invalid backup plan update")
  else if s.plans.countP (planIn tenant plan.id) ≠ 1 then .error .notFound
  else
    let s' := s.updatePlans (planIn tenant plan.id) (updatedPlanRow plan) fun _ => rfl
    if cancelQueued then
      match s'.endWaiting tenant plan.id .cancelled "SCOPE_REVISION_SUPERSEDED" none plan.updatedAt with
      | .error e => .error e
      | .ok s'' => s''.replacePlanTargets plan
    else s'.replacePlanTargets plan

/-- `PlanTargets`: ordered by deployment, an empty scope read as a full one. -/
def planTargets (s : Store) (tenant id : String) : List PlanTarget :=
  ((s.targets.filter fun t => t.tenantUid == tenant && t.planId == id).insertionSort
    fun a b => a.deployId ≤ b.deployId).map fun t => ⟨t.deployId, t.sharedRiskAccepted, t.scope.orFull⟩

def plan (s : Store) (tenant id : String) : Except StoreError BackupPlan :=
  match s.plans.find? (planIn tenant id) with
  | some r => .ok (scanPlan r (s.planTargets tenant id))
  | none => .error .notFound

def setPlanEnabled (s : Store) (tenant id : String) (enabled : Bool) (nextRun : Option Time)
    (updated : Time) : Except StoreError Store :=
  if s.plans.countP (planIn tenant id) ≠ 1 then .error .notFound
  else .ok (s.updatePlans (planIn tenant id)
    (fun r => { r with
      enabled := enabled, nextRunAt := nullableUnix nextRun, updatedAt := unix updated })
    fun _ => rfl)

/-- A plan that is not there is no error: its waiting work still ends. -/
def pausePlanForScope (s : Store) (tenant id : String) (reason : PlanPauseReason) :
    Except StoreError Store :=
  (s.updatePlans (planIn tenant id)
    (fun r => { r with
      enabled := false, nextRunAt := none, pauseReason := some reason
      updatedAt := unix reason.detectedAt })
    fun _ => rfl).endWaiting tenant id .skipped "PLAN_PAUSED_SCOPE_INVALID" (some reason)
      reason.detectedAt

def advancePlan (s : Store) (tenant id : String) (scheduledAt : Time) (nextRun : Option Time)
    (updated : Time) : Store :=
  s.updatePlans (planIn tenant id)
    (fun r => { r with
      lastScheduledAt := some (unix scheduledAt), nextRunAt := nullableUnix nextRun
      updatedAt := unix updated })
    fun _ => rfl

def deletePlan (s : Store) (tenant id : String) : Except StoreError Store :=
  if s.plans.countP (planIn tenant id) ≠ 1 then .error .notFound
  else .ok (s.deletePlans (planIn tenant id))

/-- `WHERE tenant_uid=? AND enabled=1 AND next_run_at IS NOT NULL AND next_run_at<=?`. -/
def due (tenant : String) (now : Time) (r : PlanRow) : Bool :=
  r.tenantUid == tenant && r.enabled && r.nextRunAt.any (· ≤ unix now)

/-- `ORDER BY next_run_at, id`. -/
def dueBefore (a b : PlanRow) : Prop :=
  a.nextRunAt.getD 0 < b.nextRunAt.getD 0 ∨
    (a.nextRunAt.getD 0 = b.nextRunAt.getD 0 ∧ a.id ≤ b.id)

instance : DecidableRel dueBefore := fun _ _ =>
  inferInstanceAs (Decidable (_ < _ ∨ (_ = _ ∧ _ ≤ _)))

/-- The rows of `DuePlans`; the targets of each are read after them. -/
def duePlans (s : Store) (tenant : String) (now : Time) : List PlanRow :=
  (s.plans.filter (due tenant now)).insertionSort dueBefore

/-- The target keys `replacePlanTargets` would leave. -/
def replacedKeys (s : Store) (plan : BackupPlan) : List (String × String) :=
  (s.targets.filter fun t => !(t.planId == plan.id && t.tenantUid == plan.tenantUid)).map
      (fun t => (t.planId, t.deployId)) ++
    plan.targets.map fun target => (plan.id, target.deployId)

/-- What `UpdatePlan` checks: its arguments, that the plan is there, and that its
targets name their deployments and no key twice. -/
def updatable (s : Store) (tenant : String) (plan : BackupPlan) : Prop :=
  tenant ≠ "" ∧ plan.id ≠ "" ∧ plan.tenantUid = tenant ∧
    s.plans.countP (planIn tenant plan.id) = 1 ∧ (∀ target ∈ plan.targets, target.deployId ≠ "") ∧
    (s.replacedKeys plan).Nodup

/-! ## What they leave -/

theorem endWaiting_ok {s s' : Store} {tenant planId code : String} {status : TaskStatus}
    {validation : Option PlanPauseReason} {at_ : Time}
    (h : s.endWaiting tenant planId status code validation at_ = .ok s') :
    s'.toTables = { s.toTables with
      tasks := updateWhere (waitingTask tenant planId) (endWaitingTask status code validation at_) s.tasks
      jobs := updateWhere (waitingJob tenant planId) (endWaitingJob code at_) s.jobs } :=
  updateJobs_ok h

theorem endWaiting_total (s : Store) (tenant planId code : String) (status : TaskStatus)
    (validation : Option PlanPauseReason) (at_ : Time) :
    ∃ s', s.endWaiting tenant planId status code validation at_ = .ok s' :=
  updateJobs_of_quiet _ _ fun _ _ h => by simp [endWaitingJob, JobRow.isActive, JobStatus.active] at h

theorem insertTargets_ok {plan : BackupPlan} {targets : List PlanTarget} {s s' : Store}
    (h : s.insertTargets plan targets = .ok s') :
    s'.toTables = { s.toTables with targets := s.targets ++ targets.map (targetRow plan) } := by
  induction targets generalizing s with
  | nil => simp only [insertTargets, Except.ok.injEq] at h; subst h; simp
  | cons target rest ih =>
    simp only [insertTargets] at h
    split at h
    · cases h
    · split at h
      · cases h
      · next s₁ hi =>
        have h₁ := insertTarget_ok hi
        rw [ih h, h₁]
        simp

/-- Targets go in when each names a deployment and no key is there twice. -/
theorem insertTargets_isOk (plan : BackupPlan) (targets : List PlanTarget) (s : Store) :
    (∃ s', s.insertTargets plan targets = .ok s') ↔
      (∀ target ∈ targets, target.deployId ≠ "") ∧
      (s.targets.map (fun t => (t.planId, t.deployId)) ++
        targets.map fun target => (plan.id, target.deployId)).Nodup := by
  induction targets generalizing s with
  | nil => simp [insertTargets, s.targets_pk]
  | cons target rest ih =>
    by_cases hid : target.deployId = ""
    · simp [insertTargets, hid]
    · by_cases hkey : (plan.id, target.deployId) ∈ s.targets.map fun t => (t.planId, t.deployId)
      · have hdup : ¬(s.targets.map (fun t => (t.planId, t.deployId)) ++
            (target :: rest).map fun target => (plan.id, target.deployId)).Nodup := by
          intro h
          exact List.disjoint_of_nodup_append h hkey (by simp)
        have hfail : s.insertTarget (targetRow plan target) = .error (.unique "plan_targets") := by
          unfold insertTarget
          exact dif_neg fun h => h hkey
        simp only [insertTargets, hid, if_false, hfail]
        constructor
        · rintro ⟨s', hs'⟩
          cases hs'
        · intro h
          exact absurd h.2 hdup
      · have hok : ∃ s₁, s.insertTarget (targetRow plan target) = .ok s₁ := by
          unfold insertTarget
          exact ⟨_, dif_pos hkey⟩
        obtain ⟨s₁, hs₁⟩ := hok
        have ht := congrArg Tables.targets (insertTarget_ok hs₁)
        simp only [insertTargets, hid, if_false, hs₁]
        rw [ih s₁, ht]
        simp [hid, targetRow]

theorem replacePlanTargets_ok {s s' : Store} {plan : BackupPlan}
    (h : s.replacePlanTargets plan = .ok s') :
    s'.toTables = { s.toTables with
      targets := (s.targets.filter fun t => !(t.planId == plan.id && t.tenantUid == plan.tenantUid)) ++
        plan.targets.map (targetRow plan) } :=
  insertTargets_ok h

theorem createPlan_ok {s s' : Store} {plan : BackupPlan} (h : s.createPlan plan = .ok s') :
    ∃ targets, s'.toTables = { s.toTables with plans := s.plans ++ [planRow plan], targets := targets } := by
  unfold createPlan at h
  split at h
  · cases h
  · split at h
    · cases h
    · next s₁ hi =>
      have h₁ := replacePlanTargets_ok h
      rw [insertPlan_ok hi] at h₁
      exact ⟨_, h₁⟩

/-- An update that commits writes the plan, its targets and, when it supersedes the
queued work, the waiting tasks and jobs of the plan. -/
theorem updatePlan_ok {s s' : Store} {tenant : String} {plan : BackupPlan} {cancelQueued : Bool}
    (h : s.updatePlan tenant plan cancelQueued = .ok s') :
    ∃ targets, s'.toTables = { s.toTables with
      plans := updateWhere (planIn tenant plan.id) (updatedPlanRow plan) s.plans
      targets := targets
      tasks := if cancelQueued then updateWhere (waitingTask tenant plan.id)
        (endWaitingTask .cancelled "SCOPE_REVISION_SUPERSEDED" none plan.updatedAt) s.tasks else s.tasks
      jobs := if cancelQueued then updateWhere (waitingJob tenant plan.id)
        (endWaitingJob "SCOPE_REVISION_SUPERSEDED" plan.updatedAt) s.jobs else s.jobs } := by
  unfold updatePlan at h
  split at h
  · cases h
  · split at h
    · cases h
    · cases cancelQueued with
      | false => exact ⟨_, replacePlanTargets_ok h⟩
      | true =>
        simp only [if_true] at h
        split at h
        · cases h
        · next s₁ hw =>
          have h₁ := replacePlanTargets_ok h
          rw [endWaiting_ok hw] at h₁
          exact ⟨_, h₁⟩

/-- `UpdatePlan` goes through exactly when its checks do, whether or not it ends the
waiting work. -/
theorem updatePlan_isOk (s : Store) (tenant : String) (plan : BackupPlan) (cancelQueued : Bool) :
    (∃ s', s.updatePlan tenant plan cancelQueued = .ok s') ↔ s.updatable tenant plan := by
  have hargs : (tenant = "" ∨ plan.id = "" ∨ plan.tenantUid ≠ tenant) ↔
      ¬(tenant ≠ "" ∧ plan.id ≠ "" ∧ plan.tenantUid = tenant) := by
    rw [not_and_or, not_and_or, not_not, not_not]
  unfold updatePlan updatable
  by_cases ha : tenant ≠ "" ∧ plan.id ≠ "" ∧ plan.tenantUid = tenant
  · rw [if_neg (fun h => hargs.mp h ha)]
    by_cases hc : s.plans.countP (planIn tenant plan.id) = 1
    · rw [if_neg (not_not.mpr hc)]
      simp only [ha, hc, ne_eq, not_false_eq_true, true_and]
      cases cancelQueued with
      | false => exact insertTargets_isOk plan plan.targets _
      | true =>
        obtain ⟨s₁, hs₁⟩ := endWaiting_total
          (s.updatePlans (planIn tenant plan.id) (updatedPlanRow plan) fun _ => rfl) tenant plan.id
          "SCOPE_REVISION_SUPERSEDED" .cancelled none plan.updatedAt
        have ht := congrArg Tables.targets (endWaiting_ok hs₁)
        rw [ha.2.2] at *
        simp only [if_true, hs₁]
        refine (insertTargets_isOk plan plan.targets _).trans ?_
        rw [deleteTargets_tables, ht]
        exact Iff.rfl
    · rw [if_pos hc]
      simp [hc]
  · rw [if_pos (hargs.mpr ha)]
    constructor
    · rintro ⟨s', hs'⟩
      cases hs'
    · intro h
      exact absurd ⟨h.1, h.2.1, h.2.2.1⟩ ha

theorem pausePlanForScope_ok {s s' : Store} {tenant id : String} {reason : PlanPauseReason}
    (h : s.pausePlanForScope tenant id reason = .ok s') :
    ∃ plans, s'.toTables = { s.toTables with
      plans := plans
      tasks := updateWhere (waitingTask tenant id)
        (endWaitingTask .skipped "PLAN_PAUSED_SCOPE_INVALID" (some reason) reason.detectedAt) s.tasks
      jobs := updateWhere (waitingJob tenant id)
        (endWaitingJob "PLAN_PAUSED_SCOPE_INVALID" reason.detectedAt) s.jobs } := by
  unfold pausePlanForScope at h
  have hw := endWaiting_ok h
  rw [updatePlans_tables] at hw
  exact ⟨_, hw⟩

end Store

end AppBackup.Persistence
