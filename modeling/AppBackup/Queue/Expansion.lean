import AppBackup.Persistence.Ops
import AppBackup.Queue.Service

/- What `RunPlan` makes of one target of a plan, and what it is for a batch to be the plan's
   expansion: one task for each target, waiting or beyond or skipped with a reason, and none for
   anything else. A target that has left the library is passed over by `planInstances` and gets
   no task; a target that is there gets one, which is skipped where the deployment has a job
   already. What whole calls leave, and which of them expand a plan, is in `Queue/Replays.lean`. -/
namespace AppBackup.Queue
open Persistence Table

/-! ## One target -/

/-- A task the expansion adds for a deployment: waiting, or skipped with a reason. -/
structure ExpandsTo (tenant batchId deployId : String) (t : TaskRow) : Prop where
  tenant : t.tenantUid = tenant
  batch : t.batchId = batchId
  deploy : t.deployId = deployId
  reason : t.status = .queued ∨ (t.status = .skipped ∧ t.errorCode ≠ "")

theorem recordSkipped_adds {s s' : Store} {tenant code : String} {batch : BackupBatch}
    {instance_ : ApplicationInstance} {scope : BackupScope} {validation : Option PlanPauseReason}
    {draw : Draw} (hcode : code ≠ "")
    (h : recordSkipped s tenant batch instance_ code scope validation draw = .ok s') :
    ∃ t, s'.tasks = s.tasks ++ [t] ∧ ExpandsTo tenant batch.id instance_.deployId t := by
  obtain ⟨id, -, hadd⟩ := recordSkipped_ok h
  refine ⟨_, congrArg Tables.tasks (Store.addTask_ok hadd), ?_⟩
  exact ⟨rfl, rfl, rfl, .inr ⟨rfl, hcode⟩⟩

theorem enqueueOrSkip_adds {s s' : Store} {tenant : String} {plan : BackupPlan}
    {batch : BackupBatch} {found : PlanInstances} {instance_ : ApplicationInstance}
    {draw skip : Draw}
    (h : enqueueOrSkip s tenant plan batch found instance_ draw skip = (.ok (), s')) :
    ∃ t, s'.tasks = s.tasks ++ [t] ∧ ExpandsTo tenant batch.id instance_.deployId t := by
  unfold enqueueOrSkip at h
  split at h
  · next out s₁ he =>
    obtain ⟨job, task⟩ := out
    obtain ⟨s₂, taskId, -, hjob, rfl, hadd⟩ := enqueueInstance_ok he
    cases h
    refine ⟨taskRow (queuedTask tenant taskId job.id batch instance_
      (planTerms plan found instance_.deployId) (draw.now 1)), ?_, rfl, rfl, rfl, .inl rfl⟩
    rw [Store.addTask_ok hadd, createJob_tables hjob]
  · next e s₁ he =>
    split at h
    · split at h
      · cases h
      · next s₂ hskip =>
        cases h
        obtain ⟨jobs, htables⟩ := enqueueInstance_error_tables he
        obtain ⟨t, ht, hexp⟩ := recordSkipped_adds (by decide) hskip
        refine ⟨t, ?_, hexp⟩
        rw [ht, htables]
    · cases h

/-! ## A batch and its plan -/

/-- The tasks of a batch. -/
def ownTasks (s : Store) (tenant batchId : String) : List TaskRow :=
  s.tasks.filter (inBatch tenant batchId)

/-- One task for each target of the plan, none for anything else, and a reason on
each skipped one. -/
structure Expanded (s : Store) (tenant batchId : String) (plan : BackupPlan) : Prop where
  each : ∀ target ∈ plan.targets,
    (ownTasks s tenant batchId).countP (·.deployId == target.deployId) = 1
  only : ∀ t ∈ ownTasks s tenant batchId, ∃ target ∈ plan.targets, target.deployId = t.deployId
  reason : ∀ t ∈ ownTasks s tenant batchId, t.status = .skipped → t.errorCode ≠ ""

/-- A batch has one task for a deployment at most. -/
theorem ownTasks_deploy_count {s : Store} {tenant batchId : String} {t : TaskRow}
    (ht : t ∈ ownTasks s tenant batchId) :
    (ownTasks s tenant batchId).countP (·.deployId == t.deployId) = 1 := by
  have hkeys : ((ownTasks s tenant batchId).map fun t => (t.batchId, t.deployId)).Nodup :=
    s.tasks_batch_deploy.sublist (List.filter_sublist.map _)
  have hbatch : ∀ r ∈ ownTasks s tenant batchId, r.batchId = batchId := by
    intro r hr
    have hin := (List.mem_filter.mp hr).2
    simp only [inBatch, Bool.and_eq_true, beq_iff_eq] at hin
    exact hin.2
  have hdeploy : ((ownTasks s tenant batchId).map (·.deployId)).Nodup := by
    apply List.Nodup.of_map (fun d => (batchId, d))
    rw [List.map_map]
    have hsame : (ownTasks s tenant batchId).map ((fun d => (batchId, d)) ∘ fun t => t.deployId) =
        (ownTasks s tenant batchId).map fun t => (t.batchId, t.deployId) := by
      apply List.map_congr_left
      intro r hr
      simp [hbatch r hr]
    rw [hsame]
    exact hkeys
  apply countP_eq_one hdeploy _ ht (by simp)
  intro r r' hr hr'
  simp only [beq_iff_eq] at hr hr'
  rw [hr, hr']

/-! ### A plan of the queue's own test -/

/-- The library with some instances of one application. -/
def libraryOf (deployIds : List String) : Store :=
  { Store.empty with
    applications := [⟨"tenant-a", "cloud.demo", "Demo", "", "demo"⟩]
    instances := deployIds.map fun d => ⟨"tenant-a", "cloud.demo", d, true, .backupable, true⟩ }

def planOf (targets : List PlanTarget) : BackupPlan where
  id := "plan-a"
  tenantUid := "tenant-a"
  name := "Plan"
  targetKind := "EXPLICIT"
  targets := targets
  sharedRiskAccepted := false
  scheduleType := "MANUAL"
  executionTime := ""
  cronExpression := ""
  timezone := "UTC"
  enabled := true
  catchUp := false
  maxCatchUpSeconds := 0
  retry := ⟨1, 60⟩
  retention := ⟨1, 0, 0, 0, 24⟩
  createdBySubject := "subject-a"
  createdAt := 0
  updatedAt := 0
  lastScheduledAt := none
  nextRunAt := none
  pauseReason := none

def targetA : PlanTarget := ⟨"deploy-a", false, .full⟩
def targetB : PlanTarget := ⟨"deploy-b", false, .full⟩

def drawsA : Draws where
  batchId := some "0a"
  now := 0
  pausedAt := 0
  enqueue n := ⟨some ("0" ++ toString n), some ("0" ++ toString n), fun _ => 0⟩
  skip n := ⟨some ("1" ++ toString n), none, fun _ => 0⟩
  scan _ _ := none

/-- The database with the plan stored. -/
def planned (deployIds : List String) (targets : List PlanTarget) : Store :=
  (Op.createPlan (planOf targets)).next (libraryOf deployIds)

/-- A call that added the first of two tasks and stopped there. -/
def interrupted : Store :=
  runOps (planned ["deploy-a", "deploy-b"] [targetA, targetB])
    [.createBatch batchA, .createBackupJob jobA, .addTask taskA 0]

end AppBackup.Queue
