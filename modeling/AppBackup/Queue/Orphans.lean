import AppBackup.Queue.Expansion

/- What a failed enqueue leaves. A job is created before its task and failed when
   the task is not taken, so a call that fails leaves no active job without a task.
   A batch is created before both and nothing closes it: when the call fails before
   the first task of the batch, it stays queued with none.

   What is proved:
     1. how one enqueue can go, with its inputs and the database it finds
        (`createBackupJob_cases`, `addTask_cases`, `enqueueInstance_cases`,
        `enqueueOrSkip_cases`);
     2. `Sound.enqueueInstance`, `Sound.expandPlan` -- whatever fails, no active job is left
        without a task;
     3. `expandPlan_error` -- a plan's batch has a task after a failure exactly when its first
        task lands;
     4. `failed_enqueue_orphans_iff` -- the two halves for `StartManual` and `RunPlan`. -/
namespace AppBackup.Queue
open Persistence Table

/-- Every active job the call created belongs to a task it created. -/
def NoOrphanJobs (s s' : Store) : Prop :=
  ∀ j ∈ s'.jobs, j.id ∉ s.jobs.map (·.id) → j.isActive = true →
    ∃ t ∈ s'.tasks, t.id ∉ s.tasks.map (·.id) ∧ t.backupJobId = j.id

/-- Every batch the call created and left open owns a task. -/
def NoOrphanBatches (s s' : Store) : Prop :=
  ∀ b ∈ s'.batches, b.id ∉ s.batches.map (·.id) → (b.status = .queued ∨ b.status = .running) →
    ∃ t ∈ s'.tasks, inBatch b.tenantUid b.id t = true

instance (s s' : Store) : Decidable (NoOrphanJobs s s') :=
  inferInstanceAs (Decidable (∀ j ∈ s'.jobs, j.id ∉ s.jobs.map (·.id) → j.isActive = true →
    ∃ t ∈ s'.tasks, t.id ∉ s.tasks.map (·.id) ∧ t.backupJobId = j.id))

instance (s s' : Store) : Decidable (NoOrphanBatches s s') :=
  inferInstanceAs (Decidable (∀ b ∈ s'.batches, b.id ∉ s.batches.map (·.id) →
    (b.status = .queued ∨ b.status = .running) →
    ∃ t ∈ s'.tasks, inBatch b.tenantUid b.id t = true))

/-! ## What the store takes -/

/-- The fields `CreateBackupJob` asks for. -/
def jobFilled (job : BackupJob) : Prop :=
  job.id ≠ "" ∧ job.tenantUid ≠ "" ∧ job.appId ≠ "" ∧ job.deployId ≠ "" ∧ job.status = .queued

/-- The instance of the job has an active job. -/
def slotTaken (s : Store) (job : BackupJob) : Prop :=
  ∃ j ∈ s.jobs, j.tenantUid = job.tenantUid ∧ j.deployId = job.deployId ∧ j.isActive = true

/-- The fields `AddTask` asks for. -/
def taskFilled (task : BackupTask) : Prop :=
  task.id ≠ "" ∧ task.tenantUid ≠ "" ∧ task.batchId ≠ "" ∧ task.backupJobId ≠ "" ∧ task.deployId ≠ ""

/-- A task has its id, its job or its place in the batch already. -/
def taskTaken (s : Store) (task : BackupTask) : Prop :=
  ∃ t ∈ s.tasks, t.id = task.id ∨ t.backupJobId = task.backupJobId ∨
    (t.batchId = task.batchId ∧ t.deployId = task.deployId)

theorem createBackupJob_cases (s : Store) (job : BackupJob) :
    (¬jobFilled job ∧ ∃ m, s.createBackupJob job = .error (.invalid m)) ∨
    (jobFilled job ∧ slotTaken s job ∧ s.createBackupJob job = .error .conflict) ∨
    (jobFilled job ∧ ¬slotTaken s job ∧ job.id ∈ s.jobs.map (·.id) ∧
      s.createBackupJob job = .error (.unique "backup_jobs")) ∨
    (jobFilled job ∧ ¬slotTaken s job ∧ job.id ∉ s.jobs.map (·.id) ∧
      ∃ s', s.createBackupJob job = .ok s') := by
  have hnot : (job.id = "" ∨ job.tenantUid = "" ∨ job.appId = "" ∨ job.deployId = "" ∨
      job.status ≠ .queued) ↔ ¬jobFilled job := by
    unfold jobFilled
    tauto
  have hslot : (s.jobs.any fun j =>
      j.tenantUid == job.tenantUid && j.deployId == job.deployId && j.isActive) = true ↔
      slotTaken s job := by
    simp only [slotTaken, List.any_eq_true, Bool.and_eq_true, beq_iff_eq, and_assoc]
  unfold Store.createBackupJob
  by_cases hfill : jobFilled job
  · rw [if_neg (fun h => hnot.mp h hfill)]
    by_cases htaken : slotTaken s job
    · rw [if_pos (hslot.mpr htaken)]
      exact .inr (.inl ⟨hfill, htaken, rfl⟩)
    · rw [if_neg (fun h => htaken (hslot.mp h))]
      have hindex : (jobRow job).instance ∉ indexKeys JobRow.isActive JobRow.instance s.jobs := by
        intro hmem
        obtain ⟨j, hj, he⟩ := List.mem_map.mp hmem
        obtain ⟨hjs, hact⟩ := List.mem_filter.mp hj
        simp only [JobRow.instance, jobRow, Prod.mk.injEq] at he
        exact htaken ⟨j, hjs, he.1, he.2, hact⟩
      unfold Store.insertJob
      by_cases hid : job.id ∈ s.jobs.map (·.id)
      · rw [dif_neg (fun h => h.1 hid)]
        exact .inr (.inr (.inl ⟨hfill, htaken, hid, rfl⟩))
      · rw [dif_pos ⟨hid, fun _ => hindex⟩]
        exact .inr (.inr (.inr ⟨hfill, htaken, hid, _, rfl⟩))
  · rw [if_pos (hnot.mpr hfill)]
    exact .inl ⟨hfill, _, rfl⟩

/-- The four ways `AddTask` can go. -/
theorem addTask_cases (s : Store) (task : BackupTask) (now : Time) :
    (¬taskFilled task ∧ ∃ m, s.addTask task now = .error (.invalid m)) ∨
    (taskFilled task ∧ taskTaken s task ∧ s.addTask task now = .error .conflict) ∨
    (taskFilled task ∧ ¬taskTaken s task ∧ task.batchId ∉ s.batches.map (·.id) ∧
      s.addTask task now = .error .foreignKey) ∨
    (taskFilled task ∧ ¬taskTaken s task ∧ task.batchId ∈ s.batches.map (·.id) ∧
      ∃ s', s.addTask task now = .ok s') := by
  have hnot : (task.id = "" ∨ task.tenantUid = "" ∨ task.batchId = "" ∨ task.backupJobId = "" ∨
      task.deployId = "") ↔ ¬taskFilled task := by
    unfold taskFilled
    tauto
  have hfree : ((taskRow task).id ∉ s.tasks.map (·.id) ∧
      (taskRow task).backupJobId ∉ s.tasks.map (·.backupJobId) ∧
      ((taskRow task).batchId, (taskRow task).deployId) ∉
        s.tasks.map (fun t => (t.batchId, t.deployId))) ↔ ¬taskTaken s task := by
    simp only [taskTaken, taskRow, List.mem_map, Prod.mk.injEq, not_exists, not_and, not_or]
    constructor
    · rintro ⟨h₁, h₂, h₃⟩ t ht
      exact ⟨h₁ t ht, h₂ t ht, h₃ t ht⟩
    · intro h
      exact ⟨fun t ht => (h t ht).1, fun t ht => (h t ht).2.1, fun t ht => (h t ht).2.2⟩
  unfold Store.addTask
  by_cases hfill : taskFilled task
  · rw [if_neg (fun h => hnot.mp h hfill)]
    by_cases htaken : taskTaken s task
    · have hrefused : s.insertTask (taskRow task) = .error (.unique "backup_tasks") := by
        unfold Store.insertTask
        exact dif_neg fun h => hfree.mp h htaken
      rw [hrefused]
      exact .inr (.inl ⟨hfill, htaken, rfl⟩)
    · by_cases hb : task.batchId ∈ s.batches.map (·.id)
      · have hin : ∃ s₁, s.insertTask (taskRow task) = .ok s₁ := by
          unfold Store.insertTask
          rw [dif_pos (hfree.mpr htaken)]
          exact ⟨_, dif_pos hb⟩
        obtain ⟨s₁, hs₁⟩ := hin
        have htasks : s₁.tasks = s.tasks ++ [taskRow task] := by
          rw [Store.insertTask_ok hs₁]
        have hmem : taskRow task ∈ s₁.tasks := by
          rw [htasks]
          exact List.mem_append_right _ (List.mem_singleton.mpr rfl)
        have hown : inBatch task.tenantUid task.batchId (taskRow task) = true := by
          simp [inBatch, taskRow]
        obtain ⟨s', hs'⟩ := Store.refreshBatch_of_mem now hmem hown
        rw [hs₁]
        exact .inr (.inr (.inr ⟨hfill, htaken, hb, s', hs'⟩))
      · have hrefused : s.insertTask (taskRow task) = .error .foreignKey := by
          unfold Store.insertTask
          rw [dif_pos (hfree.mpr htaken)]
          exact dif_neg hb
        rw [hrefused]
        exact .inr (.inr (.inl ⟨hfill, htaken, hb, rfl⟩))
  · rw [if_pos (hnot.mpr hfill)]
    exact .inl ⟨hfill, _, rfl⟩

/-! ## One target -/

/-- What `enqueueInstance` needs to get to `CreateBackupJob`: both ids drawn, and an
instance that is there and may be backed up. -/
def EnqueueInputs (s : Store) (tenant : String) (instance_ : ApplicationInstance) (draw : Draw)
    (x y : String) (i : ApplicationInstance) : Prop :=
  draw.taskId = some x ∧ draw.jobId = some y ∧ s.instance tenant instance_.deployId = .ok i ∧
    i.capabilityStatus.accepts = true

def drawnJob (tenant : String) (batch : BackupBatch) (i : ApplicationInstance) (terms : Terms)
    (draw : Draw) (x y : String) : BackupJob :=
  newJob tenant ("backup" ++ "-" ++ y) i terms.sharedRiskAccepted terms.subject terms.role
    batch.planId batch.id ("task" ++ "-" ++ x) batch.triggerType batch.scheduledAt (draw.now 0)
    terms.scope

def drawnTask (tenant : String) (batch : BackupBatch) (instance_ : ApplicationInstance)
    (terms : Terms) (draw : Draw) (x y : String) : BackupTask :=
  queuedTask tenant ("task" ++ "-" ++ x) ("backup" ++ "-" ++ y) batch instance_ terms (draw.now 1)

def JobFits (s : Store) (job : BackupJob) : Prop :=
  jobFilled job ∧ ¬slotTaken s job ∧ job.id ∉ s.jobs.map (·.id)

def TaskFits (s : Store) (task : BackupTask) : Prop :=
  taskFilled task ∧ ¬taskTaken s task ∧ task.batchId ∈ s.batches.map (·.id)

/-- The job and the task of the instance are both taken. -/
def Enqueues (s : Store) (tenant : String) (batch : BackupBatch) (instance_ : ApplicationInstance)
    (terms : Terms) (draw : Draw) : Prop :=
  ∃ x y i, EnqueueInputs s tenant instance_ draw x y i ∧
    JobFits s (drawnJob tenant batch i terms draw x y) ∧
    TaskFits s (drawnTask tenant batch instance_ terms draw x y)

/-- The instance has an active job, or the task is there already. -/
def Conflicts (s : Store) (tenant : String) (batch : BackupBatch) (instance_ : ApplicationInstance)
    (terms : Terms) (draw : Draw) : Prop :=
  ∃ x y i, EnqueueInputs s tenant instance_ draw x y i ∧
    ((jobFilled (drawnJob tenant batch i terms draw x y) ∧
        slotTaken s (drawnJob tenant batch i terms draw x y)) ∨
      (JobFits s (drawnJob tenant batch i terms draw x y) ∧
        taskFilled (drawnTask tenant batch instance_ terms draw x y) ∧
        taskTaken s (drawnTask tenant batch instance_ terms draw x y)))

/-- The skipped task of the instance is taken. -/
def Records (s : Store) (tenant : String) (batch : BackupBatch) (instance_ : ApplicationInstance)
    (code : String) (scope : BackupScope) (validation : Option PlanPauseReason) (draw : Draw) :
    Prop :=
  ∃ x, draw.taskId = some x ∧
    TaskFits s (skippedTask tenant ("task" ++ "-" ++ x) batch instance_ code scope validation
      (draw.now 0))

theorem EnqueueInputs.unique {s : Store} {tenant : String} {instance_ i i' : ApplicationInstance}
    {draw : Draw} {x y x' y' : String} (h : EnqueueInputs s tenant instance_ draw x y i)
    (h' : EnqueueInputs s tenant instance_ draw x' y' i') : x = x' ∧ y = y' ∧ i = i' := by
  obtain ⟨hx, hy, hi, -⟩ := h
  obtain ⟨hx', hy', hi', -⟩ := h'
  rw [hx] at hx'
  rw [hy] at hy'
  rw [hi] at hi'
  cases hx'
  cases hy'
  cases hi'
  exact ⟨rfl, rfl, rfl⟩

theorem store_isConflict (e : StoreError) : (GoError.store e).isConflict = true ↔ e = .conflict := by
  simp [GoError.isConflict, GoError.is, GoError.chain, eq_comm]

/-- Without its inputs an enqueue fails before it writes, and not for a conflict. -/
theorem enqueueInstance_noInputs {s : Store} {tenant : String} (batch : BackupBatch)
    {instance_ : ApplicationInstance} (terms : Terms) {draw : Draw}
    (h : ∀ x y i, ¬EnqueueInputs s tenant instance_ draw x y i) :
    ∃ e, enqueueInstance s tenant batch instance_ terms draw = (.error e, s) ∧
      e.isConflict = false := by
  unfold enqueueInstance
  cases hx : draw.taskId with
  | none => exact ⟨_, rfl, rfl⟩
  | some x =>
    simp only [randomID, createJob]
    cases hi : s.instance tenant instance_.deployId with
    | error e =>
      rw [instance_error hi]
      exact ⟨_, rfl, rfl⟩
    | ok i =>
      by_cases ha : i.capabilityStatus.accepts = true
      · cases hy : draw.jobId with
        | none =>
          simp only [ha, Bool.not_true, Bool.false_eq_true, if_false]
          exact ⟨_, rfl, rfl⟩
        | some y => exact absurd ⟨hx, hy, hi, ha⟩ (h x y i)
      · simp only [ha, Bool.not_false, if_true]
        exact ⟨_, rfl, rfl⟩

/-- With them, an enqueue is `CreateBackupJob`, then `AddTask` or the end of the
job. -/
theorem enqueueInstance_inputs {s : Store} {tenant : String} (batch : BackupBatch)
    {instance_ i : ApplicationInstance} (terms : Terms) {draw : Draw} {x y : String}
    (h : EnqueueInputs s tenant instance_ draw x y i) :
    enqueueInstance s tenant batch instance_ terms draw =
      match s.createBackupJob (drawnJob tenant batch i terms draw x y) with
      | .error e => (.error (.store e), s)
      | .ok s₁ =>
        match s₁.addTask (drawnTask tenant batch instance_ terms draw x y) (draw.now 2) with
        | .ok s₂ => (.ok (drawnJob tenant batch i terms draw x y,
            drawnTask tenant batch instance_ terms draw x y), s₂)
        | .error e =>
          match s₁.failBackupJob tenant ("backup" ++ "-" ++ y) "QUEUE_PERSIST_FAILED" (draw.now 3) with
          | .ok s₂ => (.error (.store e), s₂)
          | .error _ => (.error (.store e), s₁) := by
  obtain ⟨hx, hy, hi, ha⟩ := h
  have hjob : newJob tenant ("backup" ++ "-" ++ y) i terms.sharedRiskAccepted terms.subject terms.role
      batch.planId batch.id ("task" ++ "-" ++ x) batch.triggerType batch.scheduledAt (draw.now 0)
      terms.scope = drawnJob tenant batch i terms draw x y := rfl
  simp only [enqueueInstance, createJob, randomID, hx, hy, hi, ha, Bool.not_true, Bool.false_eq_true,
    if_false, hjob]
  cases s.createBackupJob (drawnJob tenant batch i terms draw x y) <;> rfl

theorem taskTaken_congr {s s' : Store} (h : s'.tasks.map TaskRow.keys = s.tasks.map TaskRow.keys)
    (task : BackupTask) : taskTaken s' task ↔ taskTaken s task := by
  have hkeys : ∀ s : Store, taskTaken s task ↔ ∃ k ∈ s.tasks.map TaskRow.keys,
      k.1 = task.id ∨ k.2.2.2.2.1 = task.backupJobId ∨
        (k.2.2.1 = task.batchId ∧ k.2.2.2.2.2 = task.deployId) := by
    intro s
    simp [taskTaken, TaskRow.keys]
  rw [hkeys s, hkeys s', h]

theorem taskFits_congr {s s' : Store} (h : s'.tasks.map TaskRow.keys = s.tasks.map TaskRow.keys)
    (hb : s'.batches = s.batches) (task : BackupTask) : TaskFits s' task ↔ TaskFits s task := by
  unfold TaskFits
  rw [taskTaken_congr h, hb]

theorem EnqueueInputs.enqueues_iff {s : Store} {tenant : String} {batch : BackupBatch}
    {instance_ i : ApplicationInstance} {terms : Terms} {draw : Draw} {x y : String}
    (hin : EnqueueInputs s tenant instance_ draw x y i) :
    Enqueues s tenant batch instance_ terms draw ↔
      JobFits s (drawnJob tenant batch i terms draw x y) ∧
        TaskFits s (drawnTask tenant batch instance_ terms draw x y) := by
  constructor
  · rintro ⟨x', y', i', hin', hfits⟩
    obtain ⟨rfl, rfl, rfl⟩ := hin.unique hin'
    exact hfits
  · intro hfits
    exact ⟨x, y, i, hin, hfits⟩

theorem EnqueueInputs.conflicts_iff {s : Store} {tenant : String} {batch : BackupBatch}
    {instance_ i : ApplicationInstance} {terms : Terms} {draw : Draw} {x y : String}
    (hin : EnqueueInputs s tenant instance_ draw x y i) :
    Conflicts s tenant batch instance_ terms draw ↔
      (jobFilled (drawnJob tenant batch i terms draw x y) ∧
        slotTaken s (drawnJob tenant batch i terms draw x y)) ∨
      (JobFits s (drawnJob tenant batch i terms draw x y) ∧
        taskFilled (drawnTask tenant batch instance_ terms draw x y) ∧
        taskTaken s (drawnTask tenant batch instance_ terms draw x y)) := by
  constructor
  · rintro ⟨x', y', i', hin', hc⟩
    obtain ⟨rfl, rfl, rfl⟩ := hin.unique hin'
    exact hc
  · intro hc
    exact ⟨x, y, i, hin, hc⟩

/-- The three ways an enqueue can go: it adds its task, it conflicts, or it fails for
another reason. -/
theorem enqueueInstance_cases (s : Store) (tenant : String) (batch : BackupBatch)
    (instance_ : ApplicationInstance) (terms : Terms) (draw : Draw) :
    (Enqueues s tenant batch instance_ terms draw ∧
      ∃ out s', enqueueInstance s tenant batch instance_ terms draw = (.ok out, s')) ∨
    (¬Enqueues s tenant batch instance_ terms draw ∧
      ∃ e s', enqueueInstance s tenant batch instance_ terms draw = (.error e, s') ∧
        (e.isConflict = true ↔ Conflicts s tenant batch instance_ terms draw)) := by
  by_cases hin : ∃ x y i, EnqueueInputs s tenant instance_ draw x y i
  · obtain ⟨x, y, i, hin⟩ := hin
    rw [enqueueInstance_inputs batch terms hin, hin.enqueues_iff, hin.conflicts_iff]
    -- the job: refused for its columns, its slot or its id, or created
    rcases createBackupJob_cases s (drawnJob tenant batch i terms draw x y) with
      ⟨hnf, m, hc⟩ | ⟨hf, hslot, hc⟩ | ⟨hf, hslot, hid, hc⟩ | ⟨hf, hslot, hid, s₁, hc⟩
    · rw [hc]
      refine .inr ⟨fun h => hnf h.1.1, _, _, rfl, ?_⟩
      rw [store_isConflict]
      exact iff_of_false (by simp) (by rintro (h | h); exacts [hnf h.1, hnf h.1.1])
    · rw [hc]
      refine .inr ⟨fun h => h.1.2.1 hslot, _, _, rfl, ?_⟩
      rw [store_isConflict]
      exact iff_of_true rfl (.inl ⟨hf, hslot⟩)
    · rw [hc]
      refine .inr ⟨fun h => h.1.2.2 hid, _, _, rfl, ?_⟩
      rw [store_isConflict]
      exact iff_of_false (by simp) (by rintro (h | h); exacts [hslot h.2, h.1.2.2 hid])
    · rw [hc]
      simp only
      have htables := Store.createBackupJob_ok hc
      have hkeys : s₁.tasks.map TaskRow.keys = s.tasks.map TaskRow.keys := by rw [htables]
      have hbatches : s₁.batches = s.batches := by rw [htables]
      -- whether the job can be failed again or not, the error is that of the task
      have hfails : ∀ e, ∃ s', (match s₁.failBackupJob tenant ("backup" ++ "-" ++ y)
          "QUEUE_PERSIST_FAILED" (draw.now 3) with
          | .ok s₂ => ((.error (.store e), s₂) : Except GoError (BackupJob × BackupTask) × Store)
          | .error _ => (.error (.store e), s₁)) = (.error (.store e), s') := by
        intro e
        cases s₁.failBackupJob tenant ("backup" ++ "-" ++ y) "QUEUE_PERSIST_FAILED" (draw.now 3) with
        | ok s₂ => exact ⟨s₂, rfl⟩
        | error _ => exact ⟨s₁, rfl⟩
      -- the task, in a database that differs in its jobs only
      rcases addTask_cases s₁ (drawnTask tenant batch instance_ terms draw x y) (draw.now 2) with
        ⟨hnt, m, ha⟩ | ⟨ht, htaken, ha⟩ | ⟨ht, htaken, hb, ha⟩ | ⟨ht, htaken, hb, s₂, ha⟩
      · obtain ⟨s', hs'⟩ := hfails (.invalid m)
        rw [ha]
        refine .inr ⟨fun h => hnt h.2.1, _, s', hs', ?_⟩
        rw [store_isConflict]
        exact iff_of_false (by simp) (by rintro (h | h); exacts [hslot h.2, hnt h.2.1])
      · obtain ⟨s', hs'⟩ := hfails .conflict
        rw [taskTaken_congr hkeys] at htaken
        rw [ha]
        refine .inr ⟨fun h => h.2.2.1 htaken, _, s', hs', ?_⟩
        rw [store_isConflict]
        exact iff_of_true rfl (.inr ⟨⟨hf, hslot, hid⟩, ht, htaken⟩)
      · obtain ⟨s', hs'⟩ := hfails .foreignKey
        rw [taskTaken_congr hkeys] at htaken
        rw [hbatches] at hb
        rw [ha]
        refine .inr ⟨fun h => hb h.2.2.2, _, s', hs', ?_⟩
        rw [store_isConflict]
        exact iff_of_false (by simp) (by rintro (h | h); exacts [hslot h.2, htaken h.2.2])
      · rw [taskTaken_congr hkeys] at htaken
        rw [hbatches] at hb
        rw [ha]
        exact .inl ⟨⟨⟨hf, hslot, hid⟩, ht, htaken, hb⟩, _, _, rfl⟩
  · have hnone : ∀ x y i, ¬EnqueueInputs s tenant instance_ draw x y i := by
      intro x y i h
      exact hin ⟨x, y, i, h⟩
    obtain ⟨e, he, hnc⟩ := enqueueInstance_noInputs batch terms hnone
    refine .inr ⟨?_, e, s, he, ?_⟩
    · rintro ⟨x, y, i, h, -⟩
      exact hnone x y i h
    · rw [hnc]
      refine iff_of_false (by simp) ?_
      rintro ⟨x, y, i, h, -⟩
      exact hnone x y i h

theorem recordSkipped_isOk (s : Store) (tenant : String) (batch : BackupBatch)
    (instance_ : ApplicationInstance) (code : String) (scope : BackupScope)
    (validation : Option PlanPauseReason) (draw : Draw) :
    (∃ s', recordSkipped s tenant batch instance_ code scope validation draw = .ok s') ↔
      Records s tenant batch instance_ code scope validation draw := by
  unfold recordSkipped Records
  cases hx : draw.taskId with
  | none =>
    constructor
    · rintro ⟨s', hs'⟩
      cases hs'
    · rintro ⟨x, hx', -⟩
      cases hx'
  | some x =>
    simp only [randomID, Option.some.injEq, exists_eq_left']
    unfold TaskFits
    rcases addTask_cases s (skippedTask tenant ("task" ++ "-" ++ x) batch instance_ code scope
      validation (draw.now 0)) (draw.now 1) with
      ⟨hnt, m, ha⟩ | ⟨ht, htaken, ha⟩ | ⟨ht, htaken, hb, ha⟩ | ⟨ht, htaken, hb, s', ha⟩
    · rw [ha]
      exact iff_of_false (by rintro ⟨s', hs'⟩; cases hs') (fun h => hnt h.1)
    · rw [ha]
      exact iff_of_false (by rintro ⟨s', hs'⟩; cases hs') (fun h => h.2.1 htaken)
    · rw [ha]
      exact iff_of_false (by rintro ⟨s', hs'⟩; cases hs') (fun h => hb h.2.2)
    · rw [ha]
      exact iff_of_true ⟨s', rfl⟩ ⟨ht, htaken, hb⟩

/-! ## The first task of a batch -/

/-- The body of the loop of `RunPlan` adds a task for the instance. -/
def Lands (s : Store) (tenant : String) (plan : BackupPlan) (batch : BackupBatch)
    (found : PlanInstances) (instance_ : ApplicationInstance) (draw skip : Draw) : Prop :=
  Enqueues s tenant batch instance_ (planTerms plan found instance_.deployId) draw ∨
    (Conflicts s tenant batch instance_ (planTerms plan found instance_.deployId) draw ∧
      Records s tenant batch instance_ "INSTANCE_ALREADY_QUEUED" (found.scopes instance_.deployId)
        none skip)

theorem enqueueOrSkip_cases (s : Store) (tenant : String) (plan : BackupPlan) (batch : BackupBatch)
    (found : PlanInstances) (instance_ : ApplicationInstance) (draw skip : Draw) :
    (Lands s tenant plan batch found instance_ draw skip ∧
      ∃ s', enqueueOrSkip s tenant plan batch found instance_ draw skip = (.ok (), s')) ∨
    (¬Lands s tenant plan batch found instance_ draw skip ∧
      ∃ e s', enqueueOrSkip s tenant plan batch found instance_ draw skip = (.error e, s') ∧
        s'.tasks = s.tasks ∧ s'.batches = s.batches) := by
  unfold enqueueOrSkip Lands
  rcases enqueueInstance_cases s tenant batch instance_ (planTerms plan found instance_.deployId) draw
    with ⟨henq, out, s₁, he⟩ | ⟨henq, e, s₁, he, hconf⟩
  · rw [he]
    exact .inl ⟨.inl henq, s₁, rfl⟩
  · rw [he]
    simp only
    obtain ⟨jobs, htables⟩ := enqueueInstance_error_tables he
    have htasks : s₁.tasks = s.tasks := by rw [htables]
    have hbatches : s₁.batches = s.batches := by rw [htables]
    by_cases hc : e.isConflict = true
    · rw [if_pos hc]
      have hrec := recordSkipped_isOk s₁ tenant batch instance_ "INSTANCE_ALREADY_QUEUED"
        (found.scopes instance_.deployId) none skip
      -- the skipped task is judged by tables the failed enqueue did not write
      have hsame : Records s₁ tenant batch instance_ "INSTANCE_ALREADY_QUEUED"
          (found.scopes instance_.deployId) none skip ↔
          Records s tenant batch instance_ "INSTANCE_ALREADY_QUEUED"
            (found.scopes instance_.deployId) none skip := by
        unfold Records
        simp only [taskFits_congr (congrArg (List.map TaskRow.keys) htasks) hbatches]
      cases hr : recordSkipped s₁ tenant batch instance_ "INSTANCE_ALREADY_QUEUED"
          (found.scopes instance_.deployId) none skip with
      | ok s₂ => exact .inl ⟨.inr ⟨hconf.mp hc, hsame.mp (hrec.mp ⟨s₂, hr⟩)⟩, s₂, rfl⟩
      | error e' =>
        refine .inr ⟨?_, e', s₁, rfl, htasks, hbatches⟩
        rintro (h | ⟨-, h⟩)
        · exact henq h
        · obtain ⟨s₂, hs₂⟩ := hrec.mpr (hsame.mpr h)
          rw [hs₂] at hr
          cases hr
    · rw [if_neg hc]
      refine .inr ⟨?_, e, s₁, rfl, htasks, hbatches⟩
      rintro (h | ⟨h, -⟩)
      · exact henq h
      · exact hc (hconf.mpr h)

/-- Tasks are added and none is taken away. -/
def Grows (s s' : Store) : Prop := ∀ t ∈ s.tasks, t ∈ s'.tasks

theorem enqueueOrSkip_grows {s s' : Store} {tenant : String} {plan : BackupPlan}
    {batch : BackupBatch} {found : PlanInstances} {instance_ : ApplicationInstance}
    {draw skip : Draw} {out : Except GoError Unit}
    (h : enqueueOrSkip s tenant plan batch found instance_ draw skip = (out, s')) : Grows s s' := by
  intro t ht
  cases out with
  | ok u =>
    obtain ⟨t', htasks, -⟩ := enqueueOrSkip_adds h
    rw [htasks]
    exact List.mem_append_left _ ht
  | error e =>
    rcases enqueueOrSkip_cases s tenant plan batch found instance_ draw skip with
      ⟨-, s₁, hok⟩ | ⟨-, e', s₁, herr, htasks, -⟩
    · rw [hok] at h
      cases h
    · rw [herr] at h
      cases h
      rw [htasks]
      exact ht

theorem enqueueAll_grows {tenant : String} {plan : BackupPlan} {batch : BackupBatch}
    {found : PlanInstances} {draw skip : Nat → Draw} {out : Except GoError Unit}
    (items : List ApplicationInstance) : ∀ {s s' : Store} (n : Nat),
      enqueueAll s tenant plan batch found draw skip n items = (out, s') → Grows s s' := by
  induction items with
  | nil =>
    intro s s' n h t ht
    cases h
    exact ht
  | cons i rest ih =>
    intro s s' n h
    unfold enqueueAll at h
    split at h
    · next e s₁ hone =>
      cases h
      exact enqueueOrSkip_grows hone
    · next s₁ hone =>
      intro t ht
      exact ih (n + 1) h t (enqueueOrSkip_grows hone t ht)

theorem recordPaused_grows {tenant : String} {batch : BackupBatch} {found : PlanInstances}
    {reason : PlanPauseReason} {draw : Nat → Draw} {out : Except GoError Unit}
    (items : List ApplicationInstance) : ∀ {s s' : Store} (n : Nat),
      recordPaused s tenant batch found reason draw n items = (out, s') → Grows s s' := by
  induction items with
  | nil =>
    intro s s' n h t ht
    cases h
    exact ht
  | cons i rest ih =>
    intro s s' n h
    unfold recordPaused at h
    simp only at h
    split at h
    · cases h
      exact fun t ht => ht
    · next s₁ hone =>
      obtain ⟨id, -, hadd⟩ := recordSkipped_ok hone
      intro t ht
      apply ih (n + 1) h
      rw [Store.addTask_ok hadd]
      exact List.mem_append_left _ ht

/-- The code a paused plan's instance is skipped with. -/
def pausedCode (reason : PlanPauseReason) (affected : ApplicationInstance) : String :=
  if affected.deployId = reason.deployId then reason.code else "PLAN_PAUSED_SCOPE_INVALID"

/-- The first task `RunPlan` tries to add to a new batch is taken: that of the first
target the library has, waiting or for a conflict skipped, or skipped for a scope
that is not valid any more. -/
def FirstTaskLands (s : Store) (tenant : String) (plan : BackupPlan) (batch : BackupBatch)
    (draws : Draws) : Prop :=
  ∃ found first rest, planInstances s tenant plan = .ok found ∧ found.items = first :: rest ∧
    ((∃ bad err failure, firstInvalid s tenant found.scopes draws.scan found.items = some (bad, err) ∧
        err.scopeFailure = some failure ∧
        Records s tenant batch first
          (pausedCode (pauseReason bad failure (found.scopes bad.deployId) draws.pausedAt) first)
          (found.scopes first.deployId)
          (some (pauseReason bad failure (found.scopes bad.deployId) draws.pausedAt))
          (draws.skip 0)) ∨
      (firstInvalid s tenant found.scopes draws.scan found.items = none ∧
        Lands s tenant plan batch found first (draws.enqueue 0) (draws.skip 0)))

/-- The batch has a task. -/
def HasTask (s : Store) (tenant batchId : String) : Prop :=
  ∃ t ∈ s.tasks, inBatch tenant batchId t = true

theorem hasTask_of_adds {s s₁ s' : Store} {tenant batchId deployId : String} {t : TaskRow}
    (ht : s₁.tasks = s.tasks ++ [t]) (he : ExpandsTo tenant batchId deployId t) (hg : Grows s₁ s') :
    HasTask s' tenant batchId := by
  refine ⟨t, hg t ?_, by simp [inBatch, he.tenant, he.batch]⟩
  rw [ht]
  exact List.mem_append_right _ (List.mem_singleton.mpr rfl)

theorem pausedCode_ne (bad : ApplicationInstance) (failure : String × String) (scope : BackupScope) (now : Time)
    (affected : ApplicationInstance) : pausedCode (pauseReason bad failure scope now) affected ≠ "" := by
  unfold pausedCode
  by_cases hd : affected.deployId = (pauseReason bad failure scope now).deployId
  · rw [if_pos hd]
    exact (by decide : "BACKUP_SCOPE_PATH_MISSING" ≠ "")
  · rw [if_neg hd]
    decide

/-- Where a scope has failed, the first task is a skipped one. -/
theorem firstTaskLands_paused {s : Store} {tenant : String} {plan : BackupPlan} {batch : BackupBatch} {draws : Draws}
    {found : PlanInstances} {bad : ApplicationInstance} {err : GoError} {failure : String × String}
    (hfound : planInstances s tenant plan = .ok found)
    (hbad : firstInvalid s tenant found.scopes draws.scan found.items = some (bad, err))
    (hfail : err.scopeFailure = some failure) :
    FirstTaskLands s tenant plan batch draws ↔ ∃ first rest, found.items = first :: rest ∧
      Records s tenant batch first
        (pausedCode (pauseReason bad failure (found.scopes bad.deployId) draws.pausedAt) first)
        (found.scopes first.deployId) (some (pauseReason bad failure (found.scopes bad.deployId) draws.pausedAt))
        (draws.skip 0) := by
  constructor
  · rintro ⟨found', first, rest, hf, hi, ⟨i', err', failure', hb, hsf, hrec⟩ | ⟨hb, -⟩⟩
    · rw [hfound] at hf
      cases hf
      rw [hbad] at hb
      cases hb
      rw [hfail] at hsf
      cases hsf
      exact ⟨first, rest, hi, hrec⟩
    · rw [hfound] at hf
      cases hf
      rw [hbad] at hb
      cases hb
  · rintro ⟨first, rest, hi, hrec⟩
    exact ⟨found, first, rest, hfound, hi, .inl ⟨bad, err, failure, hbad, hfail, hrec⟩⟩

/-- Where every scope holds, it is a waiting one, or a skipped one for a conflict. -/
theorem firstTaskLands_listed {s : Store} {tenant : String} {plan : BackupPlan} {batch : BackupBatch} {draws : Draws}
    {found : PlanInstances} (hfound : planInstances s tenant plan = .ok found)
    (hbad : firstInvalid s tenant found.scopes draws.scan found.items = none) :
    FirstTaskLands s tenant plan batch draws ↔ ∃ first rest, found.items = first :: rest ∧
      Lands s tenant plan batch found first (draws.enqueue 0) (draws.skip 0) := by
  constructor
  · rintro ⟨found', first, rest, hf, hi, ⟨i', err', failure', hb, -⟩ | ⟨-, hl⟩⟩
    · rw [hfound] at hf
      cases hf
      rw [hbad] at hb
      cases hb
    · rw [hfound] at hf
      cases hf
      exact ⟨first, rest, hi, hl⟩
  · rintro ⟨first, rest, hi, hl⟩
    exact ⟨found, first, rest, hfound, hi, .inr ⟨hbad, hl⟩⟩

/-- A batch of skipped tasks that fails, in a database `s₁` with the tasks and batches of `s`. -/
theorem recordPaused_error {s s₁ s' : Store} {tenant : String} {batch : BackupBatch} {found : PlanInstances}
    {reason : PlanPauseReason} {draw : Nat → Draw} {e : GoError} {items : List ApplicationInstance}
    (hkeys : s₁.tasks.map TaskRow.keys = s.tasks.map TaskRow.keys) (hbatches : s₁.batches = s.batches)
    (hcode : ∀ affected, pausedCode reason affected ≠ "")
    (h : recordPaused s₁ tenant batch found reason draw 0 items = (.error e, s')) :
    ((∃ first rest, items = first :: rest ∧ Records s tenant batch first (pausedCode reason first)
        (found.scopes first.deployId) (some reason) (draw 0)) → HasTask s' tenant batch.id) ∧
    (¬(∃ first rest, items = first :: rest ∧ Records s tenant batch first (pausedCode reason first)
        (found.scopes first.deployId) (some reason) (draw 0)) →
      s'.tasks.map TaskRow.keys = s.tasks.map TaskRow.keys ∧ s'.batches = s.batches) := by
  cases items with
  | nil => cases h
  | cons first rest =>
    unfold recordPaused at h
    simp only at h
    have hrec := recordSkipped_isOk s₁ tenant batch first (pausedCode reason first) (found.scopes first.deployId)
      (some reason) (draw 0)
    have hsame : Records s₁ tenant batch first (pausedCode reason first) (found.scopes first.deployId) (some reason)
        (draw 0) ↔ Records s tenant batch first (pausedCode reason first) (found.scopes first.deployId) (some reason)
          (draw 0) := by
      unfold Records
      simp only [taskFits_congr hkeys hbatches]
    split at h
    · next e' hone =>
      cases h
      refine ⟨?_, fun _ => ⟨hkeys, hbatches⟩⟩
      rintro ⟨first', rest', hi, hr⟩
      cases hi
      obtain ⟨s₂, hs₂⟩ := hrec.mpr (hsame.mpr hr)
      have hone' : recordSkipped s₁ tenant batch first (pausedCode reason first) (found.scopes first.deployId)
          (some reason) (draw 0) = .error e := hone
      rw [hs₂] at hone'
      cases hone'
    · next s₂ hone =>
      obtain ⟨t, ht, he⟩ := recordSkipped_adds (hcode first) hone
      refine ⟨fun _ => hasTask_of_adds ht he (recordPaused_grows rest 1 h), fun hn => ?_⟩
      exact absurd ⟨first, rest, rfl, hsame.mp (hrec.mp ⟨s₂, hone⟩)⟩ hn

theorem enqueueAll_error {s s' : Store} {tenant : String} {plan : BackupPlan} {batch : BackupBatch}
    {found : PlanInstances} {draw skip : Nat → Draw} {e : GoError} {items : List ApplicationInstance}
    (h : enqueueAll s tenant plan batch found draw skip 0 items = (.error e, s')) :
    ((∃ first rest, items = first :: rest ∧ Lands s tenant plan batch found first (draw 0) (skip 0)) →
      HasTask s' tenant batch.id) ∧
    (¬(∃ first rest, items = first :: rest ∧ Lands s tenant plan batch found first (draw 0) (skip 0)) →
      s'.tasks.map TaskRow.keys = s.tasks.map TaskRow.keys ∧ s'.batches = s.batches) := by
  cases items with
  | nil => cases h
  | cons first rest =>
    unfold enqueueAll at h
    obtain ⟨hl, s₁, hone⟩ | ⟨hl, e₁, s₁, hone, htasks, hbatches⟩ :=
      enqueueOrSkip_cases s tenant plan batch found first (draw 0) (skip 0)
    · rw [hone] at h
      obtain ⟨t, ht, he⟩ := enqueueOrSkip_adds hone
      refine ⟨fun _ => hasTask_of_adds ht he (enqueueAll_grows rest 1 h), fun hn => ?_⟩
      exact absurd ⟨first, rest, rfl, hl⟩ hn
    · rw [hone] at h
      cases h
      refine ⟨?_, fun _ => ⟨by rw [htasks], hbatches⟩⟩
      rintro ⟨first', rest', hi, hl'⟩
      cases hi
      exact absurd hl' hl

/-- A failed expansion of a new batch leaves it with a task when its first one was
taken, and otherwise leaves tasks of other batches and the batches as they were. -/
theorem expandPlan_error {s s' : Store} {tenant : String} {plan : BackupPlan} {batch : BackupBatch}
    {draws : Draws} {e : GoError} (h : expandPlan s tenant plan batch draws = (.error e, s')) :
    (FirstTaskLands s tenant plan batch draws → HasTask s' tenant batch.id) ∧
    (¬FirstTaskLands s tenant plan batch draws →
      s'.tasks.map TaskRow.keys = s.tasks.map TaskRow.keys ∧ s'.batches = s.batches) := by
  unfold expandPlan at h
  cases hfound : planInstances s tenant plan with
  | error e₀ =>
    rw [hfound] at h
    cases h
    refine ⟨?_, fun _ => ⟨rfl, rfl⟩⟩
    rintro ⟨found, first, rest, hf, -⟩
    rw [hfound] at hf
    cases hf
  | ok found =>
    rw [hfound] at h
    simp only at h
    cases hbad : firstInvalid s tenant found.scopes draws.scan found.items with
    | some bad =>
      obtain ⟨i, err⟩ := bad
      rw [hbad] at h
      simp only at h
      cases hfail : err.scopeFailure with
      | none =>
        -- the error ends the call before anything is written
        rw [hfail] at h
        cases h
        refine ⟨?_, fun _ => ⟨rfl, rfl⟩⟩
        rintro ⟨found', first, rest, hf, -, ⟨i', err', failure, hb, hsf, -⟩ | ⟨hb, -⟩⟩
        · rw [hfound] at hf
          cases hf
          rw [hbad] at hb
          cases hb
          rw [hfail] at hsf
          cases hsf
        · rw [hfound] at hf
          cases hf
          rw [hbad] at hb
          cases hb
      | some failure =>
        rw [hfail] at h
        simp only at h
        obtain ⟨s₁, hpause⟩ : ∃ s₁, s.pausePlanForScope tenant plan.id
            (pauseReason i failure (found.scopes i.deployId) draws.pausedAt) = .ok s₁ :=
          Store.endWaiting_total _ _ _ _ _ _ _
        rw [hpause] at h
        obtain ⟨plans, htables⟩ := Store.pausePlanForScope_ok hpause
        -- the pause ends waiting tasks, which keep their keys
        have hkeys : s₁.tasks.map TaskRow.keys = s.tasks.map TaskRow.keys := by
          rw [htables]
          apply map_updateWhere
          intro t
          rfl
        have hbatches : s₁.batches = s.batches := by rw [htables]
        rw [firstTaskLands_paused hfound hbad hfail]
        exact recordPaused_error hkeys hbatches (pausedCode_ne _ _ _ _) h
    | none =>
      rw [hbad] at h
      rw [firstTaskLands_listed hfound hbad]
      exact enqueueAll_error h

/-! ## No orphan jobs -/

/-- What an expansion keeps of the database it began with: its new active jobs have
new tasks, no id is gone, and the batches are the same. -/
structure Sound (s s' : Store) : Prop where
  jobs : NoOrphanJobs s s'
  jobIds : ∀ id ∈ s.jobs.map (·.id), id ∈ s'.jobs.map (·.id)
  taskIds : ∀ id ∈ s.tasks.map (·.id), id ∈ s'.tasks.map (·.id)
  batches : s'.batches.map BatchRow.keys = s.batches.map BatchRow.keys

theorem Sound.refl (s : Store) : Sound s s := by
  refine ⟨?_, fun _ h => h, fun _ h => h, rfl⟩
  intro j hj hnew
  exact absurd (List.mem_map_of_mem hj) hnew

/-- A step that adds tasks, and makes no job active, keeps it. -/
theorem Sound.step {s s₁ s₂ : Store} (h : Sound s s₁)
    (hjobs : ∀ j ∈ s₂.jobs, j.isActive = true → j ∈ s₁.jobs)
    (hjobIds : ∀ id ∈ s₁.jobs.map (·.id), id ∈ s₂.jobs.map (·.id))
    (htasks : ∀ k ∈ s₁.tasks.map TaskRow.keys, k ∈ s₂.tasks.map TaskRow.keys)
    (hbatches : s₂.batches.map BatchRow.keys = s₁.batches.map BatchRow.keys) : Sound s s₂ := by
  have hids : ∀ id ∈ s₁.tasks.map (·.id), id ∈ s₂.tasks.map (·.id) := by
    intro id hid
    obtain ⟨t, ht, rfl⟩ := List.mem_map.mp hid
    obtain ⟨t', ht', hk⟩ := List.mem_map.mp (htasks _ (List.mem_map_of_mem ht))
    exact List.mem_map.mpr ⟨t', ht', (TaskRow.keys_eq.mp hk).1⟩
  refine ⟨?_, fun id hid => hjobIds id (h.jobIds id hid), fun id hid => hids id (h.taskIds id hid),
    hbatches.trans h.batches⟩
  intro j hj hnew hact
  obtain ⟨t, ht, hid, hjob⟩ := h.jobs j (hjobs j hj hact) hnew hact
  obtain ⟨t', ht', hk⟩ := List.mem_map.mp (htasks _ (List.mem_map_of_mem ht))
  obtain ⟨hid', -, -, -, hjob', -⟩ := TaskRow.keys_eq.mp hk
  exact ⟨t', ht', hid' ▸ hid, hjob'.trans hjob⟩

theorem Sound.addTask {s s₁ s₂ : Store} {task : BackupTask} {now : Time} (h : Sound s s₁)
    (hadd : s₁.addTask task now = .ok s₂) : Sound s s₂ := by
  have htables := Store.addTask_ok hadd
  have hjobs : s₂.jobs = s₁.jobs := by rw [htables]
  refine h.step ?_ ?_ ?_ (Store.addTask_batches hadd)
  · intro j hj _
    rw [hjobs] at hj
    exact hj
  · intro id hid
    rw [hjobs]
    exact hid
  · intro k hk
    rw [htables]
    simp only [List.map_append, List.mem_append]
    exact .inl hk

/-- A job and its task, or a job failed again. -/
theorem Sound.enqueueInstance {s s₁ s₂ : Store} {tenant : String} {batch : BackupBatch}
    {instance_ : ApplicationInstance} {terms : Terms} {draw : Draw}
    {out : Except GoError (BackupJob × BackupTask)} (h : Sound s s₁)
    (he : enqueueInstance s₁ tenant batch instance_ terms draw = (out, s₂)) : Sound s s₂ := by
  cases out with
  | ok out =>
    obtain ⟨job, task⟩ := out
    obtain ⟨s₃, taskId, -, hjob, rfl, hadd⟩ := enqueueInstance_ok he
    have hcreated := createJob_tables hjob
    have hadded := Store.addTask_ok hadd
    have hjobs : s₂.jobs = s₁.jobs ++ [jobRow job] := by rw [hadded, hcreated]
    have htasks : s₂.tasks = s₁.tasks ++
        [taskRow (queuedTask tenant taskId job.id batch instance_ terms (draw.now 1))] := by
      rw [hadded, hcreated]
    have hbatches : s₂.batches.map BatchRow.keys = s₁.batches.map BatchRow.keys := by
      rw [Store.addTask_batches hadd, hcreated]
    refine ⟨?_, ?_, ?_, hbatches.trans h.batches⟩
    · intro j hj hnew hact
      rw [hjobs] at hj
      rcases List.mem_append.mp hj with hj | hj
      · obtain ⟨t, ht, hid, hjid⟩ := h.jobs j hj hnew hact
        refine ⟨t, ?_, hid, hjid⟩
        rw [htasks]
        exact List.mem_append_left _ ht
      · obtain rfl := List.mem_singleton.mp hj
        refine ⟨_, htasks ▸ List.mem_append_right _ (List.mem_singleton.mpr rfl), ?_, rfl⟩
        -- the id of an added task was on no task before
        intro hold
        have hpk := s₂.tasks_pk
        rw [htasks, List.map_append] at hpk
        exact List.disjoint_of_nodup_append hpk (h.taskIds _ hold) (by simp)
    · intro id hid
      rw [hjobs, List.map_append]
      exact List.mem_append_left _ (h.jobIds id hid)
    · intro id hid
      rw [htasks, List.map_append]
      exact List.mem_append_left _ (h.taskIds id hid)
  | error e =>
    rcases enqueueInstance_error he with rfl | ⟨s₃, job, taskId, hjob, hfail⟩
    · exact h
    · have hcreated := createJob_tables hjob
      have hjobs : s₃.jobs = s₁.jobs ++ [jobRow job] := by rw [hcreated]
      have hrow : jobRow job ∈ s₃.jobs := by
        rw [hjobs]
        exact List.mem_append_right _ (List.mem_singleton.mpr rfl)
      obtain ⟨i, x, -, -, -, rfl, -⟩ := createJob_ok hjob
      rcases hfail with hfail | ⟨rfl, e', hfail⟩
      · have hfailed := (Store.moveJob_ok hfail).2
        refine h.step ?_ ?_ ?_ (by rw [hfailed, hcreated])
        · intro j hj hact
          rw [hfailed] at hj
          rcases mem_updateWhere_cases hj with ⟨j₀, -, -, rfl⟩ | ⟨hj, hmiss⟩
          · simp [failedRow, JobRow.isActive, JobStatus.active] at hact
          · rw [hjobs] at hj
            rcases List.mem_append.mp hj with hj | hj
            · exact hj
            · obtain rfl := List.mem_singleton.mp hj
              simp [jobIn, jobRow, newJob, JobStatus.active] at hmiss
        · intro id hid
          have hids : s₂.jobs.map (·.id) = s₃.jobs.map (·.id) := by
            rw [hfailed]
            apply map_updateWhere
            intro j
            rfl
          rw [hids, hjobs, List.map_append]
          exact List.mem_append_left _ hid
        · intro k hk
          rw [hfailed, hcreated]
          exact hk
      · -- the job it has just created is there to be failed
        obtain ⟨s₄, hs₄⟩ := Store.failBackupJob_of_mem "QUEUE_PERSIST_FAILED" (draw.now 3) hrow rfl rfl rfl
        exact absurd (hfail.symm.trans hs₄) (by simp)

theorem Sound.enqueueOrSkip {s s₁ s₂ : Store} {tenant : String} {plan : BackupPlan}
    {batch : BackupBatch} {found : PlanInstances} {instance_ : ApplicationInstance}
    {draw skip : Draw} {out : Except GoError Unit} (h : Sound s s₁)
    (he : enqueueOrSkip s₁ tenant plan batch found instance_ draw skip = (out, s₂)) :
    Sound s s₂ := by
  unfold Queue.enqueueOrSkip at he
  split at he
  · next hone =>
    cases he
    exact h.enqueueInstance hone
  · next e s₃ hone =>
    have h₃ := h.enqueueInstance hone
    split at he
    · split at he
      · cases he
        exact h₃
      · next s₄ hskip =>
        cases he
        obtain ⟨id, -, hadd⟩ := recordSkipped_ok hskip
        exact h₃.addTask hadd
    · cases he
      exact h₃

theorem Sound.enqueueAll {s : Store} {tenant : String} {plan : BackupPlan} {batch : BackupBatch}
    {found : PlanInstances} {draw skip : Nat → Draw} {out : Except GoError Unit}
    (items : List ApplicationInstance) : ∀ {s₁ s₂ : Store} (n : Nat), Sound s s₁ →
      enqueueAll s₁ tenant plan batch found draw skip n items = (out, s₂) → Sound s s₂ := by
  induction items with
  | nil =>
    intro s₁ s₂ n h he
    cases he
    exact h
  | cons i rest ih =>
    intro s₁ s₂ n h he
    unfold Queue.enqueueAll at he
    split at he
    · next e s₃ hone =>
      cases he
      exact h.enqueueOrSkip hone
    · next s₃ hone => exact ih (n + 1) (h.enqueueOrSkip hone) he

theorem Sound.recordPaused {s : Store} {tenant : String} {batch : BackupBatch}
    {found : PlanInstances} {reason : PlanPauseReason} {draw : Nat → Draw}
    {out : Except GoError Unit} (items : List ApplicationInstance) :
    ∀ {s₁ s₂ : Store} (n : Nat), Sound s s₁ →
      recordPaused s₁ tenant batch found reason draw n items = (out, s₂) → Sound s s₂ := by
  induction items with
  | nil =>
    intro s₁ s₂ n h he
    cases he
    exact h
  | cons i rest ih =>
    intro s₁ s₂ n h he
    unfold Queue.recordPaused at he
    simp only at he
    split at he
    · cases he
      exact h
    · next s₃ hone =>
      obtain ⟨id, -, hadd⟩ := recordSkipped_ok hone
      exact ih (n + 1) (h.addTask hadd) he

theorem Sound.expandPlan {s s₁ s₂ : Store} {tenant : String} {plan : BackupPlan}
    {batch : BackupBatch} {draws : Draws} {out : Except GoError Unit} (h : Sound s s₁)
    (he : expandPlan s₁ tenant plan batch draws = (out, s₂)) : Sound s s₂ := by
  unfold Queue.expandPlan at he
  split at he
  · cases he
    exact h
  · next found hfound =>
    split at he
    · split at he
      · cases he
        exact h
      · simp only at he
        split at he
        · cases he
          exact h
        · next s₃ hpause =>
          obtain ⟨plans, htables⟩ := Store.pausePlanForScope_ok hpause
          refine Sound.recordPaused found.items 0 (h.step ?_ ?_ ?_ (by rw [htables])) he
          · intro j hj hact
            rw [htables] at hj
            rcases mem_updateWhere_cases hj with ⟨j₀, -, -, rfl⟩ | ⟨hj, -⟩
            · simp [endWaitingJob, JobRow.isActive, JobStatus.active] at hact
            · exact hj
          · intro id hid
            have hids : s₃.jobs.map (·.id) = s₁.jobs.map (·.id) := by
              rw [htables]
              apply map_updateWhere
              intro j
              rfl
            rw [hids]
            exact hid
          · intro k hk
            have hkeys : s₃.tasks.map TaskRow.keys = s₁.tasks.map TaskRow.keys := by
              rw [htables]
              apply map_updateWhere
              intro t
              rfl
            rw [hkeys]
            exact hk
    · exact Sound.enqueueAll found.items 0 h he

/-! ## The call -/

theorem createBatch_adds {s s₁ : Store} {batch : BackupBatch} (hc : s.createBatch batch = .ok s₁) :
    s₁.toTables = { s.toTables with batches := s.batches ++ [batchRow batch] } ∧
      batch.id ∉ s.batches.map (·.id) := by
  have htables := Store.createBatch_ok hc
  refine ⟨htables, ?_⟩
  have hpk := s₁.batches_pk
  rw [htables, List.map_append] at hpk
  intro hold
  exact List.disjoint_of_nodup_append hpk hold (by simp [batchRow])

/-- A batch the call has created, and the database its expansion left. -/
theorem orphans_iff {s s₁ s₂ : Store} {batch : BackupBatch} (hc : s.createBatch batch = .ok s₁)
    (hqueued : batch.status = .queued) (hsound : Sound s₁ s₂) (lands : Prop)
    (hlands : lands → HasTask s₂ batch.tenantUid batch.id)
    (hmisses : ¬lands → s₂.tasks.map TaskRow.keys = s₁.tasks.map TaskRow.keys ∧
      s₂.batches = s₁.batches) :
    (NoOrphanJobs s s₂ ∧ NoOrphanBatches s s₂) ↔ lands := by
  obtain ⟨htables, hfresh⟩ := createBatch_adds hc
  have hjobs : NoOrphanJobs s s₂ := by
    intro j hj hnew hact
    have h := hsound.jobs j hj
    rw [htables] at h
    exact h hnew hact
  constructor
  · intro hnone
    by_contra hn
    obtain ⟨-, hbatches⟩ := hnone
    obtain ⟨hkeys, hsame⟩ := hmisses hn
    have hin : batchRow batch ∈ s₂.batches := by
      rw [hsame, htables]
      exact List.mem_append_right _ (List.mem_singleton.mpr rfl)
    obtain ⟨t, ht, hown⟩ := hbatches _ hin hfresh (.inl hqueued)
    -- the task was there before the batch was
    obtain ⟨t₁, ht₁, hk⟩ := List.mem_map.mp (hkeys ▸ List.mem_map_of_mem ht)
    rw [htables] at ht₁
    have hbatch : t.batchId = batch.id := (by simp only [inBatch, Bool.and_eq_true, beq_iff_eq] at hown; exact hown.2)
    apply hfresh
    rw [← hbatch, ← (TaskRow.keys_eq.mp hk).2.2.1]
    exact s.tasks_batch t₁ ht₁
  · intro hl
    refine ⟨hjobs, ?_⟩
    intro b hb hnew hopen
    have hk : b.keys ∈ s₁.batches.map BatchRow.keys := hsound.batches ▸ List.mem_map_of_mem hb
    obtain ⟨b₁, hb₁, hkeys⟩ := List.mem_map.mp hk
    obtain ⟨hid, hten, -, -⟩ := BatchRow.keys_eq.mp hkeys
    rw [htables] at hb₁
    rcases List.mem_append.mp hb₁ with hold | hold
    · exact absurd (hid ▸ List.mem_map_of_mem hold) hnew
    · obtain rfl := List.mem_singleton.mp hold
      rw [← hid, ← hten]
      exact hlands hl

/-- The batch of a manual backup is created: the library has the instance, an id is
drawn, and the store takes the batch. -/
def ManualBatchCreated (s : Store) (tenant deployId : String) (draws : Draws) : Prop :=
  ∃ i hex s₁, s.instance tenant deployId = .ok i ∧ draws.batchId = some hex ∧
    s.createBatch (manualBatch tenant ("batch" ++ "-" ++ hex) draws.now) = .ok s₁

/-- The batch of a plan, if it is created, gets its first task. -/
def PlanBatchLands (s : Store) (tenant : String) (plan : BackupPlan) (trigger : String)
    (scheduledAt : Time) (draws : Draws) : Prop :=
  ∀ hex s₁, draws.batchId = some hex →
    s.createBatch (planBatch tenant ("batch" ++ "-" ++ hex) plan trigger scheduledAt draws.now) =
      .ok s₁ →
    FirstTaskLands s₁ tenant plan
      (planBatch tenant ("batch" ++ "-" ++ hex) plan trigger scheduledAt draws.now) draws

theorem noOrphans_refl (s : Store) : NoOrphanJobs s s ∧ NoOrphanBatches s s := by
  refine ⟨(Sound.refl s).jobs, ?_⟩
  intro b hb hnew
  exact absurd (List.mem_map_of_mem hb) hnew

theorem startManual_orphans {s s' : Store} {tenant deployId subject : String} {shared : Bool}
    {role : Role} {draws : Draws} {e : GoError}
    (h : startManual s tenant deployId shared subject role draws = (.error e, s')) :
    (NoOrphanJobs s s' ∧ NoOrphanBatches s s') ↔ ¬ManualBatchCreated s tenant deployId draws := by
  unfold startManual at h
  cases hi : s.instance tenant deployId with
  | error e₀ =>
    rw [hi] at h
    cases h
    refine iff_of_true (noOrphans_refl s) ?_
    intro hcreated
    obtain ⟨i, hex, s₁, hi', -⟩ := hcreated
    rw [hi] at hi'
    cases hi'
  | ok i =>
    rw [hi] at h
    cases hx : draws.batchId with
    | none =>
      rw [hx] at h
      cases h
      refine iff_of_true (noOrphans_refl s) ?_
      intro hcreated
      obtain ⟨i, hex, s₁, -, hx', -⟩ := hcreated
      rw [hx] at hx'
      cases hx'
    | some hex =>
      rw [hx] at h
      simp only [randomID] at h
      cases hc : s.createBatch (manualBatch tenant ("batch" ++ "-" ++ hex) draws.now) with
      | error e₀ =>
        rw [hc] at h
        cases h
        refine iff_of_true (noOrphans_refl s) ?_
        intro hcreated
        obtain ⟨i, hex', s₁, -, hx', hc'⟩ := hcreated
        rw [hx] at hx'
        cases hx'
        rw [hc] at hc'
        cases hc'
      | ok s₁ =>
        rw [hc] at h
        simp only at h
        split at h
        · next e₂ s₂ hone =>
          cases h
          obtain ⟨jobs, htables⟩ := enqueueInstance_error_tables hone
          have hcreated : ManualBatchCreated s tenant deployId draws := ⟨i, hex, s₁, hi, hx, hc⟩
          rw [orphans_iff hc rfl ((Sound.refl s₁).enqueueInstance hone) False False.elim
            (fun _ => ⟨by rw [htables], by rw [htables]⟩)]
          exact iff_of_false id (fun hn => hn hcreated)
        · cases h

theorem runPlan_orphans {s s' : Store} {tenant trigger : String} {plan : BackupPlan}
    {scheduledAt : Time} {draws : Draws} {e : GoError}
    (h : runPlan s tenant plan trigger scheduledAt draws = (.error e, s')) :
    (NoOrphanJobs s s' ∧ NoOrphanBatches s s') ↔
      PlanBatchLands s tenant plan trigger scheduledAt draws := by
  unfold runPlan at h
  cases hx : draws.batchId with
  | none =>
    rw [hx] at h
    cases h
    -- without a random id nothing is written
    refine iff_of_true (noOrphans_refl s) ?_
    intro hex s₁ hx'
    rw [hx] at hx'
    cases hx'
  | some hex =>
    rw [hx] at h
    simp only [randomID] at h
    cases hc : s.createBatch
        (planBatch tenant ("batch" ++ "-" ++ hex) plan trigger scheduledAt draws.now) with
    | error e₀ =>
      rw [hc] at h
      have hsame : s' = s := by
        cases e₀ <;> exact (congrArg Prod.snd h).symm
      subst hsame
      -- nor where the batch is refused
      refine iff_of_true (noOrphans_refl s') ?_
      intro hex' s₁ hx' hc'
      rw [hx] at hx'
      cases hx'
      rw [hc] at hc'
      cases hc'
    | ok s₁ =>
      rw [hc] at h
      simp only at h
      have hlands : PlanBatchLands s tenant plan trigger scheduledAt draws ↔
          FirstTaskLands s₁ tenant plan
            (planBatch tenant ("batch" ++ "-" ++ hex) plan trigger scheduledAt draws.now) draws := by
        constructor
        · intro hall
          exact hall hex s₁ hx hc
        · intro hl hex' s₁' hx' hc'
          rw [hx] at hx'
          cases hx'
          rw [hc] at hc'
          cases hc'
          exact hl
      rw [hlands]
      split at h
      · next e₂ s₂ hexpand =>
        cases h
        obtain ⟨hin, hout⟩ := expandPlan_error hexpand
        exact orphans_iff hc rfl ((Sound.refl s₁).expandPlan hexpand) _ hin hout
      · -- the batch just created is there to be read back
        next s₂ hexpand =>
        obtain ⟨hread, rfl⟩ := Prod.mk.inj h
        have hsound := (Sound.refl s₁).expandPlan hexpand
        have hin : (batchRow (planBatch tenant ("batch" ++ "-" ++ hex) plan trigger scheduledAt
            draws.now)) ∈ s₁.batches := by
          rw [(createBatch_adds hc).1]
          exact List.mem_append_right _ (List.mem_singleton.mpr rfl)
        obtain ⟨b, hb, hk⟩ := List.mem_map.mp (hsound.batches ▸ List.mem_map_of_mem hin)
        obtain ⟨hid, hten, -, -⟩ := BatchRow.keys_eq.mp hk
        have hfound : (s₂.batches.find? (batchIn tenant ("batch" ++ "-" ++ hex))).isSome = true := by
          rw [List.find?_isSome]
          refine ⟨b, hb, ?_⟩
          simp [batchIn, hid, hten, batchRow, planBatch]
        obtain ⟨r, hr⟩ := Option.isSome_iff_exists.mp hfound
        unfold Store.batch at hread
        have hr' : s₂.batches.find? (batchIn tenant (planBatch tenant ("batch" ++ "-" ++ hex) plan
            trigger scheduledAt draws.now).id) = some r := hr
        rw [hr'] at hread
        cases hread

/-- A failed call leaves no active job without a task. It leaves no open batch without
one exactly when: for a manual backup, its batch was never created; for a plan, the
batch was not created or got its first task. -/
theorem failed_enqueue_orphans_iff (s s' : Store) (tenant : String) (draws : Draws) (e : GoError) :
    (∀ deployId subject shared role,
      startManual s tenant deployId shared subject role draws = (.error e, s') →
      ((NoOrphanJobs s s' ∧ NoOrphanBatches s s') ↔ ¬ManualBatchCreated s tenant deployId draws)) ∧
    (∀ plan trigger scheduledAt,
      runPlan s tenant plan trigger scheduledAt draws = (.error e, s') →
      ((NoOrphanJobs s s' ∧ NoOrphanBatches s s') ↔
        PlanBatchLands s tenant plan trigger scheduledAt draws)) := by
  constructor
  · intro deployId subject shared role h
    exact startManual_orphans h
  · intro plan trigger scheduledAt h
    exact runPlan_orphans h

/-! ### Two targets and a library -/

/-- The draws of a call whose entropy source fails at the second target. -/
def drawsCut : Draws :=
  { drawsA with enqueue := fun n => if n = 0 then drawsA.enqueue 0 else ⟨none, none, fun _ => 0⟩ }

theorem failed_enqueue_orphans_second_target :
    ∃ e s', runPlan (planned ["deploy-a", "deploy-b"] [targetA, targetB]) "tenant-a"
        (planOf [targetA, targetB]) "manual" 0 drawsCut = (.error e, s') ∧
      NoOrphanJobs (planned ["deploy-a", "deploy-b"] [targetA, targetB]) s' ∧
      NoOrphanBatches (planned ["deploy-a", "deploy-b"] [targetA, targetB]) s' ∧
      PlanBatchLands (planned ["deploy-a", "deploy-b"] [targetA, targetB]) "tenant-a"
        (planOf [targetA, targetB]) "manual" 0 drawsCut := by
  have hrun : ∀ p : Except GoError BackupBatch × Store, p.1.toOption.isNone = true →
      ∃ e, p = (.error e, p.2) := by
    intro p hp
    obtain ⟨out, s'⟩ := p
    cases out with
    | error e => exact ⟨e, rfl⟩
    | ok b => cases hp
  obtain ⟨e, he⟩ := hrun (runPlan (planned ["deploy-a", "deploy-b"] [targetA, targetB]) "tenant-a"
    (planOf [targetA, targetB]) "manual" 0 drawsCut) (by decide)
  refine ⟨e, _, he, by decide, by decide, ?_⟩
  apply ((failed_enqueue_orphans_iff _ _ "tenant-a" drawsCut e).2 _ _ _ he).mp
  decide

/-- A manual backup of an instance that has an active job: its batch stays queued
without a task. -/
theorem manual_conflict_leaves_batch :
    ∃ s', startManual interrupted "tenant-a" "deploy-a" false "subject-a" .normal drawsA =
        (.error (.store .conflict), s') ∧
      ¬(NoOrphanJobs interrupted s' ∧ NoOrphanBatches interrupted s') := by
  refine ⟨_, rfl, ?_⟩
  decide

end AppBackup.Queue
