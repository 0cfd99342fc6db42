import AppBackup.Queue.Life

/- The world, seen one job at a time: `World.life w id` is the life of the job `id` in
   `w`. What each store operation does to the rows of a life is said here once, for
   every life; it rests on the columns no statement writes: a task's job is of its
   tenant, instance and plan, and a row that was read is still there.

   Per operation there is one lemma: that it succeeds or what a refusal says (`closing_refused`,
   `failBackupJob_next`), and what it makes of the life it is about (the `rewrites` lemmas),
   while every other life stays (`Rewrites.other`). -/
namespace AppBackup.Queue
open Persistence Persistence.Store Table

/-! ## The life of a job -/

def jobRowLife (j : JobRow) : JobLife := ⟨j.status, j.snapshotId⟩

def taskRowLife (t : TaskRow) : TaskLife := ⟨t.status, t.leaseToken, t.snapshotId⟩

def jobLife (s : Store) (id : String) : Option JobLife :=
  (s.jobs.find? (·.id == id)).map jobRowLife

def taskLife (s : Store) (id : String) : Option TaskLife :=
  (s.tasks.find? (·.backupJobId == id)).map taskRowLife

def snapshotIds (s : Store) (id : String) : List String :=
  (s.snapshots.filter (·.jobId == id)).map (·.id)

/-- The worker's call, when it works on the task of job `id`. -/
def Worker.holds (id : String) : Worker → Option Execution
  | .busy x => if x.task.backupJobId = id then some x else none
  | _ => none

/-- The call has cancelled the task of job `id`, and not yet the job. -/
def CancelCall.sweeps (id : String) : CancelCall → Bool
  | .failing _ jobId _ => jobId == id
  | _ => false

def World.life (w : World) (id : String) : Life where
  job := jobLife w.store id
  task := taskLife w.store id
  snapshots := snapshotIds w.store id
  holder := fun i => (w.workers i).holds id
  sweep := fun k => (w.cancels k).sweeps id

/-! ## Rows -/

/-- The task `id` of the tenant owns the job `jobId`. -/
def Owned (s : Store) (tenant id jobId : String) : Prop :=
  ∃ t ∈ s.tasks, t.id = id ∧ t.tenantUid = tenant ∧ t.backupJobId = jobId

theorem taskLife_of_mem {s : Store} {t : TaskRow} (ht : t ∈ s.tasks) :
    taskLife s t.backupJobId = some (taskRowLife t) := by
  have hfind : s.tasks.find? (·.backupJobId == t.backupJobId) = some t := by
    apply find?_of_key s.tasks_job _ ht
    · simp
    · intro r r' hr hr'
      rw [beq_iff_eq] at hr hr'
      exact hr.trans hr'.symm
  unfold taskLife
  rw [hfind]
  rfl

theorem jobLife_of_mem {s : Store} {j : JobRow} (hj : j ∈ s.jobs) :
    jobLife s j.id = some (jobRowLife j) := by
  have hfind : s.jobs.find? (·.id == j.id) = some j := by
    apply find?_of_key s.jobs_pk _ hj
    · simp
    · intro r r' hr hr'
      rw [beq_iff_eq] at hr hr'
      exact hr.trans hr'.symm
  unfold jobLife
  rw [hfind]
  rfl

theorem taskLife_some {s : Store} {id : String} {t : TaskLife} (h : taskLife s id = some t) :
    ∃ row ∈ s.tasks, row.backupJobId = id ∧ taskRowLife row = t := by
  obtain ⟨row, hf, hrow⟩ := Option.map_eq_some_iff.mp h
  exact ⟨row, List.mem_of_find?_eq_some hf, by simpa using List.find?_some hf, hrow⟩

theorem jobLife_some {s : Store} {id : String} {j : JobLife} (h : jobLife s id = some j) :
    ∃ row ∈ s.jobs, row.id = id ∧ jobRowLife row = j := by
  obtain ⟨row, hf, hrow⟩ := Option.map_eq_some_iff.mp h
  exact ⟨row, List.mem_of_find?_eq_some hf, by simpa using List.find?_some hf, hrow⟩

theorem taskLife_none {s : Store} {id : String} :
    taskLife s id = none ↔ id ∉ s.tasks.map (·.backupJobId) := by
  unfold taskLife
  rw [Option.map_eq_none_iff, List.find?_eq_none]
  simp

theorem jobLife_none {s : Store} {id : String} :
    jobLife s id = none ↔ id ∉ s.jobs.map (·.id) := by
  unfold jobLife
  rw [Option.map_eq_none_iff, List.find?_eq_none]
  simp

theorem taskLife_updated {s s' : Store} {tenant taskId jobId : String} {guard : TaskRow → Bool}
    {f : TaskRow → TaskRow} {g : TaskLife → TaskLife} (hown : Owned s tenant taskId jobId)
    (htasks : s'.tasks = updateWhere (taskIn tenant taskId guard) f s.tasks)
    (hkeys : ∀ t, (f t).keys = t.keys)
    (hg : ∀ t, taskRowLife (if guard t then f t else t) = g (taskRowLife t)) (id : String) :
    taskLife s' id = if jobId = id then (taskLife s id).map g else taskLife s id := by
  obtain ⟨t₀, ht₀, hid₀, hten₀, hjob₀⟩ := hown
  unfold taskLife
  have hjob : ∀ t, (f t).backupJobId = t.backupJobId := by
    intro t
    exact (TaskRow.keys_eq.mp (hkeys t)).2.2.2.2.1
  rw [htasks, find?_updateWhere s.tasks (fun t => by rw [hjob])]
  cases hf : s.tasks.find? (·.backupJobId == id) with
  | none => simp
  | some t =>
    have ht := List.mem_of_find?_eq_some hf
    have hid : t.backupJobId = id := by simpa using List.find?_some hf
    simp only [Option.map_some]
    by_cases hown : jobId = id
    · obtain rfl : t = t₀ := eq_of_key s.tasks_job ht ht₀ (by rw [hid, hjob₀, hown])
      have hin : taskIn tenant taskId guard t = guard t := by
        simp [taskIn, hten₀, hid₀]
      rw [if_pos hown, hin, hg]
    · have hin : taskIn tenant taskId guard t = false := by
        by_contra hin
        have hsame : t = t₀ := by
          apply eq_of_key s.tasks_pk ht ht₀
          rw [(taskIn_iff.mp (by simpa using hin)).2.1, hid₀]
        exact hown (by rw [← hid, hsame, hjob₀])
      rw [if_neg hown, hin]
      rfl

theorem jobLife_updated {s s' : Store} {tenant jobId : String} {guard : JobStatus → Bool}
    {f : JobRow → JobRow} {g : JobLife → JobLife}
    (hten : ∀ j ∈ s.jobs, j.id = jobId → j.tenantUid = tenant)
    (hjobs : s'.jobs = updateWhere (jobIn tenant jobId guard) f s.jobs)
    (hkeys : ∀ j, (f j).keys = j.keys)
    (hg : ∀ j, jobRowLife (if guard j.status then f j else j) = g (jobRowLife j)) (id : String) :
    jobLife s' id = if jobId = id then (jobLife s id).map g else jobLife s id := by
  unfold jobLife
  have hid' : ∀ j, (f j).id = j.id := by
    intro j
    exact (JobRow.keys_eq.mp (hkeys j)).1
  rw [hjobs, find?_updateWhere s.jobs (fun j => by rw [hid'])]
  cases hf : s.jobs.find? (·.id == id) with
  | none => simp
  | some j =>
    have hj := List.mem_of_find?_eq_some hf
    have hid : j.id = id := by simpa using List.find?_some hf
    simp only [Option.map_some]
    by_cases hown : jobId = id
    · have hin : jobIn tenant jobId guard j = guard j.status := by
        simp [jobIn, hid, hown, hten j hj (hid.trans hown.symm)]
      rw [if_pos hown, hin, hg]
    · have hin : jobIn tenant jobId guard j = false := by
        simp [jobIn, hid, Ne.symm hown]
      rw [if_neg hown, hin]
      rfl

/-! ## Columns no statement writes -/

/-- A write that adds no task and no job. -/
structure SameKeys (s s' : Store) : Prop where
  tasks : s'.tasks.map TaskRow.keys = s.tasks.map TaskRow.keys
  jobs : s'.jobs.map JobRow.keys = s.jobs.map JobRow.keys

theorem SameKeys.refl (s : Store) : SameKeys s s := ⟨rfl, rfl⟩

theorem sameKeys_of_updates {s s' : Store} {p : TaskRow → Bool} {f : TaskRow → TaskRow}
    {q : JobRow → Bool} {g : JobRow → JobRow} (ht : s'.tasks = updateWhere p f s.tasks)
    (hj : s'.jobs = updateWhere q g s.jobs) (hf : ∀ t, (f t).keys = t.keys)
    (hg : ∀ j, (g j).keys = j.keys) : SameKeys s s' := by
  refine ⟨?_, ?_⟩
  · rw [ht]
    exact map_updateWhere _ hf
  · rw [hj]
    exact map_updateWhere _ hg

theorem sameKeys_of_tasks {s s' : Store} {p : TaskRow → Bool} {f : TaskRow → TaskRow}
    (ht : s'.tasks = updateWhere p f s.tasks) (hj : s'.jobs = s.jobs)
    (hf : ∀ t, (f t).keys = t.keys) : SameKeys s s' := by
  refine ⟨?_, by rw [hj]⟩
  rw [ht]
  exact map_updateWhere _ hf

theorem sameKeys_of_jobs {s s' : Store} {q : JobRow → Bool} {g : JobRow → JobRow}
    (ht : s'.tasks = s.tasks) (hj : s'.jobs = updateWhere q g s.jobs)
    (hg : ∀ j, (g j).keys = j.keys) : SameKeys s s' := by
  refine ⟨by rw [ht], ?_⟩
  rw [hj]
  exact map_updateWhere _ hg

theorem moveJobs_keys (m : TaskMove) (tenant jobId : String) (rows : List JobRow) :
    (m.jobs tenant jobId rows).map JobRow.keys = rows.map JobRow.keys := by
  unfold TaskMove.jobs
  split
  · rfl
  · apply map_updateWhere
    intro j
    rfl

theorem sameKeys_moved {s s' : Store} {tenant id jobId batchId : String} {guard : TaskRow → Bool}
    {m : TaskMove} {now : Time}
    (h : s'.toTables = movedTables s.toTables tenant id jobId batchId guard m now) :
    SameKeys s s' := by
  refine ⟨?_, ?_⟩
  · rw [h]
    exact map_updateWhere _ m.set_keys
  · rw [h]
    exact moveJobs_keys m _ _ _

theorem SameKeys.trans {s s₁ s' : Store} (h : SameKeys s s₁) (h' : SameKeys s₁ s') :
    SameKeys s s' := ⟨h'.tasks.trans h.tasks, h'.jobs.trans h.jobs⟩

theorem sameKeys_closeTask {s s' : Store} {tenant id : String} {guard : TaskRow → Bool}
    {missing : StoreError} {m : TaskMove} {now : Time}
    (h : s.closeTask tenant id guard missing m now = .ok s') : SameKeys s s' := by
  obtain ⟨t, -, -, htables⟩ := closeTask_ok h
  exact sameKeys_moved htables

theorem sameKeys_requeue {s s' : Store} {tenant : String} {now : Time}
    (h : s.requeueExpiredTasks tenant now = .ok s') : SameKeys s s' := by
  refine foldlM_invariant h (SameKeys.refl s) ?_
  intro s₁ s₂ item _ hkeys hone
  exact hkeys.trans (sameKeys_moved (runMove_ok hone))

/-- Only `AddTask` and `CreateBackupJob` add a task or a job. -/
def addsRow : Op → Bool
  | .addTask _ _ | .createBackupJob _ => true
  | _ => false

theorem sameKeys_apply {s s' : Store} (op : Op) (h : op.apply s = .ok s')
    (hop : addsRow op = false) : SameKeys s s' := by
  cases op with
  | createPlan plan =>
    obtain ⟨targets, ht⟩ := createPlan_ok h
    exact ⟨by rw [ht], by rw [ht]⟩
  | updatePlan tenant plan cancelQueued =>
    obtain ⟨targets, ht⟩ := updatePlan_ok h
    cases cancelQueued with
    | false => exact ⟨by rw [ht]; rfl, by rw [ht]; rfl⟩
    | true =>
      simp only [if_true] at ht
      refine sameKeys_of_updates (by rw [ht]) (by rw [ht]) ?_ ?_ <;> intro _ <;> rfl
  | setPlanEnabled =>
    obtain ⟨plans, ht⟩ := setPlanEnabled_ok h
    exact ⟨by rw [ht], by rw [ht]⟩
  | pausePlanForScope =>
    obtain ⟨plans, ht⟩ := pausePlanForScope_ok h
    refine sameKeys_of_updates (by rw [ht]) (by rw [ht]) ?_ ?_ <;> intro _ <;> rfl
  | advancePlan =>
    cases h
    exact ⟨rfl, rfl⟩
  | createBatch batch =>
    have ht := createBatch_ok h
    exact ⟨by rw [ht], by rw [ht]⟩
  | addTask => cases hop
  | claimNextTask tenant workerId token now expires =>
    cases hc : s.claimNextTask tenant workerId token now expires with
    | error e =>
      simp only [Op.apply, hc] at h
      cases h
    | ok out =>
      obtain ⟨s₁, task⟩ := out
      simp only [Op.apply, hc] at h
      cases h
      obtain ⟨t, -, -, -, -, ht⟩ := claimNextTask_ok hc
      refine sameKeys_of_tasks (by rw [ht]) (by rw [ht]) ?_
      intro _
      rfl
  | setTaskStatus =>
    have ht := setTaskStatus_ok h
    refine sameKeys_of_tasks (by rw [ht]) (by rw [ht]) ?_
    intro _
    rfl
  | setTaskScopeValidation =>
    cases h
    exact sameKeys_of_tasks rfl rfl (fun _ => rfl)
  | heartbeatTask =>
    cases h
    exact sameKeys_of_tasks rfl rfl (fun _ => rfl)
  | completeTask => exact sameKeys_closeTask h
  | retryTask => exact sameKeys_closeTask h
  | finishTaskFailure => exact sameKeys_closeTask h
  | cancelTask tenant id now =>
    cases hc : s.cancelTask tenant id now with
    | error e =>
      simp only [Op.apply, hc] at h
      cases h
    | ok out =>
      obtain ⟨s₁, task⟩ := out
      simp only [Op.apply, hc] at h
      cases h
      obtain ⟨t, -, -, -, ⟨-, rfl⟩ | ⟨-, rfl⟩⟩ := cancelTask_ok hc
      · have ht := cancelTaskJob_tables (s.cancelTaskRow tenant id now) tenant t.backupJobId now
        refine sameKeys_of_updates (by rw [ht]; rfl) (by rw [ht]; rfl) ?_ ?_ <;> intro _ <;> rfl
      · exact SameKeys.refl _
  | requeueExpiredTasks => exact sameKeys_requeue h
  | resetTaskForManualRetry => exact sameKeys_closeTask h
  | createBackupJob => cases hop
  | startBackupJob =>
    have ht := (moveJob_ok h).2
    refine sameKeys_of_jobs (by rw [ht]) (by rw [ht]) ?_
    intro _
    rfl
  | failBackupJob =>
    have ht := (moveJob_ok h).2
    refine sameKeys_of_jobs (by rw [ht]) (by rw [ht]) ?_
    intro _
    rfl
  | commitSnapshot =>
    have ht := (commitSnapshot_ok h).2
    refine sameKeys_of_jobs (by rw [ht]) (by rw [ht]) ?_
    intro _
    rfl

theorem sameKeys_next (s : Store) {op : Op} (hop : addsRow op = false) : SameKeys s (op.next s) := by
  rcases Op.next_cases s op with h | h
  · exact sameKeys_apply op h hop
  · rw [h]
    exact SameKeys.refl s

/-- A task and a job that go together agree on tenant, instance and plan; a task
without a job was recorded as skipped; and a job's id is one `CreateJob` drew. -/
structure Placed (s : Store) : Prop where
  agree : ∀ t ∈ s.tasks, ∀ j ∈ s.jobs, j.id = t.backupJobId →
    j.tenantUid = t.tenantUid ∧ j.deployId = t.deployId ∧ j.planId = t.planId
  placed : ∀ t ∈ s.tasks, t.backupJobId ∈ s.jobs.map (·.id) ∨ ∃ x, t.backupJobId = "skipped-" ++ x
  named : ∀ j ∈ s.jobs, ∃ x, j.id = "backup" ++ "-" ++ x

theorem exists_of_keys {α β : Type*} {key : α → β} {rows rows' : List α}
    (h : rows'.map key = rows.map key) {r' : α} (hr : r' ∈ rows') :
    ∃ r ∈ rows, key r = key r' := by
  obtain ⟨r, hr', hk⟩ := List.mem_map.mp (h ▸ List.mem_map_of_mem hr)
  exact ⟨r, hr', hk⟩

theorem SameKeys.jobIds {s s' : Store} (h : SameKeys s s') :
    s'.jobs.map (·.id) = s.jobs.map (·.id) := by
  have hmap := congrArg (List.map (·.1)) h.jobs
  simpa [Function.comp_def, JobRow.keys] using hmap

theorem SameKeys.taskJobs {s s' : Store} (h : SameKeys s s') :
    s'.tasks.map (·.backupJobId) = s.tasks.map (·.backupJobId) := by
  have hmap := congrArg (List.map (·.2.2.2.2.1)) h.tasks
  simpa [Function.comp_def, TaskRow.keys] using hmap

theorem Placed.sameKeys {s s' : Store} (h : Placed s) (hk : SameKeys s s') : Placed s' := by
  refine ⟨?_, ?_, ?_⟩
  · intro t' ht' j' hj' he
    obtain ⟨t, ht, hkt⟩ := exists_of_keys hk.tasks ht'
    obtain ⟨j, hj, hkj⟩ := exists_of_keys hk.jobs hj'
    obtain ⟨-, htt, -, htp, htj, htd⟩ := TaskRow.keys_eq.mp hkt
    obtain ⟨hji, hjt, hjd, hjp⟩ := JobRow.keys_eq.mp hkj
    obtain ⟨h₁, h₂, h₃⟩ := h.agree t ht j hj (by rw [hji, htj, he])
    exact ⟨by rw [← hjt, h₁, htt], by rw [← hjd, h₂, htd], by rw [← hjp, h₃, htp]⟩
  · intro t' ht'
    obtain ⟨t, ht, hkt⟩ := exists_of_keys hk.tasks ht'
    rw [← (TaskRow.keys_eq.mp hkt).2.2.2.2.1, hk.jobIds]
    exact h.placed t ht
  · intro j' hj'
    obtain ⟨j, hj, hkj⟩ := exists_of_keys hk.jobs hj'
    rw [← (JobRow.keys_eq.mp hkj).1]
    exact h.named j hj

theorem Owned.sameKeys {s s' : Store} {tenant id jobId : String} (h : Owned s tenant id jobId)
    (hk : SameKeys s s') : Owned s' tenant id jobId := by
  obtain ⟨t, ht, hid, hten, hjob⟩ := h
  obtain ⟨t', ht', hkt⟩ := exists_of_keys hk.tasks.symm ht
  obtain ⟨hi, hn, -, -, hj, -⟩ := TaskRow.keys_eq.mp hkt
  exact ⟨t', ht', hi.trans hid, hn.trans hten, hj.trans hjob⟩

theorem Owned.jobTenant {s : Store} {tenant id jobId : String} (h : Owned s tenant id jobId)
    (hp : Placed s) : ∀ j ∈ s.jobs, j.id = jobId → j.tenantUid = tenant := by
  obtain ⟨t, ht, -, hten, hjob⟩ := h
  intro j hj hid
  rw [(hp.agree t ht j hj (hid.trans hjob.symm)).1, hten]

/-! ## What the operations do to the rows -/

/-- A write that the life of job `id` does not see. -/
structure SameRows (s s' : Store) (id : String) : Prop where
  task : taskLife s' id = taskLife s id
  job : jobLife s' id = jobLife s id
  snapshots : snapshotIds s' id = snapshotIds s id

theorem SameRows.refl (s : Store) (id : String) : SameRows s s id := ⟨rfl, rfl, rfl⟩

/-- A write to the rows of one life. -/
structure Rewrites (s s' : Store) (jobId : String) (f : TaskLife → TaskLife)
    (g : JobLife → JobLife) : Prop where
  task : ∀ id, taskLife s' id = if jobId = id then (taskLife s id).map f else taskLife s id
  job : ∀ id, jobLife s' id = if jobId = id then (jobLife s id).map g else jobLife s id
  snapshots : ∀ id, snapshotIds s' id = snapshotIds s id

theorem Rewrites.other {s s' : Store} {jobId : String} {f : TaskLife → TaskLife}
    {g : JobLife → JobLife} (h : Rewrites s s' jobId f g) {id : String} (hne : jobId ≠ id) :
    SameRows s s' id :=
  ⟨by rw [h.task, if_neg hne], by rw [h.job, if_neg hne], h.snapshots id⟩

theorem Rewrites.ownTask {s s' : Store} {jobId : String} {f : TaskLife → TaskLife}
    {g : JobLife → JobLife} (h : Rewrites s s' jobId f g) :
    taskLife s' jobId = (taskLife s jobId).map f := by rw [h.task, if_pos rfl]

theorem Rewrites.ownJob {s s' : Store} {jobId : String} {f : TaskLife → TaskLife}
    {g : JobLife → JobLife} (h : Rewrites s s' jobId f g) :
    jobLife s' jobId = (jobLife s jobId).map g := by rw [h.job, if_pos rfl]

theorem snapshotIds_congr {s s' : Store} (h : s'.snapshots = s.snapshots) (id : String) :
    snapshotIds s' id = snapshotIds s id := by
  unfold snapshotIds
  rw [h]

theorem jobLife_congr {s s' : Store} (h : s'.jobs = s.jobs) (id : String) :
    jobLife s' id = jobLife s id := by
  unfold jobLife
  rw [h]

theorem taskLife_congr {s s' : Store} (h : s'.tasks = s.tasks) (id : String) :
    taskLife s' id = taskLife s id := by
  unfold taskLife
  rw [h]

theorem sameRows_congr {s s' : Store} (ht : s'.tasks = s.tasks) (hj : s'.jobs = s.jobs)
    (hs : s'.snapshots = s.snapshots) (id : String) : SameRows s s' id :=
  ⟨taskLife_congr ht id, jobLife_congr hj id, snapshotIds_congr hs id⟩

/-- An update of tasks that writes no column of a life. -/
theorem sameRows_update {s s' : Store} {p : TaskRow → Bool} {f : TaskRow → TaskRow}
    (htables : s'.toTables = { s.toTables with tasks := updateWhere p f s.tasks })
    (hkeys : ∀ t, (f t).keys = t.keys) (hf : ∀ t, taskRowLife (f t) = taskRowLife t) (id : String) :
    SameRows s s' id := by
  have htasks : s'.tasks = updateWhere p f s.tasks := by rw [htables]
  refine ⟨?_, jobLife_congr (by rw [htables]) id, snapshotIds_congr (by rw [htables]) id⟩
  unfold taskLife
  rw [htasks, find?_updateWhere s.tasks (fun t => by rw [(TaskRow.keys_eq.mp (hkeys t)).2.2.2.2.1]),
    Option.map_map]
  congr 1
  funext t
  show taskRowLife (if p t then f t else t) = taskRowLife t
  rw [apply_ite taskRowLife, hf, ite_self]

theorem if_map_id {α : Type*} {p : Prop} [Decidable p] (o : Option α) :
    (if p then o.map (fun a => a) else o) = o := by
  rw [Option.map_id', ite_self]

theorem rewrites_task {s s' : Store} {tenant taskId jobId : String} {guard : TaskRow → Bool}
    {f : TaskRow → TaskRow} {g : TaskLife → TaskLife} (hown : Owned s tenant taskId jobId)
    (htables : s'.toTables = { s.toTables with tasks := updateWhere (taskIn tenant taskId guard) f s.tasks })
    (hkeys : ∀ t, (f t).keys = t.keys)
    (hg : ∀ t, taskRowLife (if guard t then f t else t) = g (taskRowLife t)) :
    Rewrites s s' jobId g (fun j => j) := by
  have htasks : s'.tasks = updateWhere (taskIn tenant taskId guard) f s.tasks := by rw [htables]
  have hjobs : s'.jobs = s.jobs := by rw [htables]
  have hsnaps : s'.snapshots = s.snapshots := by rw [htables]
  refine ⟨taskLife_updated hown htasks hkeys hg, ?_, snapshotIds_congr hsnaps⟩
  intro id
  rw [if_map_id]
  exact jobLife_congr hjobs id

theorem rewrites_job {s s' : Store} {tenant jobId : String} {guard : JobStatus → Bool}
    {f : JobRow → JobRow} {g : JobLife → JobLife}
    (hten : ∀ j ∈ s.jobs, j.id = jobId → j.tenantUid = tenant)
    (htables : s'.toTables = { s.toTables with jobs := updateWhere (jobIn tenant jobId guard) f s.jobs })
    (hkeys : ∀ j, (f j).keys = j.keys)
    (hg : ∀ j, jobRowLife (if guard j.status then f j else j) = g (jobRowLife j)) :
    Rewrites s s' jobId (fun t => t) g := by
  have htasks : s'.tasks = s.tasks := by rw [htables]
  have hjobs : s'.jobs = updateWhere (jobIn tenant jobId guard) f s.jobs := by rw [htables]
  have hsnaps : s'.snapshots = s.snapshots := by rw [htables]
  refine ⟨?_, jobLife_updated hten hjobs hkeys hg, snapshotIds_congr hsnaps⟩
  intro id
  rw [if_map_id]
  exact taskLife_congr htasks id

/-! ### Statements of `execute` -/

theorem countP_taskIn_ne {s : Store} {tenant id : String} {guard : TaskRow → Bool}
    (h : s.tasks.countP (taskIn tenant id guard) ≠ 1) (t : TaskRow) (ht : t ∈ s.tasks) :
    taskIn tenant id guard t = false := by
  by_contra hp
  exact h (countP_taskIn ht (by simpa using hp))

/-- `SetTaskStatus` moves the row it finds; refused, it finds none. -/
theorem setTaskStatus_next (s : Store) (tenant id token : String) (status : TaskStatus) :
    ((Op.setTaskStatus tenant id token status).next s).toTables = { s.toTables with
      tasks := updateWhere
        (taskIn tenant id fun t => t.leaseToken == token && leasedGroup.contains t.status)
        (fun t => { t with status := status }) s.tasks } := by
  cases h : s.setTaskStatus tenant id token status with
  | ok s' =>
    have hnext : (Op.setTaskStatus tenant id token status).next s = s' := by
      simp [Op.next, Op.apply, h]
    rw [hnext, setTaskStatus_ok h]
  | error e =>
    have hnext : (Op.setTaskStatus tenant id token status).next s = s := by
      simp [Op.next, Op.apply, h]
    unfold Store.setTaskStatus at h
    simp only at h
    split at h
    · next hc => rw [hnext, updateWhere_miss (countP_taskIn_ne hc)]
    · cases h

theorem precheck_rewrites {s : Store} {x : Execution} (hd : x.done = none)
    (hown : Owned s x.uid x.task.id x.task.backupJobId) :
    Rewrites s ((Op.setTaskStatus x.uid x.task.id x.token .prechecking).next s)
      x.task.backupJobId (·.prechecked x) (fun j => j) := by
  refine rewrites_task hown (setTaskStatus_next s _ _ _ _) (fun _ => rfl) ?_
  intro t
  unfold TaskLife.prechecked taskRowLife
  by_cases hp : t.leaseToken = x.token ∧ leasedGroup.contains t.status = true
  · simp only [hp.1, hp.2, hd, beq_self_eq_true, Bool.and_self, and_self, if_true]
  · have hb : (t.leaseToken == x.token && leasedGroup.contains t.status) = false := by
      simpa using hp
    simp only [hb, Bool.false_eq_true, if_false]
    rw [if_neg (fun h => hp h.2)]

/-- `FailBackupJob` fails the job it finds waiting or running; refused, it finds
none. -/
theorem failBackupJob_next (s : Store) (tenant id code : String) (finished : Time) :
    ((Op.failBackupJob tenant id code finished).next s).toTables = { s.toTables with
      jobs := updateWhere (jobIn tenant id (·.active)) (failedRow code finished) s.jobs } := by
  cases h : s.failBackupJob tenant id code finished with
  | ok s' =>
    have hnext : (Op.failBackupJob tenant id code finished).next s = s' := by
      simp [Op.next, Op.apply, h]
    rw [hnext, (moveJob_ok h).2]
  | error e =>
    have hnext : (Op.failBackupJob tenant id code finished).next s = s := by
      simp [Op.next, Op.apply, h]
    have hmiss : ∀ j ∈ s.jobs, jobIn tenant id (·.active) j = false := by
      intro j hj
      by_contra hp
      obtain ⟨hid, hten, hact⟩ := jobIn_iff.mp (by simpa using hp)
      obtain ⟨s', hs'⟩ := failBackupJob_of_mem code finished hj hid hten hact
      rw [hs'] at h
      cases h
    rw [hnext, updateWhere_miss hmiss]

theorem failBackupJob_rewrites {s : Store} {tenant id : String} (code : String) (finished : Time)
    (hten : ∀ j ∈ s.jobs, j.id = id → j.tenantUid = tenant) :
    Rewrites s ((Op.failBackupJob tenant id code finished).next s) id (fun t => t)
      (·.moved (·.active) .failed) := by
  refine rewrites_job hten (failBackupJob_next s _ _ _ _) (fun _ => rfl) ?_
  intro j
  unfold JobLife.moved jobRowLife failedRow
  by_cases hact : j.status.active = true <;> simp [hact]

theorem startBackupJob_rewrites {s s' : Store} {tenant id : String} {started : Time}
    (hten : ∀ j ∈ s.jobs, j.id = id → j.tenantUid = tenant)
    (h : s.startBackupJob tenant id started = .ok s') :
    Rewrites s s' id (fun t => t) (·.moved (· == .queued) .running) ∧
      ∃ j, jobLife s id = some j ∧ j.status = .queued := by
  obtain ⟨⟨j, hj, hid, -, hq⟩, htables⟩ := moveJob_ok h
  refine ⟨rewrites_job hten htables (fun _ => rfl) ?_, jobRowLife j, ?_, ?_⟩
  · intro j
    unfold JobLife.moved jobRowLife startedRow
    by_cases hq : j.status = .queued <;> simp [hq]
  · rw [← hid]
    exact jobLife_of_mem hj
  · simpa [jobRowLife] using hq

/-- The snapshot and the job that has it. -/
theorem commitSnapshot_rows {s s' : Store} {snapshot : Snapshot}
    (hten : ∀ j ∈ s.jobs, j.id = snapshot.jobId → j.tenantUid = snapshot.tenantUid)
    (h : s.commitSnapshot snapshot = .ok s') :
    (∃ j, jobLife s snapshot.jobId = some j ∧ j.status = .running) ∧
    (∀ id, taskLife s' id = taskLife s id) ∧
    jobLife s' snapshot.jobId = some ⟨.succeeded, snapshot.id⟩ ∧
    (∀ id, snapshot.jobId ≠ id → jobLife s' id = jobLife s id) ∧
    snapshotIds s snapshot.jobId = [] ∧ snapshotIds s' snapshot.jobId = [snapshot.id] ∧
    ∀ id, snapshot.jobId ≠ id → snapshotIds s' id = snapshotIds s id := by
  obtain ⟨⟨j, hj, hid, -, hrun⟩, htables⟩ := commitSnapshot_ok h
  have hjobs : s'.jobs = updateWhere (jobIn snapshot.tenantUid snapshot.jobId (· == .running))
      (committedRow snapshot) s.jobs := by rw [htables]
  have hsnaps : s'.snapshots = s.snapshots ++ [snapshotRow snapshot] := by rw [htables]
  have hlife : jobLife s snapshot.jobId = some (jobRowLife j) := by
    rw [← hid]
    exact jobLife_of_mem hj
  have hupdated := jobLife_updated (g := fun l =>
    if l.status = .running then ⟨.succeeded, snapshot.id⟩ else l) hten hjobs (fun _ => rfl) (by
      intro j
      unfold jobRowLife committedRow
      by_cases hr : j.status = .running <;> simp [hr])
  have hnone : snapshotIds s snapshot.jobId = [] := by
    unfold snapshotIds
    rw [List.map_eq_nil_iff, List.filter_eq_nil_iff]
    intro row hrow hk
    have huniq := s'.snapshots_job_unique
    rw [hsnaps, List.map_append] at huniq
    refine List.disjoint_of_nodup_append huniq (List.mem_map_of_mem hrow) ?_
    rw [beq_iff_eq] at hk
    simp [snapshotRow, hk]
  refine ⟨⟨_, hlife, hrun⟩, ?_, ?_, ?_, hnone, ?_, ?_⟩
  · apply taskLife_congr
    rw [htables]
  · rw [hupdated, if_pos rfl, hlife]
    simp [jobRowLife, hrun]
  · intro id hne
    rw [hupdated, if_neg hne]
  · have hpart : snapshotIds s' snapshot.jobId =
        snapshotIds s snapshot.jobId ++ [snapshot.id] := by
      unfold snapshotIds
      rw [hsnaps, List.filter_append, List.map_append]
      simp [snapshotRow]
    rw [hpart, hnone]
    rfl
  · intro id hne
    unfold snapshotIds
    rw [hsnaps, List.filter_append, List.map_append]
    simp [snapshotRow, hne]

/-! ### Closing transactions -/

/-- What a move does to the job. -/
def onJob (m : TaskMove) (j : JobLife) : JobLife :=
  match m.requeueJob with
  | none => j
  | some (status, _) => j.moved (· == status) .queued

theorem moveJobs_life {s s' : Store} {tenant jobId : String} {m : TaskMove}
    (hten : ∀ j ∈ s.jobs, j.id = jobId → j.tenantUid = tenant)
    (hjobs : s'.jobs = m.jobs tenant jobId s.jobs) (id : String) :
    jobLife s' id = if jobId = id then (jobLife s id).map (onJob m) else jobLife s id := by
  unfold TaskMove.jobs at hjobs
  cases hm : m.requeueJob with
  | none =>
    have hsame : onJob m = fun j => j := by
      funext j
      unfold onJob
      rw [hm]
    rw [hm] at hjobs
    rw [hsame, if_map_id]
    exact jobLife_congr hjobs id
  | some from_ =>
    obtain ⟨status, clearStart⟩ := from_
    rw [hm] at hjobs
    refine jobLife_updated hten hjobs (fun _ => rfl) ?_ id
    intro j
    unfold onJob JobLife.moved jobRowLife JobRow.requeued
    rw [hm]
    by_cases hs : j.status = status <;> simp [hs]

theorem moved_rewrites {s s' : Store} {tenant id jobId batchId : String} {guard : TaskRow → Bool}
    {m : TaskMove} {now : Time} {g : TaskLife → TaskLife} (hown : Owned s tenant id jobId)
    (hp : Placed s)
    (htables : s'.toTables = movedTables s.toTables tenant id jobId batchId guard m now)
    (hg : ∀ t, taskRowLife (if guard t then m.set t else t) = g (taskRowLife t)) :
    Rewrites s s' jobId g (onJob m) := by
  refine ⟨?_, ?_, ?_⟩
  · refine taskLife_updated hown ?_ m.set_keys hg
    rw [htables]
    rfl
  · refine moveJobs_life (hown.jobTenant hp) ?_
    rw [htables]
    rfl
  · apply snapshotIds_congr
    rw [htables]
    rfl

/-- A closing transaction on a task that is there is refused only when the partial index
refuses its job. -/
theorem closeTask_isOk {s : Store} {t : TaskRow} {tenant id : String} {guard : TaskRow → Bool}
    (missing : StoreError) (m : TaskMove) (now : Time) (ht : t ∈ s.tasks)
    (hin : taskIn tenant id guard t = true) :
    (∃ s', s.closeTask tenant id guard missing m now = .ok s') ↔
      ∃ s₁, ((s.updateTasks (taskIn tenant id guard) m.set m.set_keys).moveAttempts tenant id m
        now).moveTaskJob tenant t.backupJobId m = .ok s₁ := by
  obtain ⟨hten, hid, -⟩ := taskIn_iff.mp hin
  have hrun : s.closeTask tenant id guard missing m now =
      s.runMove tenant id t.backupJobId t.batchId guard m now := by
    unfold Store.closeTask
    rw [if_neg (not_not.mpr (countP_taskIn ht hin)), find?_taskIn ht hid hten]
  rw [hrun]
  unfold Store.runMove
  cases hj : ((s.updateTasks (taskIn tenant id guard) m.set m.set_keys).moveAttempts tenant id m
      now).moveTaskJob tenant t.backupJobId m with
  | error e => simp
  | ok s₁ =>
    simp only [Except.ok.injEq, exists_eq', iff_true]
    have htables := moveTaskJob_ok hj
    rw [moveAttempts_tables, updateTasks_tables] at htables
    have hmem : m.set t ∈ s₁.tasks := by
      rw [htables]
      exact mem_updateWhere_hit ht hin
    obtain ⟨-, hmten, hmbatch, -⟩ := TaskRow.keys_eq.mp (m.set_keys t)
    apply refreshBatch_of_mem now hmem
    simp [inBatch, hmten, hmbatch, hten]

theorem Owned.row {s : Store} {tenant id jobId : String} (h : Owned s tenant id jobId) :
    ∃ t ∈ s.tasks, t.id = id ∧ t.tenantUid = tenant ∧ t.backupJobId = jobId ∧
      taskLife s jobId = some (taskRowLife t) := by
  obtain ⟨t, ht, hid, hten, hjob⟩ := h
  refine ⟨t, ht, hid, hten, hjob, ?_⟩
  rw [← hjob]
  exact taskLife_of_mem ht

/-- The move of a closing, and the row it needs. -/
def Closing.move : Closing → TaskMove
  | .complete snapshotId now => completeMove snapshotId now
  | .retry code availableAt _ => retryMove code availableAt
  | .finish status code now => failureMove status code now

def Closing.now : Closing → Time
  | .complete _ now => now
  | .retry _ _ now => now
  | .finish _ _ now => now

theorem closingOp_apply (x : Execution) (s : Store) (c : Closing) :
    (x.closingOp c).apply s =
      s.closeTask x.uid x.task.id (·.leaseToken == x.token) .notFound c.move c.now := by
  cases c <;> rfl

theorem closing_rewrites {x : Execution} {s s' : Store} {c : Closing}
    (hown : Owned s x.uid x.task.id x.task.backupJobId) (hp : Placed s)
    (h : (x.closingOp c).apply s = .ok s') :
    Rewrites s s' x.task.backupJobId (fun t => if t.token = x.token then t.closed c else t)
        (·.closed c) ∧
      ∃ t, taskLife s x.task.backupJobId = some t ∧ t.token = x.token := by
  rw [closingOp_apply] at h
  obtain ⟨t, ht, hin, htables⟩ := closeTask_ok h
  obtain ⟨hten, hid, htok⟩ := taskIn_iff.mp hin
  obtain ⟨t₀, ht₀, hid₀, -, hjob₀, hlife⟩ := hown.row
  obtain rfl : t = t₀ := eq_of_key s.tasks_pk ht ht₀ (hid.trans hid₀.symm)
  rw [hjob₀] at htables
  have hrewrites := moved_rewrites (g := fun t => if t.token = x.token then t.closed c else t) hown hp
    htables (by
      intro t
      unfold taskRowLife
      by_cases he : t.leaseToken = x.token
      · cases c <;> simp [he, Closing.move, TaskLife.closed, completeMove, retryMove, failureMove,
          TaskRow.unleased]
      · simp [he])
  have hjob : onJob c.move = (·.closed c) := by
    funext j
    cases c <;> rfl
  rw [hjob] at hrewrites
  refine ⟨hrewrites, taskRowLife t, hlife, ?_⟩
  simpa [taskRowLife] using htok

/-- A closing is refused when the task has another token, or when it is a retry. -/
theorem closing_refused {x : Execution} {s : Store} {c : Closing} {e : StoreError}
    (hown : Owned s x.uid x.task.id x.task.backupJobId)
    (h : (x.closingOp c).apply s = .error e) :
    (∃ code availableAt now, c = .retry code availableAt now) ∨
      ∀ t, taskLife s x.task.backupJobId = some t → t.token ≠ x.token := by
  by_cases hretry : ∃ code availableAt now, c = .retry code availableAt now
  · exact .inl hretry
  · refine .inr ?_
    intro t hlife htok
    obtain ⟨t₀, ht₀, hid₀, hten₀, -, hlife₀⟩ := hown.row
    rw [hlife₀] at hlife
    cases hlife
    have hin : taskIn x.uid x.task.id (·.leaseToken == x.token) t₀ = true := by
      rw [taskIn_iff]
      exact ⟨hten₀, hid₀, by simpa [taskRowLife] using htok⟩
    have hnone : c.move.requeueJob = none := by
      cases c with
      | retry code availableAt now => exact absurd ⟨code, availableAt, now, rfl⟩ hretry
      | complete => rfl
      | finish => rfl
    rw [closingOp_apply] at h
    obtain ⟨s', hs'⟩ := (closeTask_isOk .notFound c.move c.now ht₀ hin).mpr (by
      unfold Store.moveTaskJob
      rw [hnone]
      exact ⟨_, rfl⟩)
    rw [hs'] at h
    cases h

theorem manualRetry_rewrites {s s' : Store} {tenant id : String} {now : Time} (hp : Placed s)
    (h : s.resetTaskForManualRetry tenant id now = .ok s') :
    ∃ t ∈ s.tasks, t.id = id ∧ t.tenantUid = tenant ∧ resettable.contains t.status = true ∧
      Rewrites s s' t.backupJobId
        (fun t => if resettable.contains t.status then t.waiting else t)
        (·.moved (· == .failed) .queued) := by
  obtain ⟨t, ht, hin, htables⟩ := closeTask_ok h
  obtain ⟨hten, hid, hres⟩ := taskIn_iff.mp hin
  refine ⟨t, ht, hid, hten, hres, ?_⟩
  refine moved_rewrites ⟨t, ht, hid, hten, rfl⟩ hp htables ?_
  intro t
  unfold taskRowLife
  by_cases hr : resettable.contains t.status = true
  · simp only [hr, if_true]
    rfl
  · simp only [hr]
    rfl

/-! ### Recovery -/

theorem requeueExpired_rewrites {s s' : Store} {tenant : String} {now : Time} {item : TaskRow}
    (hown : Owned s tenant item.id item.backupJobId) (hp : Placed s)
    (h : requeueExpired tenant now s item = .ok s') :
    Rewrites s s' item.backupJobId TaskLife.waiting (·.moved (· == .running) .queued) ∧
      SameKeys s s' := by
  have htables := runMove_ok h
  refine ⟨moved_rewrites hown hp htables ?_, sameKeys_moved htables⟩
  intro t
  rfl

/-- The rows after the recovery: those of the items have moved, each once. -/
theorem requeueLoop {tenant : String} {now : Time} (items : List TaskRow) :
    ∀ {s s' : Store}, Placed s → (∀ item ∈ items, Owned s tenant item.id item.backupJobId) →
      (items.map (·.backupJobId)).Nodup → items.foldlM (requeueExpired tenant now) s = .ok s' →
      SameKeys s s' ∧ (∀ id, snapshotIds s' id = snapshotIds s id) ∧
      ∀ id, (id ∈ items.map (·.backupJobId) →
          taskLife s' id = (taskLife s id).map TaskLife.waiting ∧
          jobLife s' id = (jobLife s id).map (·.moved (· == .running) .queued)) ∧
        (id ∉ items.map (·.backupJobId) →
          taskLife s' id = taskLife s id ∧ jobLife s' id = jobLife s id) := by
  induction items with
  | nil =>
    intro s s' _ _ _ h
    cases h
    refine ⟨SameKeys.refl s, fun _ => rfl, ?_⟩
    intro id
    refine ⟨?_, fun _ => ⟨rfl, rfl⟩⟩
    intro hid
    cases hid
  | cons item rest ih =>
    intro s s' hp hown hnd h
    rw [List.foldlM_cons] at h
    cases hone : requeueExpired tenant now s item with
    | error e => rw [hone] at h; cases h
    | ok s₁ =>
      rw [hone] at h
      rw [List.map_cons, List.nodup_cons] at hnd
      obtain ⟨hrw, hk⟩ := requeueExpired_rewrites (hown item (List.mem_cons_self ..)) hp hone
      have hown₁ : ∀ i ∈ rest, Owned s₁ tenant i.id i.backupJobId := by
        intro i hi
        exact (hown i (List.mem_cons_of_mem _ hi)).sameKeys hk
      obtain ⟨hk', hsn, hall⟩ := ih (hp.sameKeys hk) hown₁ hnd.2 h
      refine ⟨⟨hk'.tasks.trans hk.tasks, hk'.jobs.trans hk.jobs⟩, ?_, ?_⟩
      · intro id
        rw [hsn, hrw.snapshots]
      · intro id
        by_cases hid : item.backupJobId = id
        · -- the other items are other lives
          obtain ⟨ht, hj⟩ := (hall id).2 (hid ▸ hnd.1)
          rw [hrw.task, if_pos hid] at ht
          rw [hrw.job, if_pos hid] at hj
          refine ⟨fun _ => ⟨ht, hj⟩, ?_⟩
          intro hn
          exact absurd (by simp [hid]) hn
        · have ht₁ := hrw.task id
          have hj₁ := hrw.job id
          rw [if_neg hid] at ht₁ hj₁
          rw [← ht₁, ← hj₁, List.map_cons, List.mem_cons]
          refine ⟨?_, ?_⟩
          · intro hmem
            exact (hall id).1 (hmem.resolve_left (Ne.symm hid))
          · intro hn
            exact (hall id).2 (fun hmem => hn (.inr hmem))

/-- `RequeueExpiredTasks` moves the lives whose task has an expired lease, and no
other. -/
theorem requeueExpiredTasks_rows {s s' : Store} {tenant : String} {now : Time} (hp : Placed s)
    (h : s.requeueExpiredTasks tenant now = .ok s') :
    SameKeys s s' ∧ (∀ id, snapshotIds s' id = snapshotIds s id) ∧
    ∀ id, (∃ t ∈ s.tasks, t.backupJobId = id ∧ expired tenant now t = true ∧
        taskLife s id = some (taskRowLife t) ∧ taskLife s' id = some (taskRowLife t).waiting ∧
        jobLife s' id = (jobLife s id).map (·.moved (· == .running) .queued)) ∨
      ((∀ t ∈ s.tasks, t.backupJobId = id → expired tenant now t = false) ∧
        taskLife s' id = taskLife s id ∧ jobLife s' id = jobLife s id) := by
  have hown : ∀ item ∈ s.tasks.filter (expired tenant now),
      Owned s tenant item.id item.backupJobId := by
    intro item hitem
    obtain ⟨hmem, hexp⟩ := List.mem_filter.mp hitem
    simp only [expired, Bool.and_eq_true, beq_iff_eq] at hexp
    exact ⟨item, hmem, rfl, hexp.1.1, rfl⟩
  have hnd : ((s.tasks.filter (expired tenant now)).map (·.backupJobId)).Nodup :=
    s.tasks_job.sublist (List.filter_sublist.map _)
  obtain ⟨hk, hsn, hall⟩ := requeueLoop _ hp hown hnd h
  refine ⟨hk, hsn, ?_⟩
  intro id
  by_cases hid : id ∈ (s.tasks.filter (expired tenant now)).map (·.backupJobId)
  · obtain ⟨t, ht, hjob⟩ := List.mem_map.mp hid
    obtain ⟨hmem, hexp⟩ := List.mem_filter.mp ht
    obtain ⟨htask, hjob'⟩ := (hall id).1 hid
    have hlife : taskLife s id = some (taskRowLife t) := by
      rw [← hjob]
      exact taskLife_of_mem hmem
    rw [hlife] at htask
    exact .inl ⟨t, hmem, hjob, hexp, hlife, htask, hjob'⟩
  · refine .inr ⟨?_, (hall id).2 hid⟩
    intro t ht hjob
    by_contra hexp
    exact hid (List.mem_map.mpr ⟨t, List.mem_filter.mpr ⟨ht, by simpa using hexp⟩, hjob⟩)

/-! ### Claims, cancels and plan edits -/

theorem claimNextTask_rewrites {s s' : Store} {tenant workerId token : String} {now expires : Time}
    {task : BackupTask} (h : s.claimNextTask tenant workerId token now expires = .ok (s', task)) :
    ∃ t ∈ s.tasks, t.tenantUid = tenant ∧ t.status = .queued ∧ task = claimedTask now expires t ∧
      SameKeys s s' ∧
      Rewrites s s' t.backupJobId
        (fun l => if l.status = .queued then { l with status := .leased, token := token } else l)
        (fun j => j) := by
  obtain ⟨t, ht, hten, hq, htask, htables⟩ := claimNextTask_ok h
  have htasks : s'.tasks = updateWhere (taskIn tenant t.id (·.status == .queued))
      (claimRow workerId token now expires) s.tasks := by rw [htables]
  have hjobs : s'.jobs = s.jobs := by rw [htables]
  have hsnaps : s'.snapshots = s.snapshots := by rw [htables]
  refine ⟨t, ht, hten, hq, htask, sameKeys_of_tasks htasks hjobs (fun _ => rfl), ?_, ?_,
    snapshotIds_congr hsnaps⟩
  · refine taskLife_updated ⟨t, ht, rfl, hten, rfl⟩ htasks (fun _ => rfl) ?_
    intro t
    unfold taskRowLife
    by_cases hq : t.status = .queued <;> simp [hq, claimRow]
  · intro id
    rw [if_map_id]
    exact jobLife_congr hjobs id

theorem cancelTaskRow_rewrites {s : Store} {tenant id jobId : String} (now : Time)
    (hown : Owned s tenant id jobId) :
    Rewrites s (s.cancelTaskRow tenant id now) jobId (·.ended .cancelled) (fun j => j) := by
  refine rewrites_task hown (updateTasks_tables _ _ _ _) (fun _ => rfl) ?_
  intro t
  unfold TaskLife.ended taskRowLife cancelledRow
  by_cases hq : t.status = .queued <;> simp [hq]

theorem cancelTaskJob_rewrites {s : Store} {tenant jobId : String} (now : Time)
    (hten : ∀ j ∈ s.jobs, j.id = jobId → j.tenantUid = tenant) :
    Rewrites s (s.cancelTaskJob tenant jobId now) jobId (fun t => t)
      (·.moved (· == .queued) .failed) := by
  refine rewrites_job hten (cancelTaskJob_tables _ _ _ _) (fun _ => rfl) ?_
  intro j
  unfold JobLife.moved jobRowLife cancelledJob
  by_cases hq : j.status = .queued <;> simp [hq]

/-- The bulk updates of a plan end the waiting rows of a life or leave the life alone. -/
theorem endWaiting_rows {s s' : Store} {tenant planId code : String} {status : TaskStatus}
    {validation : Option PlanPauseReason} {at_ : Time} (hp : Placed s)
    (htasks : s'.tasks = updateWhere (waitingTask tenant planId)
      (endWaitingTask status code validation at_) s.tasks)
    (hjobs : s'.jobs = updateWhere (waitingJob tenant planId) (endWaitingJob code at_) s.jobs)
    (id : String) :
    (taskLife s' id = taskLife s id ∧ jobLife s' id = jobLife s id) ∨
      (taskLife s' id = (taskLife s id).map (·.ended status) ∧
        jobLife s' id = (jobLife s id).map (·.moved (· == .queued) .failed)) := by
  have hfindT : s'.tasks.find? (·.backupJobId == id) = (s.tasks.find? (·.backupJobId == id)).map
      fun t => if waitingTask tenant planId t then endWaitingTask status code validation at_ t else t := by
    rw [htasks]
    apply find?_updateWhere
    intro t
    rfl
  have hfindJ : s'.jobs.find? (·.id == id) = (s.jobs.find? (·.id == id)).map
      fun j => if waitingJob tenant planId j then endWaitingJob code at_ j else j := by
    rw [hjobs]
    apply find?_updateWhere
    intro j
    rfl
  -- whether the rows are of the plan; a task and its job agree on that
  have htask : ∀ t : TaskRow, (t.tenantUid = tenant ∧ t.planId = planId →
      taskRowLife (if waitingTask tenant planId t then endWaitingTask status code validation at_ t else t) =
        (taskRowLife t).ended status) ∧
      (¬(t.tenantUid = tenant ∧ t.planId = planId) → waitingTask tenant planId t = false) := by
    intro t
    constructor
    · rintro ⟨h₁, h₂⟩
      unfold TaskLife.ended taskRowLife endWaitingTask
      by_cases hq : t.status = .queued <;> simp [waitingTask, h₁, h₂, hq]
    · intro hn
      simp only [waitingTask, Bool.and_eq_false_iff, beq_eq_false_iff_ne]
      tauto
  have hjob : ∀ j : JobRow, (j.tenantUid = tenant ∧ j.planId = planId →
      jobRowLife (if waitingJob tenant planId j then endWaitingJob code at_ j else j) =
        (jobRowLife j).moved (· == .queued) .failed) ∧
      (¬(j.tenantUid = tenant ∧ j.planId = planId) → waitingJob tenant planId j = false) := by
    intro j
    constructor
    · rintro ⟨h₁, h₂⟩
      unfold JobLife.moved jobRowLife endWaitingJob
      by_cases hq : j.status = .queued <;> simp [waitingJob, h₁, h₂, hq]
    · intro hn
      simp only [waitingJob, Bool.and_eq_false_iff, beq_eq_false_iff_ne]
      tauto
  unfold taskLife jobLife
  rw [hfindT, hfindJ]
  cases hj : s.jobs.find? (·.id == id) with
  | none =>
    cases ht : s.tasks.find? (·.backupJobId == id) with
    | none => exact .inl ⟨rfl, rfl⟩
    | some t =>
      by_cases hown : t.tenantUid = tenant ∧ t.planId = planId
      · exact .inr ⟨congrArg some ((htask t).1 hown), rfl⟩
      · left
        simp [(htask t).2 hown]
  | some j =>
    have hjm := List.mem_of_find?_eq_some hj
    have hjid : j.id = id := by simpa using List.find?_some hj
    cases ht : s.tasks.find? (·.backupJobId == id) with
    | none =>
      by_cases hown : j.tenantUid = tenant ∧ j.planId = planId
      · exact .inr ⟨rfl, congrArg some ((hjob j).1 hown)⟩
      · left
        simp [(hjob j).2 hown]
    | some t =>
      have htm := List.mem_of_find?_eq_some ht
      have htid : t.backupJobId = id := by simpa using List.find?_some ht
      obtain ⟨hten, -, hplan⟩ := hp.agree t htm j hjm (hjid.trans htid.symm)
      by_cases hown : t.tenantUid = tenant ∧ t.planId = planId
      · exact .inr ⟨congrArg some ((htask t).1 hown),
          congrArg some ((hjob j).1 ⟨hten.trans hown.1, hplan.trans hown.2⟩)⟩
      · left
        have hownJ : ¬(j.tenantUid = tenant ∧ j.planId = planId) := by
          rw [hten, hplan]
          exact hown
        simp [(htask t).2 hown, (hjob j).2 hownJ]

/-! ### New rows -/

theorem createBackupJob_rows {s s' : Store} {job : BackupJob} (h : s.createBackupJob job = .ok s') :
    jobLife s job.id = none ∧ jobLife s' job.id = some ⟨.queued, ""⟩ ∧
    (∀ id, job.id ≠ id → jobLife s' id = jobLife s id) ∧ (∀ id, taskLife s' id = taskLife s id) ∧
    ∀ id, snapshotIds s' id = snapshotIds s id := by
  have htables := createBackupJob_ok h
  have hjobs : s'.jobs = s.jobs ++ [jobRow job] := by rw [htables]
  have hnew : job.id ∉ s.jobs.map (·.id) := by
    have hpk := s'.jobs_pk
    rw [hjobs, List.map_append] at hpk
    intro hold
    exact List.disjoint_of_nodup_append hpk hold (by simp [jobRow])
  refine ⟨jobLife_none.mpr hnew, ?_, ?_, taskLife_congr (by rw [htables]),
    snapshotIds_congr (by rw [htables])⟩
  · have hmem : jobRow job ∈ s'.jobs := by
      rw [hjobs]
      exact List.mem_append_right _ (List.mem_singleton.mpr rfl)
    exact jobLife_of_mem hmem
  · intro id hne
    unfold jobLife
    rw [hjobs, List.find?_append]
    have hmiss : List.find? (·.id == id) [jobRow job] = none := by
      simp [jobRow, hne]
    rw [hmiss, Option.or_none]

theorem addTask_rows {s s' : Store} {task : BackupTask} {now : Time}
    (h : s.addTask task now = .ok s') :
    taskLife s task.backupJobId = none ∧
    taskLife s' task.backupJobId = some ⟨task.status, "", ""⟩ ∧
    (∀ id, task.backupJobId ≠ id → taskLife s' id = taskLife s id) ∧
    (∀ id, jobLife s' id = jobLife s id) ∧ ∀ id, snapshotIds s' id = snapshotIds s id := by
  have htables := addTask_ok h
  have htasks : s'.tasks = s.tasks ++ [taskRow task] := by rw [htables]
  have hnew : task.backupJobId ∉ s.tasks.map (·.backupJobId) := by
    have hpk := s'.tasks_job
    rw [htasks, List.map_append] at hpk
    intro hold
    exact List.disjoint_of_nodup_append hpk hold (by simp [taskRow])
  refine ⟨taskLife_none.mpr hnew, ?_, ?_, jobLife_congr (by rw [htables]),
    snapshotIds_congr (by rw [htables])⟩
  · have hmem : taskRow task ∈ s'.tasks := by
      rw [htasks]
      exact List.mem_append_right _ (List.mem_singleton.mpr rfl)
    exact taskLife_of_mem hmem
  · intro id hne
    unfold taskLife
    rw [htasks, List.find?_append]
    have hmiss : List.find? (·.backupJobId == id) [taskRow task] = none := by
      simp [taskRow, hne]
    rw [hmiss, Option.or_none]

end AppBackup.Queue
