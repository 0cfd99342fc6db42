import AppBackup.Queue.Rows
import AppBackup.Queue.Steps

/- What the threads know: the tenant they work for, and the columns of the rows they
   have read, which nobody writes. A task a worker executes is that of a row, a job an
   enqueue has created has no task before it adds one. `Known.step` is the step
   lemma.

   `Known.act`, `Known.enqueueJob`, `Known.added` and `Known.undoing` are about a statement of
   one thread; for the others it is enough that no key column changes (`Extends`). -/
namespace AppBackup.Queue
open Persistence Persistence.Store Table

/-! ## What the threads know -/

/-- The job `ExecuteJob` has read. -/
def Stage.job : Stage → Option BackupJob
  | starting job | running job => some job
  | _ => none

/-- The task a call of `execute` was given is that of a row. -/
def Execution.Reads (x : Execution) (s : Store) (tenant : String) : Prop :=
  ∃ t ∈ s.tasks, t.id = x.task.id ∧ t.tenantUid = tenant ∧
    t.backupJobId = x.task.backupJobId ∧ t.deployId = x.task.deployId

def Worker.Known (s : Store) (tenant : String) : Worker → Prop
  | .idle => True
  | .recovering uid | .marking uid | .claiming uid => tenant ≠ "" ∧ uid = tenant
  | .busy x => tenant ≠ "" ∧ x.uid = tenant ∧ x.Reads s tenant ∧
      ∀ job, x.stage.job = some job → job.id = x.task.backupJobId

def CancelCall.Known (s : Store) (tenant : String) : CancelCall → Prop
  | .idle => True
  | .updating id jobId _ | .failing id jobId _ => tenant ≠ "" ∧ Owned s tenant id jobId
  | _ => tenant ≠ ""

/-- The job is there and has no task yet. -/
def Unowned (s : Store) (tenant jobId : String) : Prop :=
  (∃ j ∈ s.jobs, j.id = jobId ∧ j.tenantUid = tenant) ∧ jobId ∉ s.tasks.map (·.backupJobId)

def EnqueueCall.Known (s : Store) (tenant : String) : EnqueueCall → Prop
  | .idle => True
  | .adding task => tenant ≠ "" ∧ task.tenantUid = tenant ∧ task.status = .queued ∧
      Unowned s tenant task.backupJobId ∧
      ∀ j ∈ s.jobs, j.id = task.backupJobId → j.deployId = task.deployId ∧ j.planId = task.planId
  | .undoing jobId => tenant ≠ "" ∧ Unowned s tenant jobId

/-- The job an enqueue has created and not finished with. -/
def EnqueueCall.pending : EnqueueCall → Option String
  | .idle => none
  | .adding task => some task.backupJobId
  | .undoing jobId => some jobId

structure Known (w : World) : Prop where
  placed : Placed w.store
  worker : ∀ i, (w.workers i).Known w.store w.tenant
  cancel : ∀ k, (w.cancels k).Known w.store w.tenant
  enqueue : ∀ k, (w.enqueues k).Known w.store w.tenant
  distinct : ∀ k k' id, (w.enqueues k).pending = some id → (w.enqueues k').pending = some id → k = k'

/-! ### Rows that are only added to -/

/-- Rows stay, with the columns nobody writes. -/
structure Extends (s s' : Store) : Prop where
  tasks : ∀ t ∈ s.tasks, ∃ t' ∈ s'.tasks, t'.keys = t.keys
  jobs : ∀ j ∈ s.jobs, ∃ j' ∈ s'.jobs, j'.keys = j.keys

theorem SameKeys.extends_ {s s' : Store} (h : SameKeys s s') : Extends s s' :=
  ⟨fun _ ht => exists_of_keys h.tasks.symm ht, fun _ hj => exists_of_keys h.jobs.symm hj⟩

theorem Extends.owned {s s' : Store} (h : Extends s s') {tenant id jobId : String}
    (hown : Owned s tenant id jobId) : Owned s' tenant id jobId := by
  obtain ⟨t, ht, hid, hten, hjob⟩ := hown
  obtain ⟨t', ht', hk⟩ := h.tasks t ht
  obtain ⟨hi, hn, -, -, hj, -⟩ := TaskRow.keys_eq.mp hk
  exact ⟨t', ht', hi.trans hid, hn.trans hten, hj.trans hjob⟩

theorem Extends.worker {s s' : Store} (h : Extends s s') {tenant : String} {worker : Worker}
    (hk : worker.Known s tenant) : worker.Known s' tenant := by
  cases worker with
  | busy x =>
    obtain ⟨hne, huid, ⟨t, ht, hid, hten, hjob, hdep⟩, hread⟩ := hk
    obtain ⟨t', ht', hkeys⟩ := h.tasks t ht
    obtain ⟨hi, hn, -, -, hj, hd⟩ := TaskRow.keys_eq.mp hkeys
    exact ⟨hne, huid, ⟨t', ht', hi.trans hid, hn.trans hten, hj.trans hjob, hd.trans hdep⟩, hread⟩
  | _ => exact hk

theorem Extends.cancel {s s' : Store} (h : Extends s s') {tenant : String} {call : CancelCall}
    (hk : call.Known s tenant) : call.Known s' tenant := by
  cases call with
  | updating => exact ⟨hk.1, h.owned hk.2⟩
  | failing => exact ⟨hk.1, h.owned hk.2⟩
  | _ => exact hk

theorem SameKeys.unowned {s s' : Store} (h : SameKeys s s') {tenant jobId : String}
    (hu : Unowned s tenant jobId) : Unowned s' tenant jobId := by
  obtain ⟨⟨j, hj, hid, hten⟩, hfree⟩ := hu
  obtain ⟨j', hj', hk⟩ := exists_of_keys h.jobs.symm hj
  obtain ⟨hi, hn, -, -⟩ := JobRow.keys_eq.mp hk
  exact ⟨⟨j', hj', hi.trans hid, hn.trans hten⟩, by rw [h.taskJobs]; exact hfree⟩

theorem SameKeys.enqueue {s s' : Store} (h : SameKeys s s') {tenant : String} {call : EnqueueCall}
    (hk : call.Known s tenant) : call.Known s' tenant := by
  cases call with
  | idle => exact trivial
  | adding task =>
    obtain ⟨hne, hten, hq, hu, hall⟩ := hk
    refine ⟨hne, hten, hq, h.unowned hu, ?_⟩
    intro j' hj' hid'
    obtain ⟨j, hj, hkeys⟩ := exists_of_keys h.jobs hj'
    obtain ⟨hi, -, hd, hp⟩ := JobRow.keys_eq.mp hkeys
    rw [← hd, ← hp]
    exact hall j hj (hi.trans hid')
  | undoing => exact ⟨hk.1, h.unowned hk.2⟩

/-! ### Known is kept -/

theorem Known.workerAt {w : World} {i : Nat} {worker : Worker} (h : Known w)
    (hi : w.workers i = worker) : worker.Known w.store w.tenant := hi ▸ h.worker i

theorem Known.cancelAt {w : World} {k : Nat} {call : CancelCall} (h : Known w)
    (hk : w.cancels k = call) : call.Known w.store w.tenant := hk ▸ h.cancel k

theorem Known.enqueueAt {w : World} {k : Nat} {call : EnqueueCall} (h : Known w)
    (hk : w.enqueues k = call) : call.Known w.store w.tenant := hk ▸ h.enqueue k

theorem Known.onStore {w : World} (h : Known w) {s : Store} (hs : SameKeys w.store s) :
    Known (w.onStore s) :=
  ⟨h.placed.sameKeys hs, fun i => hs.extends_.worker (h.worker i),
    fun k => hs.extends_.cancel (h.cancel k), fun k => hs.enqueue (h.enqueue k), h.distinct⟩

theorem Known.setWorker {w : World} (h : Known w) (i : Nat) {worker : Worker}
    (hw : worker.Known w.store w.tenant) : Known (w.setWorker i worker) := by
  refine ⟨h.placed, ?_, h.cancel, h.enqueue, h.distinct⟩
  intro n
  show (Function.update w.workers i worker n).Known w.store w.tenant
  by_cases hn : n = i
  · subst hn
    rw [Function.update_self]
    exact hw
  · rw [Function.update_of_ne hn]
    exact h.worker n

theorem Known.setCancel {w : World} (h : Known w) (k : Nat) {call : CancelCall}
    (hc : call.Known w.store w.tenant) : Known (w.setCancel k call) := by
  refine ⟨h.placed, h.worker, ?_, h.enqueue, h.distinct⟩
  intro n
  show (Function.update w.cancels k call n).Known w.store w.tenant
  by_cases hn : n = k
  · subst hn
    rw [Function.update_self]
    exact hc
  · rw [Function.update_of_ne hn]
    exact h.cancel n

/-- A write of one enqueue call, which comes to a job that is no other call's. -/
theorem Known.write {w : World} (h : Known w) {s : Store} (hp : Placed s) (hext : Extends w.store s)
    (k : Nat) {call : EnqueueCall} (hcall : call.Known s w.tenant)
    (hothers : ∀ n, n ≠ k → (w.enqueues n).Known s w.tenant ∧
      ∀ id, call.pending = some id → (w.enqueues n).pending ≠ some id) :
    Known ((w.onStore s).setEnqueue k call) := by
  have hother : ∀ n, n ≠ k → Function.update w.enqueues k call n = w.enqueues n := by
    intro n hn
    exact Function.update_of_ne hn _ _
  refine ⟨hp, fun i => hext.worker (h.worker i), fun n => hext.cancel (h.cancel n), ?_, ?_⟩
  · intro n
    show (Function.update w.enqueues k call n).Known s w.tenant
    by_cases hn : n = k
    · subst hn
      rw [Function.update_self]
      exact hcall
    · rw [hother n hn]
      exact (hothers n hn).1
  · intro n n' id hn hn'
    change (Function.update w.enqueues k call n).pending = some id at hn
    change (Function.update w.enqueues k call n').pending = some id at hn'
    by_cases he : n = k
    · by_cases he' : n' = k
      · rw [he, he']
      · rw [he, Function.update_self] at hn
        rw [hother n' he'] at hn'
        exact absurd hn' ((hothers n' he').2 id hn)
    · rw [hother n he] at hn
      by_cases he' : n' = k
      · rw [he', Function.update_self] at hn'
        exact absurd hn ((hothers n he).2 id hn')
      · rw [hother n' he'] at hn'
        exact h.distinct n n' id hn hn'

theorem Known.setEnqueue {w : World} (h : Known w) (k : Nat) {call : EnqueueCall}
    (hc : call.Known w.store w.tenant)
    (hp : ∀ id, call.pending = some id → (w.enqueues k).pending = some id) :
    Known (w.setEnqueue k call) := by
  refine h.write h.placed (SameKeys.refl w.store).extends_ k hc ?_
  intro n hn
  refine ⟨h.enqueue n, ?_⟩
  intro id hid hn'
  exact hn (h.distinct n k id hn' (hp id hid))

/-! ## What `execute` reads -/

theorem backupJob_id {s : Store} {tenant id : String} {job : BackupJob}
    (h : s.backupJob tenant id = .ok job) : job.id = id := by
  unfold Store.backupJob at h
  split at h
  · next r hr =>
    cases h
    exact (jobIn_iff.mp (List.find?_some hr)).1
  · cases h

theorem acts_sameKeys {x : Execution} {s s' : Store} {tenant : String} {a : ExecAct} {stage : Stage}
    (h : x.Acts s tenant a s' stage) : SameKeys s s' := by
  cases h with
  | precheck => exact sameKeys_next s rfl
  | started hx hd hs =>
    exact sameKeys_apply (.startBackupJob tenant x.task.backupJobId _) hs rfl
  | committed hx hd hs => exact sameKeys_apply (.commitSnapshot _) hs rfl
  | failed => exact sameKeys_next s rfl
  | validated => exact sameKeys_next s rfl
  | paused => exact sameKeys_next s rfl
  | closed =>
    rename_i c _
    refine sameKeys_next s ?_
    cases c <;> rfl
  | _ => exact SameKeys.refl s

theorem acts_job {x : Execution} {s s' : Store} {tenant : String} {a : ExecAct} {stage : Stage}
    (h : x.Acts s tenant a s' stage)
    (hk : ∀ job, x.stage.job = some job → job.id = x.task.backupJobId) :
    ∀ job, stage.job = some job → job.id = x.task.backupJobId := by
  cases h with
  | read hx hd hj =>
    intro job hjob
    cases hjob
    exact backupJob_id hj
  | started hx hd hs =>
    rename_i job _
    have hid := hk job (by rw [hx]; rfl)
    intro job' hjob
    cases hjob
    exact hid
  | settled hx now =>
    intro job hjob
    rename_i err
    cases err with
    | none => cases hjob
    | some err =>
      unfold Execution.afterReturn at hjob
      simp only at hjob
      split at hjob
      · cases hjob
      · split at hjob
        · cases hjob
        · cases hjob
  | _ =>
    intro job hjob
    cases hjob

/-! ## Every step -/

theorem Known.of_idle {w : World} (hp : Placed w.store) (hw : ∀ i, w.workers i = .idle)
    (hc : ∀ k, w.cancels k = .idle) (he : ∀ k, w.enqueues k = .idle) : Known w := by
  refine ⟨hp, ?_, ?_, ?_, ?_⟩
  · intro i
    rw [hw]
    exact trivial
  · intro k
    rw [hc]
    exact trivial
  · intro k
    rw [he]
    exact trivial
  · intro k k' id hk
    rw [he] at hk
    cases hk

/-- A process that is bound to no user has no thread at work. -/
theorem Known.idle {w : World} (h : Known w) (ht : w.tenant = "") :
    (∀ i, w.workers i = .idle) ∧ (∀ k, w.cancels k = .idle) ∧ ∀ k, w.enqueues k = .idle := by
  refine ⟨?_, ?_, ?_⟩
  · intro i
    have hk := h.worker i
    cases hw : w.workers i with
    | idle => rfl
    | _ =>
      rw [hw] at hk
      exact absurd ht hk.1
  · intro k
    have hk := h.cancel k
    cases hc : w.cancels k with
    | idle => rfl
    | updating | failing =>
      rw [hc] at hk
      exact absurd ht hk.1
    | _ =>
      rw [hc] at hk
      exact absurd ht hk
  · intro k
    have hk := h.enqueue k
    cases he : w.enqueues k with
    | idle => rfl
    | _ =>
      rw [he] at hk
      exact absurd ht hk.1

theorem placed_empty : Placed Store.empty := by
  refine ⟨?_, ?_, ?_⟩
  · intro t ht
    cases ht
  · intro t ht
    cases ht
  · intro j hj
    cases hj

theorem Known.fresh {w : World} (h : w.Fresh) : Known w := by
  obtain ⟨lease, rfl⟩ := h
  exact Known.of_idle placed_empty (fun _ => rfl) (fun _ => rfl) (fun _ => rfl)

theorem owned_of_task {s : Store} {tenant id : String} {task : BackupTask}
    (h : s.task tenant id = .ok task) : Owned s tenant id task.backupJobId ∧
      ∃ t ∈ s.tasks, t.id = id ∧ t.tenantUid = tenant ∧ task = scanTask t := by
  unfold Store.task at h
  split at h
  · next t hf =>
    cases h
    obtain ⟨hten, hid, -⟩ := Store.taskIn_iff.mp (List.find?_some hf)
    have ht := List.mem_of_find?_eq_some hf
    exact ⟨⟨t, ht, hid, hten, rfl⟩, t, ht, hid, hten, rfl⟩
  · cases h

theorem Known.act {w : World} {i : Nat} {x : Execution} {a : ExecAct} {s : Store} {stage : Stage}
    (tickers : List (String × String × String)) (h : Known w) (hi : w.workers i = .busy x)
    (ha : x.Acts w.store w.tenant a s stage) : Known (w.afterAct i x s stage tickers) := by
  have hx := h.workerAt hi
  obtain ⟨hne, huid, hreads, hjob⟩ := hx
  have hkeys := acts_sameKeys ha
  have hjob' := acts_job ha hjob
  have hworker : (Worker.busy { x with stage := stage }).Known w.store w.tenant :=
    ⟨hne, huid, hreads, hjob'⟩
  have hk := (h.onStore hkeys).setWorker i (hkeys.extends_.worker hworker)
  exact ⟨hk.placed, hk.worker, hk.cancel, hk.enqueue, hk.distinct⟩

theorem Known.claimed {w : World} {i : Nat} {uid workerId token : String} {now : Time} {s : Store}
    {task : BackupTask} (h : Known w) (hi : w.workers i = .claiming uid)
    (hs : w.store.claimNextTask uid workerId token now (now + w.lease) = .ok (s, task)) :
    Known ((w.onStore s).begin i token task) := by
  have hw := h.workerAt hi
  obtain ⟨hne, rfl⟩ := hw
  obtain ⟨t, ht, hten, -, rfl, hkeys, -⟩ := claimNextTask_rewrites hs
  obtain ⟨t', ht', hk⟩ := exists_of_keys hkeys.tasks.symm ht
  obtain ⟨hid, hn, -, -, hj, hd⟩ := TaskRow.keys_eq.mp hk
  have huid : (if t.tenantUid = "" then w.tenant else t.tenantUid) = w.tenant := by
    rw [hten, ite_self]
  have hk₁ := h.onStore hkeys
  have hk₂ : Known { w.onStore s with nextCtx := w.nextCtx + 1 } :=
    ⟨hk₁.placed, hk₁.worker, hk₁.cancel, hk₁.enqueue, hk₁.distinct⟩
  refine hk₂.setWorker i ⟨hne, huid, ⟨t', ht', hid, hn.trans hten, hj, hd⟩, ?_⟩
  intro job hjob
  cases hjob

theorem Placed.unowned {s : Store} (h : Placed s) {x : String}
    (hnew : "backup" ++ "-" ++ x ∉ s.jobs.map (·.id)) :
    "backup" ++ "-" ++ x ∉ s.tasks.map (·.backupJobId) := by
  intro hmem
  obtain ⟨t, ht, hjob⟩ := List.mem_map.mp hmem
  rcases h.placed t ht with hold | ⟨y, hy⟩
  · exact hnew (hjob ▸ hold)
  · exact skipped_ne_backup y x (hy.symm.trans hjob)

theorem extends_newJob {s s' : Store} {j : JobRow}
    (h : s'.toTables = { s.toTables with jobs := s.jobs ++ [j] }) : Extends s s' := by
  refine ⟨?_, ?_⟩
  · intro t ht
    exact ⟨t, by rw [h]; exact ht, rfl⟩
  · intro j' hj'
    exact ⟨j', by rw [h]; exact List.mem_append_left _ hj', rfl⟩

theorem extends_newTask {s s' : Store} {task : BackupTask} {now : Time}
    (h : s.addTask task now = .ok s') : Extends s s' := by
  have ht := addTask_ok h
  refine ⟨?_, ?_⟩
  · intro t hmem
    exact ⟨t, by rw [ht]; exact List.mem_append_left _ hmem, rfl⟩
  · intro j hj
    exact ⟨j, by rw [ht]; exact hj, rfl⟩

/-- A job that was there and had no task still has none when another job is added. -/
theorem enqueue_newJob {s s' : Store} {j : JobRow} {tenant : String} {call : EnqueueCall}
    (h : s'.toTables = { s.toTables with jobs := s.jobs ++ [j] }) (hnew : j.id ∉ s.jobs.map (·.id))
    (hk : call.Known s tenant) : call.Known s' tenant ∧ call.pending ≠ some j.id := by
  have htasks : s'.tasks = s.tasks := by rw [h]
  have hjobs : s'.jobs = s.jobs ++ [j] := by rw [h]
  have hun : ∀ {jobId}, Unowned s tenant jobId → Unowned s' tenant jobId ∧ jobId ≠ j.id := by
    intro jobId hu
    obtain ⟨⟨j₀, hj₀, hid, hten⟩, hfree⟩ := hu
    refine ⟨⟨⟨j₀, by rw [hjobs]; exact List.mem_append_left _ hj₀, hid, hten⟩,
      by rw [htasks]; exact hfree⟩, ?_⟩
    intro he
    exact hnew (List.mem_map.mpr ⟨j₀, hj₀, hid.trans he⟩)
  cases call with
  | idle => exact ⟨trivial, fun hp => by cases hp⟩
  | adding task =>
    obtain ⟨hne, hten, hq, hu, hall⟩ := hk
    obtain ⟨hu', hdiff⟩ := hun hu
    refine ⟨⟨hne, hten, hq, hu', ?_⟩, ?_⟩
    · intro j' hj' hid'
      rw [hjobs] at hj'
      rcases List.mem_append.mp hj' with hold | hlast
      · exact hall j' hold hid'
      · rw [List.mem_singleton.mp hlast] at hid'
        exact absurd hid'.symm hdiff
    · intro hp
      exact hdiff (Option.some.inj hp)
  | undoing jobId =>
    obtain ⟨hu', hdiff⟩ := hun hk.2
    refine ⟨⟨hk.1, hu'⟩, ?_⟩
    intro hp
    exact hdiff (Option.some.inj hp)

theorem Placed.newJob {s s' : Store} {j : JobRow} {x : String} (h : Placed s)
    (htables : s'.toTables = { s.toTables with jobs := s.jobs ++ [j] })
    (hid : j.id = "backup" ++ "-" ++ x) (hfree : j.id ∉ s.tasks.map (·.backupJobId)) : Placed s' := by
  have htasks : s'.tasks = s.tasks := by rw [htables]
  have hjobs : s'.jobs = s.jobs ++ [j] := by rw [htables]
  refine ⟨?_, ?_, ?_⟩
  · intro t ht j' hj' he
    rw [htasks] at ht
    rw [hjobs] at hj'
    rcases List.mem_append.mp hj' with hold | hlast
    · exact h.agree t ht j' hold he
    · rw [List.mem_singleton.mp hlast] at he
      exact absurd (List.mem_map.mpr ⟨t, ht, he.symm⟩) hfree
  · intro t ht
    rw [htasks] at ht
    rw [hjobs, List.map_append]
    exact (h.placed t ht).imp_left (List.mem_append_left _)
  · intro j' hj'
    rw [hjobs] at hj'
    rcases List.mem_append.mp hj' with hold | hlast
    · exact h.named j' hold
    · rw [List.mem_singleton.mp hlast]
      exact ⟨x, hid⟩

theorem Known.enqueueJob {w : World} {k : Nat} {batch : BackupBatch}
    {instance_ : ApplicationInstance} {terms : Terms} {draw : Draw} {taskId : String}
    {job : BackupJob} {s : Store} (h : Known w)
    (hc : createJob w.store w.tenant instance_.deployId terms.sharedRiskAccepted terms.subject
      terms.role batch.planId batch.id taskId batch.triggerType batch.scheduledAt terms.scope
      draw = .ok (job, s)) :
    Known ((w.onStore s).setEnqueue k
      (.adding (queuedTask w.tenant taskId job.id batch instance_ terms (draw.now 1)))) := by
  obtain ⟨i, x, hfound, -, -, hjob, hcreate⟩ := createJob_ok hc
  have htables := createBackupJob_ok hcreate
  have hnew : (jobRow job).id ∉ w.store.jobs.map (·.id) :=
    jobLife_none.mp (createBackupJob_rows hcreate).1
  have hid : (jobRow job).id = "backup" ++ "-" ++ x := by rw [hjob]; rfl
  have hfree : (jobRow job).id ∉ w.store.tasks.map (·.backupJobId) := by
    rw [hid] at hnew ⊢
    exact h.placed.unowned hnew
  have htasks : s.tasks = w.store.tasks := by rw [htables]
  have hmem : jobRow job ∈ s.jobs := by
    rw [htables]
    exact List.mem_append_right _ (List.mem_singleton.mpr rfl)
  have hne : w.tenant ≠ "" := by
    unfold Store.createBackupJob at hcreate
    split at hcreate
    · cases hcreate
    · next hvalid =>
      rw [hjob] at hvalid
      exact fun he => hvalid (.inr (.inl he))
  refine h.write (h.placed.newJob htables hid hfree) (extends_newJob htables) k ?_ ?_
  · refine ⟨hne, rfl, rfl, ⟨⟨jobRow job, hmem, rfl, by rw [hjob]; rfl⟩, by rw [htasks]; exact hfree⟩, ?_⟩
    intro j hj he
    obtain rfl : j = jobRow job := eq_of_key s.jobs_pk hj hmem he
    rw [hjob]
    exact ⟨instance_deployId hfound, rfl⟩
  · intro n _
    obtain ⟨hk, hdiff⟩ := enqueue_newJob htables hnew (h.enqueue n)
    refine ⟨hk, ?_⟩
    intro id hid'
    cases hid'
    exact hdiff

/-! ### A new task -/

/-- The task of an enqueued job is placed, and so is one recorded as skipped. -/
theorem Placed.newTask {s s' : Store} {task : BackupTask} {now : Time} (h : Placed s)
    (hadd : s.addTask task now = .ok s')
    (hagree : ∀ j ∈ s.jobs, j.id = task.backupJobId → j.tenantUid = task.tenantUid ∧
      j.deployId = task.deployId ∧ j.planId = task.planId)
    (hplaced : task.backupJobId ∈ s.jobs.map (·.id) ∨ ∃ x, task.backupJobId = "skipped-" ++ x) :
    Placed s' := by
  have ht := addTask_ok hadd
  have htasks : s'.tasks = s.tasks ++ [taskRow task] := by rw [ht]
  have hjobs : s'.jobs = s.jobs := by rw [ht]
  refine ⟨?_, ?_, ?_⟩
  · intro t hmem j hj he
    rw [htasks] at hmem
    rw [hjobs] at hj
    rcases List.mem_append.mp hmem with hold | hlast
    · exact h.agree t hold j hj he
    · rw [List.mem_singleton.mp hlast] at he ⊢
      exact hagree j hj he
  · intro t hmem
    rw [htasks] at hmem
    rw [hjobs]
    rcases List.mem_append.mp hmem with hold | hlast
    · exact h.placed t hold
    · rw [List.mem_singleton.mp hlast]
      exact hplaced
  · intro j hj
    rw [hjobs] at hj
    exact h.named j hj

/-- A job that has no task has none when the task of another job is added. -/
theorem enqueue_newTask {s s' : Store} {task : BackupTask} {now : Time} {tenant : String}
    {call : EnqueueCall} (hadd : s.addTask task now = .ok s')
    (hne : call.pending ≠ some task.backupJobId) (hk : call.Known s tenant) :
    call.Known s' tenant := by
  have ht := addTask_ok hadd
  have htasks : s'.tasks = s.tasks ++ [taskRow task] := by rw [ht]
  have hjobs : s'.jobs = s.jobs := by rw [ht]
  have hun : ∀ {jobId}, jobId ≠ task.backupJobId → Unowned s tenant jobId → Unowned s' tenant jobId := by
    intro jobId hdiff hu
    refine ⟨by rw [hjobs]; exact hu.1, ?_⟩
    rw [htasks, List.map_append]
    intro hmem
    rcases List.mem_append.mp hmem with hold | hlast
    · exact hu.2 hold
    · exact hdiff (List.mem_singleton.mp hlast)
  cases call with
  | idle => exact trivial
  | adding task' =>
    obtain ⟨hne', hten, hq, hu, hall⟩ := hk
    refine ⟨hne', hten, hq, hun ?_ hu, ?_⟩
    · intro he
      exact hne (congrArg some he)
    · rw [hjobs]
      exact hall
  | undoing jobId =>
    refine ⟨hk.1, hun ?_ hk.2⟩
    intro he
    exact hne (congrArg some he)

theorem Known.undoing {w : World} {k : Nat} {task : BackupTask} (h : Known w)
    (hi : w.enqueues k = .adding task) : Known (w.setEnqueue k (.undoing task.backupJobId)) := by
  have hk := h.enqueueAt hi
  refine h.setEnqueue k ⟨hk.1, hk.2.2.2.1⟩ ?_
  intro id hid
  rw [hi]
  exact hid

theorem Known.added {w : World} {k : Nat} {task : BackupTask} {now : Time} {s : Store} (h : Known w)
    (hi : w.enqueues k = .adding task) (hadd : w.store.addTask task now = .ok s) :
    Known ((w.onStore s).setEnqueue k .idle) := by
  have hk := h.enqueueAt hi
  obtain ⟨hne, hten, -, hu, hall⟩ := hk
  have hplaced : Placed s := by
    refine h.placed.newTask hadd ?_ ?_
    · intro j hj he
      obtain ⟨⟨j₀, hj₀, hid₀, hten₀⟩, -⟩ := hu
      obtain rfl : j = j₀ := eq_of_key w.store.jobs_pk hj hj₀ (he.trans hid₀.symm)
      exact ⟨hten₀.trans hten.symm, hall j hj he⟩
    · obtain ⟨⟨j, hj, hid, -⟩, -⟩ := hu
      exact .inl (List.mem_map.mpr ⟨j, hj, hid⟩)
  refine h.write hplaced (extends_newTask hadd) k trivial ?_
  intro n hn
  refine ⟨enqueue_newTask hadd ?_ (h.enqueue n), fun id hid => by cases hid⟩
  intro hp
  exact hn (h.distinct n k _ hp (by rw [hi]; rfl))

theorem Known.skipTask {w : World} {s : Store} {batch : BackupBatch}
    {instance_ : ApplicationInstance} {code : String} {scope : BackupScope}
    {validation : Option PlanPauseReason} {draw : Draw} (h : Known w)
    (hs : recordSkipped w.store w.tenant batch instance_ code scope validation draw = .ok s) :
    Known (w.onStore s) := by
  obtain ⟨id, -, hadd⟩ := recordSkipped_ok hs
  have hother : ∀ j ∈ w.store.jobs, j.id ≠ "skipped-" ++ id := by
    intro j hj he
    obtain ⟨x, hx⟩ := h.placed.named j hj
    exact skipped_ne_backup id x (he.symm.trans hx)
  have hext := extends_newTask hadd
  refine ⟨?_, fun i => hext.worker (h.worker i), fun k => hext.cancel (h.cancel k), ?_, h.distinct⟩
  · refine h.placed.newTask hadd ?_ (.inr ⟨id, rfl⟩)
    intro j hj he
    exact absurd he (hother j hj)
  · intro k
    refine enqueue_newTask hadd ?_ (h.enqueue k)
    intro hp
    change (w.enqueues k).pending = some ("skipped-" ++ id) at hp
    have hk := h.enqueue k
    cases he : w.enqueues k with
    | idle =>
      rw [he] at hp
      cases hp
    | adding task =>
      rw [he] at hp hk
      obtain ⟨j, hj, hid, -⟩ := hk.2.2.2.1.1
      exact hother j hj (hid.trans (Option.some.inj hp))
    | undoing jobId =>
      rw [he] at hp hk
      obtain ⟨j, hj, hid, -⟩ := hk.2.1
      exact hother j hj (hid.trans (Option.some.inj hp))

/-! ### The step lemma -/

theorem Known.next {w : World} (h : Known w) (op : Op) (hop : addsRow op = false) :
    Known (w.onStore (op.next w.store)) := h.onStore (sameKeys_next w.store hop)

theorem worker_interrupted {s : Store} {tenant : String} {worker : Worker} (ctx : Nat)
    (h : worker.Known s tenant) : (worker.interrupted ctx).Known s tenant := by
  cases worker with
  | busy x => exact h
  | _ => exact h

theorem Known.withMemory {w : World} (h : Known w) (requeued : List String)
    (cancelByID : String → Option Nat) :
    Known { w with requeued := requeued, cancelByID := cancelByID } :=
  ⟨h.placed, h.worker, h.cancel, h.enqueue, h.distinct⟩

theorem Known.step {w w' : World} {a : Action} (h : Known w) (hs : w.Steps a w') : Known w' := by
  cases hs with
  | bind hu ht =>
    obtain ⟨hw, hc, he⟩ := h.idle ht
    exact Known.of_idle h.placed hw hc he
  -- the first statement of a process: no thread is at work, and a recovery keeps the keys
  | boot hu ht hs =>
    obtain ⟨hw, hc, he⟩ := h.idle ht
    exact Known.of_idle (h.placed.sameKeys (sameKeys_requeue hs)) hw hc he
  | crash => exact Known.of_idle h.placed (fun _ => rfl) (fun _ => rfl) (fun _ => rfl)
  | unready => exact h
  | ready hi ht hr => exact h.setWorker _ ⟨ht, rfl⟩
  | stale hi ht hr => exact h.setWorker _ ⟨ht, rfl⟩
  | unrecovered => exact h.setWorker _ trivial
  | recovered hi hs =>
    have hw := h.workerAt hi
    exact (h.onStore (sameKeys_requeue hs)).setWorker _ hw
  | mark hi =>
    have hw := h.workerAt hi
    exact (h.withMemory _ w.cancelByID).setWorker _ hw
  | unclaimed => exact h.setWorker _ trivial
  | claimed hi hx hs => exact h.claimed hi hs
  | register hi hx =>
    have hw := h.workerAt hi
    refine (h.withMemory w.requeued _).setWorker _ ⟨hw.1, hw.2.1, hw.2.2.1, ?_⟩
    intro job hj
    cases hj
  | timeout hi hx =>
    have hw := h.workerAt hi
    exact h.setWorker _ hw
  | leave => exact (h.withMemory w.requeued _).setWorker _ trivial
  | act tickers hi ha => exact h.act tickers hi ha
  | heartbeat uid id token =>
    exact h.next (.heartbeatTask uid id token _ _) rfl
  | cancel hk ht => exact h.setCancel _ ht
  | cancelRefused => exact h.setCancel _ trivial
  -- what `Cancel` has read of its task is the row of its job
  | cancelWaiting hk hr hq =>
    have hc := h.cancelAt hk
    exact h.setCancel _ ⟨hc, (owned_of_task hr).1⟩
  | cancelLeased hk hr hl =>
    have hc := h.cancelAt hk
    exact h.setCancel _ hc
  | cancelRow hk =>
    rename_i k id jobId now
    have hc := h.cancelAt hk
    have hkeys : SameKeys w.store (w.store.cancelTaskRow w.tenant id now) :=
      sameKeys_of_tasks rfl rfl (fun _ => rfl)
    exact (h.onStore hkeys).setCancel k ⟨hc.1, hc.2.sameKeys hkeys⟩
  | cancelJob hk =>
    rename_i k id jobId now
    have hc := h.cancelAt hk
    have ht := cancelTaskJob_tables w.store w.tenant jobId now
    have htasks : (w.store.cancelTaskJob w.tenant jobId now).tasks = w.store.tasks := by rw [ht]
    have hjobs : (w.store.cancelTaskJob w.tenant jobId now).jobs =
        updateWhere (jobIn w.tenant jobId (· == .queued)) (cancelledJob now) w.store.jobs := by
      rw [ht]
    exact (h.onStore (sameKeys_of_jobs htasks hjobs (fun _ => rfl))).setCancel k hc.1
  | cancelMissed => exact h.setCancel _ trivial
  | cancelFound hk hm =>
    have hc := h.cancelAt hk
    exact h.setCancel _ hc
  -- the contexts of the calls are no rows
  | cancelCall hk =>
    rename_i k id ctx
    have hk : Known { w with workers := fun i => (w.workers i).interrupted ctx } :=
      ⟨h.placed, fun i => worker_interrupted ctx (h.worker i), h.cancel, h.enqueue, h.distinct⟩
    exact hk.setCancel k trivial
  | hangUp => exact h.setCancel _ trivial
  | manualRetry => exact h.next _ rfl
  | createPlan => exact h.next _ rfl
  | updatePlan => exact h.next _ rfl
  | pausePlan => exact h.next _ rfl
  | createBatch => exact h.next _ rfl
  | enqueueJob hk hc => exact h.enqueueJob hc
  | unadded hk => exact h.undoing hk
  | added hk hs => exact h.added hk hs
  | enqueueFails hk => exact h.undoing hk
  | undoJob => exact (h.next _ rfl).setEnqueue _ trivial (fun id hid => by cases hid)
  | keepJob => exact h.setEnqueue _ trivial (fun id hid => by cases hid)
  | skipTask hs => exact h.skipTask hs
  | library => exact h.onStore ⟨rfl, rfl⟩

end AppBackup.Queue
