import AppBackup.Persistence.Ops

/- An instance that is busy. `backup_jobs_active_instance_idx` keeps an instance to one
   active job, and three operations can run into it: `CreateBackupJob` looks for an active
   job first and reports a conflict, `RetryTask` and `ResetTaskForManualRetry` put the job of
   their task back and hand on the error SQLite refuses the update with. Each of them rolls
   back. -/
namespace AppBackup.Queue
open Persistence Table

/-- An active job holds the instance. -/
def Busy (s : Store) (instance_ : String × String) : Prop :=
  ∃ j ∈ s.jobs, j.isActive = true ∧ j.instance = instance_

/-- The job of the task has failed, and another job holds its instance. -/
def ReopensBusy (s : Store) (t : TaskRow) : Prop :=
  ∃ j ∈ s.jobs, j.id = t.backupJobId ∧ j.tenantUid = t.tenantUid ∧ j.status = .failed ∧ Busy s j.instance

/-- The operation would give an instance a second active job. -/
def Doubles (s : Store) : Op → Prop
  | .createBackupJob job =>
    (job.id ≠ "" ∧ job.tenantUid ≠ "" ∧ job.appId ≠ "" ∧ job.deployId ≠ "" ∧ job.status = .queued) ∧
      Busy s (job.tenantUid, job.deployId)
  | .retryTask tenant id token .. =>
    ∃ t ∈ s.tasks, taskIn tenant id (·.leaseToken == token) t = true ∧ ReopensBusy s t
  | .resetTaskForManualRetry tenant id _ =>
    ∃ t ∈ s.tasks, taskIn tenant id (fun t => resettable.contains t.status) t = true ∧ ReopensBusy s t
  | _ => False

instance (s : Store) (instance_ : String × String) : Decidable (Busy s instance_) :=
  inferInstanceAs (Decidable (∃ j ∈ s.jobs, _ ∧ _))

instance (s : Store) (t : TaskRow) : Decidable (ReopensBusy s t) :=
  inferInstanceAs (Decidable (∃ j ∈ s.jobs, _ ∧ _ ∧ _ ∧ _))

instance (s : Store) (op : Op) : Decidable (Doubles s op) := by
  unfold Doubles
  split <;> infer_instance

/-! ## What each of them returns -/

theorem createBackupJob_busy {s : Store} {job : BackupJob} (h : Doubles s (.createBackupJob job)) :
    s.createBackupJob job = .error .conflict := by
  obtain ⟨⟨hid, hten, happ, hdeploy, hstatus⟩, j, hj, hactive, hinstance⟩ := h
  have hvalid : ¬(job.id = "" ∨ job.tenantUid = "" ∨ job.appId = "" ∨ job.deployId = "" ∨
      job.status ≠ .queued) := by
    simp [hid, hten, happ, hdeploy, hstatus]
  have hfound : (s.jobs.any fun j =>
      j.tenantUid == job.tenantUid && j.deployId == job.deployId && j.isActive) = true := by
    obtain ⟨htenant, hdeployed⟩ := Prod.mk.inj hinstance
    refine List.any_eq_true.mpr ⟨j, hj, ?_⟩
    simp [htenant, hdeployed, hactive]
  unfold Store.createBackupJob
  rw [if_neg hvalid, if_pos hfound]

/-- The update that puts a failed job back is refused where another job holds the instance. -/
theorem requeue_refused {s : Store} {j : JobRow} {clearStart : Bool} (hj : j ∈ s.jobs) (hstatus : j.status = .failed)
    (hbusy : Busy s j.instance) :
    s.updateJobs (jobIn j.tenantUid j.id (· == .failed)) (.requeued clearStart) (fun _ => rfl) =
      .error (.unique "backup_jobs_active_instance_idx") := by
  obtain ⟨other, hother, hactive, hinstance⟩ := hbusy
  unfold Store.updateJobs
  refine dif_neg fun hnodup => ?_
  have hback : j.requeued clearStart ∈
      updateWhere (jobIn j.tenantUid j.id (· == .failed)) (.requeued clearStart) s.jobs := by
    refine mem_updateWhere_hit hj (Store.jobIn_iff.mpr ⟨rfl, rfl, ?_⟩)
    rw [hstatus]
    rfl
  have hlive : other.status ≠ .failed := by
    intro he
    unfold JobRow.isActive at hactive
    rw [he] at hactive
    cases hactive
  have hstays : other ∈ updateWhere (jobIn j.tenantUid j.id (· == .failed)) (.requeued clearStart) s.jobs := by
    refine mem_updateWhere_miss hother ?_
    by_contra hhit
    exact hlive (beq_iff_eq.mp (Store.jobIn_iff.mp (by simpa using hhit)).2.2)
  -- both would be active, and the index names one row
  have hsame := eq_of_indexKey hnodup hback hstays rfl hactive hinstance.symm
  have hid : (j.requeued clearStart).id = other.id := by rw [hsame]
  obtain rfl := eq_of_key s.jobs_pk hj hother hid
  exact hlive hstatus

/-- A closing transaction that puts the job of its task back is refused with the error of the
index. -/
theorem closeTask_refused {s : Store} {tenant id : String} {guard : TaskRow → Bool} {missing : StoreError}
    {m : TaskMove} {now : Time} {clearStart : Bool} (hm : m.requeueJob = some (.failed, clearStart)) {t : TaskRow}
    (ht : t ∈ s.tasks) (hin : taskIn tenant id guard t = true) (hbusy : ReopensBusy s t) :
    s.closeTask tenant id guard missing m now = .error (.unique "backup_jobs_active_instance_idx") := by
  obtain ⟨hten, hid, -⟩ := Store.taskIn_iff.mp hin
  obtain ⟨j, hj, hjob, hjten, hstatus, hheld⟩ := hbusy
  unfold Store.closeTask
  rw [if_neg (not_not.mpr (Store.countP_taskIn ht hin)), Store.find?_taskIn ht hid hten]
  simp only
  unfold Store.runMove
  have hjobs : ∀ s' : Store, s'.jobs = s.jobs →
      s'.moveTaskJob tenant t.backupJobId m = .error (.unique "backup_jobs_active_instance_idx") := by
    intro s' hs'
    unfold Store.moveTaskJob
    rw [hm]
    simp only
    rw [← hten, ← hjten, ← hjob]
    refine requeue_refused (by rw [hs']; exact hj) hstatus ?_
    obtain ⟨other, hother, hheld⟩ := hheld
    exact ⟨other, by rw [hs']; exact hother, hheld⟩
  rw [hjobs]
  unfold Store.moveAttempts
  cases m.endAttempt with
  | none => rfl
  | some e => rfl

theorem retry_refused {s : Store} {op : Op} (h : Doubles s op) (hop : ∀ job, op ≠ .createBackupJob job) :
    op.apply s = .error (.unique "backup_jobs_active_instance_idx") := by
  cases op with
  | createBackupJob job => exact absurd rfl (hop job)
  | retryTask tenant id token code availableAt now =>
    obtain ⟨t, ht, hin, hbusy⟩ := h
    exact closeTask_refused rfl ht hin hbusy
  | resetTaskForManualRetry tenant id now =>
    obtain ⟨t, ht, hin, hbusy⟩ := h
    exact closeTask_refused rfl ht hin hbusy
  | _ => exact h.elim

theorem next_of_error {s : Store} {op : Op} {e : StoreError} (h : op.apply s = .error e) : op.next s = s := by
  unfold Op.next
  rw [h]

/-! ## A retry by hand -/

/-- `Retry`: the task as it is read back, or the error, and the database. -/
def retry (s : Store) (tenant id : String) (now : Time) : Except StoreError BackupTask × Store :=
  match s.task tenant id with
  | .error e => (.error e, s)
  | .ok task =>
    if task.status ≠ .failed ∧ task.status ≠ .timedOut ∧ task.status ≠ .interrupted ∧
      task.status ≠ .cancelled then
      (.error .conflict, s)
    else
      match s.resetTaskForManualRetry tenant id now with
      | .error e => (.error e, s)
      | .ok s' => (s'.task tenant id, s')

/-- What `phase4Error` tells errors apart by: the sentinels of the domain and the code of a
`plans.ValidationError`. -/
inductive ErrorKind where
  | invalidCursor | notFound | conflict
  | validation (code : String)
  | other

def errorKind : StoreError → ErrorKind
  | .notFound => .notFound
  | .conflict => .conflict
  | .invalid _ | .unique _ | .foreignKey | .nullScan => .other

/-- `phase4Error`: the status and the code of the answer. -/
def phase4Error : ErrorKind → Nat × String
  | .invalidCursor => (400, "INVALID_CURSOR")
  | .notFound => (404, "RESOURCE_NOT_FOUND")
  | .conflict => (409, "OPERATION_CONFLICT")
  | .validation code =>
    if code = "SHARED_INSTANCE_CONFIRMATION_REQUIRED" ∨ code = "INSTANCE_NOT_BACKUPABLE" then (409, code)
    else (400, code)
  | .other => (500, "PHASE4_OPERATION_FAILED")

/-- `retryTask` (`httpapi/phase4.go`): what the user is answered. -/
def answer (outcome : Except StoreError BackupTask) : Nat × String :=
  match outcome with
  | .ok _ => (202, "")
  | .error e => phase4Error (errorKind e)

theorem retry_busy {s : Store} {tenant id : String} {now : Time}
    (h : Doubles s (.resetTaskForManualRetry tenant id now)) :
    retry s tenant id now = (.error (.unique "backup_jobs_active_instance_idx"), s) := by
  have hreset : s.resetTaskForManualRetry tenant id now = .error (.unique "backup_jobs_active_instance_idx") :=
    retry_refused h fun job he => by cases he
  obtain ⟨t, ht, hin, -⟩ := h
  obtain ⟨hten, hid, hstatus⟩ := Store.taskIn_iff.mp hin
  have htask : s.task tenant id = .ok (scanTask t) := by
    rw [← hten, ← hid]
    exact Store.task_of_mem ht
  have hended : ¬((scanTask t).status ≠ .failed ∧ (scanTask t).status ≠ .timedOut ∧
      (scanTask t).status ≠ .interrupted ∧ (scanTask t).status ≠ .cancelled) := by
    intro ⟨hfailed, htimedOut, hinterrupted, hcancelled⟩
    have hmem : t.status ∈ resettable := by simpa using hstatus
    unfold resettable at hmem
    simp only [List.mem_cons, List.not_mem_nil, or_false] at hmem
    obtain he | he | he | he := hmem
    · exact hfailed he
    · exact htimedOut he
    · exact hinterrupted he
    · exact hcancelled he
  unfold retry
  rw [htask]
  simp only
  rw [if_neg hended, hreset]

/-! ## The law -/

/-- An operation that would give an instance a second active job reports a conflict exactly when
it is `CreateBackupJob`; whichever it is, no row changes. A retry by hand of a task whose instance
is busy is answered as an internal error. No two active jobs are of one instance. -/
theorem busy_conflict_iff (s : Store) :
    (∀ op : Op, Doubles s op →
      (op.apply s = .error .conflict ∧ op.next s = s ↔ ∃ job, op = .createBackupJob job) ∧ op.next s = s) ∧
    (∀ (tenant id : String) (now : Time), Doubles s (.resetTaskForManualRetry tenant id now) →
      answer (retry s tenant id now).1 = (500, "PHASE4_OPERATION_FAILED") ∧ (retry s tenant id now).2 = s) ∧
    ∀ j ∈ s.jobs, ∀ j' ∈ s.jobs, j.isActive = true → j'.isActive = true → j.instance = j'.instance →
    j = j' := by
  refine ⟨?_, ?_, ?_⟩
  · intro op h
    by_cases hop : ∃ job, op = .createBackupJob job
    · obtain ⟨job, rfl⟩ := hop
      have hconflict : (Op.createBackupJob job).apply s = .error .conflict := createBackupJob_busy h
      exact ⟨⟨fun _ => ⟨job, rfl⟩, fun _ => ⟨hconflict, next_of_error hconflict⟩⟩,
        next_of_error hconflict⟩
    · have hunique := retry_refused h fun job he => hop ⟨job, he⟩
      refine ⟨⟨fun ⟨hconflict, _⟩ => ?_, fun hcreate => absurd hcreate hop⟩, next_of_error hunique⟩
      rw [hunique] at hconflict
      cases hconflict
  · intro tenant id now h
    rw [retry_busy h]
    exact ⟨rfl, rfl⟩
  · intro j hj j' hj' hactive hactive' hinstance
    exact eq_of_indexKey s.jobs_active hj hj' hactive hactive' hinstance

/-! ## A task whose instance is busy again -/

/-- The backup of a task fails for good, and a job for its instance is created by hand. -/
def busyOps : List Op :=
  [.createBatch batchA, .createBackupJob jobA, .addTask taskA 0,
    .claimNextTask "tenant-a" "worker-1" "lease-1" 0 90000000000, .startBackupJob "tenant-a" "backup-a" 0,
    .failBackupJob "tenant-a" "backup-a" "BACKUP_FAILED" 0,
    .finishTaskFailure "tenant-a" "task-a" "lease-1" .failed "BACKUP_FAILED" 0,
    .createBackupJob { jobA with id := "backup-b" }]

theorem busy_conflict_backup_b :
    ((Op.createBackupJob { jobA with id := "backup-c" }).apply (runOps Store.empty busyOps) = .error .conflict ∧
        (Op.createBackupJob { jobA with id := "backup-c" }).next (runOps Store.empty busyOps) =
          runOps Store.empty busyOps ↔
      ∃ job, Op.createBackupJob { jobA with id := "backup-c" } = .createBackupJob job) ∧
    answer (retry (runOps Store.empty busyOps) "tenant-a" "task-a" 0).1 = (500, "PHASE4_OPERATION_FAILED") :=
  ⟨((busy_conflict_iff (runOps Store.empty busyOps)).1 (.createBackupJob { jobA with id := "backup-c" })
      (by decide +kernel)).1,
    ((busy_conflict_iff (runOps Store.empty busyOps)).2.1 "tenant-a" "task-a" 0 (by decide +kernel)).1⟩

/-- A retry by hand of that task is no conflict. -/
theorem manual_retry_of_busy : ¬∀ (s : Store) (op : Op), Doubles s op →
    op.apply s = .error .conflict ∧ op.next s = s := by
  intro h
  obtain ⟨hconflict, -⟩ := h (runOps Store.empty busyOps) (.resetTaskForManualRetry "tenant-a" "task-a" 0)
    (by decide +kernel)
  have hunique : ((Op.resetTaskForManualRetry "tenant-a" "task-a" 0).apply (runOps Store.empty busyOps)).map
      (fun _ => ()) = .error (.unique "backup_jobs_active_instance_idx") := by decide +kernel
  rw [hconflict] at hunique
  cases hunique

end AppBackup.Queue
