import AppBackup.Persistence.Library
import Mathlib.Algebra.Ring.Int.Defs

/- The numbers of the overview page (`Overview` in `persistence/operations.go`, `SnapshotSummary`
   in `persistence/library.go`). Each SELECT is a definition of its own, since a later one may see
   a later state of the database. The counts of alerts are left out: no alert counts for or
   against a snapshot. -/
namespace AppBackup.Persistence.Overview

/-- `capability_status IN ('BACKUPABLE','BACKUPABLE_SHARED_WARNING')`. -/
def backupable (i : InstanceRow) : Bool :=
  i.capabilityStatus == .backupable || i.capabilityStatus == .backupableSharedWarning

def activeInstances (s : Store) (tenant : String) : List InstanceRow :=
  s.instances.filter fun i => i.tenantUid == tenant && i.active

structure ApplicationCounts where
  applicationCount : Nat
  backupableCount : Nat
  unsupportedCount : Nat
  noDataCount : Nat

def applicationCounts (s : Store) (tenant : String) : ApplicationCounts where
  applicationCount := (activeInstances s tenant).length
  backupableCount := (activeInstances s tenant).countP backupable
  unsupportedCount := (activeInstances s tenant).countP (·.capabilityStatus == .unsupportedDatabase)
  noDataCount := (activeInstances s tenant).countP (·.capabilityStatus == .noData)

/-- The snapshot protects the instance. -/
def protects (i : InstanceRow) (r : SnapshotRow) : Bool :=
  r.tenantUid == i.tenantUid && r.deployId == i.deployId && r.status == .completed && r.retentionStatus == .active

structure ProtectionCounts where
  protectedCount : Nat
  unprotectedCount : Nat

def protectionCounts (s : Store) (tenant : String) : ProtectionCounts where
  protectedCount := ((activeInstances s tenant).filter backupable).countP fun i => s.snapshots.any (protects i)
  unprotectedCount := ((activeInstances s tenant).filter backupable).countP fun i => !s.snapshots.any (protects i)

structure TaskCounts where
  taskCount : Nat
  queuedTasks : Nat
  runningTasks : Nat
  succeeded24h : Nat
  failed24h : Nat

/-- The statuses that the third SELECT names as those of a task that does not run. -/
def notRunning : List TaskStatus :=
  [.queued, .succeeded, .succeededWithWarnings, .failed, .cancelled, .timedOut, .skipped, .interrupted]

def finishedSince (since : Time) (t : TaskRow) : Bool := t.finishedAt.any fun at' => decide (unix since ≤ at')

def succeeded (t : TaskRow) : Bool := t.status == .succeeded || t.status == .succeededWithWarnings

def failed (t : TaskRow) : Bool :=
  t.status == .failed || t.status == .cancelled || t.status == .timedOut || t.status == .interrupted

def tasksOf (s : Store) (tenant : String) : List TaskRow := s.tasks.filter (·.tenantUid == tenant)

def taskCounts (s : Store) (tenant : String) (since : Time) : TaskCounts where
  taskCount := (tasksOf s tenant).length
  queuedTasks := (tasksOf s tenant).countP (·.status == .queued)
  runningTasks := (tasksOf s tenant).countP fun t => !(notRunning.contains t.status)
  succeeded24h := (tasksOf s tenant).countP fun t => succeeded t && finishedSince since t
  failed24h := (tasksOf s tenant).countP fun t => failed t && finishedSince since t

structure SnapshotSummary where
  count : Nat
  bytes : Int
  missing : Nat
  verifiedAt : Option Time

def listedSnapshots (s : Store) (tenant : String) : List SnapshotRow :=
  s.snapshots.filter fun r => r.tenantUid == tenant && r.retentionStatus == .active

def snapshotSummary (s : Store) (tenant : String) : SnapshotSummary where
  count := (listedSnapshots s tenant).length
  bytes := ((listedSnapshots s tenant).map (·.archiveSize)).sum
  missing := (listedSnapshots s tenant).countP (·.verificationStatus == .failed)
  verifiedAt := fromUnix ((listedSnapshots s tenant).filterMap (·.verifiedAt)).max?

/-! ## What adds up -/

variable (s : Store) (tenant : String)

/-- Without a synchronisation in between an application that can be backed up is either protected
or not. -/
theorem protection_adds_up : (protectionCounts s tenant).protectedCount + (protectionCounts s tenant).unprotectedCount =
    (applicationCounts s tenant).backupableCount := by
  unfold protectionCounts applicationCounts
  dsimp only
  rw [List.countP_eq_length_filter (p := backupable),
    List.length_eq_countP_add_countP fun i : InstanceRow => s.snapshots.any (protects i)]
  congr 1
  refine congrArg (List.countP · _) (funext fun i => ?_)
  cases s.snapshots.any (protects i) <;> rfl

theorem one_part (status : TaskStatus) : (if (status == .queued) = true then 1 else 0) +
    (if (!(notRunning.contains status)) = true then 1 else 0) + (if status.terminal = true then 1 else 0) = 1 := by
  cases status <;> decide

theorem late_ended (since : Time) (t : TaskRow) : (if (succeeded t && finishedSince since t) = true then 1 else 0) +
    (if (failed t && finishedSince since t) = true then 1 else 0) ≤ if t.status.terminal = true then 1 else 0 := by
  unfold succeeded failed
  cases finishedSince since t with
  | false => simp
  | true => cases t.status <;> decide

/-- A task waits, is in progress or has ended; what succeeded or failed lately has ended. -/
theorem tasks_add_up (since : Time) :
    (taskCounts s tenant since).queuedTasks + (taskCounts s tenant since).runningTasks +
        (tasksOf s tenant).countP (·.status.terminal) = (taskCounts s tenant since).taskCount ∧
      (taskCounts s tenant since).succeeded24h + (taskCounts s tenant since).failed24h ≤
        (tasksOf s tenant).countP (·.status.terminal) := by
  unfold taskCounts
  dsimp only
  induction tasksOf s tenant with
  | nil => simp
  | cons t rest ih =>
    have hone := one_part t.status
    have hlate := late_ended since t
    simp only [List.countP_cons, List.length_cons]
    omega

end AppBackup.Persistence.Overview
