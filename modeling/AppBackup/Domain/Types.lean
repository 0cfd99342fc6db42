import Mathlib.Logic.Basic

/- The values the services pass to each other (`domain/types.go`), without the
   fields that only decorate a response (icons, the application name a target is
   shown with). A status column is an enumeration of the texts the code writes;
   `TaskStatus` is the list of §17.1 of the technical document. A `time.Time` is
   its number of nanoseconds since the epoch, and `unix` is what the store writes
   of it. -/
namespace AppBackup

/-- A `time.Time`, in nanoseconds since the epoch. -/
abbrev Time := Int

def second : Time := 1000000000

/-- `unix`: the whole second a time column stores. -/
def unix (value : Time) : Int := value / second

/-- `time.Unix(seconds, 0)`: what reading a time column gives back. -/
def ofUnix (seconds : Int) : Time := seconds * second

/-- `nullableUnix`. -/
def nullableUnix (value : Option Time) : Option Int := value.map unix

/-- `fromUnix`: NULL and zero both read as no time. -/
def fromUnix : Option Int → Option Time
  | none => none
  | some seconds => if seconds = 0 then none else some (ofUnix seconds)

inductive TaskStatus where
  | queued | leased | prechecking | scanning | sqliteSnapshot | zipWriting | verifying
  | committing | succeeded | succeededWithWarnings | failed | cancelled | timedOut
  | skipped | interrupted
  deriving DecidableEq

namespace TaskStatus

/-- A status after which nothing runs. -/
def terminal : TaskStatus → Bool
  | succeeded | succeededWithWarnings | failed | cancelled | timedOut | skipped | interrupted => true
  | _ => false

/-- Neither waiting nor ended: a worker holds the task. -/
def inProgress (status : TaskStatus) : Bool := status != queued && !status.terminal

end TaskStatus

/-- An attempt runs, or carries the status its task's transaction closed it with. -/
inductive AttemptStatus where
  | running
  | ended (status : TaskStatus)
  deriving DecidableEq

inductive JobStatus where
  | queued | running | succeeded | failed
  deriving DecidableEq

/-- The `WHERE` clause of `backup_jobs_active_instance_idx`. -/
def JobStatus.active : JobStatus → Bool
  | queued | running => true
  | _ => false

inductive BatchStatus where
  | queued | running | succeeded | failed | skipped
  deriving DecidableEq

inductive SnapshotStatus where
  | completed | trashed
  deriving DecidableEq

inductive VerificationStatus where
  | verified | failed
  deriving DecidableEq

inductive RetentionStatus where
  | active | trashed
  deriving DecidableEq

inductive CapabilityStatus where
  | backupable | backupableSharedWarning | noData | unsupportedDatabase | unknownDatabase
  | systemUnsupported | sourceNotReady | sourcePermissionDenied | sourceInstanceNotFound
  | sourceOwnerMismatch | sourceMappingAmbiguous | probeFailed
  deriving DecidableEq

/-- The text of the `capability_status` column. -/
def CapabilityStatus.text : CapabilityStatus → String
  | backupable => "BACKUPABLE"
  | backupableSharedWarning => "BACKUPABLE_SHARED_WARNING"
  | noData => "NO_DATA"
  | unsupportedDatabase => "UNSUPPORTED_DATABASE"
  | unknownDatabase => "UNKNOWN_DATABASE"
  | systemUnsupported => "SYSTEM_UNSUPPORTED"
  | sourceNotReady => "SOURCE_NOT_READY"
  | sourcePermissionDenied => "SOURCE_PERMISSION_DENIED"
  | sourceInstanceNotFound => "SOURCE_INSTANCE_NOT_FOUND"
  | sourceOwnerMismatch => "SOURCE_OWNER_MISMATCH"
  | sourceMappingAmbiguous => "SOURCE_MAPPING_AMBIGUOUS"
  | probeFailed => "PROBE_FAILED"

/-- The two capabilities a job may be created for. -/
def CapabilityStatus.accepts : CapabilityStatus → Bool
  | backupable | backupableSharedWarning => true
  | _ => false

inductive Role where
  | normal | admin
  deriving DecidableEq

structure BackupScope where
  mode : String
  directories : List String
  files : List String
  revision : Int
  summary : String
  deriving DecidableEq

/-- The scope a row without one is read as. -/
def BackupScope.full : BackupScope := ⟨"FULL", [], [], 1, ""⟩

/-- A stored scope with no mode is an old full backup. -/
def BackupScope.orFull (scope : BackupScope) : BackupScope :=
  if scope.mode = "" then .full else scope

structure PlanPauseReason where
  code : String
  deployId : String
  path : String
  expected : String
  detectedAt : Time
  scopeRevision : Int
  deriving DecidableEq

structure RetryPolicy where
  maxRetries : Int
  backoffSeconds : Int
  deriving DecidableEq

structure RetentionPolicy where
  keepLast : Int
  keepDaily : Int
  keepWeekly : Int
  keepMonthly : Int
  trashGraceHours : Int
  deriving DecidableEq

structure PlanTarget where
  deployId : String
  sharedRiskAccepted : Bool
  scope : BackupScope
  deriving DecidableEq

structure BackupPlan where
  id : String
  tenantUid : String
  name : String
  targetKind : String
  targets : List PlanTarget
  sharedRiskAccepted : Bool
  scheduleType : String
  executionTime : String
  cronExpression : String
  timezone : String
  enabled : Bool
  catchUp : Bool
  maxCatchUpSeconds : Int
  retry : RetryPolicy
  retention : RetentionPolicy
  createdBySubject : String
  createdAt : Time
  updatedAt : Time
  lastScheduledAt : Option Time
  nextRunAt : Option Time
  pauseReason : Option PlanPauseReason

structure ApplicationInstance where
  tenantUid : String
  appId : String
  name : String
  version : String
  deployId : String
  multiInstance : Bool
  capabilityStatus : CapabilityStatus

structure BackupBatch where
  id : String
  tenantUid : String
  planId : String
  planName : String
  triggerType : String
  status : BatchStatus
  scheduledAt : Time
  createdAt : Time
  startedAt : Option Time
  finishedAt : Option Time
  totalTasks : Nat
  succeeded : Nat
  failed : Nat
  skipped : Nat
  running : Nat
  queued : Nat

structure BackupTask where
  id : String
  tenantUid : String
  batchId : String
  planId : String
  backupJobId : String
  appId : String
  applicationName : String
  deployId : String
  multiInstance : Bool
  sharedRiskAccepted : Bool
  triggerType : String
  status : TaskStatus
  priority : Int
  attemptCount : Nat
  maxRetries : Int
  retryBackoffSeconds : Int
  errorCode : String
  availableAt : Time
  scheduledAt : Time
  createdAt : Time
  startedAt : Option Time
  finishedAt : Option Time
  leaseExpiresAt : Option Time
  heartbeatAt : Option Time
  snapshotId : String
  scope : BackupScope
  scopeValidation : Option PlanPauseReason

structure BackupJob where
  id : String
  tenantUid : String
  oidcSubject : String
  userRole : Role
  appId : String
  applicationName : String
  applicationVersion : String
  deployId : String
  multiInstance : Bool
  sharedRiskAccepted : Bool
  status : JobStatus
  errorCode : String
  snapshotId : String
  planId : String
  batchId : String
  taskId : String
  triggerType : String
  scope : BackupScope
  scheduledAt : Option Time
  createdAt : Time
  startedAt : Option Time
  finishedAt : Option Time

structure Snapshot where
  id : String
  tenantUid : String
  jobId : String
  appId : String
  applicationName : String
  applicationVersion : String
  deployId : String
  multiInstance : Bool
  sharedInstanceWarning : Bool
  status : SnapshotStatus
  storagePath : String
  archiveName : String
  archiveSize : Int
  archiveSha256 : String
  originalBytes : Int
  fileCount : Int
  directoryCount : Int
  sqliteCount : Int
  skippedCount : Int
  warningCount : Int
  capturedAt : Time
  finishedAt : Time
  verificationStatus : VerificationStatus
  verifiedAt : Option Time
  planId : String
  batchId : String
  taskId : String
  triggerType : String
  retentionStatus : RetentionStatus
  scope : BackupScope
  trashedAt : Option Time

/-! ## The groups of task statuses -/

theorem TaskStatus.inProgress_iff {status : TaskStatus} :
    status.inProgress = true ↔ status ≠ .queued ∧ status.terminal = false := by
  simp [inProgress]

end AppBackup
