import AppBackup.Backup.Archive
import AppBackup.Persistence.Control
import AppBackup.Probe.Partition
import AppBackup.Probe.Scope
import AppBackup.Queue.World

/- `execute` and `ExecuteJob` (`backup/service.go`): a job's source is scanned, its archive is
   written in a partial directory, moved to its final directory, verified, and recorded as a
   snapshot. Deferred clean-ups run whether that goes through or not. What the source looks
   like, the clock and the texts of the manifests are inputs. -/
namespace AppBackup.Backup
open Program Disk Path Text Probe Storage Persistence Queue

/-- How the service is set up. The cache and the storage lie apart. -/
structure Service where
  base : List String
  cacheRoot : List String
  host : Host
  lower : String → String
  sha256 : List Byte → String
  timestamp : Time → String → String
  apart : ¬base <+: cacheRoot ∧ ¬cacheRoot <+: base

/-- What the manifests of a backup differ in. -/
structure Manifest where
  job : BackupJob
  plan : Plan
  capturedAt : Time
  finishedAt : Option Time
  archiveSize : Int
  archiveSha256 : String
  storagePath : String

/-- What one backup meets: the resolved source, what a scan of it finds, what the two runs of
the writer read, the time zone of the settings, and the clock. -/
structure Encounter where
  resolved : Except GoError Unit
  scan : Except GoError SourceTree
  first : Sources
  second : Sources
  timezone : String
  marshal : Manifest → Except GoError (List Byte)
  started : Time
  capturedAt : Time
  finishedAt : Time
  verifiedAt : Time
  failedAt : Time

/-- `shortID`. -/
def shortID (value : String) : String :=
  let value := Queue.trimPrefix value "backup-"
  if value.toList.length > 8 then String.ofList (value.toList.take 8) else value

def archiveSourceBytes (plan : Plan) : Int := ((plan.files ++ plan.sqlite).map (·.size)).sum

/-- `BuildPlan` on what a scan finds. -/
def scannedPlan (v : Service) (x : Encounter) (multiInstance : Bool) : Except GoError Plan :=
  match x.scan with
  | .error e => .error e
  | .ok tree =>
    match buildPlan v.lower tree multiInstance with
    | .error .entryLimitExceeded => .error (.plain "source entry limit exceeded")
    | .ok plan => .ok plan

/-- The plan of a job, or why there is none: `execute` up to the first change it makes. -/
def preflight (v : Service) (x : Encounter) (job : BackupJob) : Except GoError Plan :=
  match x.resolved with
  | .error e => .error e
  | .ok _ =>
    match scannedPlan v x job.multiInstance with
    | .error e => .error (.backup "BACKUP_PRECHECK_FAILED" e)
    | .ok plan =>
      let inScope :=
        if job.scope.mode ≠ "" ∧ job.scope.mode ≠ "FULL" then applyScope plan job.scope else .ok plan
      match inScope with
      | .error e => .error (.backup "BACKUP_SCOPE_PATH_MISSING" (.scopeValidation e.path e.expected))
      | .ok plan =>
        match plan.result.capabilityStatus with
        | .noData => .error (.backup "NO_APPLICATION_DATA" (.plain "source has no backupable data"))
        | .unsupportedDatabase =>
          .error (.backup "UNSUPPORTED_DATABASE" (.plain "source contains a blocked database"))
        | .backupable | .backupableSharedWarning => .ok plan
        | _ => .error (.backup "INSTANCE_NOT_BACKUPABLE" (.plain "source preflight rejected instance"))

/-- The manifest before the archive is closed. -/
def openManifest (x : Encounter) (job : BackupJob) (plan : Plan) : Manifest :=
  ⟨job, plan, x.capturedAt, none, 0, "calculated_after_close", ""⟩

def closedManifest (x : Encounter) (job : BackupJob) (plan : Plan) (size : Int) (sha256 storagePath : String) :
    Manifest :=
  ⟨job, plan, x.capturedAt, some x.finishedAt, size, sha256, storagePath⟩

/-- The snapshot of a stored archive. -/
def storedSnapshot (x : Encounter) (tenant : String) (job : BackupJob) (plan : Plan) (size : Int)
    (sha256 storagePath : String) : Snapshot :=
  builtSnapshot tenant job
    { storagePath := storagePath
      archiveSize := size
      archiveSha256 := sha256
      originalBytes := archiveSourceBytes plan
      fileCount := plan.archiveFileCount
      directoryCount := plan.directories.length
      sqliteCount := plan.sqlite.length
      skippedCount := plan.result.skippedCount
      warningCount := plan.warnings.length
      capturedAt := x.capturedAt
      finishedAt := x.finishedAt
      verifiedAt := x.verifiedAt }

/-- The end of `execute`: what is stored gets its manifest, is verified and recorded. -/
def recordSnapshot (v : Service) (x : Encounter) (tenant : String) (job : BackupJob) (plan : Plan)
    (size : Int) (sha256 : String) (location : Location) : Work Control Unit := do
  let external ← codedValue "MANIFEST_WRITE_FAILED"
    (x.marshal (closedManifest x job plan size sha256 location.directory))
  coded "MANIFEST_WRITE_FAILED" (writeManifest v.base location external)
  coded "SNAPSHOT_VERIFICATION_FAILED" (quickVerify v.host.zip.names v.sha256 v.base location size sha256)
  (writing .commitSnapshot fun s =>
    s.commitSnapshot (storedSnapshot x tenant job plan size sha256 location.directory)).mapError
      (.backup "CONTROL_DATABASE_WRITE_FAILED")

/-- From the finished archive to the snapshot. -/
def storeArchive (v : Service) (x : Encounter) (tenant : String) (job : BackupJob) (plan : Plan)
    (part : Partial) : Work Control Unit := do
  coded "STORAGE_WRITE_FAILED" (syncArchive v.base part.archive)
  let (size, sha256) ← coded "ARCHIVE_DIGEST_FAILED" (digest v.sha256 v.base part.archive)
  (reading .settings fun _ => .ok ()).mapError (.backup "SETTINGS_LOOKUP_FAILED")
  let location ← coded "STORAGE_COMMIT_FAILED"
    (commitArchive v.base part (v.timestamp x.capturedAt x.timezone) job.deployId (shortID job.id))
  Prog.onFailure (cleaningUp (removeDirectory v.base location.directory))
    (recordSnapshot v x tenant job plan size sha256 location)

/-- `filepath.Join(s.cacheRoot, job.ID)`. -/
def cacheDirectory (v : Service) (job : BackupJob) : List String := under v.cacheRoot job.id

def execute (v : Service) (x : Encounter) (tenant : String) (job : BackupJob) : Work Control Unit :=
  match preflight v x job with
  | .error e => Prog.fail e
  | .ok plan => do
    let part ← coded "STORAGE_WRITE_FAILED" (createPartial v.base job.id)
    Prog.deferred (cleaningUp (removeDirectory v.base part.directory)) (do
      codedIo "BACKUP_CACHE_UNAVAILABLE" (mkdirAll (cacheDirectory v job))
      Prog.deferred (cleaningUp (removeAll (cacheDirectory v job))) (do
        writeWithRetry v.host x.first x.second v.base part (cacheDirectory v job) plan
          (x.marshal (openManifest x job plan))
        storeArchive v x tenant job plan part))

/-- `ExecuteJob`. An error of `FailBackupJob` is dropped. -/
def executeJob (v : Service) (x : Encounter) (tenant id : String) : Work Control Unit := do
  let job ← reading .backupJob (·.backupJob tenant id)
  writing .startBackupJob (·.startBackupJob tenant id x.started)
  let job := { job with status := .running, startedAt := some x.started }
  match ← (execute v x tenant job).attempt with
  | .ok _ => pure ()
  | .error e => do
    let _ ← (cleaningUp (writing .failBackupJob (·.failBackupJob tenant id e.code x.failedAt))).attempt
    Prog.fail e

/-! ## Sources that are refused -/

/-- A scope changes what is planned, not what the source is worth. -/
theorem applyScope_capability {plan filtered : Plan} {scope : BackupScope}
    (h : applyScope plan scope = .ok filtered) :
    filtered.result.capabilityStatus = plan.result.capabilityStatus := by
  unfold applyScope at h
  split at h
  · obtain rfl := Except.ok.inj h
    rfl
  · split at h
    · split at h
      · cases h
      · obtain rfl := Except.ok.inj h
        rfl
    · split at h
      · cases h
      · split at h
        · cases h
        · simp only at h
          split at h
          · cases h
          · obtain rfl := Except.ok.inj h
            rfl

theorem preflight_unsupported {v : Service} {x : Encounter} {job : BackupJob} {tree : SourceTree} {plan : Plan}
    (hscan : x.scan = .ok tree) (hplan : buildPlan v.lower tree job.multiInstance = .ok plan)
    (hstatus : plan.result.capabilityStatus = .unsupportedDatabase) :
    ∃ e, preflight v x job = .error e := by
  have hscanned : scannedPlan v x job.multiInstance = .ok plan := by
    unfold scannedPlan
    rw [hscan]
    simp only
    rw [hplan]
  unfold preflight
  cases x.resolved with
  | error e => exact ⟨e, rfl⟩
  | ok _ =>
    rw [hscanned]
    simp only
    split
    · exact ⟨_, rfl⟩
    · next filtered hfiltered =>
      have hsame : filtered.result.capabilityStatus = plan.result.capabilityStatus := by
        split at hfiltered
        · exact applyScope_capability hfiltered
        · rw [Except.ok.inj hfiltered]
      rw [hsame, hstatus]
      exact ⟨_, rfl⟩

theorem execute_refused {v : Service} {x : Encounter} {job : BackupJob} {e : GoError} (tenant : String)
    (h : preflight v x job = .error e) (m : Machine Control) : execute v x tenant job m = .failed e m := by
  unfold execute
  rw [h]
  rfl

/-- A successful `BuildPlan` divides the source, its status is that of what it found, and of
an unsupported source `execute` makes nothing, whatever the scope of the job. -/
theorem source_partitioned {lower : String → String} {tree : SourceTree} {multiInstance : Bool} {plan : Plan}
    (h : buildPlan lower tree multiInstance = .ok plan) :
    Partitioned tree plan ∧ Assessed plan ∧
      (plan.result.capabilityStatus = .unsupportedDatabase → ∀ (v : Service) (x : Encounter) (tenant : String)
        (job : BackupJob), v.lower = lower → x.scan = .ok tree → job.multiInstance = multiInstance →
          ∃ e, ∀ m, execute v x tenant job m = .failed e m) := by
  refine ⟨buildPlan_partitioned h, buildPlan_assessed h, ?_⟩
  intro hstatus v x tenant job hlower hscan hmulti
  subst hlower
  subst hmulti
  obtain ⟨e, he⟩ := preflight_unsupported hscan h hstatus
  exact ⟨e, execute_refused tenant he⟩

/-- A database with its `-wal`, a file that is only called so, and a link. -/
def mailTree : SourceTree where
  listing := .object "mail.db" (.regular sqliteHeader true) (.object "mail.db-wal" (.regular [7] true)
    (.object "notes-wal" (.regular [1] true) (.object "today" .symlink .nil)))
  wellFormed := by decide

def mailPlan : Plan where
  result := ⟨.backupableSharedWarning, 18, 3, 1, 1, [⟨"mail.db", "sqlite", true, "SQLite format 3 header"⟩]⟩
  directories := []
  files := [⟨["notes-wal"], "notes-wal", 1⟩]
  sqlite := [⟨["mail.db"], "mail.db", 16⟩]
  warnings := ["skipped symbolic link: today"]

theorem source_partitioned_mail :
    Partitioned mailTree mailPlan ∧ Assessed mailPlan ∧
      (mailPlan.result.capabilityStatus = .unsupportedDatabase → ∀ (v : Service) (x : Encounter)
        (tenant : String) (job : BackupJob), v.lower = id → x.scan = .ok mailTree →
          job.multiInstance = false → ∃ e, ∀ m, execute v x tenant job m = .failed e m) :=
  source_partitioned (show buildPlan id mailTree false = .ok mailPlan from rfl)

/-- A database that may not be opened, under a name that says nothing. -/
def lockedTree : SourceTree where
  listing := .object "ledger" (.regular sqliteHeader false) .nil
  wellFormed := by decide

/-- It has the header, and is planned as a plain file. -/
theorem unreadable_database_plain :
    ¬∀ lower tree multiInstance plan, buildPlan lower tree multiInstance = .ok plan →
      ∀ found ∈ tree.listing.walk [], ∀ bytes readable, found.2 = .object (.regular bytes readable) →
        bytes.take 16 = sqliteHeader → ∃ e ∈ plan.sqlite, e.path = found.1 := by
  intro h
  obtain ⟨e, he, -⟩ := h id lockedTree true
    ⟨⟨.backupable, 16, 1, 0, 0, []⟩, [], [⟨["ledger"], "ledger", 16⟩], [], []⟩ rfl
    (["ledger"], .object (.regular sqliteHeader false)) (List.mem_singleton_self _) sqliteHeader false rfl
    (by decide +kernel)
  cases he

end AppBackup.Backup
