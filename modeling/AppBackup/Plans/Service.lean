import AppBackup.Queue.Calls
import AppBackup.Plans.Scope

/- The plan service (`plans/service.go`): what a plan is saved as, the calls that edit
   it, and `RunDue`, which runs what is due. Each call is a program of statements.
   `time.LoadLocation` and the cron library are the parameter `Cron`; a
   `ValidationError` is the text of its code. -/
namespace AppBackup.Plans
open Persistence Queue Threads Threads.Thread Text

/-- Zones and five-field cron expressions: the error a zone is refused with, whether an
expression is parsed, and the next time of an expression in a zone. -/
structure Cron where
  location : String → Option GoError
  parses : String → Bool
  next : String → String → Time → Time

/-- The zero `time.Time`. -/
def zeroTime : Time := -62135596800 * second

def minute : Time := 60 * second

structure PlanInput where
  name : String
  targetKind : String
  targets : List PlanTarget
  sharedRiskAccepted : Bool
  scheduleType : String
  executionTime : String
  cronExpression : String
  timezone : String
  enabled : Bool
  catchUp : Bool
  maxCatchUpSeconds : Int
  retry : RetryPolicy
  retention : RetentionPolicy

/-- `ValidationError`. -/
def invalid (code : String) : GoError := .plain code

/-! ## Schedules -/

/-- `time.Parse("15:04", value)`: an hour of one or two digits and a minute of two. -/
def parseClock (value : String) : Option (Nat × Nat) :=
  let digit (c : Char) : Option Nat := if c.isDigit then some (c.toNat - '0'.toNat) else none
  let minutes (hour : Nat) (m n : Char) : Option (Nat × Nat) := do
    let m ← digit m
    let n ← digit n
    if hour < 24 ∧ 10 * m + n < 60 then some (hour, 10 * m + n) else none
  match value.toList with
  | [h, ':', m, n] => do minutes (← digit h) m n
  | [g, h, ':', m, n] => do minutes (10 * (← digit g) + (← digit h)) m n
  | _ => none

def cronExpression (cron : Cron) (kind executionTime value : String) : Except GoError String :=
  match parseClock executionTime with
  | none => .error (invalid "INVALID_EXECUTION_TIME")
  | some (hour, min) =>
    if kind = "HOURLY" then .ok "0 * * * *"
    else if kind = "DAILY" then .ok (toString min ++ " " ++ toString hour ++ " * * *")
    else if kind = "WEEKLY" then .ok (toString min ++ " " ++ toString hour ++ " * * 1")
    else if kind = "CRON" then
      if cron.parses value then .ok value else .error (invalid "INVALID_CRON")
    else .error (invalid "INVALID_SCHEDULE")

def nextRun (cron : Cron) (plan : BackupPlan) (after : Time) : Except GoError (Option Time) :=
  if plan.scheduleType = "MANUAL" then .ok none
  else
    match cron.location plan.timezone with
    | some e => .error e
    | none =>
      if cron.parses plan.cronExpression then
        .ok (some (cron.next plan.cronExpression plan.timezone after))
      else .error (invalid "INVALID_CRON")

/-- The end of `normalize`: the schedule of a plan whose other fields are checked. -/
def schedulePlan (cron : Cron) (plan : BackupPlan) (now : Time) : Except GoError BackupPlan :=
  if plan.scheduleType = "MANUAL" then .ok { plan with enabled := false, cronExpression := "" }
  else
    match cronExpression cron plan.scheduleType plan.executionTime plan.cronExpression with
    | .error e => .error e
    | .ok expression =>
      match nextRun cron { plan with cronExpression := expression } now with
      | .error e => .error e
      | .ok next => .ok { plan with cronExpression := expression, nextRunAt := next }

/-! ## What a plan is saved as -/

def normalizeTarget (lower : String → String) (target : PlanTarget) : Except GoError PlanTarget :=
  match normalizeScope lower target.scope with
  | .error _ => .error (invalid "INVALID_BACKUP_SCOPE")
  | .ok scope => .ok { target with scope := scope }

def normalizeTargets (lower : String → String) : List PlanTarget → Except GoError (List PlanTarget)
  | [] => .ok []
  | target :: rest =>
    match normalizeTarget lower target, normalizeTargets lower rest with
    | .error e, _ | _, .error e => .error e
    | .ok target, .ok rest => .ok (target :: rest)

def validRetry (retry : RetryPolicy) : Bool :=
  0 ≤ retry.maxRetries && retry.maxRetries ≤ 8 && 0 ≤ retry.backoffSeconds &&
    retry.backoffSeconds ≤ 24 * 60 * 60

def validRetention (retention : RetentionPolicy) : Bool :=
  retention.keepLast ≤ 10000 && 0 ≤ retention.keepDaily && 0 ≤ retention.keepWeekly &&
    0 ≤ retention.keepMonthly && 0 ≤ retention.trashGraceHours && retention.trashGraceHours ≤ 24 * 365

/-- The plan of an input, with the defaults `normalize` puts where nothing was given. -/
def filledPlan (input : PlanInput) (targets : List PlanTarget) : BackupPlan where
  id := ""
  tenantUid := ""
  name := trimSpace input.name
  targetKind := if input.targetKind = "" then "EXPLICIT" else input.targetKind
  targets := targets
  sharedRiskAccepted := input.sharedRiskAccepted
  scheduleType := if input.scheduleType = "" then "DAILY" else input.scheduleType
  executionTime :=
    if trimSpace input.executionTime = "" then "02:00" else trimSpace input.executionTime
  cronExpression := trimSpace input.cronExpression
  timezone := if trimSpace input.timezone = "" then "Asia/Shanghai" else trimSpace input.timezone
  enabled := input.enabled
  catchUp := input.catchUp
  maxCatchUpSeconds := if input.maxCatchUpSeconds ≤ 0 then 24 * 60 * 60 else input.maxCatchUpSeconds
  retry :=
    { input.retry with
      backoffSeconds := if input.retry.backoffSeconds = 0 then 60 else input.retry.backoffSeconds }
  retention :=
    { input.retention with
      keepLast := if input.retention.keepLast ≤ 0 then 1 else input.retention.keepLast
      trashGraceHours :=
        if input.retention.trashGraceHours = 0 then 7 * 24 else input.retention.trashGraceHours }
  createdBySubject := ""
  createdAt := zeroTime
  updatedAt := zeroTime
  lastScheduledAt := none
  nextRunAt := none
  pauseReason := none

def normalize (lower : String → String) (cron : Cron) (input : PlanInput) (now : Time) :
    Except GoError BackupPlan :=
  let name := trimSpace input.name
  if name = "" ∨ 120 < name.utf8ByteSize then .error (invalid "INVALID_PLAN_NAME")
  else if input.targetKind ≠ "" ∧ input.targetKind ≠ "EXPLICIT" then
    .error (invalid "INVALID_PLAN_TARGETS")
  else if input.targets.length = 0 then .error (invalid "INVALID_PLAN_TARGETS")
  else
    match normalizeTargets lower input.targets with
    | .error e => .error e
    | .ok targets =>
      let plan := filledPlan input targets
      if parseClock plan.executionTime = none then .error (invalid "INVALID_EXECUTION_TIME")
      else if cron.location plan.timezone ≠ none then .error (invalid "INVALID_TIMEZONE")
      else if 30 * 24 * 60 * 60 < plan.maxCatchUpSeconds then
        .error (invalid "INVALID_CATCH_UP_WINDOW")
      else if !validRetry plan.retry then .error (invalid "INVALID_RETRY_POLICY")
      else if !validRetention plan.retention then .error (invalid "INVALID_RETENTION_POLICY")
      else schedulePlan cron plan now

/-- `samePaths`. -/
def samePaths (left right : List String) : Bool := left == right

/-- One target of `applyScopeRevisions`, and whether its scope changed. -/
def reviseTarget (current : BackupPlan) (target : PlanTarget) : PlanTarget × Bool :=
  -- a map built from the targets in order keeps the last of each deployment
  match current.targets.reverse.find? (·.deployId == target.deployId) with
  | none => ({ target with scope := { target.scope with revision := 1 } }, true)
  | some old =>
    if old.scope.mode ≠ target.scope.mode ∨ !samePaths old.scope.directories target.scope.directories ∨
        !samePaths old.scope.files target.scope.files then
      ({ target with scope := { target.scope with revision := old.scope.revision + 1 } }, true)
    else ({ target with scope := { target.scope with revision := old.scope.revision } }, false)

/-- `applyScopeRevisions`: the plan with its revisions, and whether a scope changed. -/
def applyScopeRevisions (plan current : BackupPlan) : BackupPlan × Bool :=
  let revised := plan.targets.map (reviseTarget current)
  ({ plan with targets := revised.map (·.1) },
    revised.any (·.2) || plan.targets.length != current.targets.length)

/-! ## Edits -/

def validateTargetsFrom (tenant : String) : List PlanTarget → List String → Program Unit
  | [], _ => pure ()
  | target :: rest, seen =>
    if target.deployId = "" ∨ seen.contains target.deployId then
      throw (invalid "INVALID_PLAN_TARGETS")
    else do
      let found ← Calls.ofStore (← query (Stmt.instance_ tenant target.deployId))
      if !found.capabilityStatus.accepts then throw (invalid "INSTANCE_NOT_BACKUPABLE")
      else if target.scope.mode = "CORE" ∧ found.appId ≠ "cloud.lazycat.notus" then
        throw (invalid "CORE_SCOPE_PROFILE_UNAVAILABLE")
      else validateTargetsFrom tenant rest (target.deployId :: seen)

def validateTargets (tenant : String) (plan : BackupPlan) : Program Unit :=
  validateTargetsFrom tenant plan.targets []

/-- `Store.Plan`: the row, then its targets. -/
def readPlan (tenant id : String) : Program BackupPlan := do
  let r ← Calls.ofStore (← query (Stmt.planRow tenant id))
  let targets ← query (Stmt.planTargets tenant id)
  pure (scanPlan r targets)

def create (lower : String → String) (cron : Cron) (tenant : String) (input : PlanInput)
    (subject : String) (hex : Option String) (now : Time) : Program BackupPlan := do
  let plan ← result (normalize lower cron input now)
  let id ← result (randomID "plan" hex)
  let plan :=
    { plan with
      id := id, tenantUid := tenant, createdBySubject := subject, createdAt := now
      updatedAt := now }
  validateTargets tenant plan
  Calls.write (.createPlan plan) (some plan)
  readPlan tenant plan.id

def update (lower : String → String) (cron : Cron) (tenant id : String) (input : PlanInput)
    (now : Time) : Program BackupPlan := do
  let current ← readPlan tenant id
  let plan ← result (normalize lower cron input now)
  let plan :=
    { plan with
      id := current.id, tenantUid := tenant, createdBySubject := current.createdBySubject
      createdAt := current.createdAt, updatedAt := now
      lastScheduledAt := current.lastScheduledAt }
  validateTargets tenant plan
  let (plan, changed) := applyScopeRevisions plan current
  Calls.write (.updatePlan tenant plan changed) (some plan)
  readPlan tenant id

def delete (tenant id : String) : Program Unit := do
  Calls.ofStore (← query (Stmt.deletePlan tenant id))

def pause (tenant id : String) (now : Time) : Program BackupPlan := do
  Calls.write (.setPlanEnabled tenant id false none now) none
  readPlan tenant id

def resume (cron : Cron) (tenant id : String) (now : Time) : Program BackupPlan := do
  let plan ← readPlan tenant id
  let next ← result (nextRun cron plan now)
  Calls.write (.setPlanEnabled tenant id true next now) (some plan)
  readPlan tenant id

/-- `Run`: the plan by hand, now. -/
def runByHand (tenant id : String) (now : Time) (draws : Draws) : Program BackupBatch := do
  let plan ← readPlan tenant id
  Calls.runPlan tenant plan "manual" now draws

/-! ## `RunDue` -/

/-- The batch `recordSkipped` creates. -/
def skippedBatch (tenant id : String) (plan : BackupPlan) (scheduled now : Time) : BackupBatch where
  id := id
  tenantUid := tenant
  planId := plan.id
  planName := plan.name
  triggerType := "scheduled"
  status := .skipped
  scheduledAt := scheduled
  createdAt := now
  startedAt := none
  finishedAt := some now
  totalTasks := 0
  succeeded := 0
  failed := 0
  skipped := 0
  running := 0
  queued := 0

def recordSkipped (tenant : String) (plan : BackupPlan) (scheduled : Time) (draws : Draws) :
    Program Unit := do
  let id ← result (randomID "batch" draws.batchId)
  Calls.write (.createBatch (skippedBatch tenant id plan scheduled draws.now)) none

/-- An occurrence at `scheduled` is too old to be run at `now`. -/
def tooLate (plan : BackupPlan) (scheduled now : Time) : Bool :=
  let delay := now - scheduled
  (!plan.catchUp && decide (minute < delay)) || decide (plan.maxCatchUpSeconds * second < delay)

/-- An error that is `domain.ErrConflict` counts as done. -/
def unlessConflict {α : Type} (t : Program α) : Program Unit := do
  match ← attempt t with
  | .ok _ => pure ()
  | .error e => if e.isConflict then pure () else throw e

/-- One occurrence: it is recorded as skipped or run, and whether the loop breaks then. -/
def handle (tenant : String) (plan : BackupPlan) (scheduled now : Time) (draws : Draws) :
    Program Bool :=
  if tooLate plan scheduled now then do
    unlessConflict (recordSkipped tenant plan scheduled draws)
    pure false
  else do
    unlessConflict (Calls.runPlan tenant plan "scheduled" scheduled draws)
    let latest ← readPlan tenant plan.id
    pure (!latest.enabled && latest.pauseReason.isSome)

/-- The loop over the missed occurrences of a plan, of at most `steps` turns. -/
def runMissed (cron : Cron) (tenant : String) (now : Time) (draws : BackupPlan → Time → Draws) :
    Nat → BackupPlan → Program Unit
  | 0, _ => pure ()
  | steps + 1, plan =>
    match plan.nextRunAt with
    | none => pure ()
    | some scheduled =>
      if now < scheduled then pure ()
      else do
        let next ← result (nextRun cron plan scheduled)
        if ← handle tenant plan scheduled now (draws plan scheduled) then pure ()
        else do
          Calls.write (.advancePlan tenant plan.id scheduled next now) (some plan)
          runMissed cron tenant now draws steps
            { plan with lastScheduledAt := some scheduled, nextRunAt := next }

/-- `DuePlans`: the rows, then the targets of each. -/
def readTargets (tenant : String) : List PlanRow → Program (List BackupPlan)
  | [] => pure []
  | r :: rest => do
    let targets ← query (Stmt.planTargets tenant r.id)
    let plans ← readTargets tenant rest
    pure (scanPlan r targets :: plans)

def runDue (cron : Cron) (tenant : String) (now : Time) (draws : BackupPlan → Time → Draws) :
    Program Unit :=
  if tenant = "" then pure ()
  else do
    let rows ← query (Stmt.duePlans tenant now)
    let plans ← readTargets tenant rows
    each (runMissed cron tenant now draws 128) plans

/-- A turn of the scheduler's loop (`scheduler/service.go`): the time, then `RunDue`. -/
def tick (cron : Cron) (tenant : String) (now : Time) (draws : BackupPlan → Time → Draws) :
    Program Unit := do
  query (Stmt.clock now)
  runDue cron tenant now draws

/-! ## The calls, and what happens next to them -/

/-- A call of the service, with what it takes from outside. -/
inductive Request where
  | tick (tenant : String) (now : Time) (draws : BackupPlan → Time → Draws)
  | create (tenant : String) (input : PlanInput) (subject : String) (hex : Option String) (now : Time)
  | update (tenant id : String) (input : PlanInput) (now : Time)
  | delete (tenant id : String)
  | pause (tenant id : String) (now : Time)
  | resume (tenant id : String) (now : Time)
  | runByHand (tenant id : String) (now : Time) (draws : Draws)

def Request.program (lower : String → String) (cron : Cron) : Request → Program Unit
  | tick tenant now draws => Plans.tick cron tenant now draws
  | create tenant input subject hex now => do
    let _ ← Plans.create lower cron tenant input subject hex now
    pure ()
  | update tenant id input now => do
    let _ ← Plans.update lower cron tenant id input now
    pure ()
  | delete tenant id => Plans.delete tenant id
  | pause tenant id now => do
    let _ ← Plans.pause tenant id now
    pure ()
  | resume tenant id now => do
    let _ ← Plans.resume cron tenant id now
    pure ()
  | runByHand tenant id now draws => do
    let _ ← Plans.runByHand tenant id now draws
    pure ()

/-- The operations only this service calls. -/
def editsPlan : Op → Bool
  | .createPlan _ | .updatePlan .. | .setPlanEnabled .. | .advancePlan .. => true
  | _ => false

/-- What the rest of the process does to the database: an operation of the queue, or a
sync of the application library. -/
inductive Outside where
  | queue (op : Op) (h : editsPlan op = false)
  | library (applications : List ApplicationRow) (instances : List InstanceRow)

def Outside.apply (s : Store) : Outside → Store
  | queue op _ => op.next s
  | library applications instances =>
    { s with applications := applications, instances := instances }

/-! ## What a saved plan's next time is -/

theorem schedulePlan_next {cron : Cron} {plan plan' : BackupPlan} {now : Time}
    (h : schedulePlan cron plan now = .ok plan') (hnone : plan.nextRunAt = none) :
    nextRun cron plan' now = .ok plan'.nextRunAt := by
  unfold schedulePlan at h
  by_cases hm : plan.scheduleType = "MANUAL"
  · rw [if_pos hm] at h
    cases h
    simp only [nextRun, hm, if_true, hnone]
  · rw [if_neg hm] at h
    cases hc : cronExpression cron plan.scheduleType plan.executionTime plan.cronExpression with
    | error e => rw [hc] at h; cases h
    | ok expression =>
      rw [hc] at h
      simp only at h
      cases hn : nextRun cron { plan with cronExpression := expression } now with
      | error e => rw [hn] at h; cases h
      | ok next =>
        rw [hn] at h
        cases h
        exact hn

/-- A plan that is saved has the next time of its own schedule. -/
theorem normalize_next {lower : String → String} {cron : Cron} {input : PlanInput} {now : Time}
    {plan : BackupPlan} (h : normalize lower cron input now = .ok plan) :
    nextRun cron plan now = .ok plan.nextRunAt := by
  unfold normalize at h
  simp only at h
  split at h
  · cases h
  · split at h
    · cases h
    · split at h
      · cases h
      · cases ht : normalizeTargets lower input.targets with
        | error e => rw [ht] at h; cases h
        | ok targets =>
          rw [ht] at h
          simp only at h
          repeat
            split at h
            · cases h
          exact schedulePlan_next h rfl

/-! ## What a saved plan's scopes are -/

/-- The scope is one that `normalizeScope` gives out, but for its revision. -/
def SavedScope (lower : String → String) (scope : BackupScope) : Prop :=
  ∃ request saved, normalizeScope lower request = .ok saved ∧ scope = { saved with revision := scope.revision }

def SavedTargets (lower : String → String) (targets : List PlanTarget) : Prop :=
  ∀ target ∈ targets, SavedScope lower target.scope

/-- A target of the request, with its scope as it is saved. -/
def SavedAs (lower : String → String) (target saved : PlanTarget) : Prop :=
  saved.deployId = target.deployId ∧ normalizeScope lower target.scope = .ok saved.scope

theorem normalizeTarget_error {lower : String → String} {target : PlanTarget} {e : String}
    (h : normalizeScope lower target.scope = .error e) :
    normalizeTarget lower target = .error (invalid "INVALID_BACKUP_SCOPE") := by
  unfold normalizeTarget
  rw [h]

theorem normalizeTarget_ok {lower : String → String} {target : PlanTarget} {scope : BackupScope}
    (h : normalizeScope lower target.scope = .ok scope) :
    normalizeTarget lower target = .ok { target with scope := scope } := by
  unfold normalizeTarget
  rw [h]

-- sealed, or the unifier computes the scope of the target on both sides
attribute [local irreducible] normalizeScope in
theorem normalizeTargets_cons (lower : String → String) (target : PlanTarget) (rest : List PlanTarget) :
    normalizeTargets lower (target :: rest) =
      match normalizeTarget lower target, normalizeTargets lower rest with
      | .error e, _ | _, .error e => .error e
      | .ok target, .ok rest => .ok (target :: rest) :=
  rfl

theorem normalizeTargets_ok {lower : String → String} {requested targets : List PlanTarget}
    (h : normalizeTargets lower requested = .ok targets) :
    (∀ saved ∈ targets, ∃ target ∈ requested, SavedAs lower target saved) ∧
      ∀ target ∈ requested, ∃ saved ∈ targets, SavedAs lower target saved := by
  induction requested generalizing targets with
  | nil =>
    obtain rfl := Except.ok.inj h
    exact ⟨fun _ h => absurd h List.not_mem_nil, fun _ h => absurd h List.not_mem_nil⟩
  | cons target rest ih =>
    rw [normalizeTargets_cons] at h
    cases hscope : normalizeScope lower target.scope with
    | error e =>
      rw [normalizeTarget_error hscope] at h
      cases h
    | ok scope =>
      rw [normalizeTarget_ok hscope] at h
      cases hrest : normalizeTargets lower rest with
      | error e =>
        rw [hrest] at h
        cases h
      | ok saved =>
        rw [hrest] at h
        obtain rfl := Except.ok.inj h
        obtain ⟨hback, hforth⟩ := ih hrest
        have hfirst : SavedAs lower target { target with scope := scope } := ⟨rfl, hscope⟩
        refine ⟨?_, ?_⟩
        · intro t ht
          obtain rfl | ht := List.mem_cons.mp ht
          · exact ⟨target, List.mem_cons_self .., hfirst⟩
          · obtain ⟨target', htarget', hsaved⟩ := hback t ht
            exact ⟨target', List.mem_cons_of_mem _ htarget', hsaved⟩
        · intro t ht
          obtain rfl | ht := List.mem_cons.mp ht
          · exact ⟨_, List.mem_cons_self .., hfirst⟩
          · obtain ⟨saved', hmem, hsaved⟩ := hforth t ht
            exact ⟨saved', List.mem_cons_of_mem _ hmem, hsaved⟩

theorem schedulePlan_targets {cron : Cron} {plan plan' : BackupPlan} {now : Time}
    (h : schedulePlan cron plan now = .ok plan') : plan'.targets = plan.targets := by
  unfold schedulePlan at h
  split at h
  · cases h
    rfl
  · split at h
    · cases h
    · split at h
      · cases h
      · cases h
        rfl

theorem normalize_targets {lower : String → String} {cron : Cron} {input : PlanInput} {now : Time}
    {plan : BackupPlan} (h : normalize lower cron input now = .ok plan) :
    normalizeTargets lower input.targets = .ok plan.targets := by
  unfold normalize at h
  simp only at h
  split at h
  · cases h
  · split at h
    · cases h
    · split at h
      · cases h
      · cases ht : normalizeTargets lower input.targets with
        | error e => rw [ht] at h; cases h
        | ok targets =>
          rw [ht] at h
          simp only at h
          repeat
            split at h
            · cases h
          rw [schedulePlan_targets h]
          rfl

theorem savedTargets_of_normalize {lower : String → String} {cron : Cron} {input : PlanInput} {now : Time}
    {plan : BackupPlan} (h : normalize lower cron input now = .ok plan) : SavedTargets lower plan.targets := by
  intro saved hsaved
  obtain ⟨target, -, -, hscope⟩ := (normalizeTargets_ok (normalize_targets h)).1 saved hsaved
  exact ⟨target.scope, saved.scope, hscope, rfl⟩

theorem reviseTarget_same (current : BackupPlan) (target : PlanTarget) :
    (reviseTarget current target).1 =
      { target with scope := { target.scope with revision := (reviseTarget current target).1.scope.revision } } := by
  unfold reviseTarget
  split
  · rfl
  · split
    · rfl
    · rfl

theorem savedTargets_revised {lower : String → String} {plan : BackupPlan} (current : BackupPlan)
    (h : SavedTargets lower plan.targets) : SavedTargets lower (applyScopeRevisions plan current).1.targets := by
  intro target htarget
  have htarget : target ∈ (plan.targets.map (reviseTarget current)).map (·.1) := htarget
  rw [List.map_map] at htarget
  obtain ⟨requested, hrequested, rfl⟩ := List.mem_map.mp htarget
  obtain ⟨request, saved, hsaved, he⟩ := h requested hrequested
  refine ⟨request, saved, hsaved, ?_⟩
  show (reviseTarget current requested).1.scope = _
  rw [Function.comp_apply, reviseTarget_same]
  simp only
  rw [he]

/-! ## What its calls are -/

theorem nextRun_congr {cron : Cron} {plan plan' : BackupPlan} (after : Time)
    (hs : plan'.scheduleType = plan.scheduleType) (he : plan'.cronExpression = plan.cronExpression)
    (hz : plan'.timezone = plan.timezone) : nextRun cron plan' after = nextRun cron plan after := by
  unfold nextRun
  rw [hs, he, hz]

section Every
variable {P : Stmt → Prop} {cron : Cron} {tenant id : String}

theorem unlessConflict_every {α : Type} {t : Program α} (ht : Every P t) :
    Every P (unlessConflict t) := by
  refine every_bindE (every_attempt ht) fun r => ?_
  cases r with
  | ok a => exact every_pure _
  | error e =>
    simp only
    split
    · exact every_pure _
    · exact every_pure _

/-- The statements that read a plan or check its targets. -/
def Reads : Stmt → Prop
  | .planRow .. | .planTargets .. | .instance_ .. => True
  | _ => False

theorem readPlan_every (hread : ∀ c, Reads c → P c) : Every P (readPlan tenant id) := by
  refine every_bindE (every_query (hread _ trivial)) fun r => ?_
  refine every_bindE (Calls.every_ofStore _) fun r => ?_
  exact every_bindE (every_query (hread _ trivial)) fun _ => every_pure _

theorem run_reads {α : Type} {t : Program α} (h : Every Reads t) (s : Store) : (run Stmt.exec t s).2 = s := by
  have hframe : Leads Stmt.exec (fun s : Store => s) (fun _ _ => True) (fun _ => True)
      (fun _ s' => s' = s) t s := by
    apply leads_frame trivial h
    intro c s' hc hs _
    cases c with
    | planRow tenant id => exact hs
    | planTargets tenant id => exact hs
    | instance_ tenant deployId => exact hs
    | _ => exact hc.elim
  exact hframe.alone

theorem validateTargets_every (hread : ∀ c, Reads c → P c) (plan : BackupPlan) :
    Every P (validateTargets tenant plan) := by
  unfold validateTargets
  generalize plan.targets = targets
  generalize ([] : List String) = seen
  induction targets generalizing seen with
  | nil => exact every_pure _
  | cons target rest ih =>
    unfold validateTargetsFrom
    split
    · exact every_pure _
    · refine every_bindE (every_query (hread _ trivial)) fun r => ?_
      refine every_bindE (Calls.every_ofStore _) fun found => ?_
      split
      · exact every_pure _
      · split
        · exact every_pure _
        · exact ih _

/-- `Create` reads, and writes one plan with the next time of its own schedule. -/
theorem create_every {lower : String → String} {input : PlanInput} {subject : String} {hex : Option String}
    {now : Time} (hread : ∀ c, Reads c → P c)
    (hwrite : ∀ plan, nextRun cron plan now = .ok plan.nextRunAt → SavedTargets lower plan.targets →
      P (.write (.createPlan plan) (some plan))) :
    Every P (create lower cron tenant input subject hex now) := by
  unfold create
  apply every_resultBind
  intro plan hplan
  apply every_resultBind
  intro id _
  refine every_bindE (validateTargets_every hread _) fun _ => ?_
  have hsaved := savedTargets_of_normalize hplan
  refine every_bindE (Calls.every_write (hwrite _ ?_ hsaved)) fun _ => readPlan_every hread
  have hnext := normalize_next hplan
  exact (nextRun_congr now rfl rfl rfl).trans hnext

theorem update_every {lower : String → String} {input : PlanInput} {now : Time}
    (hread : ∀ c, Reads c → P c)
    (hwrite : ∀ plan changed, nextRun cron plan now = .ok plan.nextRunAt → SavedTargets lower plan.targets →
      P (.write (.updatePlan tenant plan changed) (some plan))) :
    Every P (update lower cron tenant id input now) := by
  unfold update
  refine every_bindE (readPlan_every hread) fun current => ?_
  apply every_resultBind
  intro plan hplan
  refine every_bindE (validateTargets_every hread _) fun _ => ?_
  have hsaved := savedTargets_revised current (savedTargets_of_normalize hplan)
  refine every_bindE (Calls.every_write (hwrite _ _ ?_ hsaved)) fun _ => readPlan_every hread
  have hnext := normalize_next hplan
  exact (nextRun_congr now rfl rfl rfl).trans hnext

/-- The loop over the occurrences of a plan creates batches of it, expands and reads it,
and moves its next time on. -/
theorem runMissed_every {now : Time} {draws : BackupPlan → Time → Draws}
    (hbatch : ∀ batch, batch.tenantUid = tenant → batch.planId = id →
      P (.write (.createBatch batch) none))
    (hrest : ∀ c, Calls.Expands tenant id c → Calls.OfPlan tenant id c → P c)
    (hadvance : ∀ copy scheduled next, copy.id = id → nextRun cron copy scheduled = .ok next →
      P (.write (.advancePlan tenant id scheduled next now) (some copy)))
    (steps : Nat) (plan : BackupPlan) (hid : plan.id = id) :
    Every P (runMissed cron tenant now draws steps plan) := by
  induction steps generalizing plan with
  | zero => exact every_pure _
  | succ steps ih =>
    subst hid
    unfold runMissed
    split
    · exact every_pure _
    · next scheduled hs =>
      split
      · exact every_pure _
      · apply every_resultBind
        intro next hnext
        refine every_bindE ?_ fun stop => ?_
        · unfold handle
          split
          · refine every_bindE (unlessConflict_every ?_) fun _ => every_pure _
            exact every_bindE (every_result _) fun _ => Calls.every_write (hbatch _ rfl rfl)
          · refine every_bindE (unlessConflict_every ?_) fun _ => ?_
            · exact Calls.runPlan_every (fun _ => hbatch _ rfl rfl) hrest
            · refine every_bindE (every_bindE (every_query (hrest _ trivial ⟨rfl, rfl⟩)) fun r => ?_)
                fun _ => every_pure _
              refine every_bindE (Calls.every_ofStore _) fun r => ?_
              exact every_bindE (every_query (hrest _ trivial trivial)) fun _ => every_pure _
        · split
          · exact every_pure _
          · exact every_bindE (Calls.every_write (hadvance plan scheduled next rfl hnext)) fun _ =>
              ih _ rfl

end Every

end AppBackup.Plans
