import AppBackup.Lib.Transition
import AppBackup.Persistence.Syncs
import AppBackup.Probe.Plan
import AppBackup.Source.Resolver

/- The synchronisation of the catalog (`catalog/service.go`): a refresh asks the platform
   for the installed applications, a pool of workers resolves and scans the source of each,
   and what they found replaces the tenant's instances in one transaction.

   A world is the control database and the memory of one process; a step is one statement,
   one move under the mutex, or one message over the channels of the pool. The platform's
   answer, what a worker finds, and whether a write is saved are part of the action. The
   contexts are made `WithoutCancel`, so no step is cut short; a crash loses the memory
   and every goroutine and keeps the database. -/
namespace AppBackup.Catalog
open Persistence

/-- `platform.Application` but for the icon. -/
structure Application where
  appId : String
  name : String
  version : String
  deployId : String
  ownerUid : String
  multiInstance : Bool
  deriving DecidableEq

/-- What `New` keeps: the backup itself is never in the catalog, and the pool has one to
eight workers. -/
structure Service where
  lower : Char → Char
  lowerText : String → String
  backupAppId : String
  workers : Nat
  pool : 1 ≤ workers ∧ workers ≤ 8

def Service.new (lower : Char → Char) (lowerText : String → String) (backupAppId : String)
    (workers : Int) : Service where
  lower := lower
  lowerText := lowerText
  backupAppId := backupAppId
  workers := (max 1 (min 8 workers)).toNat
  pool := by omega

def Service.includes (c : Service) (app : Application) : Bool :=
  !(app.ownerUid == "" || app.deployId == "" || app.appId == "" || app.appId == c.backupAppId)

/-! ## The probe of an application -/

/-- What the walk of a source fails with, as `errors.Is` tells them apart. -/
inductive WalkError where
  | interrupted | permission | notExist | path | other
  deriving DecidableEq

/-- What the resolver and the walk of the source find of an application. -/
inductive Found where
  | unresolved (code : Source.Code)
  | resolved (readOnlyMode : String) (walk : Except WalkError Probe.SourceTree) (probedAt : Time)

def classifySourceError : Source.Code → CapabilityStatus × String
  | .ownerMismatch => (.sourceOwnerMismatch, Source.Code.ownerMismatch.text)
  | .instanceNotFound => (.sourceInstanceNotFound, Source.Code.instanceNotFound.text)
  | code => (.systemUnsupported, code.text)

/-- The branches of `classifyProbeError` after the entry limit. -/
def classifyWalkError : WalkError → CapabilityStatus × String
  | .interrupted => (.probeFailed, "PROBE_TIMEOUT")
  | .permission => (.systemUnsupported, "SOURCE_PERMISSION_DENIED")
  | .notExist => (.systemUnsupported, "SOURCE_PROJECTION_UNAVAILABLE")
  | .path => (.systemUnsupported, "SOURCE_PROJECTION_UNAVAILABLE")
  | .other => (.probeFailed, "PROBE_FAILED")

def classifyProbeError : Probe.ProbeError ⊕ WalkError → CapabilityStatus × String
  | .inl .entryLimitExceeded => (.systemUnsupported, "SOURCE_ENTRY_LIMIT_EXCEEDED")
  | .inr err => classifyWalkError err

/-- An instance with what `ReplaceInstances` writes beside the columns of the model. -/
structure Probed extends ApplicationInstance where
  readOnlyMode : String
  probeErrorCode : String
  totalBytes : Nat
  fileCount : Nat
  sqliteCount : Nat
  skippedCount : Nat
  findings : List Probe.DatabaseFinding
  lastProbedAt : Option Time
  lastSyncedAt : Time

/-- A task of the pool. -/
structure Task where
  app : Application
  ambiguous : Bool
  deriving DecidableEq

/-- An instance before anything is known of its source. -/
def unprobed (tenant : String) (app : Application) (now : Time) : Probed where
  tenantUid := tenant
  appId := app.appId
  name := app.name
  version := app.version
  deployId := app.deployId
  multiInstance := app.multiInstance
  capabilityStatus := .probeFailed
  readOnlyMode := ""
  probeErrorCode := ""
  totalBytes := 0
  fileCount := 0
  sqliteCount := 0
  skippedCount := 0
  findings := []
  lastProbedAt := none
  lastSyncedAt := now

def Probed.failed (x : Probed) (reason : CapabilityStatus × String) : Probed :=
  { x with capabilityStatus := reason.1, probeErrorCode := reason.2 }

def Probed.scanned (x : Probed) (scan : Probe.Result) (probedAt : Time) : Probed :=
  { x with
    capabilityStatus := scan.capabilityStatus
    totalBytes := scan.totalBytes
    fileCount := scan.fileCount
    sqliteCount := scan.sqliteCount
    skippedCount := scan.skippedCount
    findings := scan.findings
    lastProbedAt := some probedAt }

/-- `probe.Run` over the walk of a source. -/
def Service.scan (c : Service) (multiInstance : Bool) :
    Except WalkError Probe.SourceTree → Except (Probe.ProbeError ⊕ WalkError) Probe.Result
  | .error err => .error (.inr err)
  | .ok tree =>
    match Probe.buildPlan c.lowerText tree multiInstance with
    | .error err => .error (.inl err)
    | .ok plan => .ok plan.result

/-- `Service.probe`: two applications under one id share a projection, so neither is scanned. -/
def Service.probe (c : Service) (tenant : String) (t : Task) (now : Time) (found : Found) : Probed :=
  let x := unprobed tenant t.app now
  if t.ambiguous then x.failed (.sourceMappingAmbiguous, "SOURCE_MAPPING_AMBIGUOUS")
  else
    match found with
    | .unresolved code => x.failed (classifySourceError code)
    | .resolved mode walk probedAt =>
      match c.scan t.app.multiInstance walk with
      | .error err => { x with readOnlyMode := mode }.failed (classifyProbeError err)
      | .ok scan => { x with readOnlyMode := mode }.scanned scan probedAt

/-! ## A run -/

/-- How often an application id is in a listing, of what the catalog takes. -/
def Service.counts (c : Service) (apps : List Application) (appId : String) : Nat :=
  (apps.filter c.includes).countP (·.appId == appId)

/-- What the dispatcher sends to the pool. -/
def Service.tasks (c : Service) (apps : List Application) : List Task :=
  (apps.filter c.includes).map fun app => ⟨app, decide (1 < c.counts apps app.appId)⟩

/-- The pool: the tasks not yet sent, those a worker holds, what is in the channel of the
results (of capacity `room`), and what has been taken from it. -/
structure Pool where
  room : Nat
  waiting : List Task
  working : List Task
  sent : List Probed
  received : List Probed

/-- What a run does next. -/
inductive Stage where
  | listing
  | probing (pool : Pool)
  | replacing (instances : List Probed)
  | finishing (state : SyncState) (errorCode : String)
  | leaving

structure Run where
  tenantUid : String
  stage : Stage

/-- The database and a process. `listed` and `begun` are for the reader only: the last
answer of the platform to a run of a tenant, and how many runs this process started for it. -/
structure World where
  store : Store
  syncs : List SyncRow
  running : String → Bool
  runningScope : String → Option String
  initialSynced : String → Bool
  runs : Nat → Option Run
  fresh : Nat
  listed : String → List Application
  begun : String → Nat

def scopeKey (tenant : String) : String := tenant ++ "\x00all-apps"

namespace World

/-- The run of `startSyncLocked`: RUNNING is written before its goroutine starts. -/
def launch (w : World) (u : String) (now : Time) : World :=
  { w with
    syncs := Persistence.startSync w.syncs u now
    running := Function.update w.running u true
    runningScope := Function.update w.runningScope u (some (scopeKey u))
    runs := Function.update w.runs w.fresh (some ⟨u, .listing⟩)
    fresh := w.fresh + 1
    begun := Function.update w.begun u (w.begun u + 1) }

/-- `startSyncLocked`. -/
def startSync (w : World) (u : String) (now : Time) (saved : Bool) : World × Except StoreError Bool :=
  if w.running u then (w, .ok false)
  else if saved then (w.launch u now, .ok true)
  else (w, .error (.invalid "catalog sync"))

def markInitial (w : World) (u : String) (value : Bool) : World :=
  { w with initialSynced := Function.update w.initialSynced (scopeKey u) value }

/-- `StartInitialSyncWithStatus`. -/
def startInitial (w : World) (u : String) (now : Time) (saved : Bool) : World × Except StoreError Bool :=
  if w.initialSynced (scopeKey u) then (w, .ok false)
  else if w.running u then
    (if w.runningScope u = some (scopeKey u) then w.markInitial u true else w, .ok false)
  else
    match (w.markInitial u true).startSync u now saved with
    | (w', .error e) => (w'.markInitial u false, .error e)
    | (w', .ok started) => (w', .ok started)

/-- The run `i` goes on with `stage`. -/
def go (w : World) (i : Nat) (u : String) (stage : Stage) : World :=
  { w with runs := Function.update w.runs i (some ⟨u, stage⟩) }

/-- The deferred function of the goroutine. -/
def leave (w : World) (i : Nat) (u : String) : World :=
  { w with
    running := Function.update w.running u false
    runningScope := Function.update w.runningScope u none
    runs := Function.update w.runs i none }

/-- A new process on the same database. -/
def restarted (w : World) : World :=
  { w with
    running := fun _ => false
    runningScope := fun _ => none
    initialSynced := fun _ => false
    runs := fun _ => none
    begun := fun _ => 0 }

end World

/-! ## The step -/

inductive Move where
  | list (answer : Option (List Application))
  | take
  | send (j : Nat) (now : Time) (found : Found)
  | receive
  | close
  | replace (saved : Bool)
  | finish (now : Time) (saved : Bool)
  | leave

/-- `other` is any work of the server that leaves the catalog alone. -/
inductive Action where
  | start (tenant : String) (now : Time) (saved : Bool)
  | startInitial (tenant : String) (now : Time) (saved : Bool)
  | move (i : Nat) (m : Move)
  | other (store : Store)
  | crash

/-- The platform answers, or does not. -/
def Service.list (c : Service) (w : World) (i : Nat) (u : String) : Option (List Application) → World
  | none => w.go i u (.finishing .failed "APPLICATION_CATALOG_UNAVAILABLE")
  | some apps =>
    { w with listed := Function.update w.listed u apps }.go i u (.probing ⟨apps.length, c.tasks apps, [], [], []⟩)

/-- A message over the channels of the pool. -/
def Service.exchange (c : Service) (u : String) (p : Pool) : Move → Option Pool
  | .take =>
    match p.waiting with
    | [] => none
    | t :: rest =>
        if p.working.length < c.workers then
          some { p with waiting := rest, working := p.working ++ [t] }
        else none
  | .send j now found =>
    match p.working[j]? with
    | none => none
    | some t =>
      if p.sent.length < p.room then
        some { p with working := p.working.eraseIdx j, sent := p.sent ++ [c.probe u t now found] }
      else none
  | .receive =>
    match p.sent with
    | [] => none
    | x :: rest => some { p with sent := rest, received := p.received ++ [x] }
  | _ => none

/-- Every task was sent, every worker is done and every result was taken. -/
def Pool.drained (p : Pool) : Bool := p.waiting.isEmpty && p.working.isEmpty && p.sent.isEmpty

/-- `ReplaceInstances` and the status it leads to. -/
def Service.replace (c : Service) (w : World) (i : Nat) (u : String) (instances : List Probed) (saved : Bool) : World :=
  match w.store.replaceInstances c.lower u (instances.map (·.toApplicationInstance)), saved with
  | .ok store, true => { w with store := store }.go i u (.finishing .succeeded "")
  | _, _ => w.go i u (.finishing .failed "CONTROL_DATABASE_WRITE_FAILED")

def Service.move (c : Service) (w : World) (i : Nat) (u : String) (stage : Stage) (m : Move) : Option World :=
  match stage, m with
  | .listing, .list answer => some (c.list w i u answer)
  | .probing p, .close => if p.drained then some (w.go i u (.replacing p.received)) else none
  | .probing p, m => (c.exchange u p m).map fun p' => w.go i u (.probing p')
  | .replacing instances, .replace saved => some (c.replace w i u instances saved)
  | .finishing state errorCode, .finish now saved =>
    some ((if saved then { w with syncs := finishSync w.syncs u state errorCode now } else w).go i u .leaving)
  | .leaving, .leave => some (w.leave i u)
  | _, _ => none

def Service.step (c : Service) (w : World) : Action → Option World
  | .start u now saved => some (w.startSync u now saved).1
  | .startInitial u now saved => some (w.startInitial u now saved).1
  | .move i m => (w.runs i).bind fun r => c.move w i r.tenantUid r.stage m
  | .other store =>
    some { w with store := { store with instances := w.store.instances, applications := w.store.applications } }
  | .crash => some w.restarted

/-- A process over a new control database. -/
def Fresh (w : World) : Prop :=
  w.syncs = [] ∧ w.runs = (fun _ => none) ∧ w.running = (fun _ => false) ∧
    w.initialSynced = (fun _ => false) ∧ w.begun = fun _ => 0

/-! ## What the functions give -/

/-- A scan never calls an application ambiguous. -/
theorem capability_not_ambiguous (multiInstance : Bool) (n : Nat) (findings : List Probe.DatabaseFinding) :
    Probe.capability multiInstance n findings ≠ .sourceMappingAmbiguous := by
  unfold Probe.capability
  split_ifs <;> simp

theorem scan_not_ambiguous {c : Service} {multiInstance : Bool} {walk : Except WalkError Probe.SourceTree}
    {scan : Probe.Result} (h : c.scan multiInstance walk = .ok scan) :
      scan.capabilityStatus ≠ .sourceMappingAmbiguous := by
  cases walk with
  | error err => cases h
  | ok tree =>
    simp only [Service.scan, Probe.buildPlan] at h
    cases hseen : (tree.listing.walk []).foldlM (Probe.Scan.visit c.lowerText) Probe.Scan.start with
    | error err =>
      rw [hseen] at h
      cases h
    | ok seen =>
      rw [hseen] at h
      obtain rfl := Except.ok.inj h
      apply capability_not_ambiguous

theorem classify_not_ambiguous (err : Probe.ProbeError ⊕ WalkError) :
    (classifyProbeError err).1 ≠ .sourceMappingAmbiguous := by
  cases err with
  | inl err => cases err; simp [classifyProbeError]
  | inr err => cases err <;> simp [classifyProbeError, classifyWalkError]

section
variable {c : Service} {u : String}

/-- A probe keeps what the platform said of the application, and calls it ambiguous where
its id is shared and nowhere else. -/
theorem probe_spec (t : Task) (now : Time) (found : Found) : ∃ status : CapabilityStatus,
    (c.probe u t now found).toApplicationInstance =
      ⟨u, t.app.appId, t.app.name, t.app.version, t.app.deployId, t.app.multiInstance, status⟩ ∧
      (status = .sourceMappingAmbiguous ↔ t.ambiguous = true) := by
  unfold Service.probe
  by_cases hshared : t.ambiguous = true
  · rw [if_pos hshared]
    exact ⟨_, rfl, fun _ => hshared, fun _ => rfl⟩
  · rw [if_neg hshared]
    cases found with
    | unresolved code =>
      refine ⟨(classifySourceError code).1, rfl, fun h => ?_, fun h => absurd h hshared⟩
      cases code <;> cases h
    | resolved mode walk probedAt =>
      cases hscan : c.scan t.app.multiInstance walk with
      | error err =>
        refine ⟨(classifyProbeError err).1, ?_, fun h => absurd h (classify_not_ambiguous err),
          fun h => absurd h hshared⟩
        simp only [hscan]
        rfl
      | ok scan =>
        refine ⟨scan.capabilityStatus, ?_, fun h => absurd h (scan_not_ambiguous hscan), fun h => absurd h hshared⟩
        simp only [hscan]
        rfl

theorem mem_tasks {apps : List Application} {t : Task} :
    t ∈ c.tasks apps ↔ t.app ∈ apps ∧ c.includes t.app = true ∧
    t.ambiguous = decide (1 < c.counts apps t.app.appId) := by
  unfold Service.tasks
  rw [List.mem_map]
  refine ⟨fun h => ?_, fun h => ?_⟩
  · obtain ⟨app, happ, rfl⟩ := h
    exact ⟨(List.mem_filter.mp happ).1, (List.mem_filter.mp happ).2, rfl⟩
  · obtain ⟨happ, hincludes, hshared⟩ := h
    refine ⟨t.app, List.mem_filter.mpr ⟨happ, hincludes⟩, ?_⟩
    rw [← hshared]

theorem tasks_length (apps : List Application) : (c.tasks apps).length ≤ apps.length := by
  unfold Service.tasks
  rw [List.length_map]
  exact List.length_filter_le _ _

theorem scopeKey_injective {u u' : String} (h : scopeKey u = scopeKey u') : u = u' := by
  have hlist := congrArg String.toList h
  unfold scopeKey at hlist
  rw [String.toList_append, String.toList_append] at hlist
  exact String.toList_injective (List.append_cancel_right hlist)

theorem startSync_cases (w : World) (u : String) (now : Time) (saved : Bool) :
    (w.running u = true ∧ w.startSync u now saved = (w, .ok false)) ∨
    (w.running u = false ∧ saved = false ∧ ∃ e, w.startSync u now saved = (w, .error e)) ∨
    (w.running u = false ∧ saved = true ∧ w.startSync u now saved = (w.launch u now, .ok true)) := by
  cases hrunning : w.running u with
  | true => exact .inl ⟨rfl, by simp [World.startSync, hrunning]⟩
  | false =>
    cases saved with
    | false => exact .inr (.inl ⟨rfl, rfl, _, by simp [World.startSync, hrunning]; rfl⟩)
    | true => exact .inr (.inr ⟨rfl, rfl, by simp [World.startSync, hrunning]⟩)

theorem startInitial_cases (w : World) (u : String) (now : Time) (saved : Bool) :
    (w.initialSynced (scopeKey u) = true ∧ w.startInitial u now saved = (w, .ok false)) ∨
    (w.initialSynced (scopeKey u) = false ∧ w.running u = true ∧ w.startInitial u now saved =
      (if w.runningScope u = some (scopeKey u) then w.markInitial u true else w, .ok false)) ∨
    (w.initialSynced (scopeKey u) = false ∧ w.running u = false ∧ saved = false ∧
      ∃ e, w.startInitial u now saved = ((w.markInitial u true).markInitial u false, .error e)) ∨
    (w.initialSynced (scopeKey u) = false ∧ w.running u = false ∧ saved = true ∧
      w.startInitial u now saved = ((w.markInitial u true).launch u now, .ok true)) := by
  cases hinitial : w.initialSynced (scopeKey u) with
  | true => exact .inl ⟨rfl, by simp [World.startInitial, hinitial]⟩
  | false =>
    cases hrunning : w.running u with
    | true => exact .inr (.inl ⟨rfl, rfl, by simp [World.startInitial, hinitial, hrunning]⟩)
    | false =>
      have hmarked : (w.markInitial u true).running u = false := hrunning
      obtain ⟨hyes, -⟩ | ⟨-, rfl, e, he⟩ | ⟨-, rfl, he⟩ :=
          startSync_cases (w.markInitial u true) u now saved
      · rw [hmarked] at hyes
        cases hyes
      · exact .inr (.inr (.inl ⟨rfl, rfl, rfl, e, by simp [World.startInitial, hinitial, hrunning, he]⟩))
      · exact .inr (.inr (.inr ⟨rfl, rfl, rfl, by simp [World.startInitial, hinitial, hrunning, he]⟩))

/-- The messages of the pool. -/
theorem exchange_cases {p p' : Pool} {m : Move} (h : c.exchange u p m = some p') :
    (∃ t rest, m = .take ∧ p.waiting = t :: rest ∧ p.working.length < c.workers ∧
      p' = { p with waiting := rest, working := p.working ++ [t] }) ∨
    (∃ j now found t, m = .send j now found ∧ p.working[j]? = some t ∧ p.sent.length < p.room ∧
      p' = { p with working := p.working.eraseIdx j, sent := p.sent ++ [c.probe u t now found] }) ∨
    (∃ x rest, m = .receive ∧ p.sent = x :: rest ∧
      p' = { p with sent := rest, received := p.received ++ [x] }) := by
  cases m with
  | take =>
    simp only [Service.exchange] at h
    cases hwaiting : p.waiting with
    | nil =>
      rw [hwaiting] at h
      cases h
    | cons t rest =>
      simp only [hwaiting] at h
      by_cases hidle : p.working.length < c.workers
      · rw [if_pos hidle] at h
        exact .inl ⟨t, rest, rfl, rfl, hidle, (Option.some.inj h).symm⟩
      · rw [if_neg hidle] at h
        cases h
  | send j now found =>
    simp only [Service.exchange] at h
    cases hheld : p.working[j]? with
    | none =>
      rw [hheld] at h
      cases h
    | some t =>
      simp only [hheld] at h
      by_cases hroom : p.sent.length < p.room
      · rw [if_pos hroom] at h
        exact .inr (.inl ⟨j, now, found, t, rfl, hheld, hroom, (Option.some.inj h).symm⟩)
      · rw [if_neg hroom] at h
        cases h
  | receive =>
    simp only [Service.exchange] at h
    cases hsent : p.sent with
    | nil =>
      rw [hsent] at h
      cases h
    | cons x rest =>
      simp only [hsent] at h
      exact .inr (.inr ⟨x, rest, rfl, rfl, (Option.some.inj h).symm⟩)
  | list answer => cases h
  | close => cases h
  | replace saved => cases h
  | finish now saved => cases h
  | leave => cases h

theorem move_cases {w w' : World} {i : Nat} {stage : Stage} {m : Move} (h : c.move w i u stage m = some w') :
    (∃ answer, stage = .listing ∧ m = .list answer ∧ w' = c.list w i u answer) ∨
    (∃ p p', stage = .probing p ∧ c.exchange u p m = some p' ∧ w' = w.go i u (.probing p')) ∨
    (∃ p, stage = .probing p ∧ m = .close ∧ p.drained = true ∧ w' = w.go i u (.replacing p.received)) ∨
    (∃ instances saved, stage = .replacing instances ∧ m = .replace saved ∧
      w' = c.replace w i u instances saved) ∨
    (∃ state errorCode now saved, stage = .finishing state errorCode ∧ m = .finish now saved ∧
      w' = (if saved then { w with syncs := finishSync w.syncs u state errorCode now } else w).go i u .leaving) ∨
    (stage = .leaving ∧ m = .leave ∧ w' = w.leave i u) := by
  cases stage with
  | listing =>
    cases m with
    | list answer => exact .inl ⟨answer, rfl, rfl, (Option.some.inj h).symm⟩
    | _ => cases h
  | probing p =>
    by_cases hclose : m = .close
    · subst hclose
      simp only [Service.move] at h
      by_cases hdrained : p.drained = true
      · rw [if_pos hdrained] at h
        exact .inr (.inr (.inl ⟨p, rfl, rfl, hdrained, (Option.some.inj h).symm⟩))
      · rw [if_neg hdrained] at h
        cases h
    · have hmove : (c.exchange u p m).map (fun p' => w.go i u (.probing p')) = some w' := by
        cases m <;> first | exact h | exact absurd rfl hclose
      obtain ⟨p', hp', rfl⟩ := Option.map_eq_some_iff.mp hmove
      exact .inr (.inl ⟨p, p', rfl, hp', rfl⟩)
  | replacing instances =>
    cases m with
    | replace saved => exact .inr (.inr (.inr (.inl ⟨instances, saved, rfl, rfl, (Option.some.inj h).symm⟩)))
    | _ => cases h
  | finishing state errorCode =>
    cases m with
    | finish now saved =>
      exact .inr (.inr (.inr (.inr (.inl ⟨state, errorCode, now, saved, rfl, rfl, (Option.some.inj h).symm⟩))))
    | _ => cases h
  | leaving =>
    cases m with
    | leave => exact .inr (.inr (.inr (.inr (.inr ⟨rfl, rfl, (Option.some.inj h).symm⟩))))
    | _ => cases h

end

end AppBackup.Catalog
