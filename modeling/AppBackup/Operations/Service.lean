import AppBackup.Lib.Bytes
import AppBackup.Lib.Json
import AppBackup.Lib.Transition
import AppBackup.Persistence.Operations
import AppBackup.Persistence.Ops
import AppBackup.Persistence.Pages
import AppBackup.Tenant.Scope

/- Settings, alerts, the audit trail and what is published of them (`operations/service.go`).
   A call is a program of single statements: each may fail, and says what is still written
   then. Calls of any tenants run next to each other, statement by statement, and a crash ends
   them all. Random ids and times are part of a call; texts are those of their bytes. Whether a
   time zone can be loaded is the parameter `zone`. The messages to the platform are left out:
   they write nothing.

   What is proved:
     1. `operations_sound` -- what is published was written before, the settings pass their
        own check, and an alert's times agree with its status.
     2. `operations_kept` -- no alert, audit entry or event is lost; a resolved alert stays as
        it is and the first time it was read stands. -/
namespace AppBackup.Operating
open Persistence Bytes Transition

structure Settings where
  locale : String
  timezone : String
  catchUp : Bool
  maxCatchUpSeconds : Int
  retry : RetryPolicy
  retention : RetentionPolicy
  notifyFirstFailure : Bool
  notifySuccess : Bool
  updatedAt : Time

inductive SettingsFault where
  | locale | timezone | catchUpWindow | retryPolicy | retentionPolicy
  deriving DecidableEq

def SettingsFault.code : SettingsFault → String
  | locale => "INVALID_LOCALE"
  | timezone => "INVALID_TIMEZONE"
  | catchUpWindow => "INVALID_CATCH_UP_WINDOW"
  | retryPolicy => "INVALID_RETRY_POLICY"
  | retentionPolicy => "INVALID_RETENTION_POLICY"

/-- `validateSettings`: the first thing that is wrong. -/
def validateSettings (zone : String → Bool) (value : Settings) : Option SettingsFault :=
  if value.locale ≠ "zh-CN" ∧ value.locale ≠ "en-US" then some .locale
  else if zone value.timezone = false then some .timezone
  else if value.maxCatchUpSeconds < 60 ∨ value.maxCatchUpSeconds > 30 * 24 * 3600 then some .catchUpWindow
  else if value.retry.maxRetries < 0 ∨ value.retry.maxRetries > 8 ∨ value.retry.backoffSeconds < 1 ∨
      value.retry.backoffSeconds > 24 * 60 * 60 then some .retryPolicy
  else if value.retention.keepLast < 1 ∨ value.retention.keepLast > 10000 ∨ value.retention.keepDaily < 0 ∨
      value.retention.keepWeekly < 0 ∨ value.retention.keepMonthly < 0 ∨ value.retention.trashGraceHours < 1 ∨
      value.retention.trashGraceHours > 24 * 365 then some .retentionPolicy
  else none

def defaultSettings (now : Time) : Settings where
  locale := "zh-CN"
  timezone := "Asia/Shanghai"
  catchUp := true
  maxCatchUpSeconds := 24 * 3600
  retry := ⟨2, 60⟩
  retention := ⟨7, 7, 4, 3, 7 * 24⟩
  notifyFirstFailure := true
  notifySuccess := false
  updatedAt := now

/-! ## The tables -/

/-- A row of `settings`; the retention is stored as JSON and read back as it was. -/
structure SettingsRow where
  tenantUid : String
  value : Settings
  updatedAt : Int

structure Tables where
  ops : Operations
  settings : List SettingsRow

def Tables.saveSettings (t : Tables) (tenant : String) (value : Settings) : Tables :=
  { t with
    settings := Table.upsert (·.tenantUid == tenant)
      (fun row => { row with value := value, updatedAt := unix value.updatedAt })
      ⟨tenant, value, unix value.updatedAt⟩ t.settings }

/-- `Store.Settings`. -/
def Tables.settingsOf (t : Tables) (tenant : String) (now : Time) : Settings :=
  match t.settings.find? (·.tenantUid == tenant) with
  | none => defaultSettings now
  | some row => { row.value with updatedAt := ofUnix row.updatedAt }

/-- One statement of a call. -/
inductive Write where
  | settings (value : Settings)
  | alert (value : Alert)
  | read (id : String) (now : Time)
  | resolve (id : String) (now : Time)
  | mute (id : String) (mutedUntil now : Time)
  | audit (value : AuditEntry)
  | event (type data : String) (now : Time)

/-- `gap` is what SQLite leaves between two ids of the event log. -/
def Write.apply (tenant : String) (gap : Nat) (t : Tables) : Write → Except StoreError Tables
  | settings value => .ok (t.saveSettings tenant value)
  | alert value => (t.ops.createAlert value).map fun ops => { t with ops := ops }
  | read id now => (t.ops.markAlertRead tenant id now).map fun ops => { t with ops := ops }
  | resolve id now => (t.ops.resolveAlert tenant id now).map fun ops => { t with ops := ops }
  | mute id mutedUntil now => (t.ops.muteAlert tenant id mutedUntil now).map fun ops => { t with ops := ops }
  | audit value => (t.ops.appendAudit value).map fun ops => { t with ops := ops }
  | event type data now => (t.ops.appendEvent tenant type data now gap).map fun ops => { t with ops := ops }

/-! ## The calls -/

/-- What a call still writes: a statement, what follows it, and what follows where it fails. -/
inductive Program where
  | done
  | write (w : Write) (next otherwise : Program)

/-- `json.Marshal` of a map of texts, whose keys are in order. -/
def jsonText (members : List (String × String)) : String :=
  toText (Json.writeObject (members.map fun m => (ofText m.1, Json.quote (ofText m.2))))

/-- `Publish`, whose error no caller looks at. -/
def publish (type data : String) (now : Time) (next : Program) : Program := .write (.event type data now) next next

def auditData (action entityType entityId : String) : String :=
  jsonText [("action", action), ("entityId", entityId), ("entityType", entityType)]

def alertData (id level code : String) : String := jsonText [("alertId", id), ("code", code), ("level", level)]

/-- `Record`: the entry, and the event that announces it. -/
def record (value : AuditEntry) (next : Program) : Program :=
  .write (.audit value)
    (publish "audit.created" (auditData value.action value.entityType value.entityId) value.createdAt next) next

/-- `CreateAlert`. -/
def createAlert (value : Alert) (next : Program) : Program :=
  .write (.alert value)
    (publish "alert.created" (alertData value.id value.level value.code) value.createdAt next) next

/-- The random ids of a call, and its time: nothing compares two readings of the clock in one
call, so they are one, but for `MuteAlert`, where the end of the silence is reckoned before the
statement is made. -/
structure Draw where
  alertId : String
  auditId : String
  now : Time

def newAlert (tenant : String) (draw : Draw) (level type code title message referenceType referenceId : String) :
    Alert where
  id := draw.alertId
  tenantUid := tenant
  level := level
  type := type
  code := code
  title := title
  message := message
  referenceType := referenceType
  referenceId := referenceId
  status := .open
  readAt := none
  resolvedAt := none
  mutedUntil := none
  createdAt := draw.now
  updatedAt := draw.now

def newAudit (tenant : String) (draw : Draw) (action subject entityType entityId metadata : String) : AuditEntry where
  id := draw.auditId
  tenantUid := tenant
  action := action
  subject := subject
  entityType := entityType
  entityId := entityId
  metadata := metadata
  createdAt := draw.now

/-- What handlers publish beside the audit trail. -/
inductive Notice where
  | storageScanned
  | snapshotVerified (snapshotId verificationStatus : String)

def Notice.type : Notice → String
  | storageScanned => "storage.updated"
  | snapshotVerified .. => "snapshot.updated"

def Notice.data : Notice → String
  | storageScanned => jsonText [("action", "scan")]
  | snapshotVerified snapshotId verificationStatus =>
    jsonText [("snapshotId", snapshotId), ("verificationStatus", verificationStatus)]

def taskData (task : BackupTask) : String :=
  jsonText [("appid", task.appId), ("applicationName", task.applicationName), ("batchId", task.batchId),
    ("deployId", task.deployId), ("status", task.status.text), ("taskId", task.id)]

/-- The statuses whose change is put on the audit trail. -/
def recorded (status : TaskStatus) : Bool :=
  status == .succeeded || status == .succeededWithWarnings || status == .failed || status == .timedOut ||
    status == .cancelled || status == .skipped

/-- `TaskUpdated`, of the operations of one tenant. -/
def taskUpdated (tenant : String) (draw : Draw) (task : BackupTask) : Program :=
  let alerting : Program :=
    if task.status = .failed ∨ task.status = .timedOut then
      createAlert (newAlert tenant draw "WARNING" "TASK_FAILURE" task.errorCode "备份任务未完成"
        "备份任务失败，可查看任务详情后重试。" "task" task.id) .done
    else .done
  publish "task.updated" (taskData task) draw.now
    (if recorded task.status then
      record (newAudit tenant draw ("task." ++ String.ofList
        (task.status.text.toList.map Char.toLower)) "" "task" task.id
        (jsonText [("code", task.errorCode), ("status", task.status.text)])) alerting
    else alerting)

inductive Request where
  | updateSettings (value : Settings) (subject : String)
  | markAlertRead (id subject : String)
  | resolveAlert (id subject : String)
  | muteAlert (id subject : String) (duration updatedAt : Time)
  | alert (level type code title message referenceType referenceId : String)
  | record (action subject entityType entityId metadata : String)
  | publish (notice : Notice)
  | taskUpdated (task : BackupTask)
  | batchUpdated (owner batchId status : String)

/-- The tenant a call writes for: its own, or that of the task or batch it is told of. -/
def Request.tenant (own : String) : Request → String
  | taskUpdated task => Tenant.updatedTenant own task.tenantUid
  | batchUpdated owner _ _ => Tenant.updatedTenant own owner
  | _ => own

def minutes (duration : Time) : Int := duration / (60 * second)

/-- What a call writes; nothing where its arguments are refused. -/
def program (zone : String → Bool) (tenant : String) (draw : Draw) : Request → Program
  | .updateSettings value subject =>
    if (validateSettings zone value).isSome then .done
    else
      .write (.settings { value with updatedAt := draw.now })
        (Operating.record (newAudit tenant draw "settings.updated" subject "settings" "current"
          (jsonText [("locale", value.locale), ("timezone", value.timezone)])) .done) .done
  | .markAlertRead id subject =>
    .write (.read id draw.now) (Operating.record (newAudit tenant draw "alert.read" subject "alert" id "") .done) .done
  | .resolveAlert id subject =>
    .write (.resolve id draw.now)
      (Operating.record (newAudit tenant draw "alert.resolved" subject "alert" id "") .done) .done
  | .muteAlert id subject duration updatedAt =>
    if duration ≤ 0 ∨ duration > 30 * 24 * 3600 * second then .done
    else
      .write (.mute id (draw.now + duration) updatedAt)
        (Operating.record (newAudit tenant draw "alert.muted" subject "alert" id
          (toText (Json.writeObject [(ofText "minutes", ofText (toString (minutes duration)))]))) .done) .done
  | .alert level type code title message referenceType referenceId =>
    createAlert (newAlert tenant draw level type code title message referenceType referenceId) .done
  | .record action subject entityType entityId metadata =>
    Operating.record (newAudit tenant draw action subject entityType entityId metadata) .done
  | .publish notice => Operating.publish notice.type notice.data draw.now .done
  | .taskUpdated task => Operating.taskUpdated tenant draw task
  | .batchUpdated _ batchId status =>
    Operating.publish "batch.updated" (jsonText [("batchId", batchId), ("status", status)]) draw.now .done

/-! ## The run -/

structure World where
  tables : Tables
  calls : Nat → Option (String × Program)

inductive Action where
  | call (i : Nat) (own : String) (draw : Draw) (request : Request)
  | run (i : Nat) (saved : Bool) (gap : Nat)
  | crash

/-- The next statement of a call; where it does not go through the table stays as it is. -/
def World.run (w : World) (i : Nat) (tenant : String) (saved : Bool) (gap : Nat) : Program → World
  | .done => { w with calls := Function.update w.calls i none }
  | .write x next otherwise =>
    match x.apply tenant gap w.tables, saved with
    | .ok tables, true => ⟨tables, Function.update w.calls i (some (tenant, next))⟩
    | _, _ => { w with calls := Function.update w.calls i (some (tenant, otherwise)) }

def step (zone : String → Bool) (w : World) : Action → Option World
  | .call i own draw request =>
    if (w.calls i).isSome then none
    else
      some { w with
        calls := Function.update w.calls i
          (some (request.tenant own, program zone (request.tenant own) draw request)) }
  | .run i saved gap => (w.calls i).map fun c => w.run i c.1 saved gap c.2
  | .crash => some { w with calls := fun _ => none }

def initial (w : World) : Prop := w = ⟨⟨.empty, []⟩, fun _ => none⟩

def Reachable (zone : String → Bool) : World → Prop := Transition.Reach (step zone) (fun _ _ => True) initial

/-! ## What the tables keep -/

/-- An alert as it was raised, before anything was done about it. -/
def raised (r : AlertRow) : AlertRow :=
  { r with status := .open, readAt := none, resolvedAt := none, mutedUntil := none, updatedAt := r.createdAt }

/-- What a later state of the tables keeps of an earlier one. -/
structure Kept (t t' : Tables) : Prop where
  alerts : ∀ r ∈ t.ops.alerts, ∃ r' ∈ t'.ops.alerts, raised r' = raised r ∧
    (∀ readAt, r.readAt = some readAt → r'.readAt = some readAt) ∧
    (r.status = .resolved → r'.status = .resolved ∧ r'.resolvedAt = r.resolvedAt ∧ r'.mutedUntil = r.mutedUntil)
  audits : t.ops.audits <+: t'.ops.audits
  events : t.ops.events <+: t'.ops.events

theorem Kept.refl (t : Tables) : Kept t t :=
  ⟨fun r hr => ⟨r, hr, rfl, fun _ h => h, fun h => ⟨h, rfl, rfl⟩⟩, List.prefix_rfl, List.prefix_rfl⟩

theorem Kept.trans {t₁ t₂ t₃ : Tables} (h : Kept t₁ t₂) (h' : Kept t₂ t₃) : Kept t₁ t₃ := by
  refine ⟨fun r hr => ?_, h.audits.trans h'.audits, h.events.trans h'.events⟩
  obtain ⟨r₂, hr₂, hraised, hread, hresolved⟩ := h.alerts r hr
  obtain ⟨r₃, hr₃, hraised', hread', hresolved'⟩ := h'.alerts r₂ hr₂
  refine ⟨r₃, hr₃, hraised'.trans hraised, fun readAt hr => hread' _ (hread _ hr), fun hr => ?_⟩
  obtain ⟨hstatus, hat, hmuted⟩ := hresolved hr
  obtain ⟨hstatus', hat', hmuted'⟩ := hresolved' hstatus
  exact ⟨hstatus', hat'.trans hat, hmuted'.trans hmuted⟩

/-- An alert's times agree with its status. -/
structure Coherent (r : AlertRow) : Prop where
  resolved : r.status = .resolved ↔ r.resolvedAt.isSome = true
  muted : r.status = .muted → r.mutedUntil.isSome = true

/-- An update of one alert that writes its status, its times and nothing else. -/
theorem updateAlert_kept {t : Tables} {ops : Operations} {p : AlertRow → Bool} {f : AlertRow → AlertRow}
    (hf : ∀ r, (f r).id = r.id) (h : t.ops.updateAlert p f hf = .ok ops)
    (hsame : ∀ r, p r = true → raised (f r) = raised r ∧
      (∀ readAt, r.readAt = some readAt → (f r).readAt = some readAt) ∧
      (r.status = .resolved →
        (f r).status = .resolved ∧ (f r).resolvedAt = r.resolvedAt ∧ (f r).mutedUntil = r.mutedUntil) ∧
      (Coherent r → Coherent (f r))) :
    Kept t { t with ops := ops } ∧ ((∀ r ∈ t.ops.alerts, Coherent r) → ∀ r ∈ ops.alerts, Coherent r) := by
  unfold Operations.updateAlert at h
  by_cases hone : t.ops.alerts.countP p = 1
  · rw [if_pos hone] at h
    obtain rfl := Except.ok.inj h
    refine ⟨⟨fun r hr => ?_, List.prefix_rfl, List.prefix_rfl⟩, fun hall r hr => ?_⟩
    · by_cases hp : p r = true
      · obtain ⟨hraised, hread, hresolved, -⟩ := hsame r hp
        exact ⟨f r, Table.mem_updateWhere_hit hr hp, hraised, hread, hresolved⟩
      · exact ⟨r, Table.mem_updateWhere_miss hr (Bool.eq_false_iff.mpr hp), rfl, fun _ h => h,
          fun h => ⟨h, rfl, rfl⟩⟩
    · obtain ⟨old, hold, hp, rfl⟩ | ⟨hold, -⟩ := Table.mem_updateWhere_cases hr
      · exact (hsame old hp).2.2.2 (hall old hold)
      · exact hall r hold
  · rw [if_neg hone] at h
    cases h

theorem Kept.append {t : Tables} {ops : Operations} {alerts : List AlertRow} {audits : List AuditRow}
    {events : List EventRow} (halerts : ops.alerts = t.ops.alerts ++ alerts)
    (haudits : ops.audits = t.ops.audits ++ audits) (hevents : ops.events = t.ops.events ++ events) :
    Kept t { t with ops := ops } := by
  refine ⟨fun r hr => ?_, haudits ▸ List.prefix_append .., hevents ▸ List.prefix_append ..⟩
  refine ⟨r, ?_, rfl, fun _ h => h, fun h => ⟨h, rfl, rfl⟩⟩
  show r ∈ ops.alerts
  rw [halerts]
  exact List.mem_append_left _ hr

theorem createAlert_ok {s s' : Operations} {value : Alert} (h : s.createAlert value = .ok s') :
    s'.alerts = s.alerts ++ [alertRow value] ∧ s'.audits = s.audits ∧ s'.events = s.events := by
  unfold Operations.createAlert at h
  split at h
  · obtain rfl := Except.ok.inj h
    exact ⟨rfl, rfl, rfl⟩
  · cases h

theorem appendAudit_ok {s s' : Operations} {value : AuditEntry} (h : s.appendAudit value = .ok s') :
    s'.alerts = s.alerts ∧ s'.audits = s.audits ++ [auditRow value] ∧ s'.events = s.events := by
  unfold Operations.appendAudit at h
  split at h
  · obtain rfl := Except.ok.inj h
    exact ⟨rfl, rfl, rfl⟩
  · cases h

theorem appendEvent_parts {s s' : Operations} {tenant type data : String} {now : Time} {gap : Nat}
    (h : s.appendEvent tenant type data now gap = .ok s') :
    s'.alerts = s.alerts ∧ s'.audits = s.audits ∧
    s'.events = s.events ++ [s.newEvent tenant type data now gap] := by
  unfold Operations.appendEvent at h
  split at h
  · obtain rfl := Except.ok.inj h
    exact ⟨rfl, rfl, rfl⟩
  · cases h

theorem map_ok {ε α β : Type} {x : Except ε α} {f : α → β} {b : β} (h : x.map f = .ok b) :
    ∃ a, x = .ok a ∧ f a = b := by
  cases x with
  | error e => cases h
  | ok a => exact ⟨a, rfl, Except.ok.inj h⟩

theorem updateAlert_events {s s' : Operations} {p : AlertRow → Bool} {f : AlertRow → AlertRow}
    {hf : ∀ r, (f r).id = r.id} (h : s.updateAlert p f hf = .ok s') : s'.events = s.events := by
  unfold Operations.updateAlert at h
  split at h
  · obtain rfl := Except.ok.inj h
    rfl
  · cases h

section
variable {zone : String → Bool} {tenant : String} {gap : Nat} {t t' : Tables}

/-- What a statement keeps, and that it leaves the alerts coherent where it stores an open one. -/
theorem apply_kept {x : Write} (h : x.apply tenant gap t = .ok t') :
    Kept t t' ∧ ((∀ value, x = .alert value → value.status = .open) →
      (∀ r ∈ t.ops.alerts, Coherent r) → ∀ r ∈ t'.ops.alerts, Coherent r) := by
  cases x with
  | settings value =>
    obtain rfl := Except.ok.inj h
    exact ⟨⟨(Kept.refl t).alerts, List.prefix_rfl, List.prefix_rfl⟩, fun _ hall => hall⟩
  | alert value =>
    obtain ⟨ops, hops, rfl⟩ := map_ok h
    obtain ⟨halerts, haudits, hevents⟩ := createAlert_ok hops
    have hkept := Kept.append halerts (haudits.trans (List.append_nil _).symm) (hevents.trans (List.append_nil _).symm)
    refine ⟨hkept, fun hopen hall r hr => ?_⟩
    rw [halerts] at hr
    obtain hold | hnew := List.mem_append.mp hr
    · exact hall r hold
    · obtain rfl := List.mem_singleton.mp hnew
      have hstatus : value.status = .open := hopen value rfl
      exact ⟨by simp [alertRow, hstatus], by simp [alertRow, hstatus]⟩
  | read id now =>
    obtain ⟨ops, hops, rfl⟩ := map_ok h
    have hupdate := updateAlert_kept (t := t) _ hops fun r _ => ⟨rfl, fun at' hread => by rw [hread]; rfl,
      fun hresolved => ⟨hresolved, rfl, rfl⟩, fun hr => ⟨hr.resolved, hr.muted⟩⟩
    exact ⟨hupdate.1, fun _ => hupdate.2⟩
  | resolve id now =>
    obtain ⟨ops, hops, rfl⟩ := map_ok h
    have hupdate := updateAlert_kept (t := t) _ hops fun r hp => ⟨rfl, fun at' hread => hread,
      fun hresolved => by simp [hresolved] at hp, fun _ => ⟨by simp, by simp⟩⟩
    exact ⟨hupdate.1, fun _ => hupdate.2⟩
  | mute id mutedUntil now =>
    obtain ⟨ops, hops, rfl⟩ := map_ok h
    have hupdate := updateAlert_kept (t := t) _ hops fun r hp => ⟨rfl, fun at' hread => hread,
      fun hresolved => by simp [hresolved] at hp, fun hr => by
        have hopen : r.status ≠ .resolved := by
          intro hresolved
          simp [hresolved] at hp
        have hnone := fun h => hopen (hr.resolved.mpr h)
        exact ⟨by simpa using hnone, by simp⟩⟩
    exact ⟨hupdate.1, fun _ => hupdate.2⟩
  | audit value =>
    obtain ⟨ops, hops, rfl⟩ := map_ok h
    obtain ⟨halerts, haudits, hevents⟩ := appendAudit_ok hops
    have hkept := Kept.append (halerts.trans (List.append_nil _).symm) haudits (hevents.trans (List.append_nil _).symm)
    refine ⟨hkept, fun _ hall r hr => ?_⟩
    rw [halerts] at hr
    exact hall r hr
  | event type data now =>
    obtain ⟨ops, hops, rfl⟩ := map_ok h
    obtain ⟨halerts, haudits, hevents⟩ := appendEvent_parts hops
    have hkept := Kept.append (halerts.trans (List.append_nil _).symm) (haudits.trans (List.append_nil _).symm) hevents
    refine ⟨hkept, fun _ hall r hr => ?_⟩
    rw [halerts] at hr
    exact hall r hr

end

/-! ## What is announced -/

/-- An event that announces an alert or an audit entry is about one that is there. -/
def Announced (t : Tables) (tenant type data : String) : Prop :=
  (type = "alert.created" → ∃ r ∈ t.ops.alerts, r.tenantUid = tenant ∧ data = alertData r.id r.level r.code) ∧
    (type = "audit.created" → ∃ r ∈ t.ops.audits, r.tenantUid = tenant ∧
      data = auditData r.action r.entityType r.entityId)

theorem Announced.mono {t t' : Tables} {tenant type data : String} (h : Announced t tenant type data) (hk : Kept t t') :
    Announced t' tenant type data := by
  refine ⟨fun htype => ?_, fun htype => ?_⟩
  · obtain ⟨r, hr, howner, hdata⟩ := h.1 htype
    obtain ⟨r', hr', hraised, -⟩ := hk.alerts r hr
    simp only [raised, AlertRow.mk.injEq] at hraised
    obtain ⟨hid, htenant, hlevel, -, hcode, -⟩ := hraised
    exact ⟨r', hr', htenant.trans howner, by rw [hdata, hid, hlevel, hcode]⟩
  · obtain ⟨r, hr, hrest⟩ := h.2 htype
    exact ⟨r, hk.audits.subset hr, hrest⟩

/-- What an event may say once a statement has gone through. -/
def Write.announces (type data : String) : Write → Prop
  | alert value => type = "alert.created" ∧ data = alertData value.id value.level value.code
  | audit value => type = "audit.created" ∧ data = auditData value.action value.entityType value.entityId
  | _ => False

/-- A statement a call may make where the events `known` may be published: settings pass their
check, and a new alert or entry is the tenant's own. -/
def Write.Fits (zone : String → Bool) (tenant : String) (known : String → String → Prop) : Write → Prop
  | settings value => validateSettings zone value = none
  | alert value => value.tenantUid = tenant ∧ value.status = .open
  | audit value => value.tenantUid = tenant
  | event type data _ => known type data
  | _ => True

/-- Every statement of a call fits, whichever of those before it have failed. -/
def Backed (zone : String → Bool) (tenant : String) : (String → String → Prop) → Program → Prop
  | _, .done => True
  | known, .write x next otherwise => x.Fits zone tenant known ∧
    Backed zone tenant (fun type data => known type data ∨ x.announces type data) next ∧
    Backed zone tenant known otherwise

/-- Events that announce no row may always be published. -/
def Quiet (known : String → String → Prop) : Prop :=
  ∀ type data, type ≠ "alert.created" → type ≠ "audit.created" → known type data

section
variable {zone : String → Bool} {tenant : String} {known known' : String → String → Prop}

theorem Write.Fits.mono {x : Write} (h : x.Fits zone tenant known)
    (hle : ∀ type data, known type data → known' type data) : x.Fits zone tenant known' := by
  cases x with
  | event type data now => exact hle type data h
  | _ => exact h

theorem Backed.mono {p : Program} (h : Backed zone tenant known p)
    (hle : ∀ type data, known type data → known' type data) : Backed zone tenant known' p := by
  induction p generalizing known known' with
  | done => trivial
  | write x next otherwise ihn iho =>
    obtain ⟨hfits, hnext, hother⟩ := h
    exact ⟨hfits.mono hle, ihn hnext fun type data => Or.imp_left (hle type data), iho hother hle⟩

theorem Quiet.or (h : Quiet known) (more : String → String → Prop) :
    Quiet fun type data => known type data ∨ more type data :=
  fun type data halert haudit => .inl (h type data halert haudit)

theorem publish_backed {type data : String} {now : Time} {next : Program} (hknown : known type data)
    (hnext : Backed zone tenant known next) : Backed zone tenant known (publish type data now next) :=
  ⟨hknown, hnext.mono fun _ _ => .inl, hnext⟩

theorem record_backed {value : AuditEntry} {next : Program} (hquiet : Quiet known) (howner : value.tenantUid = tenant)
    (hnext : ∀ known, Quiet known → Backed zone tenant known next) : Backed zone tenant known (record value next) :=
  ⟨howner, publish_backed (.inr ⟨rfl, rfl⟩) (hnext _ (hquiet.or _)), hnext _ hquiet⟩

theorem createAlert_backed {value : Alert} {next : Program} (hquiet : Quiet known) (howner : value.tenantUid = tenant)
    (hopen : value.status = .open) (hnext : ∀ known, Quiet known → Backed zone tenant known next) :
    Backed zone tenant known (createAlert value next) :=
  ⟨⟨howner, hopen⟩, publish_backed (.inr ⟨rfl, rfl⟩) (hnext _ (hquiet.or _)), hnext _ hquiet⟩

theorem done_backed (known : String → String → Prop) (_ : Quiet known) : Backed zone tenant known .done := trivial

theorem taskUpdated_backed (hquiet : Quiet known) (draw : Draw) (task : BackupTask) :
    Backed zone tenant known (taskUpdated tenant draw task) := by
  have halerting : ∀ known, Quiet known → Backed zone tenant known
      (if task.status = .failed ∨ task.status = .timedOut then
        createAlert (newAlert tenant draw "WARNING" "TASK_FAILURE" task.errorCode "备份任务未完成"
          "备份任务失败，可查看任务详情后重试。" "task" task.id) .done
      else .done) := by
    intro known hquiet
    split
    · exact createAlert_backed hquiet rfl rfl done_backed
    · trivial
  refine publish_backed (hquiet _ _ (by decide +kernel) (by decide +kernel)) ?_
  by_cases hrecorded : recorded task.status = true
  · rw [if_pos hrecorded]
    exact record_backed hquiet rfl halerting
  · rw [if_neg hrecorded]
    exact halerting known hquiet

/-- Every call makes statements that fit. -/
theorem program_backed (hquiet : Quiet known) (draw : Draw) (request : Request) :
    Backed zone tenant known (program zone tenant draw request) := by
  cases request with
  | updateSettings value subject =>
    simp only [program]
    by_cases hvalid : validateSettings zone value = none
    · rw [hvalid]
      exact ⟨hvalid, record_backed (hquiet.or _) rfl done_backed, trivial⟩
    · obtain ⟨fault, hfault⟩ := Option.ne_none_iff_exists'.mp hvalid
      rw [hfault]
      trivial
  | markAlertRead id subject => exact ⟨trivial, record_backed (hquiet.or _) rfl done_backed, trivial⟩
  | resolveAlert id subject => exact ⟨trivial, record_backed (hquiet.or _) rfl done_backed, trivial⟩
  | muteAlert id subject duration updatedAt =>
    simp only [program]
    split
    · trivial
    · exact ⟨trivial, record_backed (hquiet.or _) rfl done_backed, trivial⟩
  | alert level type code title message referenceType referenceId =>
    exact createAlert_backed hquiet rfl rfl done_backed
  | record action subject entityType entityId metadata => exact record_backed hquiet rfl done_backed
  | publish notice =>
    have htype : notice.type ≠ "alert.created" ∧ notice.type ≠ "audit.created" := by
      cases notice with
      | storageScanned => exact ⟨by decide +kernel, by decide +kernel⟩
      | snapshotVerified snapshotId verificationStatus =>
        show "snapshot.updated" ≠ "alert.created" ∧ "snapshot.updated" ≠ "audit.created"
        exact ⟨by decide +kernel, by decide +kernel⟩
    exact publish_backed (hquiet _ _ htype.1 htype.2) trivial
  | taskUpdated task => exact taskUpdated_backed hquiet draw task
  | batchUpdated owner batchId status =>
    exact publish_backed (hquiet _ _ (by decide +kernel) (by decide +kernel)) trivial

end

/-! ## The invariant -/

/-- What holds of the tables and of every call that is still being made. -/
structure Sound (zone : String → Bool) (w : World) : Prop where
  settings : ∀ row ∈ w.tables.settings, validateSettings zone row.value = none
  coherent : ∀ r ∈ w.tables.ops.alerts, Coherent r
  announced : ∀ e ∈ w.tables.ops.events, Announced w.tables e.tenantUid e.type e.data
  pending : ∀ i tenant p, w.calls i = some (tenant, p) → Backed zone tenant (Announced w.tables tenant) p

theorem announced_quiet (t : Tables) (tenant : String) : Quiet (Announced t tenant) :=
  fun _ _ halert haudit => ⟨fun h => absurd h halert, fun h => absurd h haudit⟩

section
variable {zone : String → Bool} {tenant : String} {gap : Nat} {t t' : Tables} {x : Write}

theorem announces_stored (hfits : x.Fits zone tenant (Announced t tenant)) (h : x.apply tenant gap t = .ok t')
    (type data : String) (hx : x.announces type data) : Announced t' tenant type data := by
  cases x with
  | alert value =>
    obtain ⟨ops, hops, rfl⟩ := map_ok h
    obtain ⟨halerts, -, -⟩ := createAlert_ok hops
    obtain ⟨rfl, rfl⟩ := hx
    refine ⟨fun _ => ⟨alertRow value, ?_, hfits.1, rfl⟩, fun h => absurd h (by decide +kernel)⟩
    show alertRow value ∈ ops.alerts
    rw [halerts]
    exact List.mem_append_right _ (List.mem_singleton_self _)
  | audit value =>
    obtain ⟨ops, hops, rfl⟩ := map_ok h
    obtain ⟨-, haudits, -⟩ := appendAudit_ok hops
    obtain ⟨rfl, rfl⟩ := hx
    refine ⟨fun h => absurd h (by decide +kernel), fun _ => ⟨auditRow value, ?_, hfits, rfl⟩⟩
    show auditRow value ∈ ops.audits
    rw [haudits]
    exact List.mem_append_right _ (List.mem_singleton_self _)
  | settings value => cases hx
  | read id now => cases hx
  | resolve id now => cases hx
  | mute id mutedUntil now => cases hx
  | event type' data' now => cases hx

/-- Settings are stored by their own statement alone, once they have passed their check. -/
theorem apply_settings {known : String → String → Prop} (hfits : x.Fits zone tenant known)
    (h : x.apply tenant gap t = .ok t') (hall : ∀ row ∈ t.settings, validateSettings zone row.value = none) :
    ∀ row ∈ t'.settings, validateSettings zone row.value = none := by
  cases x with
  | settings value =>
    obtain rfl := Except.ok.inj h
    intro row hrow
    obtain ⟨old, -, -, rfl⟩ | ⟨hold, -⟩ | rfl := Table.mem_upsert_cases hrow
    · exact hfits
    · exact hall row hold
    · exact hfits
  | alert value =>
    obtain ⟨ops, -, rfl⟩ := map_ok h
    exact hall
  | read id now =>
    obtain ⟨ops, -, rfl⟩ := map_ok h
    exact hall
  | resolve id now =>
    obtain ⟨ops, -, rfl⟩ := map_ok h
    exact hall
  | mute id mutedUntil now =>
    obtain ⟨ops, -, rfl⟩ := map_ok h
    exact hall
  | audit value =>
    obtain ⟨ops, -, rfl⟩ := map_ok h
    exact hall
  | event type data now =>
    obtain ⟨ops, -, rfl⟩ := map_ok h
    exact hall

/-- A new event is the one of the statement. -/
theorem apply_events (h : x.apply tenant gap t = .ok t') {e : EventRow} (he : e ∈ t'.ops.events) :
    e ∈ t.ops.events ∨ ∃ now, x = .event e.type e.data now ∧ e.tenantUid = tenant := by
  cases x with
  | settings value =>
    obtain rfl := Except.ok.inj h
    exact .inl he
  | alert value =>
    obtain ⟨ops, hops, rfl⟩ := map_ok h
    exact .inl ((createAlert_ok hops).2.2 ▸ he)
  | audit value =>
    obtain ⟨ops, hops, rfl⟩ := map_ok h
    exact .inl ((appendAudit_ok hops).2.2 ▸ he)
  | event type data now =>
    obtain ⟨ops, hops, rfl⟩ := map_ok h
    obtain ⟨-, -, hevents⟩ := appendEvent_parts hops
    have he' : e ∈ ops.events := he
    rw [hevents] at he'
    obtain hold | hnew := List.mem_append.mp he'
    · exact .inl hold
    · obtain rfl := List.mem_singleton.mp hnew
      exact .inr ⟨now, rfl, rfl⟩
  | read id now =>
    obtain ⟨ops, hops, rfl⟩ := map_ok h
    exact .inl (updateAlert_events hops ▸ he)
  | resolve id now =>
    obtain ⟨ops, hops, rfl⟩ := map_ok h
    exact .inl (updateAlert_events hops ▸ he)
  | mute id mutedUntil now =>
    obtain ⟨ops, hops, rfl⟩ := map_ok h
    exact .inl (updateAlert_events hops ▸ he)

end

section
variable {zone : String → Bool} {w w' : World}

theorem Sound.apply (h : Sound zone w) {i gap : Nat} {tenant : String} {x : Write} {next otherwise : Program}
    {tables : Tables} (hcall : w.calls i = some (tenant, .write x next otherwise))
    (hx : x.apply tenant gap w.tables = .ok tables) :
    Sound zone ⟨tables, Function.update w.calls i (some (tenant, next))⟩ := by
  obtain ⟨hfits, hnext, -⟩ := h.pending i tenant _ hcall
  obtain ⟨hkept, hcoherent⟩ := apply_kept hx
  refine ⟨fun row hrow => ?_, ?_, fun e he => ?_, fun j tenant' p hj => ?_⟩
  · exact apply_settings hfits hx h.settings row hrow
  · refine hcoherent (fun value he => ?_) h.coherent
    rw [he] at hfits
    exact hfits.2
  · obtain hold | ⟨now, rfl, howner⟩ := apply_events hx he
    · exact (h.announced e hold).mono hkept
    · rw [howner]
      exact Announced.mono hfits hkept
  · by_cases hji : j = i
    · subst hji
      simp only [Function.update_self] at hj
      obtain ⟨rfl, rfl⟩ := Prod.mk.inj (Option.some.inj hj)
      refine hnext.mono fun type data hk => ?_
      obtain hold | hnew := hk
      · exact hold.mono hkept
      · exact announces_stored hfits hx type data hnew
    · simp only [Function.update_of_ne hji] at hj
      exact (h.pending j tenant' p hj).mono fun type data hk => hk.mono hkept

theorem Sound.called (h : Sound zone w) (i : Nat) (c : Option (String × Program))
    (hc : ∀ tenant p, c = some (tenant, p) → Backed zone tenant (Announced w.tables tenant) p) :
    Sound zone { w with calls := Function.update w.calls i c } := by
  refine ⟨h.settings, h.coherent, h.announced, fun j tenant p hj => ?_⟩
  by_cases hji : j = i
  · subst hji
    exact hc tenant p (by simpa using hj)
  · simp only [Function.update_of_ne hji] at hj
    exact h.pending j tenant p hj

/-- A call that goes on: its next statement goes through, or the tables stay as they are. -/
theorem run_cases (w : World) (i gap : Nat) (tenant : String) (saved : Bool) (p : Program) :
    (p = .done ∧ w.run i tenant saved gap p = { w with calls := Function.update w.calls i none }) ∨
      ∃ x next otherwise, p = .write x next otherwise ∧
        (w.run i tenant saved gap p = { w with calls := Function.update w.calls i (some (tenant, otherwise)) } ∨
          ∃ tables, x.apply tenant gap w.tables = .ok tables ∧
            w.run i tenant saved gap p = ⟨tables, Function.update w.calls i (some (tenant, next))⟩) := by
  cases p with
  | done => exact .inl ⟨rfl, rfl⟩
  | write x next otherwise =>
    refine .inr ⟨x, next, otherwise, rfl, ?_⟩
    cases hx : x.apply tenant gap w.tables with
    | error e => exact .inl (by simp only [World.run, hx])
    | ok tables =>
      cases saved with
      | false => exact .inl (by simp only [World.run, hx])
      | true => exact .inr ⟨tables, rfl, by simp only [World.run, hx]⟩

theorem Sound.run (h : Sound zone w) {i gap : Nat} {saved : Bool} {tenant : String} {p : Program}
    (hcall : w.calls i = some (tenant, p)) : Sound zone (w.run i tenant saved gap p) := by
  obtain ⟨rfl, he⟩ | ⟨x, next, otherwise, rfl, he | ⟨tables, hx, he⟩⟩ := run_cases w i gap tenant saved p
  · rw [he]
    exact h.called i none fun _ _ hnone => by cases hnone
  · rw [he]
    apply h.called
    intro tenant' p' hsome
    obtain ⟨rfl, rfl⟩ := Prod.mk.inj (Option.some.inj hsome)
    exact (h.pending i tenant _ hcall).2.2
  · rw [he]
    exact h.apply hcall hx

theorem Sound.next (h : Sound zone w) {a : Action} (hs : step zone w a = some w') : Sound zone w' := by
  cases a with
  | call i own draw request =>
    by_cases hbusy : (w.calls i).isSome = true
    · simp [step, hbusy] at hs
    · simp only [step, hbusy] at hs
      obtain rfl := Option.some.inj hs
      apply h.called
      intro tenant p he
      obtain ⟨rfl, rfl⟩ := Prod.mk.inj (Option.some.inj he)
      exact program_backed (announced_quiet _ _) draw request
  | run i saved gap =>
    obtain ⟨c, hcall, rfl⟩ := Option.map_eq_some_iff.mp hs
    exact h.run hcall
  | crash =>
    obtain rfl := Option.some.inj hs
    exact ⟨h.settings, h.coherent, h.announced, fun _ _ _ hj => by cases hj⟩

theorem step_kept {a : Action} (hs : step zone w a = some w') : Kept w.tables w'.tables := by
  cases a with
  | call i own draw request =>
    by_cases hbusy : (w.calls i).isSome = true
    · simp [step, hbusy] at hs
    · simp only [step, hbusy] at hs
      obtain rfl := Option.some.inj hs
      exact .refl _
  | run i saved gap =>
    obtain ⟨⟨tenant, p⟩, -, rfl⟩ := Option.map_eq_some_iff.mp hs
    dsimp only
    obtain ⟨-, he⟩ | ⟨x, next, otherwise, -, he | ⟨tables, hx, he⟩⟩ := run_cases w i gap tenant saved p
    · rw [he]
      exact .refl _
    · rw [he]
      exact .refl _
    · rw [he]
      exact (apply_kept hx).1
  | crash =>
    obtain rfl := Option.some.inj hs
    exact .refl _

end

theorem Reachable.sound {zone : String → Bool} {w : World} (h : Reachable zone w) : Sound zone w := by
  refine Reach.invariant (I := Sound zone) (fun w hw => ?_) (fun _ _ _ hw _ hs => hw.next hs) h
  obtain rfl := hw
  refine ⟨?_, ?_, ?_, ?_⟩ <;> simp [Operations.empty]

theorem defaultSettings_valid {zone : String → Bool} (hzone : zone "Asia/Shanghai" = true) (now : Time) :
    validateSettings zone (defaultSettings now) = none := by
  simp [validateSettings, defaultSettings, hzone]

/-- Calls of any tenants, statement by statement, with failures and crashes between them: the
settings a tenant reads pass the check, an alert's times agree with its status, and an event that
announces an alert or an audit entry is about one that is stored for the same tenant. -/
theorem operations_sound {zone : String → Bool} (hzone : zone "Asia/Shanghai" = true) {w : World}
    (h : Reachable zone w) :
    (∀ tenant now, validateSettings zone (w.tables.settingsOf tenant now) = none) ∧
    (∀ r ∈ w.tables.ops.alerts, Coherent r) ∧
    (∀ e ∈ w.tables.ops.events, Announced w.tables e.tenantUid e.type e.data) := by
  refine ⟨fun tenant now => ?_, h.sound.coherent, h.sound.announced⟩
  unfold Tables.settingsOf
  cases hfind : w.tables.settings.find? (·.tenantUid == tenant) with
  | none => exact defaultSettings_valid hzone now
  | some row => exact h.sound.settings row (List.mem_of_find?_eq_some hfind)

/-- No call, failure or crash loses an alert, an audit entry or an event, or reopens an alert. -/
theorem operations_kept {zone : String → Bool} {w w' : World} (as : List Action)
    (hrun : runActions (step zone) w as = some w') : Kept w.tables w'.tables := by
  induction as generalizing w with
  | nil =>
    obtain rfl := Option.some.inj hrun
    exact .refl _
  | cons a rest ih =>
    obtain ⟨t, ht, hrest⟩ := Option.bind_eq_some_iff.mp hrun
    exact (step_kept ht).trans (ih hrest)

/-! ### A failed task -/

def zoneA (name : String) : Bool := name == "Asia/Shanghai"

def newTables : World := ⟨⟨.empty, []⟩, fun _ => none⟩

def failedTask : BackupTask := { taskA with status := .failed, errorCode := "SOURCE_NOT_FOUND" }

/-- The task is put on the audit trail and its alert is created, next to a change of settings. -/
def failing : List Action :=
  [.call 0 "" ⟨"alert-1", "audit-1", second⟩ (.taskUpdated failedTask), .run 0 true 0,
   .call 1 failedTask.tenantUid ⟨"", "audit-2", 2 * second⟩ (.updateSettings (defaultSettings 0) "subject"),
   .run 1 true 0, .run 0 true 0, .run 0 true 2, .run 1 false 0, .run 0 true 0, .run 0 true 0, .run 1 true 0]

/-- The alert is resolved; it can be muted no more, and read once. -/
def settling : List Action :=
  [.call 2 failedTask.tenantUid ⟨"", "audit-3", 3 * second⟩ (.resolveAlert "alert-1" "subject"),
   .run 2 true 0, .run 2 true 0,
   .call 3 failedTask.tenantUid ⟨"", "audit-4", 4 * second⟩
     (.muteAlert "alert-1" "subject" (3600 * second) (4 * second)),
   .run 3 true 0, .crash,
   .call 2 failedTask.tenantUid ⟨"", "audit-5", 5 * second⟩ (.markAlertRead "alert-1" "subject"), .run 2 true 0]

theorem operations_sound_failing :
    (final (step zoneA) newTables failing).tables.ops.events.map (·.id) = [1, 4, 5] ∧
      ∀ e ∈ (final (step zoneA) newTables failing).tables.ops.events,
        Announced (final (step zoneA) newTables failing).tables e.tenantUid e.type e.data :=
  ⟨by decide +kernel, (operations_sound (by decide +kernel)
    (@reach_final _ _ _ _ _ (fun _ _ => true) (fun _ _ _ => trivial) _ failing rfl (by decide +kernel))).2.2⟩

theorem operations_kept_settling :
    Kept (final (step zoneA) newTables failing).tables
      (final (step zoneA) (final (step zoneA) newTables failing) settling).tables :=
  operations_kept settling (runActions_final (by decide +kernel))

end AppBackup.Operating
