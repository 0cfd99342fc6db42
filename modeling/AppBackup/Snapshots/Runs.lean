import AppBackup.Backup.Container
import AppBackup.Backup.Standing
import AppBackup.Lib.Transition
import AppBackup.Persistence.Overview
import AppBackup.Snapshots.Service

/- Runs of the backup library. Its state is the storage with the times of its directories and
   the control database; backups, `Delete`, `ApplyRetention` and `Cleanup` follow one another
   in any order, each with statements of its own that fail, and between them the database may
   change in everything but the places of the snapshots. -/
namespace AppBackup.Snapshots.Service
open Program Disk Path Storage Persistence Backup Table

structure Library where
  tree : Tree
  store : Store
  modified : List String → Time

/-- One call. The times of what a backup makes are those of the file system. -/
inductive Call where
  | backup (x : Encounter) (tenant id : String) (stamp : List String → Time)
  | delete (tenant id : String) (now : Time)
  | applyRetention (tenant : String) (now : String → Time) (plan : BackupPlan)
  | cleanup (names : String → List String) (tenant : String) (now : Time)
  | other (store : Store)

/-- A call and the statements of it that fail. -/
structure Action where
  call : Call
  fails : Statement → Bool

/-- What a call runs; the other writes to the database are no programs of the library. -/
def program (v : Service) : Call → Option (Work Control Unit)
  | .backup x tenant id _ => some (executeJob v x tenant id)
  | .delete tenant id now => some do
    let _ ← delete v.base tenant id now
    pure ()
  | .applyRetention tenant now plan => some (applyRetention v.base tenant now plan)
  | .cleanup names tenant now => some do
    let _ ← cleanup v.base names tenant now
    pure ()
  | .other _ => none

/-- The process a call starts in, in which the file system does not fail. -/
def Library.start (l : Library) (fails : Statement → Bool) : Machine Control :=
  Machine.calm l.tree ⟨l.store, fails, l.modified⟩

/-- The library a process leaves; a backup leaves the times of what is in the trash. -/
def Call.leaves (v : Service) (c : Call) (m : Machine Control) : Library where
  tree := m.tree
  store := m.data.store
  modified :=
    match c with
    | .backup _ _ _ stamp => fun p => if v.base ++ ["_trash"] <+: p then m.data.modified p else stamp p
    | _ => m.data.modified

/-- What is where a snapshot is. -/
def place (r : SnapshotRow) : String × String × String × RetentionStatus × Option Int :=
  (r.id, r.tenantUid, r.storagePath, r.retentionStatus, r.trashedAt)

/-- One call runs to its end; a process in which nothing dies does not crash. -/
def next (v : Service) (l : Library) (a : Action) : Option Library :=
  match a.call with
  | .other store =>
    if store.snapshots.map place = l.store.snapshots.map place then some { l with store := store } else none
  | c =>
    (program v c).bind fun run =>
      match run (l.start a.fails) with
      | .done _ m => some (c.leaves v m)
      | .failed _ m => some (c.leaves v m)
      | .crashed _ => none

/-- There are no snapshots. -/
def Vacant (l : Library) : Prop := l.store.snapshots = []

/-! ## What one call keeps -/

theorem calm_start (l : Library) (fails : Statement → Bool) (b : Bool) : Calm (l.start fails).fate b :=
  fun _ => rfl

theorem next_keeps {v : Service} {I : Tree → Store → Prop} {l l' : Library} {a : Action}
    (h : next v l a = some l')
    (hcall : ∀ run, program v a.call = some run → Does (l.start a.fails).fate false
      (fun t d => t = l.tree ∧ d = ⟨l.store, a.fails, l.modified⟩) run
      (fun _ t d => I t d.store) (fun _ t d => I t d.store) (fun _ _ => True))
    (hother : ∀ store, a.call = .other store → store.snapshots.map place = l.store.snapshots.map place →
      I l.tree store) : I l'.tree l'.store := by
  unfold next at h
  split at h
  · next store he =>
    split at h
    · next hplaces =>
      obtain rfl := Option.some.inj h
      exact hother store he hplaces
    · cases h
  · obtain ⟨run, hrun, h⟩ := Option.bind_eq_some_iff.mp h
    have hout := (hcall run hrun).run (m := l.start a.fails) ⟨rfl, rfl, rfl, rfl⟩
    cases hp : run (l.start a.fails) with
    | done u m =>
      rw [hp] at h hout
      obtain rfl := Option.some.inj h
      exact hout.2.2
    | failed e m =>
      rw [hp] at h hout
      obtain rfl := Option.some.inj h
      exact hout.2.2
    | crashed m =>
      rw [hp] at h
      cases h

theorem row_of_places {rows rows' : List SnapshotRow} (h : rows'.map place = rows.map place) {r' : SnapshotRow}
    (hr : r' ∈ rows') : ∃ r ∈ rows, place r = place r' := by
  have hmem : place r' ∈ rows.map place := by
    rw [← h]
    exact List.mem_map_of_mem hr
  exact List.mem_map.mp hmem

theorem startBackupJob_snapshots {s s' : Store} {tenant id : String} {started : Time}
    (h : s.startBackupJob tenant id started = .ok s') : s'.snapshots = s.snapshots := by
  rw [(Store.moveJob_ok h).2]

theorem failBackupJob_snapshots {s s' : Store} {tenant id code : String} {finished : Time}
    (h : s.failBackupJob tenant id code finished = .ok s') : s'.snapshots = s.snapshots := by
  rw [(Store.moveJob_ok h).2]

theorem commitSnapshot_snapshots {s s' : Store} {snapshot : Snapshot} (h : s.commitSnapshot snapshot = .ok s') :
    s'.snapshots = s.snapshots ++ [snapshotRow snapshot] := by
  rw [(Store.commitSnapshot_ok h).2]

theorem markSnapshotTrashed_rows {s s' : Store} {tenant id storagePath : String} {now : Time}
    (h : s.markSnapshotTrashed tenant id storagePath now = .ok s') {r' : SnapshotRow} (hr : r' ∈ s'.snapshots) :
    (∃ r ∈ s.snapshots, r.id = id ∧ r' = trashedRow storagePath now r) ∨
      (r' ∈ s.snapshots ∧ ¬(r'.tenantUid = tenant ∧ r'.id = id ∧ r'.retentionStatus = .active)) := by
  unfold Store.markSnapshotTrashed at h
  simp only at h
  split at h
  · obtain rfl := Except.ok.inj h
    have hr : r' ∈ updateWhere _ _ s.snapshots := hr
    obtain ⟨r, hmem, hhit, he⟩ | ⟨hmem, hmiss⟩ := mem_updateWhere_cases hr
    · simp only [Bool.and_eq_true] at hhit
      exact .inl ⟨r, hmem, (Store.snapshotIn_iff.mp hhit.1).2, he⟩
    · refine .inr ⟨hmem, fun hrow => ?_⟩
      have hin : snapshotIn tenant id r' = true := Store.snapshotIn_iff.mpr ⟨hrow.1, hrow.2.1⟩
      simp [hin, hrow.2.2] at hmiss
  · cases h

/-- `DeleteTrashedBefore` touches neither the tree nor what is not in the trash. -/
theorem deleteTrashedBefore_does {κ : Fates} {b : Bool} {P : Tree → Control → Prop} {tenant : String}
    {before : Time}
    (h : ∀ id t d, P t d → P t { d with store := d.store.deleteTrashed tenant id }) :
    Always κ b P (deleteTrashedBefore tenant before) := by
  refine Always.bind (always_reading _ _) fun items => ?_
  refine Always.bind (I := P) (Does.each (I := fun _ => P) items fun item rest => ?_) fun _ => Always.pure _
  refine writing_does.post ?_ (fun _ _ _ hp => hp.1) fun _ _ hp => hp
  intro _ t d hp
  obtain ⟨s, hs, -, hact⟩ := hp
  have hstore : d.store = s.deleteTrashed tenant item.id := (Except.ok.inj hact).symm
  have hd : d = { ({ d with store := s } : Control) with store := s.deleteTrashed tenant item.id } := by
    rw [← hstore]
  rw [hd]
  exact h item.id t { d with store := s } hs

/-! ## Where trashed snapshots are -/

/-- A trashed snapshot is in the trash under its id, since a time that is written down. -/
def Placed (s : Store) : Prop :=
  ∀ r ∈ s.snapshots, r.retentionStatus = .trashed →
    Proper r.id ∧ r.storagePath = pathJoin ["_trash", r.id] ∧ ∃ seconds, r.trashedAt = some seconds

theorem Placed.of_subset {s s' : Store} (h : Placed s) (hsub : ∀ r ∈ s'.snapshots, r ∈ s.snapshots) : Placed s' :=
  fun r hr => h r (hsub r hr)

theorem Placed.of_places {s s' : Store} (h : Placed s) (hsame : s'.snapshots.map place = s.snapshots.map place) :
    Placed s' := by
  intro r' hr' hstatus
  obtain ⟨r, hr, he⟩ := row_of_places hsame hr'
  simp only [place, Prod.mk.injEq] at he
  obtain ⟨hid, -, hpath, hret, hat⟩ := he
  have hplaced := h r hr (hret.trans hstatus)
  rw [hid, hpath, hat] at hplaced
  exact hplaced

theorem Placed.commit {s s' : Store} {snapshot : Snapshot} (h : Placed s) (hactive : snapshot.retentionStatus = .active)
    (hcommit : s.commitSnapshot snapshot = .ok s') : Placed s' := by
  intro r hr hstatus
  rw [commitSnapshot_snapshots hcommit] at hr
  obtain hr | hr := List.mem_append.mp hr
  · exact h r hr hstatus
  · rw [List.mem_singleton.mp hr] at hstatus
    exact absurd (hactive.symm.trans hstatus) (by decide)

theorem Placed.mark {s s' : Store} {tenant id : String} {now : Time} (h : Placed s) (hsafe : safeSegment id = true)
    (hmark : s.markSnapshotTrashed tenant id (pathJoin ["_trash", id]) now = .ok s') : Placed s' := by
  intro r' hr' hstatus
  obtain ⟨r, -, hid, rfl⟩ | ⟨hr, -⟩ := markSnapshotTrashed_rows hmark hr'
  · subst hid
    have hpath : ∀ storagePath, (trashedRow storagePath now r).storagePath = storagePath := fun _ => rfl
    exact ⟨safeSegment_proper hsafe, hpath _, unix now, rfl⟩
  · exact h r' hr hstatus

section
variable {κ : Fates} {b : Bool} {v : Service} {tenant id : String}

theorem delete_placed {base : List String} {now : Time} :
    Does κ b (fun _ d => Placed d.store) (delete base tenant id now) (fun _ _ d => Placed d.store)
      (fun _ _ d => Placed d.store) (fun _ _ => True) := by
  refine Does.each_start fun t₀ d₀ h₀ => ?_
  refine delete_does.post ?_ ?_ fun _ _ _ => trivial
  · intro _ t d h
    obtain ⟨r, hrow, hgone, s, hmark, rfl⟩ := h
    exact h₀.mark (hrow.id_eq ▸ hgone.safe) hmark
  · intro _ t d h
    obtain ⟨rfl, -⟩ | ⟨r, -, -, rfl, -⟩ := h
    · exact h₀
    · exact h₀

theorem backup_placed {x : Encounter} (hcalm : Calm κ b) :
    Does κ b (fun _ d => Placed d.store) (executeJob v x tenant id) (fun _ _ d => Placed d.store)
      (fun _ _ d => Placed d.store) (fun _ d => Placed d.store) := by
  have hlast : ∀ new, Lasting new (fun (_ : Tree) (d : Control) => Placed d.store) := fun _ _ _ _ h _ => h
  refine executeJob_does hcalm (fun _ _ h => h) ?_ ?_
  · intro job t d s h _ hstart
    refine ⟨fun _ => True, fun _ d => Placed d.store, fun _ _ d => Placed d.store, ?_, ?_⟩
    · exact
        { lasting := hlast _
          partialNew := fun _ _ _ => trivial
          works := fun _ => ⟨trivial, fun _ _ => trivial, fun _ _ => trivial⟩
          later := fun _ => hlast _
          free := fun _ _ _ _ h _ => h
          taken := fun _ _ h _ => h
          early := fun _ _ h => h
          late := fun _ _ _ h => h
          recorded := fun _ _ _ _ _ _ _ _ _ _ h hcommit => h.commit rfl hcommit
          dropped := fun _ _ _ _ _ _ h => h
          partialGone := fun _ _ _ _ h => h
          cacheGone := fun _ _ _ _ h => h }
    · refine h.of_subset fun r hr => ?_
      have hr : r ∈ s.snapshots := hr
      rw [startBackupJob_snapshots hstart] at hr
      exact hr
  · intro t d s code h hfail
    refine h.of_subset fun r hr => ?_
    have hr : r ∈ s.snapshots := hr
    rw [failBackupJob_snapshots hfail] at hr
    exact hr

theorem cleanup_placed {base : List String} {names : String → List String} {now : Time} :
    Always κ b (fun _ d => Placed d.store) (cleanup base names tenant now) := by
  refine Always.bind (Always.mapError (always_removeExpiredChildren (.inl rfl) fun _ _ _ _ h _ => h)) fun _ => ?_
  refine Always.bind (Always.mapError (always_removeExpiredChildren (.inr rfl) fun _ _ _ _ h _ => h)) fun _ => ?_
  refine Always.bind (Always.attempt (deleteTrashedBefore_does ?_)) fun _ => Always.pure _
  intro id t d h
  exact h.of_subset fun r hr => (List.mem_filter.mp hr).1

end

/-- In every run a trashed snapshot is in the trash. -/
theorem next_placed {v : Service} {l l' : Library} {a : Action} (hl : Placed l.store)
    (h : next v l a = some l') : Placed l'.store := by
  have hstart : ∀ (t : Tree) (d : Control), t = l.tree ∧ d = ⟨l.store, a.fails, l.modified⟩ →
      Placed d.store := by
    intro t d he
    rw [he.2]
    exact hl
  refine next_keeps (I := fun _ s => Placed s) h (fun run hrun => ?_) fun store _ hplaces => hl.of_places hplaces
  cases hcall : a.call with
  | backup x tenant id stamp =>
    rw [hcall] at hrun
    obtain rfl := Option.some.inj hrun
    exact (backup_placed (calm_start l a.fails false)).weaken hstart (fun _ _ _ h => h) (fun _ _ _ h => h)
      fun _ _ _ => trivial
  | delete tenant id now =>
    rw [hcall] at hrun
    obtain rfl := Option.some.inj hrun
    exact Does.bind (delete_placed.pre hstart) fun _ => Does.pure fun _ _ h => h
  | applyRetention tenant now plan =>
    rw [hcall] at hrun
    obtain rfl := Option.some.inj hrun
    refine Does.bind ((always_reading _ _).weaken hstart (fun _ _ _ h => h) (fun _ _ _ h => h) fun _ _ _ => trivial)
      fun items => ?_
    refine Does.each (I := fun _ (_ : Tree) (d : Control) => Placed d.store) _ fun item rest => ?_
    exact Does.bind delete_placed fun _ => Does.pure fun _ _ h => h
  | cleanup names tenant now =>
    rw [hcall] at hrun
    obtain rfl := Option.some.inj hrun
    refine Does.bind (cleanup_placed.weaken hstart (fun _ _ _ h => h) (fun _ _ _ h => h) fun _ _ _ => trivial)
      fun _ => Does.pure fun _ _ h => h
  | other store =>
    rw [hcall] at hrun
    cases hrun

theorem reach_placed {v : Service} {ok : Library → Action → Prop} {l : Library}
    (h : Transition.Reach (next v) ok Vacant l) : Placed l.store := by
  refine h.invariant (I := fun l => Placed l.store) ?_ fun _ _ _ hl _ hs => next_placed hl hs
  intro l hvacant r hr
  rw [show l.store.snapshots = [] from hvacant] at hr
  cases hr

/-! ## A library with one snapshot -/

/-- A service that names directories by their day, and lists the index as empty lines. -/
def mailService : Service where
  base := ["data"]
  cacheRoot := ["cache"]
  host := ⟨Container.format, fun _ => .ok [10], fun _ => .ok [91, 93]⟩
  lower := id
  sha256 := fun _ => "digest"
  timestamp := fun _ _ => "1970-01-01"
  apart := by decide

def mailSources : Sources where
  modified := fun _ => 0
  reading := fun _ => ⟨.ok (), .ok ⟨true, 1, 0, 0⟩, [7], none, .ok ⟨true, 1, 0, 0⟩⟩
  online := fun _ => ⟨[], none, none⟩
  indexBroken := none

/-- A backup of a directory with one file. -/
def mailEncounter : Encounter where
  resolved := .ok ()
  scan := .ok ⟨.object "a" (.regular [7] true) .nil, by decide⟩
  first := mailSources
  second := mailSources
  timezone := "UTC"
  marshal := fun _ => .ok [123, 125]
  started := second
  capturedAt := second
  finishedAt := second
  verifiedAt := second
  failedAt := second

def mailJob : BackupJob where
  id := "backup-1"
  tenantUid := "u"
  oidcSubject := ""
  userRole := .normal
  appId := "mail"
  applicationName := "Mail"
  applicationVersion := "1"
  deployId := "mail"
  multiInstance := false
  sharedRiskAccepted := true
  status := .queued
  errorCode := ""
  snapshotId := ""
  planId := ""
  batchId := ""
  taskId := ""
  triggerType := "MANUAL"
  scope := .full
  scheduledAt := none
  createdAt := second
  startedAt := none
  finishedAt := none

def mailLibrary : Library where
  tree := Tree.bare.withObjects [(["data"], .directory)]
  store := (Store.empty.createBackupJob mailJob).toOption.getD Store.empty
  modified := fun _ => 0

theorem mailLibrary_vacant : Vacant mailLibrary := by
  unfold Vacant
  decide +kernel

def mailBackup : Action := ⟨.backup mailEncounter "u" "backup-1" fun _ => second, fun _ => false⟩

/-- The row cannot be marked, after the directory has gone. -/
def mailDelete : Action :=
  ⟨.delete "u" "snapshot-1" second, fun c => decide (c = .markSnapshotTrashed "snapshot-1")⟩

/-- A `Delete` that goes through, eight days after the backup. -/
def mailTrash : Action := ⟨.delete "u" "snapshot-1" (8 * 24 * hour), fun _ => false⟩

def mailInstance : InstanceRow := ⟨"u", "mail", "mail", false, .backupable, true⟩

/-- A snapshot that is listed has no directory in place. -/
def lost (base : List String) (l : Library) : Bool :=
  l.store.snapshots.any fun r =>
    r.retentionStatus == .active && l.tree.obj (base ++ split r.storagePath) != some .directory

/-- A clean-up takes the directory of the snapshot, which was trashed at the same time. -/
def taken (base : List String) (l : Library) : Bool :=
  decide (l.store.snapshots.map place =
    [("snapshot-1", "u", "_trash/snapshot-1", .trashed, some (unix (8 * 24 * hour)))]) &&
  l.tree.obj (base ++ ["_trash", "snapshot-1"]) == some .directory &&
  (cleanup base (fun _ => ["snapshot-1"]) "u" (8 * 24 * hour) (l.start fun _ => false)).state.tree.obj
    (base ++ ["_trash", "snapshot-1"]) == none

theorem mail_run : ∃ stored, next mailService mailLibrary mailBackup = some stored ∧
    stored.store.snapshots.map (·.storagePath) = ["mail/1970-01-01"] ∧
      stored.store.snapshots.any (Overview.protects mailInstance) = true ∧
      (∃ after, next mailService stored mailDelete = some after ∧ lost mailService.base after = true) ∧
      ∃ trashed, next mailService stored mailTrash = some trashed ∧ taken mailService.base trashed = true := by
  have hrun : (match next mailService mailLibrary mailBackup with
      | none => false
      | some stored => decide (stored.store.snapshots.map (·.storagePath) = ["mail/1970-01-01"]) &&
        stored.store.snapshots.any (Overview.protects mailInstance) &&
        (next mailService stored mailDelete).any (lost mailService.base) &&
        (next mailService stored mailTrash).any (taken mailService.base)) = true := by decide +kernel
  cases hbackup : next mailService mailLibrary mailBackup with
  | none => rw [hbackup] at hrun; cases hrun
  | some stored =>
    rw [hbackup] at hrun
    simp only [Bool.and_eq_true, decide_eq_true_eq] at hrun
    obtain ⟨⟨⟨hpath, hprotects⟩, hlost⟩, htaken⟩ := hrun
    refine ⟨stored, rfl, hpath, hprotects, ?_, ?_⟩
    · exact (Option.any_eq_true _ _).mp hlost
    · exact (Option.any_eq_true _ _).mp htaken

end AppBackup.Snapshots.Service
