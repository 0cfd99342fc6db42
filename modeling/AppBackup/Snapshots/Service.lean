import AppBackup.Backup.Archive
import AppBackup.Persistence.Control
import AppBackup.Snapshots.Retention
import AppBackup.Storage.Trash

/- `Delete`, `ApplyRetention` and `Cleanup` (`snapshots/service.go`) as they run over the
   storage and the control database. A snapshot that is deleted has its directory moved to
   the trash first and its row marked after; a clean-up removes old directories from the
   trash and then the rows of snapshots that were trashed long ago. The one goes by the time
   at which the directory was last modified, the other by the row's `trashed_at`. -/
namespace AppBackup.Snapshots.Service
open Program Disk Path Storage Persistence Backup

def hour : Time := 3600 * second

/-- How long a trashed snapshot stays. -/
def grace : Time := 7 * 24 * hour

/-- `Delete`. -/
def delete (base : List String) (tenant id : String) (now : Time) : Work Control Snapshot := do
  let snapshot ← reading (.snapshot id) (·.snapshot tenant id)
  if snapshot.retentionStatus = .trashed then Prog.fail (.store .notFound)
  else do
    let location ← (moveToTrash Control.renamed base snapshot.storagePath id).mapError storageError
    writing (.markSnapshotTrashed id) (·.markSnapshotTrashed tenant id location.directory now)
    pure { snapshot with
      storagePath := location.directory, retentionStatus := .trashed, status := .trashed
      trashedAt := some now }

/-- The snapshots of a plan that `ApplyRetention` deletes. -/
def expendable (plan : BackupPlan) (items : List Snapshot) : List Snapshot :=
  if items.any (·.verificationStatus == .failed) then []
  else items.filter fun item => !keeps plan.retention items item

/-- `ApplyRetention`. -/
def applyRetention (base : List String) (tenant : String) (now : String → Time) (plan : BackupPlan) :
    Work Control Unit := do
  let items ← reading .snapshotsForPlan fun s => .ok (s.snapshotsForPlan tenant plan.id)
  Prog.each (expendable plan items) fun item => do
    let _ ← delete base tenant item.id (now item.id)
    pure ()

/-- `DeleteTrashedBefore`. -/
def deleteTrashedBefore (tenant : String) (before : Time) : Work Control (List Snapshot) := do
  let items ← reading .trashedBefore fun s => .ok (s.trashedBefore tenant before)
  Prog.each items fun item => writing (.deleteTrashed item.id) fun s => .ok (s.deleteTrashed tenant item.id)
  pure items

structure CleanupResult where
  partialRemoved : Nat
  trashRemoved : Nat

/-- `Cleanup`; `names` are those that may be in the directory of a name. The error of
`DeleteTrashedBefore` is dropped. -/
def cleanup (base : List String) (names : String → List String) (tenant : String) (now : Time) :
    Work Control CleanupResult := do
  let partialRemoved ← (removeExpiredChildren Control.modified base (names "_partial") "_partial"
    (now - 24 * hour)).mapError storageError
  let trashRemoved ← (removeExpiredChildren Control.modified base (names "_trash") "_trash"
    (now - grace)).mapError storageError
  let _ ← (deleteTrashedBefore tenant (now - grace)).attempt
  pure ⟨partialRemoved, trashRemoved⟩

/-! ## What they do -/

section
variable {κ : Fates} {b : Bool} {base : List String} {tenant id : String} {now : Time} {t₀ : Tree} {d₀ : Control}

/-- The row a `Delete` is about. -/
structure Row (d : Control) (tenant id : String) (r : SnapshotRow) : Prop where
  mem : r ∈ d.store.snapshots
  tenant_eq : r.tenantUid = tenant
  id_eq : r.id = id
  active : r.retentionStatus = .active

/-- The directory of a row has gone to the trash. -/
structure Gone (base : List String) (t₀ : Tree) (r : SnapshotRow) (t : Tree) : Prop where
  safe : safeSegment r.id = true
  moved : ∃ t₁, Tree.Laid t₀ (base ++ ["_trash"]) t₁ ∧
    Tree.Moved t₁ (base ++ split r.storagePath) (trashPath base r.id) t

/-- Nothing is changed but that the trash may be there. -/
def Untouched (base : List String) (t₀ t : Tree) : Prop :=
  ∃ q, q <+: base ++ ["_trash"] ∧ Tree.Laid t₀ q t

theorem snapshot_row {s : Store} {item : Snapshot} (h : s.snapshot tenant id = .ok item)
    (hstatus : item.retentionStatus ≠ .trashed) :
    ∃ r ∈ s.snapshots, r.tenantUid = tenant ∧ r.id = id ∧ r.retentionStatus = .active ∧
      item = scanSnapshot r := by
  unfold Store.snapshot at h
  cases hfind : s.snapshots.find? (snapshotIn tenant id) with
  | none => rw [hfind] at h; cases h
  | some r =>
    rw [hfind] at h
    obtain rfl := Except.ok.inj h
    have hin := Store.snapshotIn_iff.mp (List.find?_some hfind)
    refine ⟨r, List.mem_of_find?_eq_some hfind, hin.1, hin.2, ?_, rfl⟩
    cases hr : r.retentionStatus with
    | active => rfl
    | trashed => exact absurd hr hstatus

/-- A `Delete` moves the directory and marks the row, or changes nothing, or it moves the
directory and the mark fails. -/
theorem delete_does : Does κ b (fun t d => t = t₀ ∧ d = d₀) (delete base tenant id now)
    (fun _ t d => ∃ r, Row d₀ tenant id r ∧ Gone base t₀ r t ∧ ∃ s,
      d₀.store.markSnapshotTrashed tenant id (pathJoin ["_trash", id]) now = .ok s ∧
        d = { d₀.renamed (base ++ split r.storagePath) (trashPath base id) with store := s })
    (fun _ t d => (d = d₀ ∧ Untouched base t₀ t) ∨ ∃ r, Row d₀ tenant id r ∧ Gone base t₀ r t ∧
      d = d₀.renamed (base ++ split r.storagePath) (trashPath base id) ∧
        (Calm κ b → d₀.fails (.markSnapshotTrashed id) = true))
    (fun _ _ => True) := by
  have hsame : ∀ {t : Tree} {d : Control}, t = t₀ ∧ d = d₀ → d = d₀ ∧ Untouched base t₀ t := by
    intro t d h
    rw [h.1]
    exact ⟨h.2, [], List.nil_prefix, Tree.laid_self t₀.root⟩
  refine Does.bind (reading_does.post (fun _ _ _ h => h) ?_ fun _ _ _ => trivial) fun item => ?_
  · exact fun _ _ _ h => .inl (hsame h.1)
  refine Does.ite (fun _ => Does.fail fun _ _ h => .inl (hsame h.1)) fun hstatus => ?_
  refine Does.start (φ := d₀.store.snapshot tenant id = .ok item) ?_ fun hread => ?_
  · intro t d h
    rw [← h.1.2]
    exact h.2.2
  obtain ⟨r, hr, hten, hid, hactive, rfl⟩ := snapshot_row hread hstatus
  have hrow : Row d₀ tenant id r := ⟨hr, hten, hid, hactive⟩
  refine Does.bind (Does.mapError ((moveToTrash_does.pre fun _ _ h => h.1).post (fun _ _ _ h => h) ?_
    fun _ _ _ => trivial)) fun location => ?_
  · intro _ t d h
    obtain ⟨t', q, ⟨rfl, rfl⟩, hq, hlaid, -⟩ := h
    exact .inl ⟨rfl, q, hq, hlaid⟩
  refine Does.start (fun _ _ h => h.2.1) fun hlocation => ?_
  rw [hlocation]
  -- the directory is in the trash now, and the row is as it was
  have hgone : ∀ {t : Tree} {d : Control}, safeSegment id = true →
      (∃ t₁ t₂ d₁, Trashed (fun t d => t = t₀ ∧ d = d₀) Control.renamed base
        (scanSnapshot r).storagePath id
        t₁ t₂ t d₁ d) →
      Gone base t₀ r t ∧ d = d₀.renamed (base ++ split r.storagePath) (trashPath base id) := by
    intro t d hsafe h
    obtain ⟨t₁, t₂, d₁, hbefore, hlaid, hmoved, hdata⟩ := h
    obtain ⟨rfl, rfl⟩ := hbefore
    rw [← hid] at hsafe hmoved
    exact ⟨⟨hsafe, t₂, hlaid, hmoved⟩, hdata⟩
  refine Does.bind (writing_does.post (fun _ _ _ h => h) ?_ fun _ _ _ => trivial) fun _ => Does.pure ?_
  · intro _ t d h
    obtain ⟨hmoved, hd⟩ := hgone h.1.1 h.1.2.2
    refine .inr ⟨r, hrow, hmoved, hd, fun hcalm => ?_⟩
    obtain hfails | ⟨e, he⟩ := h.2 hcalm
    · rw [hd] at hfails
      exact hfails
    · obtain ⟨s', hs', -⟩ := Store.markSnapshotTrashed_of_mem (pathJoin ["_trash", id]) now hr hactive
      rw [hten, hid] at hs'
      rw [hd] at he
      exact absurd (he.symm.trans hs') (by simp)
  · intro t d h
    obtain ⟨s, hmoved, -, hmark⟩ := h
    obtain ⟨hmoved, hd⟩ := hgone hmoved.1 hmoved.2.2
    refine ⟨r, hrow, hmoved, d.store, ?_, ?_⟩
    · have hs : s = d₀.store := congrArg Control.store hd
      rw [hs] at hmark
      exact hmark
    · exact congrArg (fun d' : Control => { d' with store := d.store }) hd

/-! ## The loop of the retention -/

theorem pathJoin_trash (hid : Proper id) : pathJoin ["_trash", id] = "_trash/" ++ id := by
  have hnames : ∀ n ∈ ["_trash", id], Proper n := by
    intro n hn
    obtain rfl | hn := List.mem_cons.mp hn
    · exact proper_trash
    · rw [List.mem_singleton.mp hn]
      exact hid
  rw [pathJoin_proper (List.cons_ne_nil _ _) hnames]
  apply String.toList_injective
  simp [join, List.intercalate]

theorem delete_stays (moves : String → Bool) (times : String → Time) (s : Store) (tenant : String) {id : String}
    (hmoves : moves id = false) : ∃ e, Snapshots.delete moves times s tenant id = .error e := by
  unfold Snapshots.delete
  cases s.snapshot tenant id with
  | error e => exact ⟨_, rfl⟩
  | ok snapshot =>
    simp only [hmoves]
    split <;> exact ⟨_, rfl⟩

/-- Where it moves, it is marked as `Delete` marks it. -/
theorem delete_goes {moves : String → Bool} {times : String → Time} {s s' : Store} {r : SnapshotRow}
    (hmoves : moves id = true) (hr : Row ⟨s, d₀.fails, d₀.modified⟩ tenant id r) (hid : Proper id)
    (hmark : s.markSnapshotTrashed tenant id (pathJoin ["_trash", id]) (times id) = .ok s') :
    Snapshots.delete moves times s tenant id = .ok s' := by
  obtain ⟨hmem, rfl, rfl, hactive⟩ := hr
  have hlisted : (scanSnapshot r).retentionStatus ≠ .trashed := by
    show r.retentionStatus ≠ .trashed
    rw [hactive]
    decide
  rw [pathJoin_trash hid] at hmark
  unfold Snapshots.delete
  rw [Store.snapshot_of_mem hmem]
  simp only [if_neg hlisted, if_pos hmoves, hmark]

/-- The deletions that are left do what is left of the loop: those before went through. -/
def Ahead (times : String → Time) (tenant : String) (s₀ : Store) (items rest : List Snapshot) (s : Store) : Prop :=
  ∃ gone, items.map (·.id) = gone ++ rest.map (·.id) ∧ ∀ moves : String →
  Bool, (∀ id ∈ gone, moves id = true) →
    deleteAll moves times tenant s₀ items = deleteAll moves times tenant s rest

theorem ahead_step {times : String → Time} {s₀ s s' : Store} {items rest : List Snapshot} {item : Snapshot}
    (h : Ahead times tenant s₀ items (item :: rest) s)
    (hgoes : ∀ moves : String → Bool, moves item.id = true →
      Snapshots.delete moves times s tenant item.id = .ok s') : Ahead times tenant s₀ items rest s' := by
  obtain ⟨gone, hids, hloop⟩ := h
  refine ⟨gone ++ [item.id], by rw [hids]; simp, fun moves hmoves => ?_⟩
  rw [hloop moves fun id hid => hmoves id (List.mem_append_left _ hid)]
  exact deleteAll_next (hgoes moves (hmoves item.id (List.mem_append_right _ (List.mem_singleton_self _)))) rest

theorem ahead_stop {times : String → Time} {s₀ s : Store} {items rest : List Snapshot} {item : Snapshot}
    (hids : (items.map (·.id)).Nodup) (h : Ahead times tenant s₀ items (item :: rest) s) :
    ∃ moves e, deleteAll moves times tenant s₀ items = (s, some e) := by
  obtain ⟨gone, hsplit, hloop⟩ := h
  rw [hsplit, List.map_cons] at hids
  have hnew : ∀ id ∈ gone, id ≠ item.id := fun id hid =>
    (List.nodup_append.mp hids).2.2 id hid item.id (List.mem_cons_self ..)
  obtain ⟨e, he⟩ := delete_stays (fun id => decide (id ≠ item.id)) times s tenant (decide_eq_false fun h => h rfl)
  refine ⟨fun id => decide (id ≠ item.id), e, ?_⟩
  rw [hloop _ fun id hid => decide_eq_true (hnew id hid)]
  exact deleteAll_stop he rest

/-- What `ApplyRetention` leaves of the database is what the loop of `Snapshots.applyRetention`
leaves, where the snapshots that move are those whose `Delete` goes through: a row that cannot be
marked ends the loop as a directory that does not move. -/
theorem applyRetention_loop {times : String → Time} {plan : BackupPlan} :
    Does κ b (fun t d => t = t₀ ∧ d = d₀) (applyRetention base tenant times plan)
      (fun _ _ d => ∃ moves, Snapshots.applyRetention moves times d₀.store tenant plan = (d.store, none))
      (fun _ _ d => ∃ moves, (Snapshots.applyRetention moves times d₀.store tenant plan).1 = d.store)
      fun _ _ => True := by
  have hrule : ∀ moves, Snapshots.applyRetention moves times d₀.store tenant plan =
      deleteAll moves times tenant d₀.store (expendable plan (d₀.store.snapshotsForPlan tenant plan.id)) := by
    intro moves
    unfold Snapshots.applyRetention expendable
    simp only
    split <;> rfl
  have hids : ((expendable plan (d₀.store.snapshotsForPlan tenant plan.id)).map (·.id)).Nodup := by
    have hall := Store.snapshotsForPlan_nodup d₀.store tenant plan.id
    unfold expendable
    split
    · exact List.nodup_nil
    · exact hall.sublist (List.filter_sublist.map _)
  refine Does.bind (R := fun items _ d => d = d₀ ∧ items = d₀.store.snapshotsForPlan tenant plan.id)
    (reading_does.post ?_ ?_ fun _ _ _ => trivial) fun items => Does.start (fun _ _ h => h.2) fun hitems => ?_
  · intro items t d h
    have hread := Except.ok.inj h.2.2
    rw [h.1.2] at hread
    exact ⟨h.1.2, hread.symm⟩
  · intro e t d h
    refine ⟨fun _ => false, ?_⟩
    rw [hrule, h.1.2]
    -- nothing moves: the first deletion fails, if there is one
    cases expendable plan (d₀.store.snapshotsForPlan tenant plan.id) with
    | nil => rfl
    | cons item rest =>
      obtain ⟨e, he⟩ := delete_stays (fun _ => false) times d₀.store tenant
          (rfl : (fun _ : String => false) item.id = false)
      rw [deleteAll_stop he]
  · subst hitems
    generalize expendable plan (d₀.store.snapshotsForPlan tenant plan.id) = items at hrule hids
    refine Does.weaken (Does.each (I := fun rest _ d => Ahead times tenant d₀.store items rest d.store)
        (F := fun _ _ d => ∃ moves e, deleteAll moves times tenant d₀.store items = (d.store, some e))
        (C := fun _ _ => True) items fun item rest => ?_) ?_ ?_ ?_ fun _ _ h => h
    · refine Does.each_start fun t₁ d₁ h₁ => ?_
      refine Does.bind (R := fun _ _ d => Ahead times tenant d₀.store items rest d.store)
        (delete_does.post ?_ ?_ fun _ _ h => h) fun _ => Does.pure fun _ _ h => h
      · intro _ t d h
        obtain ⟨r, hrow, hgone, s, hmark, rfl⟩ := h
        exact ahead_step h₁ fun moves hmoves =>
          delete_goes hmoves hrow (hrow.id_eq ▸ safeSegment_proper hgone.safe) hmark
      · intro _ t d h
        have hsame : d.store = d₁.store := by
          obtain ⟨rfl, -⟩ | ⟨r, -, -, rfl, -⟩ := h <;> rfl
        rw [hsame]
        exact ahead_stop hids h₁
    · intro t d h
      rw [h.1]
      exact ⟨[], rfl, fun _ _ => rfl⟩
    · intro _ t d h
      obtain ⟨gone, -, hloop⟩ := h
      exact ⟨fun _ => true, (hrule _).trans (hloop _ fun _ _ => rfl)⟩
    · intro _ t d h
      obtain ⟨moves, e, hloop⟩ := h
      exact ⟨moves, by rw [hrule, hloop]⟩

end

end AppBackup.Snapshots.Service
