import AppBackup.Snapshots.Runs

/- Do the library and the storage agree? A snapshot that is listed has its directory in place
   as long as no row fails to be marked after its directory has gone to the trash, no backup
   goes to a deployment that is called like a directory of the storage itself, and none to the
   directory of another snapshot. `Delete` makes the move first: where the mark fails it
   returns an error, and the snapshot stays in the list without its directory.

   What is proved:
     1. `Coherent` lasts: `Coherent.grows`, `Coherent.removeAll`, `Coherent.commit`,
        `Coherent.trashed` say what each kind of change does to it;
     2. `backup_coherent`, `delete_coherent`, `cleanup_coherent` -- so each sound call keeps
        it, at each of its statements;
     3. `library_coherent` -- hence every run of sound calls does.

   `delete_loses_directory` is the run in which the mark fails. -/
namespace AppBackup.Snapshots.Service
open Program Disk Path Storage Persistence Backup Table Transition

/-- The directory of a deployment and a name, where the deployment is not called like a
directory of the storage itself. -/
def Final (storagePath : String) : Prop :=
  ∃ deploy name, Proper deploy ∧ Proper name ∧ deploy ≠ "_partial" ∧ deploy ≠ "_trash" ∧
    storagePath = pathJoin [deploy, name]

theorem Final.split {storagePath : String} (h : Final storagePath) :
    ∃ deploy name, deploy ≠ "_partial" ∧ deploy ≠ "_trash" ∧ Path.split storagePath = [deploy, name] := by
  obtain ⟨deploy, name, hdeploy, hname, hpart, htrash, rfl⟩ := h
  exact ⟨deploy, name, hpart, htrash, split_pair hdeploy hname⟩

theorem prefix_pair {base : List String} {a b c d : String} (h : base ++ [a, b] <+: base ++ [c, d]) :
    a = c ∧ b = d := by
  have heq := (List.prefix_append_right_inj base).mp h
  have hlist := heq.eq_of_length rfl
  simpa using hlist

theorem Final.eq_of_within {base : List String} {p q : String} (hp : Final p) (hq : Final q)
    (h : base ++ Path.split p <+: base ++ Path.split q) : p = q := by
  obtain ⟨deploy, name, hdeploy, hname, -, -, rfl⟩ := hp
  obtain ⟨deploy', name', hdeploy', hname', -, -, rfl⟩ := hq
  rw [split_pair hdeploy hname, split_pair hdeploy' hname'] at h
  obtain ⟨rfl, rfl⟩ := prefix_pair h
  rfl

theorem Final.partial_apart {base : List String} {p : String} (hp : Final p) (id : String) :
    ¬base ++ ["_partial", id] <+: base ++ Path.split p := by
  obtain ⟨deploy, name, hpart, -, hsplit⟩ := hp.split
  rw [hsplit]
  exact fun h => hpart (prefix_pair h).1.symm

theorem Final.not_trash {base : List String} {p : String} (hp : Final p) (id : String) :
    ¬base ++ ["_trash", id] <+: base ++ Path.split p := by
  obtain ⟨deploy, name, -, htrash, hsplit⟩ := hp.split
  rw [hsplit]
  exact fun h => htrash (prefix_pair h).1.symm

/-! ## Coherence -/

/-- Each snapshot that is listed has a directory of its own in place. -/
structure Coherent (base : List String) (t : Tree) (s : Store) : Prop where
  final : ∀ r ∈ s.snapshots, r.retentionStatus = .active → Final r.storagePath
  inPlace : ∀ r ∈ s.snapshots, r.retentionStatus = .active → t.obj (base ++ split r.storagePath) = some .directory
  apart : ∀ r ∈ s.snapshots, ∀ r' ∈ s.snapshots, r.retentionStatus = .active →
    r'.retentionStatus = .active →
    r.storagePath = r'.storagePath → r.id = r'.id

/-- No snapshot that is listed is in the directory. -/
def Unrecorded (directory : String) (s : Store) : Prop :=
  ∀ r ∈ s.snapshots, r.retentionStatus = .active → r.storagePath ≠ directory

namespace Coherent
variable {base : List String} {t t' : Tree} {s s' : Store}

/-- Rows that are listed were listed, and their directories are where they were. -/
theorem of_rows (h : Coherent base t s)
    (hrows : ∀ r' ∈ s'.snapshots, r'.retentionStatus = .active → ∃ r ∈ s.snapshots,
      r.retentionStatus = .active ∧ r.id = r'.id ∧ r.storagePath = r'.storagePath)
    (hdirs : ∀ r' ∈ s'.snapshots, r'.retentionStatus = .active →
      t.obj (base ++ split r'.storagePath) = some .directory →
      t'.obj (base ++ split r'.storagePath) = some .directory) :
    Coherent base t' s' := by
  refine ⟨fun r' hr' hact => ?_, fun r' hr' hact => ?_, fun r₁ hr₁ r₂ hr₂ hact₁ hact₂ hpath => ?_⟩
  · obtain ⟨r, hr, hactive, -, he⟩ := hrows r' hr' hact
    exact he ▸ h.final r hr hactive
  · obtain ⟨r, hr, hactive, -, he⟩ := hrows r' hr' hact
    exact hdirs r' hr' hact (he ▸ h.inPlace r hr hactive)
  · obtain ⟨q₁, hq₁, hactive₁, hid₁, he₁⟩ := hrows r₁ hr₁ hact₁
    obtain ⟨q₂, hq₂, hactive₂, hid₂, he₂⟩ := hrows r₂ hr₂ hact₂
    have hsame := h.apart q₁ hq₁ q₂ hq₂ hactive₁ hactive₂ (he₁.trans (hpath.trans he₂.symm))
    calc r₁.id = q₁.id := hid₁.symm
      _ = q₂.id := hsame
      _ = r₂.id := hid₂

theorem of_subset (h : Coherent base t s) (hsub : ∀ r ∈ s'.snapshots, r ∈ s.snapshots) : Coherent base t s' :=
  h.of_rows (fun r hr hact => ⟨r, hsub r hr, hact, rfl, rfl⟩) fun _ _ _ hdir => hdir

theorem of_tree (h : Coherent base t s)
    (hdirs : ∀ r ∈ s.snapshots, r.retentionStatus = .active →
      t.obj (base ++ split r.storagePath) = some .directory →
      t'.obj (base ++ split r.storagePath) = some .directory) : Coherent base t' s :=
  h.of_rows (fun r hr hact => ⟨r, hr, hact, rfl, rfl⟩) hdirs

theorem grows {new : List String → Prop} (h : Coherent base t s)
    (hgrows : Tree.Grows new t t') : Coherent base t' s :=
  h.of_tree fun _ _ _ hdir => hgrows.kept _ hdir

theorem removeAll {p : List String} {left : List String → Bool} (h : Coherent base t s)
    (hout : ∀ r ∈ s.snapshots, r.retentionStatus = .active → ¬p <+: base ++ split r.storagePath) :
    Coherent base (t.removeAll p left) s := by
  refine h.of_tree fun r hr hact hdir => ?_
  rw [Tree.removeAll_elsewhere (hout r hr hact)]
  exact hdir

theorem trimmed {stamp : List String → Time} {parent : String} {before : Time} (h : Coherent base t s)
    (hparent : parent = "_partial" ∨ parent = "_trash") (htrim : Trimmed stamp (base ++ [parent]) before t t') :
    Coherent base t' s := by
  refine h.of_tree fun r hr hact hdir => ?_
  have hfinal := h.final r hr hact
  rw [htrim.elsewhere fun name hin => ?_]
  · exact hdir
  · rw [List.append_assoc] at hin
    obtain rfl | rfl := hparent
    · exact hfinal.partial_apart name hin
    · exact hfinal.not_trash name hin

/-- A new snapshot in a directory that no other has. -/
theorem commit {snapshot : Snapshot} (h : Coherent base t s) (hfinal : Final snapshot.storagePath)
    (hdir : t.obj (base ++ split snapshot.storagePath) = some .directory)
    (hfree : Unrecorded snapshot.storagePath s) (hcommit : s.commitSnapshot snapshot = .ok s') :
    Coherent base t s' := by
  have hrows : ∀ r ∈ s'.snapshots, r ∈ s.snapshots ∨ r = snapshotRow snapshot := by
    intro r hr
    rw [commitSnapshot_snapshots hcommit] at hr
    exact (List.mem_append.mp hr).imp_right List.mem_singleton.mp
  refine ⟨fun r hr hact => ?_, fun r hr hact => ?_, fun r hr r' hr' hact hact' hpath => ?_⟩
  · obtain hr | rfl := hrows r hr
    · exact h.final r hr hact
    · exact hfinal
  · obtain hr | rfl := hrows r hr
    · exact h.inPlace r hr hact
    · exact hdir
  · obtain hr | rfl := hrows r hr
    · obtain hr' | rfl := hrows r' hr'
      · exact h.apart r hr r' hr' hact hact' hpath
      · exact absurd hpath (hfree r hr hact)
    · obtain hr' | rfl := hrows r' hr'
      · exact absurd hpath.symm (hfree r' hr' hact')
      · rfl

/-- A directory goes to the trash with the mark of its row. -/
theorem trashed {d : Control} {tenant id : String} {r : SnapshotRow} {now : Time} (h : Coherent base t d.store)
    (hrow : Row d tenant id r) (hgone : Gone base t r t')
    (hmark : d.store.markSnapshotTrashed tenant id (pathJoin ["_trash", id]) now = .ok s') : Coherent base t' s' := by
  have hrows : ∀ r' ∈ s'.snapshots, r'.retentionStatus = .active →
      r' ∈ d.store.snapshots ∧ r'.id ≠ r.id := by
    intro r' hr' hact
    obtain ⟨r₁, -, -, rfl⟩ | ⟨hr', hmiss⟩ := markSnapshotTrashed_rows hmark hr'
    · cases hact
    · refine ⟨hr', fun hid => hmiss ?_⟩
      have hsame := eq_of_key d.store.snapshots_pk hr' hrow.mem hid
      rw [hsame]
      exact ⟨hrow.tenant_eq, hrow.id_eq, hrow.active⟩
  refine h.of_rows (fun r' hr' hact => ⟨r', (hrows r' hr' hact).1, hact, rfl, rfl⟩) fun r' hr' hact hdir => ?_
  obtain ⟨hmem, hne⟩ := hrows r' hr' hact
  obtain ⟨t₁, hlaid, hmoved⟩ := hgone.moved
  refine hmoved.directory ((@Tree.grows_laid _ _ _ (fun _ => True) (fun _ _ => trivial) hlaid).kept _ hdir) ?_
  intro hin
  have hpath := (h.final r hrow.mem hrow.active).eq_of_within (h.final r' hmem hact) hin
  exact hne (h.apart r hrow.mem r' hmem hrow.active hact hpath).symm

end Coherent

/-! ## The calls -/

/-- A backup whose deployment is not called like a directory of the storage, and whose archive
does not go to the directory of another snapshot when that of its time is taken. -/
def BackupSound (v : Service) (x : Encounter) (l : Library) (tenant id : String) : Prop :=
  ∀ job, l.store.backupJob tenant id = .ok job →
    job.deployId ≠ "_partial" ∧ job.deployId ≠ "_trash" ∧
      (l.tree.obj (finalPath v.base job.deployId (timeName v x)) ≠ none →
        Unrecorded (pathJoin [job.deployId, suffixedName v x job]) l.store)

/-- The snapshots a call deletes. -/
def deleted (l : Library) : Call → List String
  | .delete _ id _ => [id]
  | .applyRetention tenant _ plan => (expendable plan (l.store.snapshotsForPlan tenant plan.id)).map (·.id)
  | _ => []

/-- What keeps the library and the storage together. -/
def Sound (v : Service) (l : Library) (a : Action) : Prop :=
  (∀ id ∈ deleted l a.call, a.fails (.markSnapshotTrashed id) = false) ∧
    match a.call with
    | .backup x tenant id _ => BackupSound v x l tenant id
    | _ => True

section
variable {κ : Fates} {b : Bool} {v : Service} {x : Encounter} {base : List String} {tenant id : String}

theorem cache_outside (v : Service) {p q : List String} (hp : v.cacheRoot <+: p) (hpq : p <+: v.base ++ q) : False := by
  obtain h | h := List.prefix_or_prefix_of_prefix (hp.trans hpq) (List.prefix_append v.base q)
  · exact v.apart.2 h
  · exact v.apart.1 h

theorem cache_above (v : Service) {id : String} {p q : List String} (hp : v.base ++ q <+: p)
    (hpq : p <+: v.cacheRoot ++ [id]) : False := by
  have hbase : v.base <+: v.cacheRoot ++ [id] := (List.prefix_append v.base q).trans (hp.trans hpq)
  obtain h | h := List.prefix_or_prefix_of_prefix hbase (List.prefix_append v.cacheRoot [id])
  · exact v.apart.1 h
  · exact v.apart.2 h

/-- A sound backup of a coherent library. -/
theorem backs {job : BackupJob} (hpart : job.deployId ≠ "_partial") (htrash : job.deployId ≠ "_trash") :
    Backs v x tenant job (· ≠ finalPath v.base job.deployId (timeName v x))
      (fun t d => Coherent v.base t d.store ∧ (t.obj (finalPath v.base job.deployId (timeName v x)) ≠ none →
        Unrecorded (pathJoin [job.deployId, suffixedName v x job]) d.store))
      (fun t d => Coherent v.base t d.store)
      (fun directory t d => Coherent v.base t d.store ∧ Unrecorded directory d.store) where
  lasting := by
    intro t t' d h hgrows
    refine ⟨h.1.grows hgrows, fun hthere => h.2 fun hnone => ?_⟩
    exact hgrows.added _ hnone hthere rfl
  partialNew := by
    intro _ q hq he
    rw [he] at hq
    exact hpart (prefix_pair hq).1
  works := by
    intro _
    refine ⟨fun he => ?_, fun q hq he => ?_, fun q hq he => ?_⟩
    · have hlength := congrArg List.length he
      simp [partialPath, finalPath] at hlength
    · rw [he] at hq
      exact cache_above v (List.prefix_refl _) hq
    · rw [he] at hq
      exact cache_outside v (List.prefix_append ..) hq
  later := fun _ _ _ _ h hgrows => ⟨h.1.grows hgrows, h.2⟩
  free := by
    intro hdeploy htime t d h hnone
    refine ⟨h.1, fun r hr hact he => ?_⟩
    have hdir := h.1.inPlace r hr hact
    rw [he, split_pair hdeploy htime] at hdir
    exact Option.some_ne_none _ (hdir.symm.trans hnone)
  taken := fun _ _ h hthere => ⟨h.1, h.2 hthere⟩
  early := fun _ _ h => h.1
  late := fun _ _ _ h => h.1
  recorded := by
    intro name t d s plan size sha256 hdeploy hname hdir h hcommit
    have hsplit := split_pair hdeploy hname
    refine h.1.commit ⟨_, _, hdeploy, hname, hpart, htrash, rfl⟩ ?_ h.2 hcommit
    show t.obj (v.base ++ split (pathJoin [job.deployId, name])) = _
    rw [hsplit]
    exact hdir
  dropped := by
    intro hdeploy name hname t d left h
    refine h.1.removeAll fun r hr hact hin => ?_
    have hfinal : Final (pathJoin [job.deployId, name]) := ⟨_, _, hdeploy, hname, hpart, htrash, rfl⟩
    have hpath : v.base ++ split (pathJoin [job.deployId, name]) <+: v.base ++ split r.storagePath := by
      rw [split_pair hdeploy hname]
      exact hin
    exact h.2 r hr hact (hfinal.eq_of_within (h.1.final r hr hact) hpath).symm
  partialGone := fun _ _ _ _ h => h.removeAll fun r hr hact => (h.final r hr hact).partial_apart _
  cacheGone := fun _ _ _ _ h => h.removeAll fun _ _ _ hin => cache_outside v (List.prefix_append ..) hin

theorem backup_coherent (hcalm : Calm κ b) {l : Library} {fails : Statement → Bool}
    (hl : Coherent v.base l.tree l.store) (hsound : BackupSound v x l tenant id) :
    Does κ b (fun t d => t = l.tree ∧ d = ⟨l.store, fails, l.modified⟩) (executeJob v x tenant id)
      (fun _ t d => Coherent v.base t d.store) (fun _ t d => Coherent v.base t d.store)
      (fun t d => Coherent v.base t d.store) := by
  refine executeJob_does hcalm ?_ ?_ ?_
  · intro t d h
    rw [h.1, h.2]
    exact hl
  · intro job t d s h hread hstart
    obtain ⟨rfl, rfl⟩ := h
    obtain ⟨hpart, htrash, hfree⟩ := hsound job hread
    refine ⟨_, _, _, @backs v x tenant { job with status := .running, startedAt := some x.started } hpart htrash,
      ?_⟩
    have hsame := startBackupJob_snapshots hstart
    refine ⟨hl.of_subset fun r hr => ?_, fun hthere r hr => ?_⟩
    · have hr : r ∈ s.snapshots := hr
      rw [hsame] at hr
      exact hr
    · have hr : r ∈ s.snapshots := hr
      rw [hsame] at hr
      exact hfree hthere r hr
  · intro t d s code h hfail
    refine h.of_subset fun r hr => ?_
    have hr : r ∈ s.snapshots := hr
    rw [failBackupJob_snapshots hfail] at hr
    exact hr

theorem delete_coherent (hcalm : Calm κ b) {fails : Statement → Bool} {now : Time}
    (hmark : fails (.markSnapshotTrashed id) = false) :
    Does κ b (fun t d => Coherent base t d.store ∧ d.fails = fails) (delete base tenant id now)
      (fun _ t d => Coherent base t d.store ∧ d.fails = fails)
      (fun _ t d => Coherent base t d.store ∧ d.fails = fails) (fun _ _ => True) := by
  refine Does.each_start fun t₀ d₀ h₀ => ?_
  refine delete_does.post ?_ ?_ fun _ _ _ => trivial
  · intro _ t d h
    obtain ⟨r, hrow, hgone, s, hact, rfl⟩ := h
    exact ⟨h₀.1.trashed hrow hgone hact, h₀.2⟩
  · intro _ t d h
    obtain ⟨rfl, q, -, hlaid⟩ | ⟨r, -, -, -, hfails⟩ := h
    · exact ⟨h₀.1.grows (@Tree.grows_laid _ _ _ (fun _ => True) (fun _ _ => trivial) hlaid), h₀.2⟩
    · have hfails := hfails hcalm
      rw [h₀.2, hmark] at hfails
      cases hfails

theorem cleanup_coherent {names : String → List String} {now : Time} :
    Always κ b (fun t d => Coherent base t d.store) (cleanup base names tenant now) := by
  refine Always.bind (Always.mapError (always_removeExpiredChildren (.inl rfl)
    fun _ _ _ _ h htrim => h.trimmed (.inl rfl) htrim)) fun _ => ?_
  refine Always.bind (Always.mapError (always_removeExpiredChildren (.inr rfl)
    fun _ _ _ _ h htrim => h.trimmed (.inr rfl) htrim)) fun _ => ?_
  refine Always.bind (Always.attempt (deleteTrashedBefore_does ?_)) fun _ => Always.pure _
  intro id t d h
  exact h.of_subset fun r hr => (List.mem_filter.mp hr).1

end

/-! ## Runs -/

/-- A sound call keeps the library and the storage together. -/
theorem next_coherent {v : Service} {l l' : Library} {a : Action} (hl : Coherent v.base l.tree l.store)
    (hsound : Sound v l a) (h : next v l a = some l') : Coherent v.base l'.tree l'.store := by
  have hcalm := calm_start l a.fails false
  have hstart : ∀ (t : Tree) (d : Control), t = l.tree ∧ d = ⟨l.store, a.fails, l.modified⟩ →
      Coherent v.base t d.store ∧ d.fails = a.fails := by
    intro t d he
    rw [he.1, he.2]
    exact ⟨hl, rfl⟩
  obtain ⟨hmark, hcallSound⟩ := hsound
  refine next_keeps (I := Coherent v.base) h (fun run hrun => ?_) fun store _ hplaces => ?_
  · cases hcall : a.call with
    | backup x tenant id stamp =>
      rw [hcall] at hrun
      obtain rfl := Option.some.inj hrun
      rw [hcall] at hcallSound
      exact (backup_coherent hcalm hl hcallSound).post (fun _ _ _ h => h) (fun _ _ _ h => h) fun _ _ _ => trivial
    | delete tenant id now =>
      rw [hcall] at hrun
      obtain rfl := Option.some.inj hrun
      have hid : a.fails (.markSnapshotTrashed id) = false := by
        rw [hcall] at hmark
        exact hmark id (List.mem_singleton_self id)
      refine Does.bind ((delete_coherent hcalm hid).weaken hstart (fun _ _ _ h => h) (fun _ _ _ h => h.1)
        fun _ _ h => h) fun _ => Does.pure fun _ _ h => h.1
    | applyRetention tenant now plan =>
      rw [hcall] at hrun
      obtain rfl := Option.some.inj hrun
      rw [hcall] at hmark
      refine Does.bind (R := fun items t d => (Coherent v.base t d.store ∧ d.fails = a.fails) ∧
        items = l.store.snapshotsForPlan tenant plan.id) (reading_does.post ?_ ?_ fun _ _ _ => trivial)
        fun items => Does.start (fun _ _ h => h.2) fun hitems => ?_
      · intro items t d h
        refine ⟨hstart t d h.1, ?_⟩
        have hread := Except.ok.inj h.2.2
        rw [h.1.2] at hread
        exact hread.symm
      · exact fun _ t d h => (hstart t d h.1).1
      · subst hitems
        have hall : ∀ item ∈ expendable plan (l.store.snapshotsForPlan tenant plan.id),
            a.fails (.markSnapshotTrashed item.id) = false :=
          fun item hitem => hmark item.id (List.mem_map_of_mem hitem)
        -- what is left to delete can be marked
        refine Does.weaken (Does.each (I := fun rest t d => (Coherent v.base t d.store ∧ d.fails = a.fails) ∧
            ∀ item ∈ rest, a.fails (.markSnapshotTrashed item.id) = false)
            (F := fun _ t d => Coherent v.base t d.store) (C := fun _ _ => True) _ fun item rest => ?_)
          (fun _ _ h => ⟨h.1, hall⟩) (fun _ _ _ h => h.1.1) (fun _ _ _ h => h) fun _ _ h => h
        refine Does.start (fun _ _ h => h.2) fun hrest => ?_
        refine Does.bind (((delete_coherent hcalm (hrest item (List.mem_cons_self ..))).pre fun _ _ h => h.1).post
          (fun _ _ _ h => h) (fun _ _ _ h => h.1) fun _ _ h => h) fun _ => Does.pure fun _ _ h => ⟨h, ?_⟩
        exact fun item' hitem' => hrest item' (List.mem_cons_of_mem _ hitem')
    | cleanup names tenant now =>
      rw [hcall] at hrun
      obtain rfl := Option.some.inj hrun
      refine Does.bind (cleanup_coherent.weaken (fun t d h => (hstart t d h).1) (fun _ _ _ h => h) (fun _ _ _ h => h)
        fun _ _ _ => trivial) fun _ => Does.pure fun _ _ h => h
    | other store =>
      rw [hcall] at hrun
      cases hrun
  · refine hl.of_rows (fun r' hr' hact => ?_) fun _ _ _ hdir => hdir
    obtain ⟨r, hr, he⟩ := row_of_places hplaces hr'
    simp only [place, Prod.mk.injEq] at he
    exact ⟨r, hr, he.2.2.2.1.trans hact, he.1, he.2.2.1⟩

theorem reach_coherent {v : Service} {l : Library} (h : Reach (next v) (Sound v) Vacant l) :
    Coherent v.base l.tree l.store := by
  refine h.invariant (I := fun l => Coherent v.base l.tree l.store) ?_
    fun _ _ _ hl hok hs => next_coherent hl hok hs
  intro l hvacant
  have hnone : ∀ r, r ∉ l.store.snapshots := by
    intro r hr
    rw [show l.store.snapshots = [] from hvacant] at hr
    cases hr
  exact ⟨fun r hr => absurd hr (hnone r), fun r hr => absurd hr (hnone r), fun r hr => absurd hr (hnone r)⟩

theorem Untouched.below {base : List String} {t₀ t : Tree} (h : Untouched base t₀ t) {a b : String}
    {p : List String}
    (hp : base ++ [a, b] <+: p) : t.obj p = t₀.obj p := by
  obtain ⟨q, hq, hlaid⟩ := h
  rw [hlaid]
  refine if_neg fun hpq => ?_
  have hlength := (hp.trans (hpq.trans hq)).length_le
  simp at hlength

theorem stored_below {base : List String} {t : Tree} {s : Store} (h : Coherent base t s) (hplaced : Placed s)
    {r : SnapshotRow} (hr : r ∈ s.snapshots) : ∃ a b, split r.storagePath = [a, b] := by
  cases hstatus : r.retentionStatus with
  | active =>
    obtain ⟨deploy, name, -, -, hsplit⟩ := (h.final r hr hstatus).split
    exact ⟨deploy, name, hsplit⟩
  | trashed =>
    obtain ⟨hid, hpath, -⟩ := hplaced r hr hstatus
    refine ⟨"_trash", r.id, ?_⟩
    rw [hpath]
    exact split_pair proper_trash hid

/-- In every run of sound calls each snapshot that is listed has its directory in place, and a
sound `Delete` that returns an error leaves the database and the directories of all snapshots
as they were. -/
theorem library_coherent (v : Service) {l : Library} (h : Reach (next v) (Sound v) Vacant l) :
    (∀ r ∈ l.store.snapshots, r.retentionStatus = .active →
      l.tree.obj (v.base ++ split r.storagePath) = some .directory) ∧
    ∀ tenant id now fails e m, Sound v l ⟨.delete tenant id now, fails⟩ →
      delete v.base tenant id now (l.start fails) = .failed e m →
        m.data.store = l.store ∧
          ∀ r ∈ l.store.snapshots, ∀ p, v.base ++ split r.storagePath <+: p → m.tree.obj p = l.tree.obj p := by
  have hcoherent := reach_coherent h
  refine ⟨hcoherent.inPlace, fun tenant id now fails e m hsound hrun => ?_⟩
  have hmark : fails (.markSnapshotTrashed id) = false := hsound.1 id (List.mem_singleton_self id)
  have hdoes : Does (l.start fails).fate false (fun t d => t = l.tree ∧ d = ⟨l.store, fails, l.modified⟩)
      (delete v.base tenant id now) _ _ _ := delete_does
  have hout := hdoes.run (m := l.start fails) ⟨rfl, rfl, rfl, rfl⟩
  rw [hrun] at hout
  obtain ⟨hdata, huntouched⟩ | ⟨r, -, -, -, hfails⟩ := hout.2.2
  · refine ⟨by rw [hdata], fun r hr p hp => ?_⟩
    obtain ⟨a, b, hsplit⟩ := stored_below hcoherent (reach_placed h) hr
    rw [hsplit] at hp
    exact huntouched.below hp
  · have hfails : fails (.markSnapshotTrashed id) = true := hfails (calm_start l fails false)
    rw [hmark] at hfails
    cases hfails

/-! ## One snapshot -/

theorem mailBackup_sound : Sound mailService mailLibrary mailBackup := by
  refine ⟨fun id hid => absurd hid List.not_mem_nil, fun job hjob => ?_⟩
  have hread : (mailLibrary.store.backupJob "u" "backup-1").toOption.map (·.deployId) = some "mail" := by
    decide +kernel
  rw [hjob] at hread
  have hdeploy : job.deployId = "mail" := Option.some.inj hread
  rw [hdeploy]
  refine ⟨by decide, by decide, fun hthere => absurd ?_ hthere⟩
  decide +kernel

/-- A `Delete` of the mail whose first statement fails. -/
def mailRefused (c : Statement) : Bool := decide (c = .snapshot "snapshot-1")

theorem library_coherent_mail : ∃ l : Library, l.store.snapshots.map (·.storagePath) = ["mail/1970-01-01"] ∧
    (∀ r ∈ l.store.snapshots, r.retentionStatus = .active →
      l.tree.obj (mailService.base ++ split r.storagePath) = some .directory) ∧
    ∃ e m, delete mailService.base "u" "snapshot-1" second (l.start mailRefused) = .failed e m ∧
      m.data.store = l.store ∧
      ∀ r ∈ l.store.snapshots, ∀ p, mailService.base ++ split r.storagePath <+: p →
      m.tree.obj p = l.tree.obj p := by
  obtain ⟨stored, hbackup, hpath, -, -, -⟩ := mail_run
  have hreach : Reach (next mailService) (Sound mailService) Vacant stored :=
    .next (.start mailLibrary_vacant) mailBackup_sound hbackup
  have hsound : Sound mailService stored ⟨.delete "u" "snapshot-1" second, mailRefused⟩ := by
    refine ⟨fun id _ => ?_, trivial⟩
    show mailRefused (.markSnapshotTrashed id) = false
    exact decide_eq_false (by simp)
  obtain ⟨hplaces, hkept⟩ := library_coherent mailService hreach
  exact ⟨stored, hpath, hplaces, _, _, rfl, hkept "u" "snapshot-1" second mailRefused _ _ hsound rfl⟩

/-- At most one statement of the call fails. -/
def SingleFault (_ : Library) (a : Action) : Prop := ∃ c, ∀ c', a.fails c' = true → c' = c

theorem delete_loses_directory : ¬∀ (v : Service) (l : Library), Reach (next v) SingleFault Vacant l →
    ∀ r ∈ l.store.snapshots, r.retentionStatus = .active →
      l.tree.obj (v.base ++ split r.storagePath) = some .directory := by
  intro h
  obtain ⟨stored, hbackup, -, -, ⟨after, hdelete, hlost⟩, -⟩ := mail_run
  have hstored : Reach (next mailService) SingleFault Vacant stored :=
    .next (.start mailLibrary_vacant) ⟨.settings, fun _ hc => Bool.noConfusion hc⟩ hbackup
  have hafter : Reach (next mailService) SingleFault Vacant after :=
    .next hstored ⟨.markSnapshotTrashed "snapshot-1", fun _ hc => of_decide_eq_true hc⟩ hdelete
  obtain ⟨r, hr, hbad⟩ := List.any_eq_true.mp hlost
  rw [Bool.and_eq_true, beq_iff_eq, bne_iff_ne] at hbad
  exact hbad.2 (h mailService after hafter r hr hbad.1)

end AppBackup.Snapshots.Service
