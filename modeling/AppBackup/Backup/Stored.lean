import AppBackup.Backup.Restore
import AppBackup.Backup.Standing
import AppBackup.Storage.Placed

/- A backup that comes through (`ExecuteJob`, `backup/service.go`), from the job to the files
   that an export gives back: its archive is that of one run of the writer, it lies with its
   manifest where the snapshot's row says, with the size and the digest of the row, and
   `QuickVerify` and an export of it go through.

   What is proved:
     1. `writeWithRetry_yields`, `written_yields` -- the archive is that of one complete run of
        the writer;
     2. `storeArchive_yields`, `recordSnapshot_yields` -- it lies where the row says that is
        written with it;
     3. `execute_yields`, `executeJob_yields` -- the clean-ups, which run after, leave both;
     4. `executeJob_stores` -- hence `QuickVerify` and an export go through. -/
namespace AppBackup.Backup
open Program Disk Path Text Probe Storage Persistence Queue

/-- The bytes of a job's archive. -/
def storedArchive (v : Service) (x : Encounter) (job : BackupJob) (plan : Plan) (s : Sources) : List Byte :=
  archiveOf v.host.zip (records v.host s plan (x.marshal (openManifest x job plan)))

/-- The archive and its manifest are in a directory of the deployment. -/
structure Filed (v : Service) (x : Encounter) (job : BackupJob) (plan : Plan) (name : String)
    (bytes : List Byte) (t : Tree) : Prop where
  deploy : Proper job.deployId
  directory : Proper name ∧ (name = timeName v x ∨ name = suffixedName v x job)
  archive : t.obj (archivePath v.base job.deployId name) = some (.file bytes)
  manifest : ∃ external, x.marshal (closedManifest x job plan bytes.length (v.sha256 bytes)
    (pathJoin [job.deployId, name])) = .ok external ∧
    t.obj (manifestPath v.base job.deployId name) = some (.file external)

/-- The row for an archive in that directory. -/
def rowOf (v : Service) (x : Encounter) (tenant : String) (job : BackupJob) (plan : Plan) (name : String)
    (bytes : List Byte) : Snapshot :=
  storedSnapshot x tenant job plan bytes.length (v.sha256 bytes) (pathJoin [job.deployId, name])

/-! ## The steps -/

section
variable {κ : Fates} {b : Bool} {v : Service} {x : Encounter} {tenant : String} {job : BackupJob} {plan : Plan}
  {d₀ : Control}

theorem codedValue_yields {δ α : Type} {P : Tree → δ → Prop} {code : String} {value : Except GoError α} :
    Yields κ b P (codedValue code value : Work δ α) fun a t d => value = .ok a ∧ P t d := by
  cases value with
  | ok a => exact Does.pure fun _ _ ht => ⟨rfl, ht⟩
  | error e => exact Does.fail fun _ _ _ => trivial

theorem lasting_data {δ : Type} {I : δ → Prop} {new : List String → Prop} : Lasting new fun _ d => I d :=
  fun _ _ _ hd _ => hd

/-- The archive of a run of the writer, or of the one after it. -/
theorem writeWithRetry_yields {δ : Type} {h : Host} {first second : Sources} {base cache : List String}
    {part : Partial}
    {manifest : Except GoError (List Byte)} (hp : Places.Apart ⟨part.archive, cache⟩) :
    Yields κ b (fun _ (_ : δ) => True) (writeWithRetry h first second base part cache plan manifest)
      fun _ t _ => ∃ s, (s = first ∨ s = second) ∧ Complete h s plan manifest ∧
        t.obj part.archive = some (.file (archiveOf h.zip (records h s plan manifest))) := by
  let Q : Sources → Tree → Prop := fun s t => Complete h s plan manifest ∧
    t.obj part.archive = some (.file (archiveOf h.zip (records h s plan manifest)))
  have hrun : ∀ s, Yields κ b (fun _ (_ : δ) => True) (writeArchive h s base part cache plan manifest)
      (fun _ t _ => Q s t) := by
    intro s
    refine (writeArchive_done False.elim hp s plan manifest).yields.pre fun _ _ _ => ?_
    exact False.elim
  unfold writeWithRetry
  refine Does.bind (R := fun r t _ => r = .ok () → Q first t) (Does.attempt ?_) fun r => ?_
  · exact (hrun first).post (fun _ _ _ ht _ => ht) (fun _ _ _ _ => nofun) fun _ _ _ => trivial
  · split
    · exact Does.pure fun _ _ ht => ⟨first, .inl rfl, ht rfl⟩
    · refine Does.ite (fun _ => Does.fail fun _ _ _ => trivial) fun _ => ?_
      refine Does.bind (R := fun _ _ _ => True) (Does.mapError ?_) fun _ => ?_
      · have hdiscard : Always κ b (fun _ (_ : δ) => True) (discardArchive base part) :=
          always_discardArchive (@lasting_data δ (fun _ => True) fun _ => True) part
        exact hdiscard.pre fun _ _ _ => trivial
      · exact (hrun second).post (fun _ _ _ ht => ⟨second, .inr rfl, ht⟩) (fun _ _ _ ht => ht) fun _ _ ht => ht

/-- What is recorded is there, with its manifest, and the row is that of the archive. -/
theorem recordSnapshot_yields {name : String} {bytes : List Byte} {location : Location}
    (hdeploy : Proper job.deployId) (hname : Proper name)
      (heither : name = timeName v x ∨ name = suffixedName v x job)
    (hlocation : location.directory = pathJoin [job.deployId, name]) :
    Yields κ b (fun t d => t.obj (archivePath v.base job.deployId name) = some (.file bytes) ∧ d = d₀)
      (recordSnapshot v x tenant job plan bytes.length (v.sha256 bytes) location)
      fun _ t d => Filed v x job plan name bytes t ∧
        ∃ s, d₀.store.commitSnapshot (rowOf v x tenant job plan name bytes) = .ok s ∧
        d = { d₀ with store := s } := by
  unfold recordSnapshot
  refine Does.bind codedValue_yields fun external => ?_
  refine Does.start (fun _ _ ht => ht.1) fun hexternal => ?_
  rw [hlocation] at hexternal
  have hwrite : Yields κ b (fun t d => t.obj (archivePath v.base job.deployId name) = some (.file bytes) ∧ d = d₀)
      (writeManifest v.base location external)
      (fun _ t d => (t.obj (manifestPath v.base job.deployId name) = some (.file external) ∧
        t.obj (archivePath v.base job.deployId name) = some (.file bytes)) ∧ d = d₀) :=
    (writeManifest_places hdeploy hname hlocation external).beside (always_writeManifest lasting_data _ _)
  refine Does.bind (R := fun _ t d => Filed v x job plan name bytes t ∧ d = d₀) (Does.mapError (hwrite.weaken
    (fun _ _ ht => ht.2) ?_ (fun _ _ _ ht => ht) fun _ _ ht => ht)) fun _ => ?_
  · exact fun _ _ _ ht => ⟨⟨hdeploy, ⟨hname, heither⟩, ht.1.2, external, hexternal, ht.1.1⟩, ht.2⟩
  refine Does.bind (Does.mapError (always_quickVerify _ _ _).yields) fun _ => ?_
  refine Does.mapError (writing_does.yields.post ?_ (fun _ _ _ ht => ht) fun _ _ ht => ht)
  intro _ t d ht
  obtain ⟨s, ⟨hfiled, hd⟩, -, hcommit⟩ := ht
  refine ⟨hfiled, d.store, ?_, ?_⟩
  · rw [hlocation] at hcommit
    rw [← hd]
    exact hcommit
  · rw [← hd]

theorem storeArchive_yields {part : Partial} {bytes : List Byte} :
    Yields κ b (fun t d => t.obj part.archive = some (.file bytes) ∧ d = d₀)
      (storeArchive v x tenant job plan part)
      fun _ t d => ∃ name, Filed v x job plan name bytes t ∧
        ∃ s, d₀.store.commitSnapshot (rowOf v x tenant job plan name bytes) = .ok s ∧
        d = { d₀ with store := s } := by
  unfold storeArchive
  refine Does.bind (Does.mapError always_syncArchive.yields) fun _ => ?_
  have hdigest : Yields κ b (fun t d => t.obj part.archive = some (.file bytes) ∧ d = d₀)
      (digest v.sha256 v.base part.archive)
      (fun found t d => (found = ((bytes.length : Int), v.sha256 bytes) ∧ t.obj part.archive = some (.file bytes)) ∧
        d = d₀) := digest_yields.beside always_digest
  refine Does.bind (Does.mapError hdigest) fun found => ?_
  refine Does.start (fun _ _ ht => ht.1.1) fun hfound => ?_
  subst hfound
  refine Does.bind (R := fun _ t d => t.obj part.archive = some (.file bytes) ∧ d = d₀)
    (Does.mapError ((always_reading _ _).yields.weaken (fun _ _ ht => ⟨ht.1.2, ht.2⟩) (fun _ _ _ ht => ht)
      (fun _ _ _ ht => ht) fun _ _ ht => ht)) fun _ => ?_
  have hcommit : Yields κ b (fun t d => t.obj part.archive = some (.file bytes) ∧ d = d₀)
      (commitArchive v.base part (timeName v x) job.deployId (shortID job.id))
      (fun location t d => (∃ name, Proper job.deployId ∧ Proper name ∧
        (name = timeName v x ∨ name = suffixedName v x job) ∧ location.directory = pathJoin [job.deployId, name] ∧
        t.obj (archivePath v.base job.deployId name) = some (.file bytes)) ∧ d = d₀) :=
    commitArchive_places.beside (always_commitArchive lasting_data)
  · refine Does.bind (Does.mapError hcommit) fun location => ?_
    refine Does.start (φ := ∃ name, Proper job.deployId ∧ Proper name ∧
      (name = timeName v x ∨ name = suffixedName v x job) ∧
      location.directory = pathJoin [job.deployId, name])
      (fun _ _ ht => ht.1.imp fun _ hn => ⟨hn.1, hn.2.1, hn.2.2.1, hn.2.2.2.1⟩) fun hplace => ?_
    obtain ⟨name, hdeploy, hname, heither, hlocation⟩ := hplace
    have hrecord :=
        @recordSnapshot_yields κ b v x tenant job plan d₀ name bytes location hdeploy hname heither hlocation
    refine Does.onFailure (G := fun _ _ _ => True) (hrecord.weaken ?_ ?_ (fun _ _ _ ht => ht) fun _ _ ht => ht)
      fun _ => ?_
    · intro t d ht
      obtain ⟨⟨name', hdeploy', hname', -, hlocation', hfile⟩, hd⟩ := ht
      have hpair := congrArg split (hlocation.symm.trans hlocation')
      rw [split_pair hdeploy hname, split_pair hdeploy hname'] at hpair
      have hsame : name = name' := by simpa using hpair
      rw [hsame]
      exact ⟨hfile, hd⟩
    · exact fun _ _ _ ht => ⟨name, ht⟩
    · exact always_removeDirectory fun _ _ _ _ => trivial

/-! ## The clean-ups -/

theorem Filed.elsewhere {name : String} {bytes : List Byte} {t : Tree} {p : List String}
    (h : Filed v x job plan name bytes t) (hp : ∀ child, ¬p <+: finalPath v.base job.deployId name ++ [child])
    (left : List String → Bool) : Filed v x job plan name bytes (t.removeAll p left) := by
  obtain ⟨external, hexternal, hmanifest⟩ := h.manifest
  refine ⟨h.deploy, h.directory, ?_, external, hexternal, ?_⟩
  · exact (Tree.removeAll_elsewhere (hp "snapshot.zip")).trans h.archive
  · exact (Tree.removeAll_elsewhere (hp "manifest.json")).trans hmanifest

theorem partial_beside (hdeploy : job.deployId ≠ "_partial") (name child : String) :
    ¬partialPath v.base job.id <+: finalPath v.base job.deployId name ++ [child] := by
  unfold partialPath finalPath
  rw [List.append_assoc, List.prefix_append_right_inj]
  show ¬"_partial" :: [job.id] <+: job.deployId :: [name, child]
  rw [List.cons_prefix_cons]
  exact fun h => hdeploy h.1.symm

theorem cache_beside (name child : String) :
    ¬v.cacheRoot ++ [job.id] <+: finalPath v.base job.deployId name ++ [child] := by
  intro h
  have hcache : v.cacheRoot <+: finalPath v.base job.deployId name ++ [child] := (List.prefix_append _ _).trans h
  have hbase : v.base <+: finalPath v.base job.deployId name ++ [child] := by
    unfold finalPath
    rw [List.append_assoc]
    exact List.prefix_append _ _
  exact (List.prefix_or_prefix_of_prefix hbase hcache).elim v.apart.1 v.apart.2

/-! ## The backup -/

/-- What a backup that came through has done. -/
def Kept (v : Service) (x : Encounter) (tenant : String) (job : BackupJob) (plan : Plan) (s₀ : Store) (s : Sources)
    (name : String) (t : Tree) (d : Control) : Prop :=
  Complete v.host s plan (x.marshal (openManifest x job plan)) ∧
    Filed v x job plan name (storedArchive v x job plan s) t ∧
    s₀.commitSnapshot (rowOf v x tenant job plan name (storedArchive v x job plan s)) = .ok d.store

theorem written_yields {part : Partial} {cache : List String}
    (harchive : part.archive = partialPath v.base job.id ++ ["snapshot.zip"]) :
    Yields κ b (fun _ d => d = d₀)
      (do
        writeWithRetry v.host x.first x.second v.base part cache plan (x.marshal (openManifest x job plan))
        storeArchive v x tenant job plan part)
      fun _ t d => ∃ s name, (s = x.first ∨ s = x.second) ∧ Kept v x tenant job plan d₀.store s name t d := by
  have hworks : Works (fun _ => True) ⟨part.archive, cache⟩ := ⟨trivial, fun _ _ => trivial, fun _ _ => trivial⟩
  have hkeeps : Always κ b (fun _ d => d = d₀) (writeWithRetry v.host x.first x.second v.base part cache plan
      (x.marshal (openManifest x job plan)) : Work Control Unit) :=
    always_writeWithRetry lasting_data hworks _ _ _ _
  have hwrite := Yields.beside (writeWithRetry_yields ( apart_of_partial harchive)) hkeeps
  refine Does.bind (hwrite.pre fun _ _ hd => ⟨trivial, hd⟩) fun _ => ?_
  refine Does.each_start fun t₀ d₁ ht₀ => ?_
  obtain ⟨⟨s, hs, hcomplete, hfile⟩, rfl⟩ := ht₀
  have hstore := @storeArchive_yields κ b v x tenant job plan d₁ part (storedArchive v x job plan s)
  refine hstore.weaken ?_ ?_ (fun _ _ _ ht => ht) fun _ _ ht => ht
  · exact fun t d ht => ⟨ht.1 ▸ hfile, ht.2⟩
  · intro _ t d ht
    obtain ⟨name, hfiled, s', hcommit, hd⟩ := ht
    refine ⟨s, name, hs, hcomplete, hfiled, ?_⟩
    rw [hd]
    exact hcommit

theorem execute_yields (hdeploy : job.deployId ≠ "_partial") :
    Yields κ b (fun _ d => d = d₀) (execute v x tenant job)
      fun _ t d => ∃ plan s name, preflight v x job = .ok plan ∧ (s = x.first ∨ s = x.second) ∧
        Kept v x tenant job plan d₀.store s name t d := by
  unfold execute
  split
  · exact Does.fail fun _ _ _ => trivial
  · next plan hplan =>
    by_cases hid : Proper job.id
    · let R : Tree → Control → Prop := fun t d => ∃ plan s name, preflight v x job = .ok plan ∧
        (s = x.first ∨ s = x.second) ∧ Kept v x tenant job plan d₀.store s name t d
      -- clean-ups of other directories leave what is stored
      have hgone : ∀ {p : List String},
          (∀ name child, ¬p <+: finalPath v.base job.deployId name ++ [child]) →
          ∀ t d left, R t d → R (t.removeAll p left) d := by
        intro p hp t d left ht
        obtain ⟨plan, s, name, hplan, hs, hcomplete, hfiled, hcommit⟩ := ht
        exact ⟨plan, s, name, hplan, hs, hcomplete, hfiled.elsewhere (hp name) left, hcommit⟩
      have hnew : ∀ q, q <+: partialPath v.base job.id → (fun _ : List String => True) q := fun _ _ => trivial
      refine Does.bind (Does.mapError (createPartial_does lasting_data hnew).yields) fun part => ?_
      refine Does.start (fun _ _ ht => ht.2) fun hpart => ?_
      obtain ⟨-, hdirectory, harchive⟩ := hpart
      have hpath : v.base ++ split part.directory = partialPath v.base job.id := by
        rw [hdirectory, split_pair proper_partial hid]
        rfl
      have hcache : cacheDirectory v job = v.cacheRoot ++ [job.id] := by
        unfold cacheDirectory
        rw [under_proper, split_proper hid]
        rw [split_proper hid]
        intro n hn
        rw [List.mem_singleton.mp hn]
        exact hid
      rw [hcache]
      -- around the rest: the removal of the partial directory, then that of the cache
      refine Yields.deferred (R := fun _ => R) (C := R) ?_ (fun _ => ?_) ?_
      · refine Does.bind (R := fun _ _ d => d = d₀) (Does.mapError (Does.mapError ?_)) fun _ => ?_
        · have hmake : Always κ b (fun _ d => d = d₀)
              (mkdirAll (v.cacheRoot ++ [job.id]) : Prog (Machine Control) IoError Unit) :=
            always_mkdirAll lasting_data fun _ _ => trivial
          exact hmake.yields.pre fun _ _ ht => ht.1
        refine Yields.deferred (R := fun _ => R) (C := R) ?_ (fun _ => ?_) ?_
        · refine (written_yields harchive).post ?_ (fun _ _ _ ht => ht) fun _ _ ht => ht
          intro _ t d ht
          obtain ⟨s, name, hs, hkept⟩ := ht
          exact ⟨plan, s, name, hplan, hs, hkept⟩
        · exact always_removeAll (hgone cache_beside)
        · exact always_removeAll fun _ _ _ _ => trivial
      · refine always_removeDirectory (hgone ?_)
        rw [hpath]
        exact partial_beside hdeploy
      · exact always_removeDirectory fun _ _ _ _ => trivial
    · -- an id that is no name is refused
      have hrefused : createPartial v.base job.id = (Prog.fail (.refused "unsafe storage path segment") :
          Action Control Partial) := by
        unfold createPartial
        exact if_neg fun hseg => hid (safeSegment_proper hseg)
      rw [hrefused]
      exact Does.bind (R := fun _ _ _ => False) (Does.mapError (Does.fail fun _ _ _ => trivial)) fun _ =>
        Does.start (fun _ _ hf => hf) fun hf => hf.elim

/-- The job once it runs. -/
def startedJob (x : Encounter) (job : BackupJob) : BackupJob :=
  { job with status := .running, startedAt := some x.started }

theorem executeJob_yields {id : String}
    (hdeploy : ∀ job, d₀.store.backupJob tenant id = .ok job → job.deployId ≠ "_partial") :
    Yields κ b (fun _ d => d = d₀) (executeJob v x tenant id)
      fun _ t d => ∃ job started plan s name, d₀.store.backupJob tenant id = .ok job ∧
        d₀.store.startBackupJob tenant id x.started = .ok started ∧ preflight v x (startedJob x job) = .ok plan ∧
        (s = x.first ∨ s = x.second) ∧ Kept v x tenant (startedJob x job) plan started s name t d := by
  unfold executeJob
  refine Does.bind reading_does.yields fun job => ?_
  refine Does.start (φ := d₀.store.backupJob tenant id = .ok job) ?_ fun hjob => ?_
  · exact fun _ _ ht => ht.1 ▸ ht.2.2
  refine Does.bind (R := fun _ _ d => ∃ started, d₀.store.startBackupJob tenant id x.started = .ok started ∧
    d = { d₀ with store := started }) (writing_does.yields.post ?_ (fun _ _ _ ht => ht) fun _ _ ht => ht) fun _ => ?_
  · intro _ t d ht
    obtain ⟨s, ⟨hd, -⟩, -, hstart⟩ := ht
    refine ⟨d.store, ?_, ?_⟩
    · rw [← hd]
      exact hstart
    · rw [← hd]
  refine Does.each_start fun t₀ d₁ ht₀ => ?_
  obtain ⟨started, hstarted, rfl⟩ := ht₀
  let Q : Tree → Control → Prop := fun t d => ∃ plan s name, preflight v x (startedJob x job) = .ok plan ∧
    (s = x.first ∨ s = x.second) ∧ Kept v x tenant (startedJob x job) plan started s name t d
  have hexecute : Yields κ b (fun _ d => d = { d₀ with store := started }) (execute v x tenant (startedJob x job))
      (fun _ => Q) := execute_yields (hdeploy job hjob)
  refine Does.bind (R := fun r t d => r = .ok () → Q t d) (Does.attempt (hexecute.weaken (fun _ _ ht => ht.2)
    (fun _ _ _ ht _ => ht) (fun _ _ _ _ => nofun) fun _ _ ht => ht)) fun r => ?_
  split
  · refine Does.pure fun t d ht => ?_
    obtain ⟨plan, s, name, hplan, hs, hkept⟩ := ht rfl
    exact ⟨job, started, plan, s, name, hjob, hstarted, hplan, hs, hkept⟩
  · next e =>
    have hfail : Always κ true (fun _ (_ : Control) => True)
        (writing .failBackupJob (·.failBackupJob tenant id e.code x.failedAt)) :=
      writing_does.post (fun _ _ _ _ => trivial) (fun _ _ _ _ => trivial) fun _ _ _ => trivial
    exact Does.bind (R := fun _ _ _ => True) (Does.attempt (Does.cleaningUp (hfail.pre fun _ _ _ => trivial)))
      fun _ => Does.fail fun _ _ _ => trivial

end

/-! ## The row -/

/-- The snapshot is the only one of its job, which has succeeded with it. -/
structure OnRecord (s : Store) (snapshot : Snapshot) : Prop where
  row : snapshotRow snapshot ∈ s.snapshots
  only : ∀ r ∈ s.snapshots, r.jobId = snapshot.jobId → r = snapshotRow snapshot
  job : ∃ j ∈ s.jobs, j.id = snapshot.jobId ∧ j.tenantUid = snapshot.tenantUid ∧ j.status = .succeeded ∧
    j.snapshotId = snapshot.id

theorem onRecord_of_commit {s s' : Store} {snapshot : Snapshot} (h : s.commitSnapshot snapshot = .ok s') :
    OnRecord s' snapshot := by
  obtain ⟨⟨j, hj, hid, htenant, hstatus⟩, htables⟩ := Store.commitSnapshot_ok h
  have hrow : snapshotRow snapshot ∈ s'.snapshots := by
    rw [htables]
    exact List.mem_append_right _ (List.mem_singleton_self _)
  refine ⟨hrow, fun r hr hjob => ?_, committedRow snapshot j, ?_, hid, htenant, rfl, rfl⟩
  · exact List.inj_on_of_nodup_map s'.snapshots_job_unique hr hrow hjob
  · rw [htables]
    exact Table.mem_updateWhere_hit hj (Store.jobIn_iff.mpr ⟨hid, htenant, by rw [hstatus]; rfl⟩)

theorem preflight_sound {v : Service} {x : Encounter} {job : BackupJob} {plan : Plan}
    (h : preflight v x job = .ok plan) : plan.Sound := by
  have hscanned : ∀ {plan}, scannedPlan v x job.multiInstance = .ok plan → plan.Sound := by
    intro plan hplan
    unfold scannedPlan at hplan
    split at hplan
    · cases hplan
    · split at hplan
      · cases hplan
      · next hbuild =>
        obtain rfl := Except.ok.inj hplan
        exact buildPlan_sound hbuild
  unfold preflight at h
  split at h
  · cases h
  split at h
  · cases h
  next plan₀ hplan₀ =>
  simp only at h
  split at h
  · cases h
  next filtered hfiltered =>
  have hsound : filtered.Sound := by
    split at hfiltered
    · exact (applyScope_within hfiltered).sound (hscanned hplan₀)
    · obtain rfl := Except.ok.inj hfiltered
      exact hscanned hplan₀
  split at h
  · cases h
  · cases h
  · exact Except.ok.inj h ▸ hsound
  · exact Except.ok.inj h ▸ hsound
  · cases h

/-! ## From the job to the restored files -/

section
variable {δ : Type} {v : Service} {x : Encounter} {tenant id : String}

/-- A stored archive passes `QuickVerify` and is restored by an export, wherever its two files are. -/
structure Serves (v : Service) (x : Encounter) (job : BackupJob) (plan : Plan) (s : Sources)
    (name : String) : Prop where
  verified : ∀ {δ : Type} (m : Machine δ), Filed v x job plan name (storedArchive v x job plan s) m.tree →
    Quiet m.fate → ∀ archive, ∃ m', quickVerify v.host.zip.names v.sha256 v.base
      ⟨pathJoin [job.deployId, name], archive⟩
      (storedArchive v x job plan s).length (v.sha256 (storedArchive v x job plan s)) m = .done () m'
  restored : ∀ {δ : Type} (m : Machine δ) (exportID : String), safeSegment exportID = true →
    m.cleaning = false →
    Exportable v.base (pathJoin [job.deployId, name]) exportID (storedArchive v x job plan s) m.tree →
    (∀ r m', exportData v.host.zip.read v.base (pathJoin [job.deployId, name]) exportID m = .done r m' →
      Unpacked s plan (exportPath v.base exportID) m'.tree) ∧
    (Quiet m.fate → ∃ r m', exportData v.host.zip.read v.base
      (pathJoin [job.deployId, name]) exportID m = .done r m')

theorem serves_of_sound {job : BackupJob} {plan : Plan} {s : Sources} {name : String} (hdeploy : Proper job.deployId)
    (hname : Proper name) (hsound : plan.Sound) : Serves v x job plan s name := by
  have hopen : v.host.zip.read (storedArchive v x job plan s) = some _ := read_archiveOf _ _
  refine ⟨fun {δ} m hfiled hquiet archive => ?_, fun {δ} m exportID hid hclean hroom => ?_⟩
  · have hnames : v.host.zip.names (storedArchive v x job plan s) =
        some (((records v.host s plan (x.marshal (openManifest x job plan))).map Written.entry).map (·.name)) := by
      unfold ZipFormat.names
      rw [hopen]
      rfl
    have hsafe : ∀ name ∈ ((records v.host s plan (x.marshal (openManifest x job plan))).map Written.entry).map
        (·.name),
        safeZipPath name = true := by
      intro name hmem
      obtain ⟨e, he, rfl⟩ := List.mem_map.mp hmem
      exact records_safe hsound e he
    have hmanifest : "_snapshot/manifest.json" ∈
        ((records v.host s plan (x.marshal (openManifest x job plan))).map Written.entry).map (·.name) := by
      rw [records_entries hsound, List.map_append, ownEntries_names]
      exact List.mem_append_right _ (by decide)
    obtain ⟨external, -, hexternal⟩ := hfiled.manifest
    have hspec : DoneIff m.fate m.cleaning (Quiet m.fate) True (fun t (_ : δ) => t = m.tree)
        (quickVerify v.host.zip.names v.sha256 v.base ⟨pathJoin [job.deployId, name], archive⟩
          (storedArchive v x job plan s).length (v.sha256 (storedArchive v x job plan s)))
          (fun _ t _ => t = m.tree) := by
      refine quickVerify_done id hdeploy hname rfl hnames hsafe hmanifest fun t _ ht => ?_
      rw [ht]
      exact ⟨hfiled.archive, _, hexternal⟩
    obtain ⟨u, m', hdone⟩ := (hspec.run hquiet ⟨rfl, rfl, rfl⟩).mp trivial
    exact ⟨m', hdone⟩
  · obtain ⟨hunpacks, hquiet⟩ := export_unpacks hsound m (safeRelative_pair hdeploy hname) hid hclean hroom
    exact ⟨fun r m' hdone => (hunpacks r m' hdone).1, hquiet⟩

/-- Where `ExecuteJob` returns no error, the job has one snapshot, in the directory of its row
lie the archive that one run of the writer made of the planned source, with the size and the
digest of the row, and the manifest; and these pass `QuickVerify` and give an export the
planned files with the bytes that were read. -/
theorem executeJob_stores {m m' : Machine Control}
    (hdeploy : ∀ job, m.data.store.backupJob tenant id = .ok job → job.deployId ≠ "_partial")
    (hdone : executeJob v x tenant id m = .done () m') :
    ∃ job plan s name, m.data.store.backupJob tenant id = .ok job ∧ preflight v x (startedJob x job) = .ok plan ∧
      (s = x.first ∨ s = x.second) ∧ Complete v.host s plan (x.marshal (openManifest x (startedJob x job) plan)) ∧
      Filed v x (startedJob x job) plan name (storedArchive v x (startedJob x job) plan s) m'.tree ∧
      OnRecord m'.data.store (rowOf v x tenant (startedJob x job) plan name
        (storedArchive v x (startedJob x job) plan s)) ∧
      Serves v x (startedJob x job) plan s name := by
  have hyields : Yields m.fate m.cleaning (fun _ d => d = m.data) (executeJob v x tenant id) _ :=
    executeJob_yields hdeploy
  obtain ⟨job, started, plan, s, name, hjob, -, hplan, hs, hcomplete, hfiled, hcommit⟩ := hyields.run rfl hdone
  exact ⟨job, plan, s, name, hjob, hplan, hs, hcomplete, hfiled, onRecord_of_commit hcommit,
    serves_of_sound hfiled.deploy hfiled.directory.1 (preflight_sound hplan)⟩

end

/-! ### The letters, from their job on -/

def lettersService : Service where
  base := ["docs"]
  cacheRoot := ["cache"]
  host := quietHost
  lower := id
  sha256 := fun _ => "digest"
  timestamp := fun _ _ => "t1"
  apart := by decide

/-- Nothing changes while the letters are read. -/
def lettersMet : Encounter where
  resolved := .ok ()
  scan := .ok lettersTree
  first := lettersRead
  second := lettersRead
  timezone := "UTC"
  marshal := fun _ => .ok [3]
  started := 10
  capturedAt := 11
  finishedAt := 12
  verifiedAt := 13
  failedAt := 14

def lettersJob : BackupJob where
  id := "backup-1"
  tenantUid := "u"
  oidcSubject := "s"
  userRole := .normal
  appId := "app"
  applicationName := "Letters"
  applicationVersion := "1"
  deployId := "deploy-a"
  multiInstance := false
  sharedRiskAccepted := true
  status := .queued
  errorCode := ""
  snapshotId := ""
  planId := ""
  batchId := ""
  taskId := ""
  triggerType := "MANUAL"
  scope := BackupScope.full
  scheduledAt := none
  createdAt := 9
  startedAt := none
  finishedAt := none

/-- The storage and the cache, and the job in its table. -/
def lettersMachine : Machine Control :=
  Machine.calm (Tree.bare.withObjects [(["docs"], .directory), (["cache"], .directory)])
    ⟨((Store.empty.createBackupJob lettersJob).toOption).getD Store.empty, fun _ => false, fun _ => 0⟩

/-- The directory of the deployment is in place, with room beside it for a copy to check. -/
def hasRoom (o : Outcome (Machine Control) GoError Unit) : Bool :=
  o.isDone && decide (o.state.tree.obj (["docs"] ++ ["_partial"]) = some .directory) &&
    decide (o.state.tree.obj (["docs"] ++ ["_partial"] ++ ["verify-1"]) = none)

theorem letters_room : hasRoom (executeJob lettersService lettersMet "u" "backup-1" lettersMachine) = true := by
  decide +kernel

theorem letters_named {job : BackupJob} (h : lettersMachine.data.store.backupJob "u" "backup-1" = .ok job) :
    job.deployId ≠ "_partial" := by
  have hnamed : ((lettersMachine.data.store.backupJob "u" "backup-1").toOption.all
      fun job => decide (job.deployId ≠ "_partial")) = true := by decide +kernel
  rw [h] at hnamed
  exact of_decide_eq_true hnamed

theorem executeJob_stores_letters : ∃ m' job plan s name,
    executeJob lettersService lettersMet "u" "backup-1" lettersMachine = .done () m' ∧
      Filed lettersService lettersMet job plan name (storedArchive lettersService lettersMet job plan s) m'.tree ∧
      OnRecord m'.data.store
        (rowOf lettersService lettersMet "u" job plan name (storedArchive lettersService lettersMet job plan s)) ∧
      Serves lettersService lettersMet job plan s name := by
  have hroom := letters_room
  unfold hasRoom at hroom
  rw [Bool.and_assoc, Bool.and_eq_true] at hroom
  obtain ⟨u, m', hrun⟩ := Outcome.isDone_iff.mp hroom.1
  obtain ⟨job, plan, s, name, -, -, -, -, hfiled, hrow, hserves⟩ := executeJob_stores (fun _ => letters_named) hrun
  exact ⟨m', startedJob lettersMet job, plan, s, name, hrun, hfiled, hrow, hserves⟩

end AppBackup.Backup
