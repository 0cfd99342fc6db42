import AppBackup.Backup.Execute
import AppBackup.Backup.Upheld
import AppBackup.Storage.Standing

/- What a backup leaves standing. Up to the move of its archive it makes new objects only at
   and below its partial directory and its cache directory; it removes these two, and the
   final directory where what is stored cannot be recorded. -/
namespace AppBackup.Backup
open Program Disk Path Text Probe Storage Persistence

variable {δ : Type}

/-! ## The writer -/

/-- The writer may make its objects. -/
structure Works (new : List String → Prop) (p : Places) : Prop where
  archive : new p.archive
  above : ∀ q, q <+: p.cache → new q
  below : ∀ q, p.cache <+: q → new q

theorem Works.temporary {new : List String → Prop} {p : Places} (h : Works new p) (number : Nat) :
    new (p.temporary number) ∧ ∀ q, q <+: (p.temporary number).dropLast → new q := by
  refine ⟨h.below _ (List.prefix_append ..), fun q hq => ?_⟩
  obtain hle | hle := List.prefix_or_prefix_of_prefix (hq.trans (List.dropLast_prefix _))
    (List.prefix_append p.cache ["sqlite", toString number ++ ".sqlite"])
  · exact h.above q hle
  · exact h.below q hle

section
variable {κ : Fates} {b : Bool} {I : Tree → δ → Prop} {new : List String → Prop} {h : Host} {p : Places}
  {base : List String}

theorem upheld_lasting (hI : Lasting new I) : Upheld κ b I I p :=
  ⟨fun _ _ ht => ht, fun _ => always_write hI _ _, fun _ => always_write hI _ _⟩

theorem always_writeSQLite (hI : Lasting new I) (hp : Works new p) (o : Online) (entry : Entry) (number : Nat) :
    Always κ b I (writeSQLite h p o entry (p.temporary number) : Work δ Written) := by
  obtain ⟨hnew, hdirectory⟩ := hp.temporary number
  refine Always.bind (Always.mapError (Always.mapError (always_mkdirAll hI hdirectory))) fun _ => ?_
  refine Always.deferred ?_ (always_remove hI _)
  refine Always.bind (Always.mapError (upholds_onlineBackup (always_remove hI _) (always_createExclusive hI hnew)
    (fun _ => always_write hI _ _) _ _)) fun _ => ?_
  exact (upheld_lasting hI).archiveCopy _ _ _

theorem always_writeContents (hI : Lasting new I) (hp : Works new p) (s : Sources) (plan : Plan)
    (manifest : Except GoError (List Byte)) (done : List Written) :
    Always κ b I (writeContents h s p plan manifest done : Work δ Unit) := by
  have hindex : new p.index := hp.below _ (List.prefix_append ..)
  refine Always.bind (Always.mapError (Always.mapError (always_createExclusive hI hindex))) fun _ => ?_
  exact (upheld_lasting hI).fill (fun _ _ => always_writeSQLite hI hp _ _ _) plan manifest done

theorem always_writeArchive {part : Partial} {cache : List String} (hI : Lasting new I)
    (hp : Works new ⟨part.archive, cache⟩) (s : Sources) (plan : Plan) (manifest : Except GoError (List Byte)) :
    Always κ b I (writeArchive h s base part cache plan manifest : Work δ Unit) := by
  refine Always.bind (Always.mapError (always_createArchive hI hp.archive)) fun _ => ?_
  have hupheld : Upheld κ b I I ⟨part.archive, cache⟩ := upheld_lasting hI
  refine Always.bind (hupheld.writeDirectories _ _) fun _ => ?_
  exact Always.deferred (always_writeContents hI hp _ _ _ _) (always_remove hI _)

theorem always_writeWithRetry {part : Partial} {cache : List String} (hI : Lasting new I)
    (hp : Works new ⟨part.archive, cache⟩) (first second : Sources) (plan : Plan)
    (manifest : Except GoError (List Byte)) :
    Always κ b I (writeWithRetry h first second base part cache plan manifest : Work δ Unit) := by
  refine Always.bind (Always.attempt (always_writeArchive hI hp _ _ _)) fun r => ?_
  split
  · exact Always.pure _
  · refine Always.ite (Always.fail _) (Always.bind (Always.mapError (always_discardArchive hI _)) fun _ => ?_)
    exact always_writeArchive hI hp _ _ _

end

/-! ## The backup -/

/-- The time in the name of the final directory. -/
def timeName (v : Service) (x : Encounter) : String := v.timestamp x.capturedAt x.timezone

/-- The final directory where that of the time is taken. -/
def suffixedName (v : Service) (x : Encounter) (job : BackupJob) : String :=
  timeName v x ++ "-" ++ shortID job.id

/-- What one backup asks of assertions: `I` holds until the archive is moved, `R` of its
directory from then on, and `J` when all is over. -/
structure Backs (v : Service) (x : Encounter) (tenant : String) (job : BackupJob)
    (new : List String → Prop) (I J : Tree → Control → Prop)
      (R : String → Tree → Control → Prop) : Prop where
  lasting : Lasting new I
  partialNew : Proper job.id → ∀ q, q <+: partialPath v.base job.id → new q
  works : Proper job.id →
    Works new ⟨partialPath v.base job.id ++ ["snapshot.zip"], v.cacheRoot ++ [job.id]⟩
  later : ∀ directory, Lasting (fun _ => True) (R directory)
  free : Proper job.deployId → Proper (timeName v x) → ∀ t d, I t d →
    t.obj (finalPath v.base job.deployId (timeName v x)) = none → R (pathJoin [job.deployId, timeName v x]) t d
  taken : ∀ t d, I t d → t.obj (finalPath v.base job.deployId (timeName v x)) ≠ none →
    R (pathJoin [job.deployId, suffixedName v x job]) t d
  early : ∀ t d, I t d → J t d
  late : ∀ directory t d, R directory t d → J t d
  recorded : ∀ name t d s plan size sha256, Proper job.deployId → Proper name →
    t.obj (finalPath v.base job.deployId name) = some .directory → R (pathJoin [job.deployId, name]) t d →
    d.store.commitSnapshot (storedSnapshot x tenant job plan size sha256 (pathJoin [job.deployId, name])) = .ok s →
    J t { d with store := s }
  dropped : Proper job.deployId → ∀ name, Proper name → ∀ t d left, R (pathJoin [job.deployId, name]) t d →
    J (t.removeAll (finalPath v.base job.deployId name) left) d
  partialGone : Proper job.id → ∀ t d left, J t d → J (t.removeAll (partialPath v.base job.id) left) d
  cacheGone : Proper job.id → ∀ t d left, J t d → J (t.removeAll (v.cacheRoot ++ [job.id]) left) d

section
variable {κ : Fates} {b : Bool} {v : Service} {x : Encounter} {tenant : String} {job : BackupJob}
  {new : List String → Prop} {I J : Tree → Control → Prop} {R : String → Tree → Control → Prop}

theorem always_reading {α : Type} {I : Tree → Control → Prop} (c : Statement)
    (ask : Store → Except StoreError α) : Always κ b I (reading c ask) :=
  reading_does.post (fun _ _ _ h => h.1) (fun _ _ _ h => h.1) fun _ _ h => h

/-- A directory that is stored is recorded, or it is as it was before. -/
theorem recordSnapshot_does (h : Backs v x tenant job new I J R) (plan : Plan) (size : Int) (sha256 : String)
    (location : Location) {name : String} (hdeploy : Proper job.deployId) (hname : Proper name)
    (hlocation : location.directory = pathJoin [job.deployId, name]) :
    Does κ b
      (fun t d => t.obj (finalPath v.base job.deployId name) = some .directory ∧ R location.directory t d)
      (recordSnapshot v x tenant job plan size sha256 location) (fun _ => J)
      (fun _ t d => R location.directory t d) J := by
  let S : Tree → Control → Prop := fun t d =>
    t.obj (finalPath v.base job.deployId name) = some .directory ∧ R location.directory t d
  have hS : Lasting (fun _ => True) S := fun t t' d ht hgrows =>
    ⟨hgrows.kept _ ht.1, h.later _ t t' d ht.2 hgrows⟩
  have hR : ∀ t d, S t d → R location.directory t d := fun _ _ ht => ht.2
  have hJ : ∀ t d, S t d → J t d := fun t d ht => h.late _ t d ht.2
  refine Does.bind ((upholds_codedValue _ _).post (fun _ _ _ ht => ht) (fun _ t d ht => hR t d ht) hJ)
    fun external => ?_
  refine Does.bind ((Always.mapError (always_writeManifest hS _ _)).post (fun _ _ _ ht => ht)
    (fun _ t d ht => hR t d ht) hJ) fun _ => ?_
  refine Does.bind ((Always.mapError (always_quickVerify _ _ _)).post (fun _ _ _ ht => ht)
    (fun _ t d ht => hR t d ht) hJ) fun _ => ?_
  refine Does.mapError (writing_does.post ?_ (fun _ t d ht => hR t d ht.1) hJ)
  intro _ t d ht
  obtain ⟨s, ⟨hdir, hr⟩, -, hcommit⟩ := ht
  rw [hlocation] at hr hcommit
  exact h.recorded name t { d with store := s } d.store plan size sha256 hdeploy hname hdir hr hcommit

theorem storeArchive_does (hcalm : Calm κ b) (h : Backs v x tenant job new I J R) (plan : Plan) (part : Partial) :
    Does κ b I (storeArchive v x tenant job plan part) (fun _ => J) (fun _ => J) J := by
  refine Does.bind ((Always.mapError always_syncArchive).post (fun _ _ _ ht => ht)
    (fun _ t d ht => h.early t d ht) h.early) fun _ => ?_
  refine Does.bind ((Always.mapError always_digest).post (fun _ _ _ ht => ht)
    (fun _ t d ht => h.early t d ht) h.early) fun found => ?_
  obtain ⟨size, sha256⟩ := found
  refine Does.bind ((Always.mapError (always_reading _ _)).post (fun _ _ _ ht => ht)
    (fun _ t d ht => h.early t d ht) h.early) fun _ => ?_
  refine Does.bind (Does.mapError (commitArchive_does hcalm h.later h.free h.taken h.early h.late))
    fun location => ?_
  refine Does.start (φ := ∃ name, Proper job.deployId ∧ Proper name ∧
    location.directory = pathJoin [job.deployId, name])
    (fun _ _ ht => ht.1.imp fun _ hn => ⟨hn.1, hn.2.1, hn.2.2.1⟩) fun hplace => ?_
  obtain ⟨name, hdeploy, hname, hlocation⟩ := hplace
  refine Does.onFailure ((recordSnapshot_does h plan size sha256 location hdeploy hname hlocation).pre ?_)
    fun e => ?_
  · intro t d ht
    obtain ⟨⟨name', -, hname', hlocation', hdir⟩, hr⟩ := ht
    rw [hlocation] at hlocation'
    have hsplit := congrArg split hlocation'
    rw [split_pair hdeploy hname, split_pair hdeploy hname'] at hsplit
    have hsame : name = name' := by simpa using hsplit
    rw [hsame]
    exact ⟨hdir, hr⟩
  · have hend : ∀ t d, R location.directory t d → J t d := fun t d hr => h.late _ t d hr
    have hdropped : ∀ t d left, R location.directory t d →
        J (t.removeAll (v.base ++ split location.directory) left) d := by
      rw [hlocation, split_pair hdeploy hname]
      exact h.dropped hdeploy name hname
    refine removeDirectory_does.post ?_ ?_ ?_
    · intro _ t d ht
      obtain ⟨t', hr, ⟨rfl, -⟩ | rfl⟩ := ht
      · exact hend t d hr
      · exact hdropped t' d _ hr
    · intro _ t d ht
      obtain ⟨t', hr, rfl | ⟨left, rfl⟩, -⟩ := ht
      · exact hend t d hr
      · exact hdropped t' d left hr
    · intro t d ht
      obtain ⟨t', hr, rfl | ⟨left, rfl⟩⟩ := ht
      · exact hend t d hr
      · exact hdropped t' d left hr

theorem execute_does (hcalm : Calm κ b) (h : Backs v x tenant job new I J R) :
    Does κ b I (execute v x tenant job) (fun _ => J) (fun _ => J) J := by
  unfold execute
  split
  · exact Does.fail h.early
  · next plan _ =>
    by_cases hid : Proper job.id
    · refine Does.bind (Does.mapError ((createPartial_does h.lasting (h.partialNew hid)).post (fun _ _ _ ht => ht)
        (fun _ t d ht => h.early t d ht) h.early)) fun part => ?_
      refine Does.start (fun _ _ ht => ht.2) fun hpart => ?_
      obtain ⟨-, hdirectory, harchive⟩ := hpart
      have hpart : ∀ t d left, J t d → J (t.removeAll (v.base ++ split part.directory) left) d := by
        rw [hdirectory, split_pair proper_partial hid]
        exact h.partialGone hid
      have hcache : cacheDirectory v job = v.cacheRoot ++ [job.id] := by
        unfold cacheDirectory
        rw [under_proper, split_proper hid]
        rw [split_proper hid]
        intro n hn
        rw [List.mem_singleton.mp hn]
        exact hid
      have hworks : Works new ⟨part.archive, v.cacheRoot ++ [job.id]⟩ := harchive ▸ h.works hid
      rw [hcache]
      refine Does.deferred (R := fun _ => J) (G := fun _ => J) (Does.pre ?_ fun _ _ ht => ht.1)
        (fun _ => always_removeDirectory hpart) fun _ => always_removeDirectory hpart
      refine Does.bind ((Always.mapError (Always.mapError (always_mkdirAll h.lasting hworks.above))).post
        (fun _ _ _ ht => ht) (fun _ t d ht => h.early t d ht) h.early) fun _ => ?_
      refine Does.deferred (R := fun _ => J) (G := fun _ => J) ?_
        (fun _ => always_removeAll (h.cacheGone hid)) fun _ => always_removeAll (h.cacheGone hid)
      refine Does.bind ((always_writeWithRetry h.lasting hworks _ _ _ _).post (fun _ _ _ ht => ht)
        (fun _ t d ht => h.early t d ht) h.early) fun _ => ?_
      exact storeArchive_does hcalm h plan part
    · -- an id that is no name is refused
      have hrefused : createPartial v.base job.id = (Prog.fail (.refused "unsafe storage path segment") :
          Action Control Partial) := by
        unfold createPartial
        exact if_neg fun hseg => hid (safeSegment_proper hseg)
      rw [hrefused]
      exact Does.bind (R := fun _ _ _ => False) (Does.mapError (Does.fail h.early)) fun _ =>
        Does.start (fun _ _ hf => hf) fun hf => hf.elim

/-- The job is read and started; then the backup runs, and a failure is written down. -/
theorem executeJob_does {P : Tree → Control → Prop} {id : String} (hcalm : Calm κ b)
    (hPJ : ∀ t d, P t d → J t d)
    (hstart : ∀ job t d s, P t d → d.store.backupJob tenant id = .ok job →
      d.store.startBackupJob tenant id x.started = .ok s → ∃ new I R,
        Backs v x tenant { job with status := .running, startedAt := some x.started } new I J R ∧
          I t { d with store := s })
    (hfail : ∀ t d s code, J t d → d.store.failBackupJob tenant id code x.failedAt = .ok s →
      J t { d with store := s }) :
    Does κ b P (executeJob v x tenant id) (fun _ => J) (fun _ => J) J := by
  refine Does.bind (reading_does.post (fun _ _ _ h => h) (fun _ t d h => hPJ t d h.1) hPJ) fun job => ?_
  refine Does.bind (writing_does.post (fun _ _ _ h => h) (fun _ t d h => hPJ t d h.1.1)
    fun t d h => hPJ t d h.1) fun _ => ?_
  refine Does.each_start fun t₀ d₀ h₀ => ?_
  obtain ⟨s, ⟨hp, -, hread⟩, -, hact⟩ := h₀
  obtain ⟨new, I, R, hbacks, hI⟩ := hstart job t₀ { d₀ with store := s } d₀.store hp hread hact
  refine Does.bind (R := fun _ => J) (Does.attempt ((execute_does hcalm hbacks).pre ?_)) fun r => ?_
  · intro t d h
    rw [h.1, h.2]
    exact hI
  · split
    · exact Does.pure fun _ _ h => h
    · refine Does.bind (R := fun _ => J) (Does.attempt (Does.cleaningUp (writing_does.post ?_
        (fun _ _ _ h => h.1) fun _ _ h => h))) fun _ => Does.fail fun _ _ h => h
      intro _ t d h
      obtain ⟨s', hj, -, hwrite⟩ := h
      exact hfail t { d with store := s' } d.store _ hj hwrite

end

end AppBackup.Backup
