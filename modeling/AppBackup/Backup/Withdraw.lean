import AppBackup.Backup.Stored
import AppBackup.Storage.Footprint

/- What a backup changes and what it takes back (`ExecuteJob`, `backup/service.go`). However it
   ends, it changes files only in the directories of its own job and makes nothing else but
   directories; and where it returns an error and its clean-ups go through, no file is left of
   it, the job has failed with the code of the error, and there is no snapshot of it.

   What is proved:
     1. `framed_execute`, `framed_executeJob` -- no step is outside the job's own directories;
        `executeJob_confined` is this for whole calls;
     2. `storeArchive_withdraws`, `late_withdrawn` -- what was moved to its final directory goes
        where it cannot be recorded;
     3. `cache_withdrawn`, `partial_withdrawn`, `execute_withdraws` -- the two clean-ups, from
        the inner one to the outer one;
     4. `executeJob_withdraws` -- the same with the rows of the job. -/
namespace AppBackup.Backup
open Program Disk Path Text Probe Storage Persistence Queue

/-! ## The writer -/

section
variable {δ : Type} {κ : Fates} {b : Bool} {I : Tree → δ → Prop} {own : List String → Prop} {h : Host}
    {p : Places}
  {base : List String}

/-- The writer's own files. -/
structure Owns (own : List String → Prop) (p : Places) : Prop where
  archive : own p.archive
  below : ∀ q, p.cache <+: q → own q

theorem Owns.temporary (h : Owns own p) (number : Nat) : own (p.temporary number) := h.below _ (List.prefix_append ..)

theorem Owns.index (h : Owns own p) : own p.index := h.below _ (List.prefix_append ..)

theorem framed_upheld (hI : Framed own I) (hp : Owns own p) : Upheld κ b I I p :=
  ⟨fun _ _ ht => ht, fun _ => hI.write hp.archive _, fun _ => hI.write hp.index _⟩

theorem framed_writeSQLite (hI : Framed own I) (hp : Owns own p) (o : Online) (entry : Entry) (number : Nat) :
    Always κ b I (writeSQLite h p o entry (p.temporary number) : Work δ Written) := by
  have hown := hp.temporary number
  refine Always.bind (Always.mapError (Always.mapError hI.mkdirAll)) fun _ => ?_
  refine Always.deferred ?_ (hI.remove hown)
  refine Always.bind (Always.mapError (upholds_onlineBackup (hI.remove hown) (hI.createExclusive hown)
    (fun _ => hI.write hown _) _ _)) fun _ => ?_
  exact (framed_upheld hI hp).archiveCopy _ _ _

theorem framed_writeArchive {part : Partial} {cache : List String} (hI : Framed own I)
    (hp : Owns own ⟨part.archive, cache⟩) (s : Sources) (plan : Plan) (manifest : Except GoError (List Byte)) :
    Always κ b I (writeArchive h s base part cache plan manifest : Work δ Unit) := by
  have hupheld : ∀ {b}, Upheld κ b I I ⟨part.archive, cache⟩ := framed_upheld hI hp
  refine Always.bind (Always.mapError (framed_createArchive hI hp.archive)) fun _ => ?_
  refine Always.bind (hupheld.writeDirectories _ _) fun _ => Always.deferred ?_ (hI.remove hp.index)
  refine Always.bind (Always.mapError (Always.mapError (hI.createExclusive hp.index))) fun _ => ?_
  exact hupheld.fill (fun _ _ => framed_writeSQLite hI hp _ _ _) plan manifest _

theorem framed_writeWithRetry {part : Partial} {cache : List String} (hI : Framed own I)
    (hp : Owns own ⟨part.archive, cache⟩) (first second : Sources) (plan : Plan)
      (manifest : Except GoError (List Byte)) :
    Always κ b I (writeWithRetry h first second base part cache plan manifest : Work δ Unit) := by
  refine Always.bind (Always.attempt (framed_writeArchive hI hp _ _ _)) fun r => ?_
  split
  · exact Always.pure _
  · refine Always.ite (Always.fail _) (Always.bind (Always.mapError (framed_discardArchive hI hp.archive)) fun _ => ?_)
    exact framed_writeArchive hI hp _ _ _

end

/-! ## The paths of a job -/

/-- In the partial directory of the job or in its cache. -/
def Working (v : Service) (job : BackupJob) (q : List String) : Prop :=
  partialPath v.base job.id <+: q ∨ v.cacheRoot ++ [job.id] <+: q

/-- Or in a directory that its archive may go to. -/
def Own (v : Service) (x : Encounter) (job : BackupJob) (q : List String) : Prop :=
  Working v job q ∨ finalPath v.base job.deployId (timeName v x) <+: q ∨
    finalPath v.base job.deployId (suffixedName v x job) <+: q

section
variable {κ : Fates} {b : Bool} {v : Service} {x : Encounter} {tenant : String} {job : BackupJob} {plan : Plan}
  {part : Partial}

theorem working_owns (harchive : part.archive = partialPath v.base job.id ++ ["snapshot.zip"]) :
    Owns (Working v job) ⟨part.archive, v.cacheRoot ++ [job.id]⟩ := by
  refine ⟨.inl ?_, fun q hq => .inr hq⟩
  rw [harchive]
  exact List.prefix_append _ _

theorem cacheDirectory_proper (hid : Proper job.id) : cacheDirectory v job = v.cacheRoot ++ [job.id] := by
  unfold cacheDirectory
  rw [under_proper, split_proper hid]
  rw [split_proper hid]
  intro n hn
  rw [List.mem_singleton.mp hn]
  exact hid

theorem final_own {name : String} (heither : name = timeName v x ∨ name = suffixedName v x job) {q : List String}
    (hq : finalPath v.base job.deployId name <+: q) : Own v x job q := by
  obtain rfl | rfl := heither
  · exact .inr (.inl hq)
  · exact .inr (.inr hq)

/-! ## What a backup changes -/

theorem framed_storeArchive {t₀ : Tree} (hpart : Own v x job part.archive) :
    Always κ b (fun t (_ : Control) => Frame (Own v x job) t₀ t) (storeArchive v x tenant job plan part) := by
  let I : Tree → Control → Prop := fun t _ => Frame (Own v x job) t₀ t
  have hI : Framed (Own v x job) I := framed_frame
  refine Always.bind (Always.mapError always_syncArchive) fun _ => ?_
  refine Always.bind (Always.mapError always_digest) fun found => ?_
  refine Always.bind (Always.mapError (always_reading _ _)) fun _ => ?_
  refine Does.bind
    (Does.mapError (commitArchive_leaves (J := fun _ => I) hI fun _ name _ heither t t' d ht _ hrename => ?_))
    fun location => ?_
  · have hmoved : I t' d := Framed.renamed (d := d) hI hpart (final_own heither (List.prefix_append _ _)) ht hrename
    exact hmoved
  refine Does.start (φ := ∃ name, Proper job.deployId ∧ Proper name ∧
    (name = timeName v x ∨ name = suffixedName v x job) ∧
    location.directory = pathJoin [job.deployId, name])
    (fun _ _ ht => ht.imp fun _ hn => ⟨hn.1, hn.2.1, hn.2.2.1, hn.2.2.2.1⟩) fun hplace => ?_
  obtain ⟨name, hdeploy, hname, heither, hlocation⟩ := hplace
  have hbelow : ∀ q, v.base ++ split location.directory <+: q → Own v x job q := by
    intro q hq
    rw [hlocation, split_pair hdeploy hname] at hq
    exact final_own heither hq
  refine Does.pre (P := I) (Always.onFailure ?_ ?_) fun _ _ ht => ?_
  · refine Always.bind (upholds_codedValue _ _) fun external => ?_
    refine Always.bind (Always.mapError (framed_writeManifest hI hbelow external)) fun _ => ?_
    refine Always.bind (Always.mapError (always_quickVerify _ _ _)) fun _ => Always.mapError ?_
    refine writing_does.post (fun _ _ _ ht => ?_) (fun _ _ _ ht => ht.1) fun _ _ ht => ht
    obtain ⟨s, hframe, -⟩ := ht
    exact hframe
  · exact always_removeDirectory fun _ _ _ ht => ht.removed hbelow
  · obtain ⟨-, -, -, -, -, hframe⟩ := ht
    exact hframe

theorem framed_execute {t₀ : Tree} :
    Always κ b (fun t (_ : Control) => Frame (Own v x job) t₀ t) (execute v x tenant job) := by
  let I : Tree → Control → Prop := fun t _ => Frame (Own v x job) t₀ t
  have hI : Framed (Own v x job) I := framed_frame
  unfold execute
  split
  · exact Always.fail _
  · next plan hplan =>
    refine Does.bind (Does.mapError (((createPartial_does (I := fun _ _ => True) lasting_data fun _ _ => trivial).and
      (framed_createPartial hI job.id)).weaken (fun _ _ ht => ⟨trivial, ht⟩) (fun _ _ _ ht => ht)
      (fun _ _ _ ht => ht.2) fun _ _ ht => ht.2)) fun part => ?_
    refine Does.start (fun _ _ ht => ht.1.2) fun hpart => ?_
    obtain ⟨hid, hdirectory, harchive⟩ := hpart
    have howns := @working_owns v job part harchive
    rw [cacheDirectory_proper hid]
    refine Does.pre (P := I) (Always.deferred ?_ ?_) fun _ _ ht => ht.2
    · refine Always.bind (Always.mapError (Always.mapError hI.mkdirAll)) fun _ => Always.deferred ?_ ?_
      · have hplaces : Owns (Own v x job) ⟨part.archive, v.cacheRoot ++ [job.id]⟩ :=
          ⟨.inl howns.archive, fun q hq => .inl (howns.below q hq)⟩
        exact Always.bind (framed_writeWithRetry hI hplaces _ _ _ _) fun _ => framed_storeArchive (.inl howns.archive)
      · exact always_removeAll fun _ _ _ ht => ht.removed fun q hq => .inl (.inr hq)
    · refine always_removeDirectory fun _ _ _ ht => ht.removed fun q hq => .inl (.inl ?_)
      rw [hdirectory, split_pair proper_partial hid] at hq
      exact hq

theorem own_started : Own v x (startedJob x job) = Own v x job := rfl

/-- The job is looked up, started, run and, after an error, failed. -/
theorem framed_executeJob {t₀ : Tree} {d₀ : Control} {id : String}
    (hjob : d₀.store.backupJob tenant id = .ok job) :
    Does κ b (fun t d => t = t₀ ∧ d = d₀) (executeJob v x tenant id) (fun _ t _ => Frame (Own v x job) t₀ t)
      (fun _ t _ => Frame (Own v x job) t₀ t) fun t _ => Frame (Own v x job) t₀ t := by
  let I : Tree → Control → Prop := fun t _ => Frame (Own v x job) t₀ t
  have hstart : ∀ {t : Tree}, t = t₀ → Frame (Own v x job) t₀ t := fun ht => ht ▸ Frame.refl
  have hwrite : ∀ {b : Bool} (c : Statement) (act : Store → Except StoreError Store),
      Always κ b I (writing c act) := by
    intro b c act
    refine writing_does.post (fun _ _ _ ht => ?_) (fun _ _ _ ht => ht.1) fun _ _ ht => ht
    obtain ⟨s, hframe, -⟩ := ht
    exact hframe
  refine Does.bind (reading_does.post (fun _ _ _ ht => ht) (fun _ _ _ ht => hstart ht.1.1)
    fun _ _ ht => hstart ht.1) fun job' => ?_
  refine Does.start (φ := job' = job) ?_ fun hsame => ?_
  · intro t d ht
    have hread := ht.2.2
    rw [ht.1.2, hjob] at hread
    exact (Except.ok.inj hread).symm
  subst hsame
  refine Does.pre (P := I) (Always.bind (hwrite _ _) fun _ => ?_) fun _ _ ht => hstart ht.1.1
  have hexecute : Always κ b I (execute v x tenant (startedJob x job')) := by
    have hframed := @framed_execute κ b v x tenant (startedJob x job') t₀
    rw [own_started] at hframed
    exact hframed
  refine Always.bind (Always.attempt hexecute) fun r => ?_
  split
  · exact Always.pure _
  · exact Always.bind (Always.attempt (Always.cleaningUp (hwrite _ _))) fun _ => Always.fail _

/-- `ExecuteJob` changes files nowhere but in the directories of its job, and elsewhere makes
nothing but directories, however it ends. -/
theorem executeJob_confined (v : Service) (x : Encounter) (tenant id : String) (m : Machine Control) :
    (∀ job, m.data.store.backupJob tenant id = .ok job →
      Frame (Own v x job) m.tree (executeJob v x tenant id m).state.tree) ∧
    (∀ e, m.data.store.backupJob tenant id = .error e → (executeJob v x tenant id m).state.tree = m.tree) := by
  have hstate : ∀ {I : Tree → Prop}, Does m.fate m.cleaning (fun t d => t = m.tree ∧ d = m.data)
      (executeJob v x tenant id) (fun _ t _ => I t) (fun _ t _ => I t) (fun t _ => I t) →
        I (executeJob v x tenant id m).state.tree := by
    intro I hdoes
    have hrun := Does.run hdoes ⟨rfl, rfl, rfl, rfl⟩
    cases hc : executeJob v x tenant id m with
    | done a m' => rw [hc] at hrun; exact hrun.2.2
    | failed e m' => rw [hc] at hrun; exact hrun.2.2
    | crashed m' => rw [hc] at hrun; exact hrun.2.2
  refine ⟨fun job hjob => hstate (framed_executeJob hjob), fun e hjob => ?_⟩
  · refine hstate (I := fun t => t = m.tree) (Does.bind (R := fun _ _ _ => False) (reading_does.post ?_
      (fun _ _ _ ht => ht.1.1) fun _ _ ht => ht.1) fun _ => Does.start (fun _ _ hf => hf) fun hf => hf.elim)
    intro job t d ht
    have hread := ht.2.2
    rw [ht.1.2, hjob] at hread
    cases hread

end

/-! ## What it takes back -/

/-- Outside `own` there is no object but directories that was not there before. -/
def NoNew (own : List String → Prop) (t₀ t : Tree) : Prop :=
  ∀ q o, ¬own q → o ≠ .directory → t.obj q = some o → t₀.obj q = some o

theorem noNew_of_frame {own : List String → Prop} {t₀ t : Tree} (h : Frame own t₀ t) : NoNew own t₀ t :=
  fun _ _ hq ho hobj => h.file hq ho hobj

theorem NoNew.removed {own own' : List String → Prop} {t₀ t : Tree} {p : List String} (h : NoNew own t₀ t)
    (hp : p ≠ [])
    (hown : ∀ q, own q → own' q ∨ p <+: q) : NoNew own' t₀ (t.removeAll p fun _ => false) := by
  intro q o hq ho hobj
  have hbelow : ¬p <+: q := by
    intro hle
    rw [Tree.removeAll_below hp hle] at hobj
    cases hobj
  exact h q o (fun howned => (hown q howned).elim hq hbelow) ho (Tree.removeAll_some hobj)

section
variable {κ : Fates} {b : Bool} {v : Service} {x : Encounter} {tenant : String} {job : BackupJob} {plan : Plan}
  {part : Partial} {t₀ : Tree} {d₀ : Control}

/-- Before the commit, where the files of `own` may be new. -/
def Early (v : Service) (own : List String → Prop) (t₀ : Tree) (d₀ : Control) (t : Tree) (d : Control) : Prop :=
  Frame own t₀ t ∧ t.obj (v.base ++ ["_partial"]) = some .directory ∧ d = d₀

/-- After an error, with the directories of `own` still to be removed. -/
def Failed (v : Service) (own : List String → Prop) (t₀ : Tree) (d₀ : Control) (t : Tree) (d : Control) : Prop :=
  NoNew own t₀ t ∧ t.obj (v.base ++ ["_partial"]) = some .directory ∧ d = d₀

theorem early_failed {own own' : List String → Prop} {t : Tree} {d : Control} (h : Early v own t₀ d₀ t d)
    (hown : ∀ q, own q → own' q) : Failed v own' t₀ d₀ t d :=
  ⟨noNew_of_frame (h.1.mono hown), h.2⟩

theorem framed_early {own : List String → Prop} : Framed own (Early v own t₀ d₀) :=
  framed_frame.and (framed_directory.and framed_data)

/-- Once the archive is in its directory. -/
def Late (v : Service) (job : BackupJob) (t₀ : Tree) (d₀ : Control) (name : String) (t : Tree)
    (d : Control) : Prop :=
  Frame (fun q => Working v job q ∨ finalPath v.base job.deployId name <+: q) t₀ t ∧
    t.obj (finalPath v.base job.deployId name) = some .directory ∧
    t.obj (v.base ++ ["_partial"]) = some .directory ∧ d = d₀

theorem framed_late {name : String} :
    Framed (fun q => Working v job q ∨ finalPath v.base job.deployId name <+: q) (Late v job t₀ d₀ name) :=
  framed_frame.and (framed_directory.and (framed_directory.and framed_data))

theorem late_moves (harchive : Working v job part.archive) (name : String) :
    Moves v.base part job.deployId (Early v (Working v job) t₀ d₀) (Late v job t₀ d₀) name := by
  intro t t' d ht hdir hrename
  have hlate : Late v job t₀ d₀ name t d := ⟨ht.1.mono fun _ => .inl, hdir, ht.2⟩
  exact framed_late.renamed (.inl harchive) (.inr (List.prefix_append _ _)) hlate hrename

theorem final_ne_nil {name : String} : finalPath v.base job.deployId name ≠ [] :=
  List.append_ne_nil_of_right_ne_nil _ (List.cons_ne_nil _ _)

theorem final_not_above {name : String} : ¬finalPath v.base job.deployId name <+: v.base ++ ["_partial"] := by
  intro h
  have hlength := h.length_le
  unfold finalPath at hlength
  simp at hlength

theorem late_withdrawn (hclean : Calm κ true) {name : String} (hdeploy : Proper job.deployId) (hname : Proper name)
    {directory : String} (hdirectory : directory = pathJoin [job.deployId, name]) :
    Does κ true (Late v job t₀ d₀ name) (removeDirectory v.base directory : Action Control Unit)
      (fun _ => Failed v (Working v job) t₀ d₀) (fun _ => Failed v (Working v job) t₀ d₀) fun _ _ => True := by
  subst hdirectory
  have hpath : v.base ++ split (pathJoin [job.deployId, name]) = finalPath v.base job.deployId name := by
    rw [split_pair hdeploy hname]
    rfl
  refine removeDirectory_goes hclean (safeRelative_pair hdeploy hname) ?_ ?_ ?_ fun _ _ _ _ => ⟨trivial, trivial⟩
  · intro t d ht
    rw [hpath]
    exact Tree.prefix_of_directory ht.2.1 (List.dropLast_prefix _)
  · intro t d ht
    rw [hpath]
    refine ⟨(noNew_of_frame ht.1).removed final_ne_nil fun _ hq => hq, ?_, ht.2.2.2⟩
    rw [Tree.removeAll_elsewhere final_not_above]
    exact ht.2.2.1
  · intro t d ht hnone
    rw [hpath, ht.2.1] at hnone
    cases hnone

theorem storeArchive_withdraws (hclean : Calm κ true) (harchive : Working v job part.archive) :
    Does κ b (Early v (Working v job) t₀ d₀) (storeArchive v x tenant job plan part) (fun _ _ _ => True)
      (fun _ => Failed v (Working v job) t₀ d₀) fun _ _ => True := by
  have hearly : ∀ {α : Type} {c : Work Control α}, Always κ b (Early v (Working v job) t₀ d₀) c →
      Does κ b (Early v (Working v job) t₀ d₀) c (fun _ => Early v (Working v job) t₀ d₀)
        (fun _ => Failed v (Working v job) t₀ d₀)
        fun _ _ => True :=
    fun h => h.post (fun _ _ _ ht => ht) (fun _ _ _ ht => early_failed ht fun _ hq => hq) fun _ _ _ => trivial
  refine Does.bind (hearly (Always.mapError always_syncArchive)) fun _ => ?_
  refine Does.bind (hearly (Always.mapError always_digest)) fun found => ?_
  refine Does.bind (hearly (Always.mapError (always_reading _ _))) fun _ => ?_
  refine Does.bind (Does.mapError ((commitArchive_leaves framed_early fun _ name _ _ => late_moves harchive name).post
    (fun _ _ _ ht => ht) (fun _ _ _ ht => early_failed ht fun _ hq => hq) fun _ _ _ => trivial)) fun location => ?_
  refine Does.start (φ := ∃ name, Proper job.deployId ∧ Proper name ∧
    location.directory = pathJoin [job.deployId, name])
    (fun _ _ ht => ht.imp fun _ hn => ⟨hn.1, hn.2.1, hn.2.2.2.1⟩) fun hplace => ?_
  obtain ⟨name, hdeploy, hname, hlocation⟩ := hplace
  have hbelow : ∀ q, v.base ++ split location.directory <+: q →
      Working v job q ∨ finalPath v.base job.deployId name <+: q := by
    intro q hq
    rw [hlocation, split_pair hdeploy hname] at hq
    exact .inr hq
  have hlate : ∀ {α : Type} {c : Work Control α}, Always κ b (Late v job t₀ d₀ name) c →
      Does κ b (Late v job t₀ d₀ name) c (fun _ => Late v job t₀ d₀ name) (fun _ => Late v job t₀ d₀ name)
        fun _ _ => True := fun h => h.post (fun _ _ _ ht => ht) (fun _ _ _ ht => ht) fun _ _ _ => trivial
  refine Does.onFailure (G := fun _ => Late v job t₀ d₀ name) (Does.pre (P := Late v job t₀ d₀ name) ?_ ?_)
    fun _ => late_withdrawn hclean hdeploy hname hlocation
  · refine Does.bind (hlate (upholds_codedValue _ _)) fun external => ?_
    refine Does.bind (hlate (Always.mapError (framed_writeManifest framed_late hbelow external))) fun _ => ?_
    refine Does.bind (hlate (Always.mapError (always_quickVerify _ _ _))) fun _ => Does.mapError ?_
    exact writing_does.post (fun _ _ _ _ => trivial) (fun _ _ _ ht => ht.1) fun _ _ _ => trivial
  · intro t d ht
    obtain ⟨name', -, hname', -, hlocation', hin⟩ := ht
    have hpair := congrArg split (hlocation.symm.trans hlocation')
    rw [split_pair hdeploy hname, split_pair hdeploy hname'] at hpair
    have hsame : name = name' := by simpa using hpair
    exact hsame ▸ hin

theorem createPartial_makes {id : String} {P : Tree → Control → Prop} :
    Yields κ b P (createPartial v.base id) fun _ t _ => t.obj (v.base ++ ["_partial"]) = some .directory := by
  refine Does.ite (fun hseg => ?_) fun _ => Does.fail fun _ _ _ => trivial
  have hpair := split_pair proper_partial (safeSegment_proper hseg)
  refine Does.bind (R := fun _ t _ => t.obj (v.base ++ ["_partial"]) = some .directory)
    (makeDirectories_does.yields.post
      ?_ (fun _ _ _ ht => ht) fun _ _ ht => ht) fun _ => Does.bind always_resolve.yields fun _ =>
      Does.pure fun _ _ ht => ht
  intro _ t d ht
  obtain ⟨-, t', -, hlaid, -⟩ := ht
  rw [hlaid, hpair]
  exact if_pos ((List.prefix_append_right_inj _).mpr ⟨[id], rfl⟩)

theorem cache_withdrawn (hclean : Calm κ true) :
    Does κ true (Failed v (Working v job) t₀ d₀)
      (removeAll (v.cacheRoot ++ [job.id]) : Prog (Machine Control) IoError Unit)
      (fun _ => Failed v (fun q => partialPath v.base job.id <+: q) t₀ d₀)
      (fun _ => Failed v (fun q => partialPath v.base job.id <+: q) t₀ d₀) fun _ _ => True := by
  have hbeside : ¬v.cacheRoot ++ [job.id] <+: v.base ++ ["_partial"] := by
    intro h
    have hcache : v.cacheRoot <+: v.base ++ ["_partial"] := (List.prefix_append _ _).trans h
    exact (List.prefix_or_prefix_of_prefix (List.prefix_append _ _) hcache).elim v.apart.1 v.apart.2
  refine removeAll_does.post ?_ ?_ fun _ _ _ => trivial
  · intro _ t d ht
    obtain ⟨t', ht', rfl⟩ := ht
    refine ⟨ht'.1.removed (List.append_ne_nil_of_right_ne_nil _ (List.cons_ne_nil _ _)) fun q hq => hq, ?_, ht'.2.2⟩
    rw [Tree.removeAll_elsewhere hbeside]
    exact ht'.2.1
  · exact fun _ t d ht => absurd hclean ht.1

theorem partial_withdrawn (hclean : Calm κ true) (hid : Proper job.id) {directory : String}
    (hdirectory : directory = pathJoin ["_partial", job.id]) :
    Does κ true (Failed v (fun q => partialPath v.base job.id <+: q) t₀ d₀)
      (removeDirectory v.base directory : Action Control Unit)
      (fun _ t d => NoNew (fun _ => False) t₀ t ∧ d = d₀)
        (fun _ t d => NoNew (fun _ => False) t₀ t ∧ d = d₀)
      fun _ _ => True := by
  subst hdirectory
  have hpath : v.base ++ split (pathJoin ["_partial", job.id]) = partialPath v.base job.id := by
    rw [split_pair proper_partial hid]
    rfl
  have hne : partialPath v.base job.id ≠ [] := List.append_ne_nil_of_right_ne_nil _ (List.cons_ne_nil _ _)
  refine removeDirectory_goes hclean (safeRelative_pair proper_partial hid) ?_ ?_ ?_ fun _ _ _ _ =>
    ⟨trivial, trivial⟩
  · intro t d ht
    rw [hpath]
    have hparent : (partialPath v.base job.id).dropLast = v.base ++ ["_partial"] := by
      unfold partialPath
      rw [List.append_cons, List.dropLast_concat]
    rw [hparent]
    exact ht.2.1
  · intro t d ht
    rw [hpath]
    exact ⟨ht.1.removed hne fun _ hq => .inr hq, ht.2.2⟩
  · intro t d ht hnone
    rw [hpath] at hnone
    refine ⟨fun q o _ ho hobj => ht.1 q o (fun hle => ?_) ho hobj, ht.2.2⟩
    -- below what is not there is nothing
    obtain ⟨rest, rfl⟩ := hle
    by_cases hrest : rest = []
    · rw [hrest, List.append_nil, hnone] at hobj
      cases hobj
    · rw [t.below_none (by rw [hnone]; exact nofun) hrest] at hobj
      cases hobj

/-- Nothing but directories is made with the partial directory. -/
theorem createPartial_early :
    Does κ b (fun t d => t = t₀ ∧ d = d₀) (createPartial v.base job.id)
      (fun part t d => (Proper job.id ∧ part.directory = pathJoin ["_partial", job.id] ∧
        part.archive = partialPath v.base job.id ++ ["snapshot.zip"]) ∧ Early v (fun _ => False) t₀ d₀ t d)
      (fun _ t d => NoNew (fun _ => False) t₀ t ∧ d = d₀) fun _ _ => True := by
  let I : Tree → Control → Prop := fun t d => Frame (fun _ => False) t₀ t ∧ d = d₀
  have hI : Framed (fun _ => False) I := framed_frame.and framed_data
  have hpart : Does κ b (fun _ (_ : Control) => True) (createPartial v.base job.id)
      (fun part _ _ => True ∧ Proper job.id ∧ part.directory = pathJoin ["_partial", job.id] ∧
        part.archive = partialPath v.base job.id ++ ["snapshot.zip"]) (fun _ _ _ => True) fun _ _ => True :=
    createPartial_does (@lasting_data Control (fun _ => True) fun _ => True) fun _ _ => trivial
  have hframe : Always κ b I (createPartial v.base job.id) := framed_createPartial hI job.id
  have hmakes : Yields κ b (fun _ (_ : Control) => True) (createPartial v.base job.id)
      fun _ t _ => t.obj (v.base ++ ["_partial"]) = some .directory := createPartial_makes
  refine (hpart.and (Does.and hframe hmakes)).weaken ?_ ?_ ?_ fun _ _ _ => trivial
  · exact fun t d ht => ⟨trivial, ⟨ht.1 ▸ Frame.refl, ht.2⟩, trivial⟩
  · exact fun part t d ht => ⟨ht.1.2, ht.2.1.1, ht.2.2, ht.2.1.2⟩
  · exact fun _ t d ht => ⟨noNew_of_frame ht.2.1.1, ht.2.1.2⟩

/-- A backup that fails leaves no file that was not there before. -/
theorem execute_withdraws (hclean : Calm κ true) :
    Does κ b (fun t d => t = t₀ ∧ d = d₀) (execute v x tenant job) (fun _ _ _ => True)
      (fun _ t d => NoNew (fun _ => False) t₀ t ∧ d = d₀) fun _ _ => True := by
  unfold execute
  split
  · exact Does.fail fun _ _ ht => ⟨ht.1 ▸ noNew_of_frame Frame.refl, ht.2⟩
  · next plan hplan =>
    refine Does.bind (Does.mapError createPartial_early) fun part => ?_
    refine Does.start (fun _ _ ht => ht.1) fun hpart => ?_
    obtain ⟨hid, hdirectory, harchive⟩ := hpart
    have howns := @working_owns v job part harchive
    rw [cacheDirectory_proper hid]
    refine Does.deferred (R := fun _ _ _ => True)
      (G := fun _ => Failed v (fun q => partialPath v.base job.id <+: q) t₀ d₀) ?_
      (fun _ => always_removeDirectory fun _ _ _ _ => trivial) fun _ => partial_withdrawn hclean hid hdirectory
    have hmake : Always κ b (Early v (fun _ => False) t₀ d₀)
        (mkdirAll (v.cacheRoot ++ [job.id]) : Prog (Machine Control) IoError Unit) := framed_early.mkdirAll
    refine Does.bind (R := fun _ => Early v (Working v job) t₀ d₀) (Does.mapError (Does.mapError (hmake.weaken
      (fun _ _ ht => ht.2) ?_ ?_ fun _ _ _ => trivial))) fun _ => ?_
    · exact fun _ _ _ ht => ⟨ht.1.mono fun _ => False.elim, ht.2⟩
    · exact fun _ _ _ ht => early_failed ht fun _ => False.elim
    refine Does.deferred (R := fun _ _ _ => True) (G := fun _ => Failed v (Working v job) t₀ d₀) ?_
      (fun _ => always_removeAll fun _ _ _ _ => trivial) fun _ => cache_withdrawn hclean
    refine Does.bind ((framed_writeWithRetry framed_early howns _ _ _ _).post (fun _ _ _ ht => ht)
      (fun _ _ _ ht => early_failed ht fun _ hq => hq) fun _ _ _ => trivial) fun _ => ?_
    exact storeArchive_withdraws hclean howns.archive

end

/-! ## The job that has failed -/

/-- The job is failed with the code, there is no new snapshot, and no new file. -/
structure Withdrawn (tenant id code : String) (m m' : Machine Control) : Prop where
  files : ∀ q o, o ≠ .directory → m'.tree.obj q = some o → m.tree.obj q = some o
  snapshots : m'.data.store.snapshots = m.data.store.snapshots
  job : ∃ j ∈ m'.data.store.jobs, j.id = id ∧ j.tenantUid = tenant ∧ j.status = .failed ∧ j.errorCode = code

theorem startBackupJob_running {s s' : Store} {tenant id : String} {started : Time}
    (h : s.startBackupJob tenant id started = .ok s') :
    (∃ j ∈ s'.jobs, j.id = id ∧ j.tenantUid = tenant ∧ j.status.active = true) ∧
    s'.snapshots = s.snapshots := by
  obtain ⟨⟨j, hj, hid, htenant, hstatus⟩, htables⟩ := Store.moveJob_ok h
  refine ⟨⟨startedRow started j, ?_, hid, htenant, rfl⟩, by rw [htables]⟩
  rw [htables]
  exact Table.mem_updateWhere_hit hj (Store.jobIn_iff.mpr ⟨hid, htenant, hstatus⟩)

theorem failBackupJob_failed {s s' : Store} {tenant id code : String} {finished : Time}
    (h : s.failBackupJob tenant id code finished = .ok s') :
    (∃ j ∈ s'.jobs, j.id = id ∧ j.tenantUid = tenant ∧ j.status = .failed ∧ j.errorCode = code) ∧
      s'.snapshots = s.snapshots := by
  obtain ⟨⟨j, hj, hid, htenant, hstatus⟩, htables⟩ := Store.moveJob_ok h
  refine ⟨⟨failedRow code finished j, ?_, hid, htenant, rfl, rfl⟩, by rw [htables]⟩
  rw [htables]
  exact Table.mem_updateWhere_hit hj (Store.jobIn_iff.mpr ⟨hid, htenant, hstatus⟩)

section
variable {v : Service} {x : Encounter} {tenant id : String}

/-- Where `ExecuteJob` returns an error and no clean-up fails, either the job was not started
and nothing has changed, or it has failed with the code of the error, without a snapshot, and
there is no file that was not there before. -/
theorem executeJob_withdraws {m m' : Machine Control} {e : GoError} (hclean : Calm m.fate true)
    (hfails : m.data.fails .failBackupJob = false) (hfailed : executeJob v x tenant id m = .failed e m') :
    (m'.tree = m.tree ∧ m'.data = m.data) ∨ Withdrawn tenant id e.code m m' := by
  let F : GoError → Tree → Control → Prop := fun e t d => (t = m.tree ∧ d = m.data) ∨
    (NoNew (fun _ => False) m.tree t ∧ d.store.snapshots = m.data.store.snapshots ∧
      ∃ j ∈ d.store.jobs, j.id = id ∧ j.tenantUid = tenant ∧ j.status = .failed ∧ j.errorCode = e.code)
  have hdoes : Does m.fate m.cleaning (fun t d => t = m.tree ∧ d = m.data) (executeJob v x tenant id)
      (fun _ _ _ => True) F fun _ _ => True := by
    unfold executeJob
    refine Does.bind (reading_does.post (fun _ _ _ ht => ht.1) (fun _ _ _ ht => .inl ht.1) fun _ _ _ => trivial)
      fun job => ?_
    refine Does.bind (writing_does.post (fun _ _ _ ht => ht) (fun _ _ _ ht => .inl ht.1) fun _ _ _ => trivial)
      fun _ => ?_
    refine Does.each_start fun t₀ d₀ ht₀ => ?_
    obtain ⟨s, ⟨rfl, hdata⟩, -, hstart⟩ := ht₀
    have hstore : s = m.data.store := by rw [← hdata]
    have hfree : d₀.fails .failBackupJob = false := by
      rw [← hdata] at hfails
      exact hfails
    rw [hstore] at hstart
    obtain ⟨⟨j, hj, hid, htenant, hactive⟩, hsnapshots⟩ := startBackupJob_running hstart
    refine Does.bind (R := fun r t d => ∀ e, r = .error e → NoNew (fun _ => False) m.tree t ∧ d = d₀)
      (Does.attempt ((execute_withdraws hclean).post (fun _ _ _ _ _ => nofun) ?_ fun _ _ ht => ht)) fun r => ?_
    · intro e t d ht e' he
      exact ht
    split
    · exact Does.pure fun _ _ _ => trivial
    · next e =>
      refine Does.bind (R := fun _ t d => F e t d) (Does.attempt (Does.cleaningUp (writing_does.weaken
        (fun _ _ ht => ht e rfl) ?_ ?_ fun _ _ _ => trivial))) fun _ => Does.fail fun _ _ ht => ht
      · intro _ t d ht
        obtain ⟨s', ⟨hfiles, hd⟩, -, hact⟩ := ht
        have hsame : s' = d₀.store := by rw [← hd]
        rw [hsame] at hact
        obtain ⟨hjob, hkept⟩ := failBackupJob_failed hact
        exact .inr ⟨hfiles, hkept.trans hsnapshots, hjob⟩
      · intro _ t d ht
        obtain ⟨⟨-, rfl⟩, hstuck⟩ := ht
        obtain hfault | ⟨e', he'⟩ := hstuck hclean
        · rw [hfree] at hfault
          cases hfault
        · obtain ⟨s', hs'⟩ := Store.failBackupJob_of_mem e.code x.failedAt hj hid htenant hactive
          rw [hs'] at he'
          cases he'
  have hrun := Does.run hdoes ⟨rfl, rfl, rfl, rfl⟩
  rw [hfailed] at hrun
  obtain hsame | ⟨hfiles, hsnapshots, hjob⟩ := hrun.2.2
  · exact .inl hsame
  · exact .inr ⟨fun q o => hfiles q o not_false, hsnapshots, hjob⟩

end

/-- The letters again, with a manifest that cannot be written. -/
def lettersTorn : Encounter := { lettersMet with marshal := fun _ => .error (.plain "json: unsupported value") }

theorem executeJob_withdraws_letters : ∃ e m',
    executeJob lettersService lettersTorn "u" "backup-1" lettersMachine = .failed e m' ∧
      Withdrawn "u" "backup-1" e.code lettersMachine m' := by
  have hends : (match executeJob lettersService lettersTorn "u" "backup-1" lettersMachine with
      | .failed _ m' => decide (m'.data.store.jobs.map (·.status) = [.failed])
      | _ => false) = true := by decide +kernel
  have hbefore : lettersMachine.data.store.jobs.map (·.status) = [.queued] := by decide +kernel
  cases hrun : executeJob lettersService lettersTorn "u" "backup-1" lettersMachine with
  | done u m' =>
    rw [hrun] at hends
    cases hends
  | failed e m' =>
    rw [hrun] at hends
    refine ⟨e, m', rfl, (executeJob_withdraws (fun _ => rfl) rfl hrun).resolve_left fun hsame => ?_⟩
    have hafter : m'.data.store.jobs.map (·.status) = [.failed] := of_decide_eq_true hends
    rw [hsame.2, hbefore] at hafter
    exact absurd hafter (by decide)
  | crashed m' =>
    rw [hrun] at hends
    cases hends

end AppBackup.Backup
