import AppBackup.Backup.Retry
import AppBackup.Probe.Sound
import AppBackup.Storage.Restore

/- An archive that the writer has finished, read again (`backup/service.go` and
   `storage/storage.go`): a reader accepts the name of each entry and finds none twice, and an
   export puts the planned directories, files and databases back at their paths, with the bytes
   that were copied. The checks of the writer (`zipName`) and of the readers (`safeZipPath`, the
   `appvar/` prefix, entries of directories) are made apart from each other and agree. -/
namespace AppBackup.Backup
open Program Disk Path Text Probe Storage

variable {δ : Type}

/-! ## The items of a plan -/

def directoryItem (e : Entry) : Item := .directory e.path

def fileItem (s : Sources) (e : Entry) : Item := .file e.path (s.reading e).bytes

def databaseItem (s : Sources) (e : Entry) : Item := .file e.path (onlineCopy (s.online e).attempts)

/-- What the archive of a plan has in it. -/
def planItems (s : Sources) (plan : Plan) : List Item :=
  plan.directories.map directoryItem ++ (plan.files.map (fileItem s) ++ plan.sqlite.map (databaseItem s))

section
variable {s : Sources} {plan : Plan}

theorem planItems_names : (planItems s plan).map Item.names = plan.entries.map (·.path) := by
  unfold planItems Plan.entries
  simp only [List.map_append, List.map_map]
  rfl

theorem planItems_entry {i : Item} (hi : i ∈ planItems s plan) :
    ∃ e ∈ plan.entries, e.path = i.names ∧ (i.isFile = true → e ∈ plan.files ++ plan.sqlite) := by
  obtain hi | hi := List.mem_append.mp hi
  · obtain ⟨e, he, rfl⟩ := List.mem_map.mp hi
    exact ⟨e, List.mem_append_left _ he, rfl, nofun⟩
  obtain hi | hi := List.mem_append.mp hi
  · obtain ⟨e, he, rfl⟩ := List.mem_map.mp hi
    have hmem : e ∈ plan.files ++ plan.sqlite := List.mem_append_left _ he
    exact ⟨e, List.mem_append_right _ hmem, rfl, fun _ => hmem⟩
  · obtain ⟨e, he, rfl⟩ := List.mem_map.mp hi
    have hmem : e ∈ plan.files ++ plan.sqlite := List.mem_append_right _ he
    exact ⟨e, List.mem_append_right _ hmem, rfl, fun _ => hmem⟩

theorem planItems_nameable (h : plan.Sound) : ∀ i ∈ planItems s plan, Nameable i := by
  intro i hi
  obtain ⟨e, he, hpath, -⟩ := planItems_entry hi
  obtain ⟨hne, hproper, -⟩ := h.named e he
  rw [hpath] at hne hproper
  exact ⟨hne, hproper⟩

theorem planItems_once (h : plan.Sound) : (planItems s plan).Pairwise fun i j => i.names ≠ j.names := by
  have hnodup := h.once
  rw [← @planItems_names s plan] at hnodup
  exact List.pairwise_map.mp hnodup

theorem planItems_apart (h : plan.Sound) : (planItems s plan).Pairwise Item.Apart := by
  have hleaf : ∀ {i j : Item}, i ∈ planItems s plan → j ∈ planItems s plan → i.names ≠ j.names →
      i.isFile = true →
      ¬i.names <+: j.names := by
    intro i j hi hj hne hfile hle
    obtain ⟨f, -, hf, hmem⟩ := planItems_entry hi
    obtain ⟨e, he, hpath, -⟩ := planItems_entry hj
    rw [← hf, ← hpath] at hle hne
    exact hne (h.leaves f (hmem hfile) e he hle).symm
  exact (planItems_once h).imp_of_mem fun hi hj hne => ⟨hleaf hi hj hne, hleaf hj hi (Ne.symm hne)⟩

end

/-! ## The entries of an archive -/

section
variable {h : Host} {s : Sources} {plan : Plan} {manifest : Except GoError (List Byte)}

/-- The entries the writer adds itself, as a reader finds them. -/
def ownEntries (h : Host) (s : Sources) (plan : Plan) (manifest : Except GoError (List Byte)) : List ZipEntry :=
  (ownRecords h (fileIndex h s plan) plan manifest).map Written.entry

theorem dataName_eq {e : Entry} (he : e.Named) : dataName e = archivedName e.path := by
  unfold dataName archivedName
  rw [he.2.2]

/-- A reader finds the items of the plan, and the writer's own entries. -/
theorem records_entries (hsound : plan.Sound) :
    (records h s plan manifest).map Written.entry = (planItems s plan).map itemEntry ++
    ownEntries h s plan manifest := by
  have hnamed : ∀ e ∈ plan.entries, dataName e = archivedName e.path := fun e he => dataName_eq (hsound.named e he)
  unfold records dataRecords planItems ownEntries
  simp only [List.map_append, List.map_map, List.append_assoc]
  congr 1
  · refine List.map_congr_left fun e he => ?_
    show (⟨dataName e ++ "/", false, true, some ([], true)⟩ : ZipEntry) = _
    rw [hnamed e (List.mem_append_left _ he)]
    rfl
  congr 1
  · refine List.map_congr_left fun e he => ?_
    show (⟨dataName e, false, false, some ((s.reading e).bytes, true)⟩ : ZipEntry) = _
    rw [hnamed e (List.mem_append_right _ (List.mem_append_left _ he))]
    rfl
  congr 1
  · refine List.map_congr_left fun e he => ?_
    show (⟨dataName e, false, false, some (onlineCopy (s.online e).attempts, true)⟩ : ZipEntry) = _
    rw [hnamed e (List.mem_append_right _ (List.mem_append_right _ he))]
    rfl

/-- The names of the writer's own entries. -/
def ownNames : List String := ["_snapshot/file-index.jsonl", "_snapshot/warnings.json", "_snapshot/manifest.json"]

theorem ownNames_spec : ∀ name ∈ ownNames, safeZipPath name = true ∧ hasPrefix name "appvar/" = false := by
  decide +kernel

theorem ownEntries_names : (ownEntries h s plan manifest).map (·.name) = ownNames := rfl

theorem ownEntries_skipped : ∀ e ∈ ownEntries h s plan manifest, Skipped e := by
  intro e he
  have hname : e.name ∈ ownNames := by
    rw [← @ownEntries_names h s plan manifest]
    exact List.mem_map_of_mem he
  obtain ⟨hsafe, hunder⟩ := ownNames_spec e.name hname
  obtain ⟨w, -, rfl⟩ := List.mem_map.mp he
  exact ⟨hsafe, rfl, hunder⟩

theorem itemEntry_under (i : Item) : hasPrefix (itemEntry i).name "appvar/" = true := by
  cases i with
  | directory names => exact hasPrefix_archivedName names "/"
  | file names bytes =>
    have happend := hasPrefix_archivedName names ""
    rw [String.append_empty] at happend
    exact happend

/-- Two items of one entry name have the same names. -/
theorem itemEntry_names {i j : Item} (hi : Nameable i) (hj : Nameable j)
    (he : (itemEntry i).name = (itemEntry j).name) : i.names = j.names := by
  have hsame : ∀ {names names' : List String}, names ≠ [] → names' ≠ [] → (∀ n ∈ names, Proper n) →
      (∀ n ∈ names', Proper n) → archivedName names = archivedName names' → names = names' := by
    intro names names' hne hne' hproper hproper' he
    have htrim := congrArg trimAppvar he
    unfold archivedName at htrim
    rw [trimAppvar_append, trimAppvar_append] at htrim
    exact join_inj hne hne' (fun n hn => (hproper n hn).2.2.2) (fun n hn => (hproper' n hn).2.2.2) htrim
  have htrim := congrArg trimSlash he
  have hslash : ∀ {i : Item}, Nameable i → trimSlash (itemEntry i).name = archivedName i.names := by
    intro i hi
    cases i with
    | directory names => exact trimSlash_slash (archivedName names)
    | file names bytes =>
      have hno : hasSuffix (archivedName names) "/" = false := @hasSuffix_archivedName (.file names bytes) hi
      show trimSlash (archivedName names) = archivedName names
      unfold trimSlash
      rw [if_neg (by rw [hno]; exact Bool.false_ne_true)]
  rw [hslash hi, hslash hj] at htrim
  exact hsame hi.1 hj.1 hi.2 hj.2 htrim

theorem records_once (hsound : plan.Sound) :
    (((records h s plan manifest).map Written.entry).map (·.name)).Nodup := by
  rw [records_entries hsound, List.map_append, List.nodup_append', ownEntries_names]
  refine ⟨?_, by decide, ?_⟩
  · rw [List.map_map]
    refine List.pairwise_map.mpr ((@planItems_once s plan hsound).imp_of_mem fun hi hj hne he => hne ?_)
    exact itemEntry_names (planItems_nameable hsound _ hi) (planItems_nameable hsound _ hj) he
  · intro name hdata hown
    obtain ⟨e, he, rfl⟩ := List.mem_map.mp hdata
    obtain ⟨i, -, rfl⟩ := List.mem_map.mp he
    have hunder := (ownNames_spec _ hown).2
    rw [itemEntry_under] at hunder
    cases hunder

theorem records_safe (hsound : plan.Sound) :
    ∀ e ∈ (records h s plan manifest).map Written.entry, safeZipPath e.name = true := by
  rw [records_entries hsound]
  intro e he
  obtain he | he := List.mem_append.mp he
  · obtain ⟨i, hi, rfl⟩ := List.mem_map.mp he
    exact safeZipPath_item (planItems_nameable hsound i hi)
  · exact (ownEntries_skipped e he).1

end

/-! ## What comes back -/

/-- The planned objects are below `root`, with what was copied of them, and only what they lie
in beside them. -/
structure Unpacked (s : Sources) (plan : Plan) (root : List String) (t : Tree) : Prop where
  directories : ∀ e ∈ plan.directories, t.obj (root ++ e.path) = some .directory
  files : ∀ e ∈ plan.files, t.obj (root ++ e.path) = some (.file (s.reading e).bytes)
  databases : ∀ e ∈ plan.sqlite, t.obj (root ++ e.path) = some (.file (onlineCopy (s.online e).attempts))
  only : ∀ r o, t.obj (root ++ r) = some o → (r = [] ∨ ∃ e ∈ plan.entries, r <+: e.path) ∧
    (o ≠ .directory → ∃ e ∈ plan.files ++ plan.sqlite, r = e.path)

theorem unpacked_of_laidOut {s : Sources} {plan : Plan} {outside : List String → Option Object} {root : List String}
    {t : Tree} (hsound : plan.Sound) (h : LaidOut outside root (planItems s plan) t) : Unpacked s plan root t := by
  have hapart := @planItems_apart s plan hsound
  refine ⟨fun e he => ?_, fun e he => ?_, fun e he => ?_, fun r o ho => ?_⟩
  · rw [h.inside]
    exact objAt_of_directory hapart (List.mem_append_left _ (List.mem_map_of_mem he))
  · rw [h.inside]
    exact objAt_of_file hapart (List.mem_append_right _ (List.mem_append_left _ (List.mem_map_of_mem he)))
  · rw [h.inside]
    exact objAt_of_file hapart (List.mem_append_right _ (List.mem_append_right _ (List.mem_map_of_mem he)))
  · rw [h.inside] at ho
    obtain ⟨bytes, hfile, -⟩ | ⟨hdir, hway⟩ := objAt_some ho
    · obtain ⟨e, he, hpath, hmem⟩ := planItems_entry hfile
      exact ⟨.inr ⟨e, he, hpath ▸ List.prefix_refl _⟩, fun _ => ⟨e, hmem rfl, hpath.symm⟩⟩
    · refine ⟨hway.imp_right fun ⟨i, hi, hle⟩ => ?_, fun hno => absurd hdir hno⟩
      obtain ⟨e, he, hpath, -⟩ := planItems_entry hi
      exact ⟨e, he, hpath ▸ hle⟩

theorem read_archiveOf (zip : ZipFormat) (entries : List Written) :
    zip.read (archiveOf zip entries) = some (entries.map Written.entry) := zip.read_written entries

section
variable {h : Host} {s : Sources} {plan filtered : Plan} {manifest : Except GoError (List Byte)}

/-- An export of an archive with the records of a sound plan. -/
theorem export_unpacks (hsound : plan.Sound) {base : List String} {directory exportID : String} (m : Machine δ)
    (hdirectory : safeRelative directory = true) (hid : safeSegment exportID = true) (hclean : m.cleaning = false)
    (hroom : Exportable base directory exportID (archiveOf h.zip (records h s plan manifest)) m.tree) :
    (∀ r m', exportData h.zip.read base directory exportID m = .done r m' →
      Unpacked s plan (exportPath base exportID) m'.tree ∧
        ∀ p, ¬exportPath base exportID <+: p → m'.tree.obj p = besideExport base m.tree p) ∧
    (Quiet m.fate → ∃ r m', exportData h.zip.read base directory exportID m = .done r m') := by
  have hopen : h.zip.read (archiveOf h.zip (records h s plan manifest)) =
      some ((planItems s plan).map itemEntry ++ ownEntries h s plan manifest) := by
    rw [read_archiveOf, records_entries hsound]
  have hspec : DoneIff m.fate false (Quiet m.fate) True (fun t (_ : δ) => t = m.tree)
      (exportData h.zip.read base directory exportID) _ :=
    exportData_done id hdirectory hid hopen (planItems_nameable hsound) (planItems_apart hsound) ownEntries_skipped
      hroom
  have hat : At m.fate false (fun t (_ : δ) => t = m.tree) m := ⟨rfl, hclean, rfl⟩
  refine ⟨fun r m' hdone => ?_, fun hquiet => (hspec.run hquiet hat).mp trivial⟩
  have hrun := Does.run hspec hat
  rw [hdone] at hrun
  have hlaid := hrun.2.2.2.2
  refine ⟨unpacked_of_laidOut hsound hlaid, fun p hp => ?_⟩
  rw [hlaid]
  exact if_neg hp

/-- An archive that the writer has finished, of a scanned tree in any scope: a reader accepts
its entry names and finds none twice; an export of it that is done has put back what was
planned, with the bytes that were copied, and nothing else; and one in which nothing fails for
a reason of its own is done. -/
theorem archive_restores {lower : String → String} {tree : SourceTree} {multiInstance : Bool} {scope : BackupScope}
    (hplan : buildPlan lower tree multiInstance = .ok plan) (hscope : applyScope plan scope = .ok filtered)
    {root cache : List String} {id : String} {part : Partial}
    (hpart : part.archive = partialPath root id ++ ["snapshot.zip"]) {m m' : Machine δ}
    (hdone : writeArchive h s root part cache filtered manifest m = .done () m') :
    ∃ bytes, m'.tree.obj part.archive = some (.file bytes) ∧
      (∃ entries, h.zip.read bytes = some entries ∧ (entries.map (·.name)).Nodup ∧
        ∀ e ∈ entries, safeZipPath e.name = true) ∧
      ∀ (base : List String) (directory exportID : String) (m₀ : Machine δ), safeRelative directory = true →
        safeSegment exportID = true → m₀.cleaning = false → Exportable base directory exportID bytes m₀.tree →
        (∀ r m₁, exportData h.zip.read base directory exportID m₀ = .done r m₁ →
          Unpacked s filtered (exportPath base exportID) m₁.tree ∧
            ∀ p, ¬exportPath base exportID <+: p → m₁.tree.obj p = besideExport base m₀.tree p) ∧
        (Quiet m₀.fate → ∃ r m₁, exportData h.zip.read base directory exportID m₀ = .done r m₁) := by
  have hsound : filtered.Sound := (applyScope_within hscope).sound (buildPlan_sound hplan)
  obtain ⟨-, hbytes⟩ := writeArchive_writes ( apart_of_partial hpart) hdone
  refine ⟨_, hbytes, ⟨_, read_archiveOf _ _, records_once hsound, records_safe hsound⟩, ?_⟩
  exact fun base directory exportID m₀ hdirectory hid hclean hroom =>
    export_unpacks hsound m₀ hdirectory hid hclean hroom

end

/-! ### A database, and a file in a directory -/

/-- A letter in a box, beside the database of the mail. -/
def lettersTree : SourceTree where
  listing := .directory "box" 0 (.object "letter.txt" (.regular [5] true) .nil)
    (.object "mail.db" (.regular sqliteHeader true) .nil)
  wellFormed := by decide

def lettersPlan : Plan where
  result := ⟨.backupableSharedWarning, 17, 2, 1, 0, [⟨"mail.db", "sqlite", true, "SQLite format 3 header"⟩]⟩
  directories := [⟨["box"], "box", 0⟩]
  files := [⟨["box", "letter.txt"], "box/letter.txt", 1⟩]
  sqlite := [⟨["mail.db"], "mail.db", 16⟩]
  warnings := []

def lettersRead : Sources where
  modified := fun _ => 0
  reading := fun _ => ⟨.ok (), .ok ⟨true, 1, 0, 7⟩, [5], none, .ok ⟨true, 1, 0, 7⟩⟩
  online := fun _ => ⟨[⟨[8, 9], none, false, none⟩], none, none⟩
  indexBroken := none

/-- The storage, with the archive of the letters in it. -/
def lettersStore : Tree :=
  Tree.bare.withObjects [(["docs"], .directory), (["docs", "deploy-a"], .directory),
    (["docs", "deploy-a", "t1"], .directory), (["docs", "deploy-a", "t1", "snapshot.zip"],
      .file (archiveOf Container.format (records quietHost lettersRead lettersPlan (.ok [3]))))]

theorem archive_restores_letters : ∃ r, ∃ m₁ : Machine Unit,
    exportData Container.format.read ["docs"] "deploy-a/t1" "e1" (Machine.calm lettersStore ()) = .done r m₁ ∧
      Unpacked lettersRead lettersPlan ["docs", "_restore_exports", "e1"] m₁.tree := by
  have hplan : buildPlan id lettersTree false = .ok lettersPlan := rfl
  have hscope : applyScope lettersPlan BackupScope.full = .ok lettersPlan := rfl
  have hpart : notesPart.archive = partialPath ["docs"] "j" ++ ["snapshot.zip"] := rfl
  have hends : ((writeArchive quietHost lettersRead ["docs"] notesPart ["cache", "j"] lettersPlan (.ok [3]) :
      Work Unit Unit) (Machine.calm notesTree ())).isDone = true := by decide +kernel
  obtain ⟨u, m', hrun⟩ := Outcome.isDone_iff.mp hends
  obtain ⟨bytes, hbytes, -, hexports⟩ := archive_restores hplan hscope hpart hrun
  have hknown : bytes = archiveOf Container.format (records quietHost lettersRead lettersPlan (.ok [3])) := by
    have hwritten := (writeArchive_writes ( apart_of_partial hpart) hrun).2
    rw [hbytes] at hwritten
    exact Object.file.inj (Option.some.inj hwritten)
  subst hknown
  obtain ⟨hunpacks, hquiet⟩ := hexports ["docs"] "deploy-a/t1" "e1" (Machine.calm lettersStore ())
      (by decide +kernel)
    (by decide +kernel) rfl ⟨by decide +kernel, by decide +kernel, by decide +kernel, by decide +kernel⟩
  obtain ⟨r, m₁, hexport⟩ := hquiet fun _ _ => rfl
  exact ⟨r, m₁, hexport, (hunpacks r m₁ hexport).1⟩

end AppBackup.Backup
