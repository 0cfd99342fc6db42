import AppBackup.Backup.Stored
import AppBackup.Storage.Verify

/- What the deep check says of a snapshot that a backup has stored. Everything in its archive can
   be read to the end, so that only SQLite decides: `executeJob_verified`. -/
namespace AppBackup.Backup
open Program Disk Path Storage Probe Persistence

/-- SQLite accepts every entry that begins as a database. -/
def Accepts (quickCheck : List Byte → Bool) (entries : List Written) : Prop :=
  ∀ w ∈ entries, w.entry.isDir = false → w.bytes.take 16 = sqliteMagic → quickCheck w.bytes = true

section
variable {δ : Type} {v : Service} {x : Encounter} {tenant id : String}

theorem records_intact {plan : Plan} {s : Sources} {manifest : Except GoError (List Byte)} (hsound : plan.Sound)
    (quickCheck : List Byte → Bool) :
    (∀ e ∈ (records v.host s plan manifest).map Written.entry, Intact quickCheck e) ↔
      Accepts quickCheck (records v.host s plan manifest) := by
  refine ⟨fun h w hw hfile => ?_, fun h e he => ?_⟩
  · obtain ⟨bytes, hbytes, hchecked⟩ := (h w.entry (List.mem_map_of_mem hw)).read hfile
    obtain rfl : w.bytes = bytes := (Prod.mk.inj (Option.some.inj hbytes)).1
    exact hchecked
  · have hsafe := records_safe hsound e he
    obtain ⟨w, hw, rfl⟩ := List.mem_map.mp he
    exact ⟨hsafe, rfl, fun hfile => ⟨w.bytes, rfl, h w hw hfile⟩⟩

/-- A snapshot that lies where it was stored passes the deep check just where SQLite accepts it. -/
theorem stored_verified {job : BackupJob} {plan : Plan} {s : Sources} {name temporary : String} {m : Machine δ}
    (hdeploy : Proper job.deployId) (hname : Proper name) (hsound : plan.Sound) (hquiet : Quiet m.fate)
    (hfiled : Filed v x job plan name (storedArchive v x job plan s) m.tree)
    (hroom : Checkable v.base job.deployId name temporary (storedArchive v x job plan s) m.tree)
    (quickCheck : List Byte → Bool) (archive : List String) :
    (∃ m', fullVerify v.host.zip.read v.sha256 quickCheck v.base ⟨pathJoin [job.deployId, name], archive⟩
        (storedArchive v x job plan s).length (v.sha256 (storedArchive v x job plan s)) temporary m = .done () m') ↔
      Accepts quickCheck (records v.host s plan (x.marshal (openManifest x job plan))) := by
  have hopen : v.host.zip.read (storedArchive v x job plan s) = some _ := read_archiveOf _ _
  have hquick := (serves_of_sound hdeploy hname hsound).verified m hfiled hquiet archive
  rw [(fullVerify_exact hdeploy hname rfl hopen hquiet hroom).1, records_intact hsound]
  exact and_iff_right hquick

-- `snapshots/service.go` checks a snapshot with the columns of its row
def verifySnapshot {δ : Type} (v : Service) (quickCheck : List Byte → Bool) (snapshot : Snapshot)
    (archive : List String) (temporary : String) : Action δ Unit :=
  fullVerify v.host.zip.read v.sha256 quickCheck v.base ⟨snapshot.storagePath, archive⟩ snapshot.archiveSize
    snapshot.archiveSha256 temporary

/-- Where `ExecuteJob` returns no error, the snapshot it has put on record, as long as it lies where
it was stored and nothing fails for a reason of its own, passes `FullVerify` by its row just if
SQLite accepts every entry of its archive that begins as a database. -/
theorem executeJob_verified {m m' : Machine Control}
    (hdeploy : ∀ job, m.data.store.backupJob tenant id = .ok job → job.deployId ≠ "_partial")
    (hdone : executeJob v x tenant id m = .done () m') :
    ∃ job plan s name snapshot, m.data.store.backupJob tenant id = .ok job ∧
      preflight v x (startedJob x job) = .ok plan ∧
      snapshot = rowOf v x tenant (startedJob x job) plan name (storedArchive v x (startedJob x job) plan s) ∧
      OnRecord m'.data.store snapshot ∧
      Filed v x (startedJob x job) plan name (storedArchive v x (startedJob x job) plan s) m'.tree ∧
      ∀ {δ : Type} (m₁ : Machine δ) (quickCheck : List Byte → Bool) (temporary : String)
        (archive : List String),
        Quiet m₁.fate → Filed v x (startedJob x job) plan name
          (storedArchive v x (startedJob x job) plan s) m₁.tree →
        Checkable v.base (startedJob x job).deployId name temporary
          (storedArchive v x (startedJob x job) plan s) m₁.tree →
        ((∃ m₂, verifySnapshot v quickCheck snapshot archive temporary m₁ = .done () m₂) ↔
          Accepts quickCheck (records v.host s plan (x.marshal (openManifest x (startedJob x job) plan)))) := by
  have hyields : Yields m.fate m.cleaning (fun _ d => d = m.data) (executeJob v x tenant id) _ :=
    executeJob_yields hdeploy
  obtain ⟨job, started, plan, s, name, hjob, -, hplan, -, -, hfiled, hcommit⟩ := hyields.run rfl hdone
  refine ⟨job, plan, s, name, _, hjob, hplan, rfl, onRecord_of_commit hcommit, hfiled, ?_⟩
  intro δ m₁ quickCheck temporary archive hquiet hfiled₁ hroom
  -- the row has the directory, the size and the digest of what is filed
  exact stored_verified hfiled.deploy hfiled.directory.1
    (preflight_sound hplan) hquiet hfiled₁ hroom quickCheck archive

end

/-! ### The letters, checked once they are stored -/

theorem executeJob_verified_letters : ∃ m' job plan s name snapshot,
    executeJob lettersService lettersMet "u" "backup-1" lettersMachine = .done () m' ∧
      snapshot = rowOf lettersService lettersMet "u" job plan name
        (storedArchive lettersService lettersMet job plan s) ∧
      OnRecord m'.data.store snapshot ∧
      ((∃ m₂, verifySnapshot lettersService (fun _ => true) snapshot [] "verify-1" (Machine.calm m'.tree ()) =
          .done () m₂) ↔
        Accepts (fun _ => true)
          (records lettersService.host s plan (lettersMet.marshal (openManifest lettersMet job plan)))) := by
  have hroom := letters_room
  unfold hasRoom at hroom
  simp only [Bool.and_eq_true, decide_eq_true_eq] at hroom
  obtain ⟨⟨hends, hpartials⟩, hfree⟩ := hroom
  obtain ⟨u, m', hrun⟩ := Outcome.isDone_iff.mp hends
  rw [hrun] at hpartials hfree
  obtain ⟨job, plan, s, name, snapshot, -, -, hsnapshot, hrow, hfiled, hverified⟩ :=
      executeJob_verified (fun _ => letters_named) hrun
  exact ⟨m', startedJob lettersMet job, plan, s, name, snapshot, hrun, hsnapshot, hrow,
    hverified (Machine.calm m'.tree ()) _ "verify-1" [] (fun _ _ => rfl) hfiled
      ⟨hfiled.archive, .inr hpartials, hfree⟩⟩

end AppBackup.Backup
