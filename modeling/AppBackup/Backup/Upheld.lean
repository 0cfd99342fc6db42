import AppBackup.Backup.Archive
import AppBackup.Lib.Directories

/- What the writer keeps. An assertion that its writes to the archive and to the index keep is
   kept by all it does, apart from the files it makes and removes; where the process dies,
   what holds may be less. -/
namespace AppBackup.Backup
open Program Disk Path Text Probe Storage

variable {δ : Type}

/-- The writes of the writer keep the assertion. -/
structure Upheld (κ : Fates) (b : Bool) (I C : Tree → δ → Prop) (p : Places) : Prop where
  dead : ∀ t d, I t d → C t d
  archive : ∀ bytes, Upholds κ b I C (write p.archive bytes)
  index : ∀ bytes, Upholds κ b I C (write p.index bytes)

section
variable {κ : Fates} {b : Bool} {I C : Tree → δ → Prop} {h : Host} {p : Places}

theorem upholds_codedValue {α : Type} (code : String) (value : Except GoError α) :
    Upholds κ b I C (codedValue code value : Work δ α) := by
  cases value with
  | ok a => exact upholds_pure a
  | error e => exact upholds_fail _

/-- The calls on the copy keep the assertion. -/
theorem upholds_onlineBackup {temporary : List String} (hremove : Upholds κ b I C (remove temporary))
    (hcreate : Upholds κ b I C (createExclusive temporary))
      (hwrite : ∀ bytes, Upholds κ b I C (write temporary bytes))
    (check : Option GoError) (attempts : List OnlineAttempt) :
    Upholds κ b I C (onlineBackup temporary check attempts : Prog (Machine δ) OnlineError Unit) := by
  induction attempts with
  | nil => exact upholds_fail _
  | cons attempt rest ih =>
    refine Does.bind (R := fun _ => I) (Does.mapError (Does.bind (R := fun _ => I) (Does.attempt hremove) fun r => ?_))
      fun _ => ?_
    · split
      · exact upholds_pure _
      · exact upholds_pure _
      · exact upholds_fail _
    refine Does.bind (Does.mapError (Does.mapError hcreate)) fun _ => ?_
    refine Does.bind (Does.mapError (Does.mapError (hwrite _))) fun _ => ?_
    split
    · split
      · exact upholds_pure _
      · exact upholds_fail _
    · refine Does.ite (fun _ => ?_) fun _ => upholds_fail _
      split
      · exact upholds_fail _
      · exact ih

namespace Upheld

theorem look (hI : Upheld κ b I C p) {α : Type} (ask : Tree → Except IoError α) : Upholds κ b I C (look ask) :=
  (always_look ask).post (fun _ _ _ ht => ht) (fun _ _ _ ht => ht) hI.dead

theorem createHeader (hI : Upheld κ b I C p) (zip : ZipFormat) (name : String) (directory : Bool) :
    Upholds κ b I C (createHeader zip p.archive name directory : Work δ Unit) :=
  Does.mapError (Does.mapError (hI.archive _))

theorem copyContext (hI : Upheld κ b I C p) (zip : ZipFormat) (bytes : List Byte) (broken : Option Break) :
    Upholds κ b I C (copyContext zip p.archive bytes broken : Work δ Unit) := by
  refine Does.bind (Does.mapError (Does.mapError (hI.archive _))) fun _ => ?_
  split
  · exact upholds_pure _
  · exact upholds_fail _
  · exact upholds_fail _

theorem copyStable (hI : Upheld κ b I C p) (zip : ZipFormat) (r : Reading) :
    Upholds κ b I C (copyStable zip p.archive r : Work δ Unit) := by
  unfold Backup.copyStable
  split
  · exact upholds_fail _
  · split
    · exact upholds_fail _
    · refine Does.ite (fun _ => Does.bind (hI.copyContext _ _ _) fun _ => ?_) fun _ => upholds_fail _
      split
      · exact upholds_fail _
      · exact Does.ite (fun _ => upholds_pure _) fun _ => upholds_fail _

theorem writeDirectory (hI : Upheld κ b I C p) (entry : Entry) :
    Upholds κ b I C (writeDirectory h p entry : Work δ Written) := by
  unfold Backup.writeDirectory
  split
  · exact upholds_fail _
  · refine Does.bind (hI.createHeader _ _ _) fun _ => ?_
    exact Does.bind (Does.mapError (Does.mapError (hI.archive _))) fun _ => upholds_pure _

theorem writeRegular (hI : Upheld κ b I C p) (r : Reading) (entry : Entry) :
    Upholds κ b I C (writeRegular h p r entry : Work δ Written) := by
  unfold Backup.writeRegular
  split
  · exact upholds_fail _
  · refine Does.bind (hI.createHeader _ _ _) fun _ => ?_
    exact Does.bind (hI.copyStable _ _) fun _ => upholds_pure _

theorem archiveCopy (hI : Upheld κ b I C p) (broken : Option Break) (relative : String) (temporary : List String) :
    Upholds κ b I C (match zipName relative false with
      | .error e => Prog.fail e
      | .ok name => do
        let _ ← codedIo "SQLITE_SNAPSHOT_FAILED" (lstat temporary)
        Backup.createHeader h.zip p.archive name false
        let bytes ← codedIo "SOURCE_FILE_CHANGED" (readFile temporary)
        Backup.copyContext h.zip p.archive bytes broken
        pure ⟨name, false, bytes⟩ : Work δ Written) := by
  split
  · exact upholds_fail _
  · refine Does.bind (Does.mapError (Does.mapError (hI.look _))) fun _ => ?_
    refine Does.bind (hI.createHeader _ _ _) fun _ => ?_
    refine Does.bind (Does.mapError (Does.mapError (hI.look _))) fun bytes => ?_
    exact Does.bind (hI.copyContext _ _ _) fun _ => upholds_pure _

theorem writeBytes (hI : Upheld κ b I C p) (name : String) (value : List Byte) :
    Upholds κ b I C (writeBytes h p name value : Work δ Written) := by
  refine Does.ite (fun _ => ?_) fun _ => upholds_fail _
  refine Does.bind (hI.createHeader _ _ _) fun _ => ?_
  exact Does.bind (Does.mapError (Does.mapError (hI.archive _))) fun _ => upholds_pure _

theorem writeInternalFile (hI : Upheld κ b I C p) (broken : Option Break) (name : String) (filename : List String) :
    Upholds κ b I C (writeInternalFile h p broken name filename : Work δ Written) := by
  refine Does.ite (fun _ => ?_) fun _ => upholds_fail _
  refine Does.bind (Does.mapError (Does.mapError (hI.look _))) fun _ => ?_
  refine Does.bind (hI.createHeader _ _ _) fun _ => ?_
  refine Does.bind (Does.mapError (Does.mapError (hI.look _))) fun bytes => ?_
  exact Does.bind (hI.copyContext _ _ _) fun _ => upholds_pure _

theorem encodeIndex (hI : Upheld κ b I C p) (entry : IndexEntry) :
    Upholds κ b I C (encodeIndex h p entry : Work δ Unit) := by
  refine Does.bind (upholds_codedValue _ _) fun _ => ?_
  exact Does.mapError (Does.mapError (hI.index _))

theorem writeDirectories (hI : Upheld κ b I C p) (entries : List Entry) (done : List Written) :
    Upholds κ b I C (writeDirectories h p entries done : Work δ (List Written)) := by
  induction entries generalizing done with
  | nil => exact upholds_pure _
  | cons entry rest ih => exact Does.bind (hI.writeDirectory entry) fun _ => ih _

theorem writeFiles (hI : Upheld κ b I C p) (s : Sources) (entries : List Entry) (done : List Written) :
    Upholds κ b I C (writeFiles h s p entries done : Work δ (List Written)) := by
  induction entries generalizing done with
  | nil => exact upholds_pure _
  | cons entry rest ih =>
    refine Does.bind (hI.writeRegular _ entry) fun _ => ?_
    exact Does.bind (hI.encodeIndex _) fun _ => ih _

theorem writeDatabases (hI : Upheld κ b I C p) {s : Sources}
    (hdatabase : ∀ entry number, Upholds κ b I C
      (writeSQLite h p (s.online entry) entry (p.temporary number) : Work δ Written))
    (number : Nat) (entries : List Entry) (done : List Written) :
    Upholds κ b I C (writeDatabases h s p number entries done : Work δ (List Written)) := by
  induction entries generalizing number done with
  | nil => exact upholds_pure _
  | cons entry rest ih =>
    refine Does.bind (hdatabase entry number) fun _ => ?_
    exact Does.bind (hI.encodeIndex _) fun _ => ih _ _

/-- All that `writeContents` does once the index is there. -/
theorem fill (hI : Upheld κ b I C p) {s : Sources}
    (hdatabase : ∀ entry number, Upholds κ b I C
      (writeSQLite h p (s.online entry) entry (p.temporary number) : Work δ Written))
    (plan : Plan) (manifest : Except GoError (List Byte)) (done : List Written) :
    Upholds κ b I C (do
      let done ← Backup.writeFiles h s p plan.files done
      let done ← Backup.writeDatabases h s p 0 plan.sqlite done
      coded "BACKUP_CACHE_UNAVAILABLE" sync
      let index ← Backup.writeInternalFile h p s.indexBroken "_snapshot/file-index.jsonl" p.index
      let warnings ← codedValue "ARCHIVE_WRITE_FAILED" (h.warnings plan.warnings)
      let warnings ← Backup.writeBytes h p "_snapshot/warnings.json" warnings
      let internal ← codedValue "ARCHIVE_WRITE_FAILED" manifest
      let internal ← Backup.writeBytes h p "_snapshot/manifest.json" internal
      codedIo "ARCHIVE_WRITE_FAILED" (write p.archive (h.zip.ending (done ++ [index, warnings, internal])))
      coded "STORAGE_WRITE_FAILED" sync : Work δ Unit) := by
  refine Does.bind (hI.writeFiles _ _ _) fun _ => Does.bind (hI.writeDatabases hdatabase _ _ _) fun _ => ?_
  refine Does.bind (Does.mapError (Does.mapError (hI.look _))) fun _ => ?_
  refine Does.bind (hI.writeInternalFile _ _ _) fun _ => ?_
  refine Does.bind (upholds_codedValue _ _) fun _ => Does.bind (hI.writeBytes _ _) fun _ => ?_
  refine Does.bind (upholds_codedValue _ _) fun _ => Does.bind (hI.writeBytes _ _) fun _ => ?_
  refine Does.bind (Does.mapError (Does.mapError (hI.archive _))) fun _ => ?_
  exact Does.mapError (Does.mapError (hI.look _))

end Upheld

end

end AppBackup.Backup
