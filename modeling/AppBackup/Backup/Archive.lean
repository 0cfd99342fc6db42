import AppBackup.Backup.Errors
import AppBackup.Probe.Plan
import AppBackup.Storage.Archive
import AppBackup.Storage.Export

/- `writeArchive` and `writeWithRetry` (`backup/service.go`): the planned directories, files
   and databases go into the archive in their order, then the file index, the warnings and
   the manifest. What a copy finds in the source, the zip library and the JSON of the index
   and the manifests are parameters. The closes that only a failure runs are left out: they
   write to an archive that is thrown away. -/
namespace AppBackup.Backup
open Program Disk Path Text Probe Storage

variable {δ : Type}

/-- A program of the backup service. -/
abbrev Work (δ α : Type) : Type := Prog (Machine δ) GoError α

/-! ## Errors -/

/-- The text of an error of the file system. -/
def ioText : IoError → String
  | .notExist => "no such file or directory"
  | .exist => "file exists"
  | .notDirectory => "not a directory"
  | .isDirectory => "is a directory"
  | .fault => "input/output error"

def storageError : StorageError → GoError
  | .io e => .plain (ioText e)
  | .refused message => .plain message

/-- `&Error{Code: code, Err: err}`. -/
def coded {α : Type} (code : String) (c : Action δ α) : Work δ α :=
    c.mapError fun e => .backup code (storageError e)

def codedIo {α : Type} (code : String) (c : Prog (Machine δ) IoError α) : Work δ α := coded code (io c)

/-- A value that is computed, or its error under a code. -/
def codedValue {α : Type} (code : String) : Except GoError α → Work δ α
  | .ok a => pure a
  | .error e => Prog.fail (.backup code e)

/-! ## The zip library -/

/-- An entry as it was written. -/
structure Written where
  name : String
  directory : Bool
  bytes : List Byte

/-- The entry a reader finds for it. -/
def Written.entry (w : Written) : ZipEntry := ⟨w.name, false, w.directory, some (w.bytes, true)⟩

/-- The bytes a writer puts out for the header of an entry, for its content and at the end,
and what a reader makes of an archive. A reader finds what was written, in its order. -/
structure ZipFormat where
  header : String → Bool → List Byte
  body : List Byte → List Byte
  ending : List Written → List Byte
  read : List Byte → Option (List ZipEntry)
  read_written : ∀ entries : List Written,
    read ((entries.flatMap fun w => header w.name w.directory ++ body w.bytes) ++ ending entries) =
      some (entries.map Written.entry)

def ZipFormat.record (zip : ZipFormat) (w : Written) : List Byte :=
  zip.header w.name w.directory ++ zip.body w.bytes

def ZipFormat.names (zip : ZipFormat) (bytes : List Byte) : Option (List String) :=
  (zip.read bytes).map (·.map (·.name))

/-! ## Names -/

def safeInternalZipName (value : String) : Bool :=
  value != "" && !hasPrefix value "/" && clean value == value && value != ".." && !hasPrefix value "../"

def zipName (relative : String) (directory : Bool) : Except GoError String :=
  if safeInternalZipName relative then
    .ok (if directory then "appvar/" ++ relative ++ "/" else "appvar/" ++ relative)
  else .error (.backup "ARCHIVE_PATH_UNSAFE" (.plain "unsafe source-relative archive path"))

/-! ## Copies -/

/-- `os.FileInfo`, as far as a copy looks at it; `file` is what `os.SameFile` compares. -/
structure FileInfo where
  regular : Bool
  size : Nat
  modified : Time
  file : Nat

/-- What stops a copy before its end. -/
inductive Break where
  | context (e : GoError)
  | read (e : GoError)

/-- What is seen of a source file while it is copied. -/
structure Reading where
  opened : Except GoError Unit
  before : Except GoError FileInfo
  bytes : List Byte
  broken : Option Break
  after : Except GoError FileInfo

def createHeader (zip : ZipFormat) (archive : List String) (name : String) (directory : Bool) :
    Work δ Unit :=
  codedIo "ARCHIVE_WRITE_FAILED" (write archive (zip.header name directory))

/-- `copyContext`, into the entry that is open. -/
def copyContext (zip : ZipFormat) (archive : List String) (bytes : List Byte) (broken : Option Break) :
    Work δ Unit := do
  codedIo "ARCHIVE_WRITE_FAILED" (write archive (zip.body bytes))
  match broken with
  | none => pure ()
  | some (.context e) => Prog.fail e
  | some (.read e) => Prog.fail (.backup "SOURCE_READ_FAILED" e)

def sourceChanged (message : String) : GoError := .backup "SOURCE_FILE_CHANGED" (.plain message)

/-- The check of `copyStable` when the copy is done. -/
def unchanged (before after : FileInfo) : Bool :=
  after.regular && before.file == after.file && before.size == after.size && before.modified == after.modified

def copyStable (zip : ZipFormat) (archive : List String) (r : Reading) : Work δ Unit :=
  match r.opened with
  | .error e => Prog.fail (.backup "SOURCE_FILE_CHANGED" e)
  | .ok _ =>
    match r.before with
    | .error _ => Prog.fail (sourceChanged "source is no longer a regular file")
    | .ok before =>
      if before.regular then do
        copyContext zip archive r.bytes r.broken
        match r.after with
        | .error _ => Prog.fail (sourceChanged "source changed during read")
        | .ok after =>
          if unchanged before after then pure ()
          else Prog.fail (sourceChanged "source changed during read")
      else Prog.fail (sourceChanged "source is no longer a regular file")

/-! ## Copies of databases -/

/-- One `onlineBackupOnce`: what it leaves in the copy, its error, whether that is one of a
busy source, and the context's error in the wait after it. -/
structure OnlineAttempt where
  written : List Byte
  error : Option GoError
  busy : Bool
  cancelled : Option GoError

/-- The attempts made before the deadline, the check of the copy, and what stops the copying
of it into the archive. -/
structure Online where
  attempts : List OnlineAttempt
  check : Option GoError
  broken : Option Break

inductive OnlineError where
  | locked
  | failed (e : GoError)

/-- `os.Remove` of a file that may not be there. -/
def removeIfThere (p : List String) : Action δ Unit := do
  match ← (remove p).attempt with
  | .ok _ => pure ()
  | .error .notExist => pure ()
  | .error e => Prog.fail (.io e)

def onlineError {α : Type} (c : Action δ α) : Prog (Machine δ) OnlineError α :=
  c.mapError fun e => .failed (storageError e)

/-- `onlineBackup`. After the last attempt the deadline is over. -/
def onlineBackup (temporary : List String) (check : Option GoError) :
    List OnlineAttempt → Prog (Machine δ) OnlineError Unit
  | [] => Prog.fail .locked
  | attempt :: rest => do
    onlineError (removeIfThere temporary)
    onlineError (io (createExclusive temporary))
    onlineError (io (write temporary attempt.written))
    match attempt.error with
    | none =>
      match check with
      | none => pure ()
      | some e => Prog.fail (.failed e)
    | some e =>
      if attempt.busy then
        match attempt.cancelled with
        | some e => Prog.fail (.failed e)
        | none => onlineBackup temporary check rest
      else Prog.fail (.failed e)

/-- `sqliteSnapshotCode`. -/
def sqliteSnapshotError : OnlineError → GoError
  | .locked => .backup "SQLITE_SOURCE_LOCKED" (.plain "sqlite source remained busy until the snapshot deadline")
  | .failed e => .backup "SQLITE_SNAPSHOT_FAILED" e

/-! ## The entries -/

structure IndexEntry where
  path : String
  type : String
  size : Nat
  modified : Time

/-- What the writer takes from its surroundings. -/
structure Host where
  zip : ZipFormat
  encode : IndexEntry → Except GoError (List Byte)
  warnings : List String → Except GoError (List Byte)

/-- What one run of the writer finds in the source. -/
structure Sources where
  modified : Entry → Time
  reading : Entry → Reading
  online : Entry → Online
  indexBroken : Option Break

/-- Where the writer works: its archive and its cache directory. -/
structure Places where
  archive : List String
  cache : List String

def Places.index (p : Places) : List String := p.cache ++ ["file-index.jsonl"]

/-- The copy of the database of a number. -/
def Places.temporary (p : Places) (number : Nat) : List String :=
  p.cache ++ ["sqlite", toString number ++ ".sqlite"]

def writeDirectory (h : Host) (p : Places) (entry : Entry) : Work δ Written :=
  match zipName entry.relative true with
  | .error e => Prog.fail e
  | .ok name => do
    createHeader h.zip p.archive name true
    codedIo "ARCHIVE_WRITE_FAILED" (write p.archive (h.zip.body []))
    pure ⟨name, true, []⟩

def writeRegular (h : Host) (p : Places) (r : Reading) (entry : Entry) : Work δ Written :=
  match zipName entry.relative false with
  | .error e => Prog.fail e
  | .ok name => do
    createHeader h.zip p.archive name false
    copyStable h.zip p.archive r
    pure ⟨name, false, r.bytes⟩

def writeSQLite (h : Host) (p : Places) (o : Online) (entry : Entry) (temporary : List String) :
    Work δ Written := do
  codedIo "SQLITE_SNAPSHOT_FAILED" (mkdirAll temporary.dropLast)
  Prog.deferred (cleaningUp (remove temporary)) (do
    (onlineBackup temporary o.check o.attempts).mapError sqliteSnapshotError
    match zipName entry.relative false with
    | .error e => Prog.fail e
    | .ok name => do
      let _ ← codedIo "SQLITE_SNAPSHOT_FAILED" (lstat temporary)
      createHeader h.zip p.archive name false
      -- nobody else writes to the copy, so it does not change while it is read
      let bytes ← codedIo "SOURCE_FILE_CHANGED" (readFile temporary)
      copyContext h.zip p.archive bytes o.broken
      pure ⟨name, false, bytes⟩)

def writeBytes (h : Host) (p : Places) (name : String) (value : List Byte) : Work δ Written :=
  if safeInternalZipName name then do
    createHeader h.zip p.archive name false
    codedIo "ARCHIVE_WRITE_FAILED" (write p.archive (h.zip.body value))
    pure ⟨name, false, value⟩
  else Prog.fail (.backup "ARCHIVE_PATH_UNSAFE" (.plain "unsafe internal archive path"))

def writeInternalFile (h : Host) (p : Places) (broken : Option Break) (name : String)
    (filename : List String) : Work δ Written :=
  if safeInternalZipName name then do
    let _ ← codedIo "BACKUP_CACHE_UNAVAILABLE" (lstat filename)
    createHeader h.zip p.archive name false
    let bytes ← codedIo "BACKUP_CACHE_UNAVAILABLE" (readFile filename)
    copyContext h.zip p.archive bytes broken
    pure ⟨name, false, bytes⟩
  else Prog.fail (.backup "ARCHIVE_PATH_UNSAFE" (.plain "unsafe internal archive path"))

/-- `encoder.Encode`. -/
def encodeIndex (h : Host) (p : Places) (entry : IndexEntry) : Work δ Unit := do
  let line ← codedValue "ARCHIVE_WRITE_FAILED" (h.encode entry)
  codedIo "ARCHIVE_WRITE_FAILED" (write p.index line)

/-! ## The archive -/

def writeDirectories (h : Host) (p : Places) : List Entry → List Written → Work δ (List Written)
  | [], done => pure done
  | entry :: rest, done => do
    let written ← writeDirectory h p entry
    writeDirectories h p rest (done ++ [written])

def writeFiles (h : Host) (s : Sources) (p : Places) : List Entry → List Written → Work δ (List Written)
  | [], done => pure done
  | entry :: rest, done => do
    let written ← writeRegular h p (s.reading entry) entry
    encodeIndex h p ⟨entry.relative, "file", entry.size, s.modified entry⟩
    writeFiles h s p rest (done ++ [written])

def writeDatabases (h : Host) (s : Sources) (p : Places) :
    Nat → List Entry → List Written → Work δ (List Written)
  | _, [], done => pure done
  | number, entry :: rest, done => do
    let written ← writeSQLite h p (s.online entry) entry (p.temporary number)
    encodeIndex h p ⟨entry.relative, "sqlite", entry.size, s.modified entry⟩
    writeDatabases h s p (number + 1) rest (done ++ [written])

/-- What `writeArchive` writes under the deferred removal of the index. -/
def writeContents (h : Host) (s : Sources) (p : Places) (plan : Plan) (manifest : Except GoError (List Byte))
    (done : List Written) : Work δ Unit := do
  codedIo "BACKUP_CACHE_UNAVAILABLE" (createExclusive p.index)
  let done ← writeFiles h s p plan.files done
  let done ← writeDatabases h s p 0 plan.sqlite done
  coded "BACKUP_CACHE_UNAVAILABLE" sync
  let index ← writeInternalFile h p s.indexBroken "_snapshot/file-index.jsonl" p.index
  let warnings ← codedValue "ARCHIVE_WRITE_FAILED" (h.warnings plan.warnings)
  let warnings ← writeBytes h p "_snapshot/warnings.json" warnings
  let internal ← codedValue "ARCHIVE_WRITE_FAILED" manifest
  let internal ← writeBytes h p "_snapshot/manifest.json" internal
  codedIo "ARCHIVE_WRITE_FAILED" (write p.archive (h.zip.ending (done ++ [index, warnings, internal])))
  coded "STORAGE_WRITE_FAILED" sync

def writeArchive (h : Host) (s : Sources) (base : List String) (part : Partial) (cache : List String)
    (plan : Plan) (manifest : Except GoError (List Byte)) : Work δ Unit := do
  let p : Places := ⟨part.archive, cache⟩
  coded "STORAGE_WRITE_FAILED" (createArchive base part)
  let done ← writeDirectories h p plan.directories []
  Prog.deferred (cleaningUp (remove p.index)) (writeContents h s p plan manifest done)

/-- Twice at most: a source that changes is read again. -/
def writeWithRetry (h : Host) (first second : Sources) (base : List String) (part : Partial)
    (cache : List String) (plan : Plan) (manifest : Except GoError (List Byte)) : Work δ Unit := do
  match ← (writeArchive h first base part cache plan manifest).attempt with
  | .ok _ => pure ()
  | .error e =>
    if e.code ≠ "SOURCE_FILE_CHANGED" then Prog.fail e
    else do
      coded "STORAGE_WRITE_FAILED" (discardArchive base part)
      writeArchive h second base part cache plan manifest

end AppBackup.Backup
