import AppBackup.Storage.Confine

/- The way of an archive through the storage (`storage/storage.go`): it is written in a
   partial directory of its job, moved to the directory of its deployment and its time, and
   its manifest is written beside it last. -/
namespace AppBackup.Storage
open Program Disk Path Text

variable {δ : Type}

structure Partial where
  directory : String
  archive : List String

structure Location where
  directory : String
  archive : List String

/-- `file.Sync`, `file.Close` and `syncDirectory`. -/
def sync : Action δ Unit := io (look fun _ => .ok ())

def createPartial (base : List String) (jobID : String) : Action δ Partial :=
  if safeSegment jobID then do
    let directory := pathJoin ["_partial", jobID]
    makeDirectories base directory
    let archive ← resolve base (pathJoin [directory, "snapshot.zip"])
    pure ⟨directory, archive⟩
  else Prog.fail (.refused "unsafe storage path segment")

def createArchive (base : List String) (p : Partial) : Action δ Unit := do
  ensureWithin base p.archive
  io (createExclusive p.archive)

def discardArchive (base : List String) (p : Partial) : Action δ Unit := do
  ensureWithin base p.archive
  match ← (remove p.archive).attempt with
  | .ok _ => pure ()
  | .error .notExist => pure ()
  | .error e => Prog.fail (.io e)

/-- The look of `CommitArchive` at the directory of the time: with any error it counts as
not there. -/
def directoryTaken (base : List String) (directory : String) : Action δ Bool := do
  match ← (resolve base directory >>= fun p => io (lstat p)).attempt with
  | .ok _ => pure true
  | .error _ => pure false

/-- The rest of `CommitArchive`, with the directory it has chosen. -/
def moveArchive (base : List String) (p : Partial) (directory : String) : Action δ Location := do
  makeDirectories base directory
  let archive ← resolve base (pathJoin [directory, "snapshot.zip"])
  io (rename p.archive archive)
  pure ⟨directory, archive⟩

def commitArchive (base : List String) (p : Partial) (timestamp deployID suffix : String) :
    Action δ Location :=
  if safeSegment timestamp && safeSegment deployID && safeSegment suffix then do
    ensureWithin base p.archive
    let directory := pathJoin [deployID, timestamp]
    let _ ← resolve base directory
    if ← directoryTaken base directory then
      moveArchive base p (pathJoin [deployID, timestamp ++ "-" ++ suffix])
    else moveArchive base p directory
  else Prog.fail (.refused "unsafe storage path segment")

def writeManifest (base : List String) (location : Location) (data : List Byte) : Action δ Unit := do
  let directory ← resolve base location.directory
  ensureWithin base location.archive
  let temporary := directory ++ [".manifest.json.tmp"]
  ensureWithin base temporary
  io (createExclusive temporary)
  Prog.onFailure (cleaningUp (remove temporary)) (do
    io (write temporary data)
    sync)
  io (rename temporary (directory ++ ["manifest.json"]))
  sync

/-- `Digest`: the size and the SHA-256 of a file. -/
def digest (sha256 : List Byte → String) (base pathname : List String) : Action δ (Int × String) := do
  ensureWithin base pathname
  let bytes ← io (readFile pathname)
  pure (bytes.length, sha256 bytes)

def syncArchive (base pathname : List String) : Action δ Unit := do
  ensureWithin base pathname
  let _ ← io (readFile pathname)
  sync

/-- The check of `QuickVerify` on the names of the entries. -/
def checkNames (names : List String) : Action δ Unit :=
  if names.any fun name => !safeZipPath name then Prog.fail (.refused "unsafe archive entry")
  else if names.contains "_snapshot/manifest.json" then pure ()
  else Prog.fail (.refused "internal manifest is missing")

/-- `QuickVerify`; `openZip` gives the names of the entries. -/
def quickVerify (openZip : List Byte → Option (List String)) (sha256 : List Byte → String)
    (base : List String) (location : Location) (expectedSize : Int) (expectedSHA256 : String) :
    Action δ Unit := do
  let archive ← resolve base (pathJoin [location.directory, "snapshot.zip"])
  let manifest ← resolve base (pathJoin [location.directory, "manifest.json"])
  let _ ← io (lstat manifest)
  let (actualSize, actualSHA256) ← digest sha256 base archive
  if actualSize ≠ expectedSize ∨ actualSHA256 ≠ expectedSHA256 then
    Prog.fail (.refused "archive digest mismatch")
  else do
    let bytes ← io (readFile archive)
    match openZip bytes with
    | none => Prog.fail (.refused "zip: not a valid zip file")
    | some names => checkNames names

/-! ## Where they work -/

def partialPath (base : List String) (jobID : String) : List String := base ++ ["_partial", jobID]

def finalPath (base : List String) (deployID name : String) : List String := base ++ [deployID, name]

theorem join_concat {names : List String} (hne : names ≠ []) (name : String) :
    join (names ++ [name]) = join names ++ "/" ++ name := by
  rw [join_append hne (List.cons_ne_nil name []), join_singleton]

theorem pathJoin_concat {names : List String} {name : String} (hne : names ≠ [])
    (h : ∀ n ∈ names, Proper n) (hname : Proper name) :
    pathJoin [join names, name] = join (names ++ [name]) := by
  have hall : ∀ n ∈ names ++ [name], Proper n := by
    intro n hn
    obtain hn | hn := List.mem_append.mp hn
    · exact h n hn
    · rw [List.mem_singleton.mp hn]
      exact hname
  have hjoin : join names ≠ "" := by
    intro he
    have hsafe := safeRelative_join hne h
    rw [he] at hsafe
    exact absurd hsafe (by decide +kernel)
  have hfilter : [join names, name].filter (fun n => decide (n ≠ "")) = [join names, name] := by
    rw [List.filter_eq_self]
    intro n hn
    obtain rfl | hn := List.mem_cons.mp hn
    · exact decide_eq_true hjoin
    · rw [List.mem_singleton.mp hn]
      exact decide_eq_true hname.1
  unfold pathJoin
  simp only [hfilter, if_neg (List.cons_ne_nil _ _)]
  rw [join_cons_cons, join_singleton, ← join_concat hne]
  exact clean_join (List.append_ne_nil_of_right_ne_nil _ (List.cons_ne_nil _ _)) hall

theorem proper_snapshot : Proper "snapshot.zip" := by decide +kernel

end AppBackup.Storage
