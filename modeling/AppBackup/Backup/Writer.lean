import AppBackup.Backup.Archive
import AppBackup.Lib.Calm
import AppBackup.Storage.Commit

/- What a run of the writer comes down to. `records` are the entries of the archive of a plan
   and `Complete` says of the sources and the plan that there is nothing to stop the writer.
   Each of its functions is done only where its part of `Complete` holds, with its part of
   the archive written, and a quiet process is done wherever it holds.

   The functions come in the order of the source: headers and bodies, one file, one database
   with its copy, the lists of these, and what the writer adds of its own. `writeArchive_done`
   is the result that the other modules use. -/
namespace AppBackup.Backup
open Program Disk Path Text Probe Storage

variable {δ : Type}

/-! ## The archive of a plan -/

/-- The name of an entry without the slash of a directory. -/
def dataName (entry : Entry) : String := "appvar/" ++ entry.relative

/-- The copy that the first attempt without an error leaves. -/
def onlineCopy : List OnlineAttempt → List Byte
  | [] => []
  | attempt :: rest =>
    match attempt.error with
    | none => attempt.written
    | some _ => onlineCopy rest

def indexedFile (s : Sources) (entry : Entry) : IndexEntry := ⟨entry.relative, "file", entry.size, s.modified entry⟩

def indexedDatabase (s : Sources) (entry : Entry) : IndexEntry :=
  ⟨entry.relative, "sqlite", entry.size, s.modified entry⟩

/-- The bytes of a value that is there. -/
def bytesOf (value : Except GoError (List Byte)) : List Byte := value.toOption.getD []

def indexOf (h : Host) (entries : List IndexEntry) : List Byte := entries.flatMap fun e => bytesOf (h.encode e)

/-- The whole index. -/
def fileIndex (h : Host) (s : Sources) (plan : Plan) : List Byte :=
  indexOf h (plan.files.map (indexedFile s)) ++ indexOf h (plan.sqlite.map (indexedDatabase s))

def directoryRecord (entry : Entry) : Written := ⟨dataName entry ++ "/", true, []⟩

def fileRecord (s : Sources) (entry : Entry) : Written := ⟨dataName entry, false, (s.reading entry).bytes⟩

def databaseRecord (s : Sources) (entry : Entry) : Written :=
  ⟨dataName entry, false, onlineCopy (s.online entry).attempts⟩

/-- The entries of the data. -/
def dataRecords (s : Sources) (plan : Plan) : List Written :=
  plan.directories.map directoryRecord ++ plan.files.map (fileRecord s) ++ plan.sqlite.map (databaseRecord s)

/-- The entries the writer adds itself. -/
def ownRecords (h : Host) (lines : List Byte) (plan : Plan) (manifest : Except GoError (List Byte)) : List Written :=
  [⟨"_snapshot/file-index.jsonl", false, lines⟩,
   ⟨"_snapshot/warnings.json", false, bytesOf (h.warnings plan.warnings)⟩,
   ⟨"_snapshot/manifest.json", false, bytesOf manifest⟩]

/-- The entries of the archive. -/
def records (h : Host) (s : Sources) (plan : Plan) (manifest : Except GoError (List Byte)) : List Written :=
  dataRecords s plan ++ ownRecords h (fileIndex h s plan) plan manifest

/-- The bytes of an archive with these entries. -/
def archiveOf (zip : ZipFormat) (entries : List Written) : List Byte := entries.flatMap zip.record ++ zip.ending entries

/-! ## What can stop the writer -/

/-- A regular file that is read to its end and is the same then. -/
def Stable (r : Reading) : Prop :=
  r.opened = .ok () ∧ ∃ before after, r.before = .ok before ∧ before.regular = true ∧ r.broken = none ∧
    r.after = .ok after ∧ unchanged before after = true

/-- An attempt comes before the deadline at which the source is not busy, and its copy is sound. -/
def Copied (check : Option GoError) : List OnlineAttempt → Prop
  | [] => False
  | attempt :: rest =>
    match attempt.error with
    | none => check = none
    | some _ => attempt.busy = true ∧ attempt.cancelled = none ∧ Copied check rest

/-- There is a value. -/
def There (value : Except GoError (List Byte)) : Prop := value = .ok (bytesOf value)

/-- The name is safe, and there is a line for the index. -/
def Indexed (h : Host) (e : IndexEntry) : Prop := safeInternalZipName e.path = true ∧ There (h.encode e)

structure Complete (h : Host) (s : Sources) (plan : Plan) (manifest : Except GoError (List Byte)) : Prop where
  directories : ∀ e ∈ plan.directories, safeInternalZipName e.relative = true
  files : ∀ e ∈ plan.files, Stable (s.reading e) ∧ Indexed h (indexedFile s e)
  databases : ∀ e ∈ plan.sqlite, (Copied (s.online e).check (s.online e).attempts ∧
    (s.online e).broken = none) ∧
    Indexed h (indexedDatabase s e)
  index : s.indexBroken = none
  warnings : There (h.warnings plan.warnings)
  manifest : There manifest

/-! ## Entries -/

section
variable {κ : Fates} {b : Bool} {H : Prop} {zip : ZipFormat} {archive : List String} {K : Tree → Prop}
    {bytes : List Byte}

/-- What the archive holds so far, and what is said of all else. -/
def Holding (archive : List String) (bytes : List Byte) (K : Tree → Prop) (t : Tree) (_ : δ) : Prop :=
  t.obj archive = some (.file bytes) ∧ K t

theorem createHeader_done (hH : H → Quiet κ) (hK : Unseen archive K) (name : String) (directory : Bool) :
    DoneIff κ b H True (Holding archive bytes K) (createHeader zip archive name directory : Work δ Unit)
      (fun _ => Holding archive (bytes ++ zip.header name directory) K) :=
  DoneIff.mapError (DoneIff.mapError (doneIff_write hH hK _))

theorem writeBody_done (hH : H → Quiet κ) (hK : Unseen archive K) (new : List Byte) :
    DoneIff κ b H True (Holding archive bytes K) (codedIo "ARCHIVE_WRITE_FAILED" (write archive new) : Work δ Unit)
      (fun _ => Holding archive (bytes ++ new) K) :=
  DoneIff.mapError (DoneIff.mapError (doneIff_write hH hK _))

theorem copyContext_done (hH : H → Quiet κ) (hK : Unseen archive K) (content : List Byte) (broken : Option Break) :
    DoneIff κ b H (broken = none) (Holding archive bytes K) (copyContext zip archive content broken : Work δ Unit)
      (fun _ => Holding archive (bytes ++ zip.body content) K) := by
  unfold copyContext
  refine DoneIff.weaken (φ := True ∧ broken = none) ?_ (fun _ _ ht => ht) (iff_of_eq (true_and _)) fun _ _ _ ht => ht
  refine (writeBody_done hH hK _).bind fun _ => ?_
  split
  · exact (DoneIff.pure fun _ _ ht => ht).weaken (fun _ _ ht => ht) (by simp) fun _ _ _ ht => ht
  · exact DoneIff.fail.weaken (fun _ _ ht => ht) (by simp) fun _ _ _ ht => ht
  · exact DoneIff.fail.weaken (fun _ _ ht => ht) (by simp) fun _ _ _ ht => ht

theorem copyStable_done (hH : H → Quiet κ) (hK : Unseen archive K) (r : Reading) :
    DoneIff κ b H (Stable r) (Holding archive bytes K) (copyStable zip archive r : Work δ Unit)
      (fun _ => Holding archive (bytes ++ zip.body r.bytes) K) := by
  unfold copyStable Stable
  split
  · next e he => exact DoneIff.fail.weaken (fun _ _ ht => ht) (by simp [he]) fun _ _ _ ht => ht
  · next u hopened =>
    split
    · next e he => exact DoneIff.fail.weaken (fun _ _ ht => ht) (by simp [he]) fun _ _ _ ht => ht
    · next before hbefore =>
      by_cases hregular : before.regular = true
      · rw [if_pos hregular]
        refine DoneIff.weaken (φ := r.broken = none ∧ ∃ after, r.after = .ok after ∧
          unchanged before after = true) ?_
          (fun _ _ ht => ht) (by rw [hopened, hbefore]; simp [hregular]) fun _ _ _ ht => ht
        refine (copyContext_done hH hK _ _).bind fun _ => ?_
        split
        · next e he => exact DoneIff.fail.weaken (fun _ _ ht => ht) (by simp [he]) fun _ _ _ ht => ht
        · next after hafter =>
          by_cases hsame : unchanged before after = true
          · rw [if_pos hsame]
            refine (DoneIff.pure fun _ _ ht => ht).weaken (fun _ _ ht => ht) ?_ fun _ _ _ ht => ht
            exact iff_of_true trivial ⟨after, hafter, hsame⟩
          · rw [if_neg hsame]
            refine DoneIff.fail.weaken (fun _ _ ht => ht) ?_ fun _ _ _ ht => ht
            simp [hafter, hsame]
      · rw [if_neg hregular]
        refine DoneIff.fail.weaken (fun _ _ ht => ht) ?_ fun _ _ _ ht => ht
        simp [hbefore, hregular]

theorem zipName_error {relative : String} {directory : Bool} {e : GoError} (h : zipName relative directory = .error e) :
    safeInternalZipName relative = false := by
  unfold zipName at h
  split at h
  · cases h
  · next hsafe => exact eq_false_of_ne_true hsafe

theorem zipName_ok {relative name : String} {directory : Bool} (h : zipName relative directory = .ok name) :
    safeInternalZipName relative = true ∧
      name = if directory then "appvar/" ++ relative ++ "/" else "appvar/" ++ relative := by
  unfold zipName at h
  split at h
  · next hsafe => exact ⟨hsafe, (Except.ok.inj h).symm⟩
  · cases h

theorem writeDirectory_done (hH : H → Quiet κ) (hK : Unseen archive K) {h : Host} {p : Places}
    (hp : p.archive = archive) (entry : Entry) :
    DoneIff κ b H (safeInternalZipName entry.relative = true) (Holding archive bytes K)
      (writeDirectory h p entry : Work δ Written) (fun w t d => w = directoryRecord entry ∧
        Holding archive (bytes ++ h.zip.record w) K t d) := by
  subst hp
  unfold writeDirectory
  split
  · next e he =>
    refine DoneIff.fail.weaken (fun _ _ ht => ht) ?_ fun _ _ _ ht => ht
    simp [zipName_error he]
  · next name hname =>
    obtain ⟨hsafe, rfl⟩ := zipName_ok hname
    refine ((createHeader_done hH hK _ _).bind fun _ => (writeBody_done hH hK _).bind fun _ =>
      DoneIff.pure (Q := fun w t d => w = directoryRecord entry ∧
        Holding p.archive (bytes ++ h.zip.record w) K t d) fun t d ht => ⟨rfl, ?_⟩).weaken
          (fun _ _ ht => ht) (by simp [hsafe]) fun _ _ _ ht => ht
    rw [List.append_assoc] at ht
    exact ht

theorem writeRegular_done (hH : H → Quiet κ) (hK : Unseen archive K) {h : Host} {p : Places}
    (hp : p.archive = archive) (s : Sources)
    (entry : Entry) : DoneIff κ b H (Stable (s.reading entry) ∧ safeInternalZipName entry.relative = true)
      (Holding archive bytes K) (writeRegular h p (s.reading entry) entry : Work δ Written)
      (fun w t d => w = fileRecord s entry ∧ Holding archive (bytes ++ h.zip.record w) K t d) := by
  subst hp
  unfold writeRegular
  split
  · next e he =>
    refine DoneIff.fail.weaken (fun _ _ ht => ht) ?_ fun _ _ _ ht => ht
    simp [zipName_error he]
  · next name hname =>
    obtain ⟨hsafe, rfl⟩ := zipName_ok hname
    refine ((createHeader_done hH hK _ _).bind fun _ => (copyStable_done hH hK _).bind fun _ =>
      DoneIff.pure (Q := fun w t d => w = fileRecord s entry ∧
        Holding p.archive (bytes ++ h.zip.record w) K t d) fun t d ht => ⟨rfl, ?_⟩).weaken
          (fun _ _ ht => ht) (by simp [hsafe]) fun _ _ _ ht => ht
    rw [List.append_assoc] at ht
    exact ht

theorem writeBytes_done (hH : H → Quiet κ) (hK : Unseen archive K) {h : Host} {p : Places}
    (hp : p.archive = archive) {name : String}
    (hname : safeInternalZipName name = true) (value : List Byte) :
    DoneIff κ b H True (Holding archive bytes K) (writeBytes h p name value : Work δ Written)
      (fun w t d => w = ⟨name, false, value⟩ ∧ Holding archive (bytes ++ h.zip.record w) K t d) := by
  subst hp
  unfold writeBytes
  rw [if_pos hname]
  refine ((createHeader_done hH hK _ _).bind fun _ => (writeBody_done hH hK _).bind fun _ =>
    DoneIff.pure (Q := fun w t d => w = ⟨name, false, value⟩ ∧
      Holding p.archive (bytes ++ h.zip.record w) K t d) fun t d ht => ⟨rfl, ?_⟩).weaken
        (fun _ _ ht => ht) (by simp) fun _ _ _ ht => ht
  rw [List.append_assoc] at ht
  exact ht

theorem codedValue_done {P : Tree → δ → Prop} (code : String) (value : Except GoError (List Byte)) :
    DoneIff κ b H (There value) P (codedValue code value : Work δ (List Byte))
      (fun a t d => a = bytesOf value ∧ P t d) := by
  cases value with
  | ok a =>
    refine (DoneIff.pure (Q := fun x t d => x = a ∧ P t d) fun t d ht => ⟨rfl, ht⟩).weaken (fun _ _ ht => ht) ?_
      fun _ _ _ ht => ht
    exact iff_of_true trivial rfl
  | error e => exact DoneIff.fail.weaken (fun _ _ ht => ht) (by simp [There]) fun _ _ _ ht => ht

theorem writeDirectories_done (hH : H → Quiet κ) (hK : Unseen archive K) {h : Host} {p : Places}
    (hp : p.archive = archive)
    (entries : List Entry) (done : List Written) :
    DoneIff κ b H (∀ e ∈ entries, safeInternalZipName e.relative = true)
      (Holding archive (done.flatMap h.zip.record) K) (writeDirectories h p entries done : Work δ (List Written))
      (fun ws t d => ws = done ++ entries.map directoryRecord ∧ Holding archive (ws.flatMap h.zip.record) K t d) := by
  induction entries generalizing done with
  | nil =>
    refine (DoneIff.pure fun t d ht => ?_).weaken (fun _ _ ht => ht) (by simp) fun _ _ _ ht => ht
    exact ⟨by simp, ht⟩
  | cons entry rest ih =>
    have hrest : ∀ w, DoneIff κ b H (∀ e ∈ rest, safeInternalZipName e.relative = true)
        (fun t d => w = directoryRecord entry ∧ Holding archive (done.flatMap h.zip.record ++ h.zip.record w) K t d)
        (writeDirectories h p rest (done ++ [w]) : Work δ (List Written))
        (fun ws t d => ws = done ++ (entry :: rest).map directoryRecord ∧
          Holding archive (ws.flatMap h.zip.record) K t d) := by
      intro w
      refine DoneIff.start (fun _ _ ht => ht.1) fun hw => (ih (done ++ [w])).weaken ?_ Iff.rfl ?_
      · intro t d ht
        rw [List.flatMap_append, List.flatMap_singleton]
        exact ht.2
      · intro ws t d ht
        rw [hw, List.append_assoc] at ht
        exact ht
    refine ((writeDirectory_done hH hK hp entry).bind hrest).weaken (fun _ _ ht => ht) ?_ fun _ _ _ ht => ht
    simp

end

/-! ## The cache directory -/

/-- The directory of the copies of databases. -/
def Places.copies (p : Places) : List String := p.cache ++ ["sqlite"]

/-- The archive is nothing of the cache. -/
structure Places.Apart (p : Places) : Prop where
  index : p.archive ≠ p.index
  copies : p.archive ≠ p.copies
  temporary : ∀ n, p.archive ≠ p.temporary n

/-- The cache is there and, under `H`, nothing is in the way of the copies. -/
structure Room (H : Prop) (p : Places) (t : Tree) : Prop where
  cache : t.obj p.cache = some .directory
  copies : H → t.obj p.copies = none ∨ t.obj p.copies = some .directory
  temporary : H → ∀ n, t.obj (p.temporary n) ≠ some .directory

theorem Places.temporary_eq (p : Places) (n : Nat) : p.temporary n = p.copies ++ [toString n ++ ".sqlite"] := by
  show p.cache ++ (["sqlite"] ++ [toString n ++ ".sqlite"]) = _
  rw [← List.append_assoc]
  rfl

theorem Places.temporary_dropLast (p : Places) (n : Nat) : (p.temporary n).dropLast = p.copies := by
  rw [p.temporary_eq, List.dropLast_concat]

theorem Places.temporary_ne_copies (p : Places) (n : Nat) : p.temporary n ≠ p.copies := by
  rw [p.temporary_eq]
  simp

theorem Places.index_ne_copies (p : Places) : p.index ≠ p.copies := by
  intro h
  have hname := List.append_cancel_left h
  exact absurd (List.cons.inj hname).1 (by decide +kernel)

theorem Places.temporary_ne_index (p : Places) (n : Nat) : p.temporary n ≠ p.index := by
  intro h
  have hlength := congrArg List.length (List.append_cancel_left h)
  simp at hlength

theorem unseen_room {H : Prop} {p : Places} {q : List String} (hq : q ≠ p.copies) : Unseen q (Room H p) := by
  intro t t' ht hold hnew hsame
  refine ⟨unseen_directory t t' ht.cache hold hnew hsame, fun hh => ?_, fun hh n => ?_⟩
  · rw [hsame _ hq.symm]
    exact ht.copies hh
  · by_cases hn : p.temporary n = q
    · rw [hn]
      exact hnew
    · rw [hsame _ hn]
      exact ht.temporary hh n

/-- There is room, and no index yet. -/
def Vacant (p : Places) (t : Tree) : Prop := t.obj p.index = none ∧ Room True p t

/-- The archive and the index as far as they are written. -/
def Draft (H : Prop) (p : Places) (bytes lines : List Byte) : Tree → δ → Prop :=
  Holding p.archive bytes fun t => t.obj p.index = some (.file lines) ∧ Room H p t

section
variable {κ : Fates} {b : Bool} {H : Prop} {h : Host} {p : Places} {bytes lines : List Byte}

theorem unseen_archive (hp : p.Apart) : Unseen p.archive fun t => t.obj p.index = some (.file lines) ∧ Room H p t :=
  (unseen_obj hp.index.symm).and (unseen_room hp.copies)

theorem unseen_index (hp : p.Apart) : Unseen p.index fun t => t.obj p.archive = some (.file bytes) ∧ Room H p t :=
  (unseen_obj hp.index).and (unseen_room p.index_ne_copies)

theorem encodeIndex_done (hH : H → Quiet κ) (hp : p.Apart) (e : IndexEntry) :
    DoneIff κ b H (There (h.encode e)) (Draft H p bytes lines) (encodeIndex h p e : Work δ Unit)
      (fun _ => Draft H p bytes (lines ++ bytesOf (h.encode e))) := by
  have hwrite : ∀ line, DoneIff κ b H True (fun t d => line = bytesOf (h.encode e) ∧ Draft H p bytes lines t d)
      (codedIo "ARCHIVE_WRITE_FAILED" (write p.index line) : Work δ Unit)
      (fun _ => Draft H p bytes (lines ++ bytesOf (h.encode e))) := by
    intro line
    refine DoneIff.start (fun _ _ ht => ht.1) fun hline => ?_
    rw [← hline]
    have hK : Unseen p.index fun t => t.obj p.archive = some (.file bytes) ∧ Room H p t := unseen_index hp
    refine DoneIff.weaken (P := Holding p.index lines fun t => t.obj p.archive = some (.file bytes) ∧ Room H p t)
      (DoneIff.mapError (DoneIff.mapError (doneIff_write hH hK line))) ?_ Iff.rfl ?_
    · exact fun t d ht => ⟨ht.2.2.1, ht.2.1, ht.2.2.2⟩
    · exact fun _ t d ht => ⟨ht.2.1, ht.1, ht.2.2⟩
  refine ((codedValue_done _ _).bind hwrite).weaken (fun _ _ ht => ht) ?_ fun _ _ _ ht => ht
  exact iff_of_eq (and_true _)

theorem writeFiles_done (hH : H → Quiet κ) (hp : p.Apart) (s : Sources) (entries : List Entry)
    (done : List Written) (lines : List Byte) :
    DoneIff κ b H (∀ e ∈ entries, Stable (s.reading e) ∧ Indexed h (indexedFile s e))
      (Draft H p (done.flatMap h.zip.record) lines) (writeFiles h s p entries done : Work δ (List Written))
      (fun ws t d => ws = done ++ entries.map (fileRecord s) ∧
        Draft H p (ws.flatMap h.zip.record) (lines ++ indexOf h (entries.map (indexedFile s))) t d) := by
  induction entries generalizing done lines with
  | nil =>
    refine (DoneIff.pure fun t d ht => ?_).weaken (fun _ _ ht => ht) (by simp) fun _ _ _ ht => ht
    refine ⟨by simp, ?_⟩
    rw [List.map_nil, indexOf, List.flatMap_nil, List.append_nil]
    exact ht
  | cons entry rest ih =>
    have hrest : ∀ w, DoneIff κ b H (There (h.encode (indexedFile s entry)) ∧
          ∀ e ∈ rest, Stable (s.reading e) ∧ Indexed h (indexedFile s e))
        (fun t d => w = fileRecord s entry ∧ Draft H p (done.flatMap h.zip.record ++ h.zip.record w) lines t d)
        (do
          encodeIndex h p (indexedFile s entry)
          writeFiles h s p rest (done ++ [w]) : Work δ (List Written))
        (fun ws t d => ws = done ++ (entry :: rest).map (fileRecord s) ∧
          Draft H p (ws.flatMap h.zip.record) (lines ++ indexOf h ((entry :: rest).map (indexedFile s))) t d) := by
      intro w
      refine DoneIff.start (fun _ _ ht => ht.1) fun hw => ?_
      refine ((encodeIndex_done hH hp _).bind fun _ =>
        ih (done ++ [w]) (lines ++ bytesOf (h.encode (indexedFile s entry)))).weaken ?_ Iff.rfl ?_
      · intro t d ht
        rw [List.flatMap_append, List.flatMap_singleton]
        exact ht.2
      · intro ws t d ht
        rw [hw, List.append_assoc, List.append_assoc] at ht
        exact ht
    refine ((writeRegular_done hH (unseen_archive hp) rfl s entry).bind hrest).weaken (fun _ _ ht => ht) ?_
      fun _ _ _ ht => ht
    simp only [List.forall_mem_cons, Indexed]
    exact ⟨fun ⟨⟨hstable, hsafe⟩, hline, hall⟩ => ⟨⟨hstable, hsafe, hline⟩, hall⟩,
      fun ⟨⟨hstable, hsafe, hline⟩, hall⟩ => ⟨⟨hstable, hsafe⟩, hline, hall⟩⟩

/-! ## Copies of databases -/

variable {K : Tree → Prop} {temporary : List String}

theorem removeIfThere_done (hH : H → Quiet κ) (hK : Unseen temporary K)
    (hparent : ∀ t, K t → t.obj temporary.dropLast = some .directory) :
    DoneIff κ b H True (fun t (_ : δ) => (H → t.obj temporary ≠ some .directory) ∧ K t)
      (removeIfThere temporary)
      (fun _ t _ => t.obj temporary = none ∧ K t) := by
  refine Does.bind (R := fun r t _ => (∀ u, r = .ok u → t.obj temporary = none ∧ K t) ∧ ∀ e, r = .error e →
      (e = .notExist ∧ t.obj temporary = none ∧ K t) ∨ (e ≠ .notExist ∧ ¬H))
    (Does.attempt ((remove_does hH hK).weaken ?_ ?_ ?_ fun _ _ hc => hc)) fun r => ?_
  · exact fun t d ht => ⟨fun hh => ⟨ht.1 hh, hparent t ht.2⟩, ht.2⟩
  · exact fun _ t d ht => ⟨fun _ _ => ht, nofun⟩
  · intro e t d ht
    refine ⟨nofun, fun e' he' => ?_⟩
    cases he'
    exact ht
  · split
    · exact Does.pure fun t d ht => ⟨trivial, ht.1 _ rfl⟩
    · refine Does.pure fun t d ht => ⟨trivial, ?_⟩
      obtain ⟨-, ht⟩ | ⟨hne, -⟩ := ht.2 _ rfl
      · exact ht
      · exact absurd rfl hne
    · next e hne =>
      refine Does.fail fun t d ht hh => ?_
      obtain ⟨he, -⟩ | ⟨-, hnot⟩ := ht.2 e rfl
      · exact absurd he hne
      · exact absurd hh hnot

/-- What follows an attempt, with the rest of the attempts. -/
theorem attempted_done {c : Prog (Machine δ) OnlineError Unit} {rest : List OnlineAttempt} (check : Option GoError)
    (attempt : OnlineAttempt) :
    DoneIff κ b H (Copied check rest) (fun t (_ : δ) => (H → t.obj temporary ≠ some .directory) ∧ K t) c
      (fun _ t _ => t.obj temporary = some (.file (onlineCopy rest)) ∧ K t) →
    DoneIff κ b H (Copied check (attempt :: rest))
      (fun t (_ : δ) => t.obj temporary = some (.file ([] ++ attempt.written)) ∧ K t)
      (match attempt.error with
        | none =>
          match check with
          | none => pure ()
          | some e => Prog.fail (.failed e)
        | some e =>
          if attempt.busy then
            match attempt.cancelled with
            | some e => Prog.fail (.failed e)
            | none => c
          else Prog.fail (.failed e) : Prog (Machine δ) OnlineError Unit)
      (fun _ t _ => t.obj temporary = some (.file (onlineCopy (attempt :: rest))) ∧ K t) := by
  intro hc
  rw [Copied, onlineCopy]
  cases attempt.error with
  | none =>
    cases check with
    | none => exact (DoneIff.pure fun _ _ ht => ht).weaken (fun _ _ ht => ht) (by simp) fun _ _ _ ht => ht
    | some e => exact DoneIff.fail.weaken (fun _ _ ht => ht) (by simp) fun _ _ _ ht => ht
  | some e =>
    by_cases hbusy : attempt.busy = true
    · simp only [hbusy, if_true, true_and]
      cases attempt.cancelled with
      | none =>
        refine hc.weaken ?_ (by simp) fun _ _ _ ht => ht
        exact fun t d ht => ⟨fun _ => by rw [ht.1]; exact nofun, ht.2⟩
      | some e => exact DoneIff.fail.weaken (fun _ _ ht => ht) (by simp) fun _ _ _ ht => ht
    · refine DoneIff.weaken ?_ (fun _ _ ht => ht) (iff_of_false id fun h => hbusy h.1) fun _ _ _ ht => ht
      simp only [if_neg hbusy]
      exact DoneIff.fail

theorem onlineBackup_done (hH : H → Quiet κ) (hK : Unseen temporary K)
    (hparent : ∀ t, K t → t.obj temporary.dropLast = some .directory)
    (check : Option GoError) (attempts : List OnlineAttempt) :
    DoneIff κ b H (Copied check attempts) (fun t (_ : δ) => (H → t.obj temporary ≠ some .directory) ∧ K t)
      (onlineBackup temporary check attempts)
      (fun _ t _ => t.obj temporary = some (.file (onlineCopy attempts)) ∧ K t) := by
  induction attempts with
  | nil => exact DoneIff.fail
  | cons attempt rest ih =>
    refine DoneIff.weaken (φ := True ∧ True ∧ True ∧ Copied check (attempt :: rest)) ?_ (fun _ _ ht => ht)
      (by simp)
      fun _ _ _ ht => ht
    refine DoneIff.bind (DoneIff.mapError (removeIfThere_done hH hK hparent)) fun _ => ?_
    refine DoneIff.bind (Q := fun _ t _ => t.obj temporary = some (.file []) ∧ K t)
      ((DoneIff.mapError (DoneIff.mapError (doneIff_createExclusive hH hK))).weaken
        (fun t d ht => ⟨fun _ => ⟨ht.1, hparent t ht.2⟩, ht.2⟩) Iff.rfl fun _ t d ht => ⟨ht.1, ht.2.2⟩)
        fun _ => ?_
    refine DoneIff.bind (DoneIff.mapError (DoneIff.mapError (doneIff_write hH hK _))) fun _ => ?_
    exact attempted_done check attempt ih

theorem mkdirAll_copies (hH : H → Quiet κ) : DoneIff κ b H True (Draft H p bytes lines)
    (mkdirAll p.copies : Prog (Machine δ) IoError Unit)
    (fun _ t d => Draft H p bytes lines t d ∧ t.obj p.copies = some .directory) := by
  refine Does.quiet hH (mkdirAll_does.post ?_ ?_ fun _ _ hc => hc) fun hcalm => lives_mkdirAll hcalm _
  · intro _ t d ht
    obtain ⟨t', ht', hlaid, hpass⟩ := ht
    -- what is no directory is not on the way
    have hsame : ∀ q, t'.obj q ≠ none → t'.obj q ≠ some .directory → t.obj q = t'.obj q := by
      intro q hsome hno
      rw [hlaid]
      refine if_neg fun hq => ?_
      obtain hnone | hdir := hpass q hq
      · exact hsome hnone
      · exact hno hdir
    have hcopies : t.obj p.copies = some .directory := by
      rw [hlaid]
      exact if_pos (List.prefix_refl _)
    refine ⟨trivial, ⟨?_, ?_, ?_, fun _ => .inr hcopies, fun hh n => ?_⟩, hcopies⟩
    · rw [hsame _ (by rw [ht'.1]; exact nofun) (by rw [ht'.1]; exact nofun)]
      exact ht'.1
    · rw [hsame _ (by rw [ht'.2.1]; exact nofun) (by rw [ht'.2.1]; exact nofun)]
      exact ht'.2.1
    · rw [hlaid]
      exact if_pos (List.prefix_append ..)
    · have hlong : ¬p.temporary n <+: p.copies := by
        intro hq
        have hlength := hq.length_le
        rw [p.temporary_eq] at hlength
        simp at hlength
      rw [hlaid]
      simp only [if_neg hlong]
      exact ht'.2.2.temporary hh n
  · intro _ t d ht hh _
    obtain ⟨t', q, ⟨ht', hstuck⟩, -⟩ := ht
    refine hstuck (hH hh b) fun q hq => ?_
    obtain rfl | hq := List.prefix_concat_iff.mp hq
    · exact ht'.2.2.copies hh
    · exact .inr (Tree.prefix_of_directory ht'.2.2.cache hq)

/-- One database: its copy is made, goes into the archive and is removed. -/
theorem writeSQLite_done (hH : H → Quiet κ) (hp : p.Apart) (s : Sources) (entry : Entry) (number : Nat) :
    DoneIff κ b H ((Copied (s.online entry).check (s.online entry).attempts ∧ (s.online entry).broken = none) ∧
        safeInternalZipName entry.relative = true) (Draft H p bytes lines)
      (writeSQLite h p (s.online entry) entry (p.temporary number) : Work δ Written)
      (fun w t d => w = databaseRecord s entry ∧ Draft H p (bytes ++ h.zip.record w) lines t d) := by
  let K : Tree → Prop := fun t => t.obj p.index = some (.file lines) ∧ Room H p t ∧
    t.obj p.copies = some .directory
  let L : Tree → Prop := fun t => t.obj p.archive = some (.file bytes) ∧ K t
  have hKtemporary : Unseen (p.temporary number) K :=
    (unseen_obj (p.temporary_ne_index number).symm).and
      ((unseen_room (p.temporary_ne_copies number)).and unseen_directory)
  have hL : Unseen (p.temporary number) L := (unseen_obj (hp.temporary number)).and hKtemporary
  have hparent : ∀ t, L t → t.obj (p.temporary number).dropLast = some .directory := by
    intro t ht
    rw [p.temporary_dropLast]
    exact ht.2.2.2
  let copy := onlineCopy (s.online entry).attempts
  -- with the copy, which the archive does not see
  let M : Tree → Prop := fun t => t.obj (p.temporary number) = some (.file copy) ∧ K t
  have hM : Unseen p.archive M :=
    (unseen_obj (hp.temporary number).symm).and
      ((unseen_obj hp.index.symm).and ((unseen_room hp.copies).and unseen_directory))
  have harchived : ∀ name, name = dataName entry → DoneIff κ b H ((s.online entry).broken = none)
      (fun t (_ : δ) => t.obj (p.temporary number) = some (.file copy) ∧ L t)
      (do
        let _ ← codedIo "SQLITE_SNAPSHOT_FAILED" (lstat (p.temporary number))
        createHeader h.zip p.archive name false
        let bytes ← codedIo "SOURCE_FILE_CHANGED" (readFile (p.temporary number))
        copyContext h.zip p.archive bytes (s.online entry).broken
        pure ⟨name, false, bytes⟩ : Work δ Written)
      (fun w t d => w = databaseRecord s entry ∧ Holding p.archive (bytes ++ h.zip.record w) M t d) := by
    intro name hname
    subst hname
    refine DoneIff.weaken (φ := True ∧ True ∧ True ∧ (s.online entry).broken = none ∧ True) ?_
      (fun _ _ ht => ht) (by simp)
      fun _ _ _ ht => ht
    refine DoneIff.bind (DoneIff.mapError (DoneIff.mapError (doneIff_lstat hH))) fun _ => ?_
    refine DoneIff.bind (Q := fun _ t _ => t.obj (p.temporary number) = some (.file copy) ∧
        t.obj p.archive = some (.file (bytes ++ h.zip.header (dataName entry) false)) ∧ K t)
      ((createHeader_done hH hM (dataName entry) false).weaken (fun t d ht => ⟨ht.2.1, ht.1, ht.2.2⟩) Iff.rfl
        fun _ t d ht => ⟨ht.2.1, ht.1, ht.2.2⟩) fun _ => ?_
    refine DoneIff.bind (DoneIff.mapError (DoneIff.mapError (doneIff_readFile hH))) fun content => ?_
    refine DoneIff.start (fun _ _ ht => ht.1) fun hcontent => ?_
    subst hcontent
    refine DoneIff.bind (Q := fun _ =>
        Holding p.archive (bytes ++ h.zip.header (dataName entry) false ++ h.zip.body copy) M)
      ((copyContext_done hH hM copy (s.online entry).broken).weaken
        (fun t d ht => ⟨ht.2.2.1, ht.2.1, ht.2.2.2⟩) Iff.rfl
        fun _ _ _ ht => ht) fun _ => ?_
    refine DoneIff.pure (Q := fun w t d => w = databaseRecord s entry ∧
      Holding p.archive (bytes ++ h.zip.record w) M t d) fun t d ht => ⟨rfl, ?_⟩
    rw [List.append_assoc] at ht
    exact ht
  unfold writeSQLite
  rw [p.temporary_dropLast]
  refine DoneIff.weaken (φ := True ∧ Copied (s.online entry).check (s.online entry).attempts ∧
    (s.online entry).broken = none ∧ safeInternalZipName entry.relative = true) ?_ (fun _ _ ht => ht)
      (by simp [and_assoc]) fun _ _ _ ht => ht
  refine DoneIff.bind (DoneIff.mapError (DoneIff.mapError (mkdirAll_copies hH))) fun _ => ?_
  refine DoneIff.removing (Q := fun w t d => w = databaseRecord s entry ∧
    Holding p.archive (bytes ++ h.zip.record w) M t d)
    hH (DoneIff.bind (DoneIff.mapError ((onlineBackup_done hH hL hparent _ _).weaken ?_ Iff.rfl
      fun _ _ _ ht => ht)) fun _ => ?_) ?_
  · intro t d ht
    exact ⟨fun hh => ht.1.2.2.temporary hh number, ht.1.1, ht.1.2.1, ht.1.2.2, ht.2⟩
  · split
    · next e he => exact DoneIff.fail.weaken (fun _ _ ht => ht) (by simp [zipName_error he]) fun _ _ _ ht => ht
    · next name hname =>
      obtain ⟨hsafe, hname⟩ := zipName_ok hname
      exact (harchived name hname).weaken (fun _ _ ht => ht) (by simp [hsafe]) fun _ _ _ ht => ht
  · intro w t d ht
    obtain ⟨hw, harchive, hcopy, hindex, hroom, hcopies⟩ := ht
    refine ⟨⟨hw, harchive, hindex, hroom⟩, fun t' hremove => ⟨hw, ?_⟩⟩
    have hframe : Unseen (p.temporary number) fun t =>
        t.obj p.archive = some (.file (bytes ++ h.zip.record w)) ∧ t.obj p.index = some (.file lines) ∧
        Room H p t :=
      (unseen_obj (hp.temporary number)).and ((unseen_obj (p.temporary_ne_index number).symm).and
        (unseen_room (p.temporary_ne_copies number)))
    obtain ⟨-, hdir, hobj⟩ := Tree.remove_ok hremove
    exact (hframe.update (o := none) ⟨harchive, hindex, hroom⟩ hdir nofun hobj).2

theorem writeDatabases_done (hH : H → Quiet κ) (hp : p.Apart) (s : Sources) (number : Nat) (entries : List Entry)
    (done : List Written)
    (lines : List Byte) :
    DoneIff κ b H
      (∀ e ∈ entries, (Copied (s.online e).check (s.online e).attempts ∧ (s.online e).broken = none) ∧
        Indexed h (indexedDatabase s e))
      (Draft H p (done.flatMap h.zip.record) lines) (writeDatabases h s p number entries done : Work δ (List Written))
      (fun ws t d => ws = done ++ entries.map (databaseRecord s) ∧
        Draft H p (ws.flatMap h.zip.record) (lines ++ indexOf h (entries.map (indexedDatabase s))) t d) := by
  induction entries generalizing number done lines with
  | nil =>
    refine (DoneIff.pure fun t d ht => ?_).weaken (fun _ _ ht => ht) (by simp) fun _ _ _ ht => ht
    refine ⟨by simp, ?_⟩
    rw [List.map_nil, indexOf, List.flatMap_nil, List.append_nil]
    exact ht
  | cons entry rest ih =>
    have hrest : ∀ w, DoneIff κ b H (There (h.encode (indexedDatabase s entry)) ∧
          ∀ e ∈ rest, (Copied (s.online e).check (s.online e).attempts ∧ (s.online e).broken = none) ∧
            Indexed h (indexedDatabase s e))
        (fun t d => w = databaseRecord s entry ∧ Draft H p (done.flatMap h.zip.record ++ h.zip.record w) lines t d)
        (do
          encodeIndex h p (indexedDatabase s entry)
          writeDatabases h s p (number + 1) rest (done ++ [w]) : Work δ (List Written))
        (fun ws t d => ws = done ++ (entry :: rest).map (databaseRecord s) ∧
          Draft H p (ws.flatMap h.zip.record) (lines ++ indexOf h ((entry :: rest).map (indexedDatabase s))) t d) := by
      intro w
      refine DoneIff.start (fun _ _ ht => ht.1) fun hw => ?_
      refine ((encodeIndex_done hH hp _).bind fun _ => ih (number + 1) (done ++ [w])
        (lines ++ bytesOf (h.encode (indexedDatabase s entry)))).weaken ?_ Iff.rfl ?_
      · intro t d ht
        rw [List.flatMap_append, List.flatMap_singleton]
        exact ht.2
      · intro ws t d ht
        rw [hw, List.append_assoc, List.append_assoc] at ht
        exact ht
    refine ((writeSQLite_done hH hp s entry number).bind hrest).weaken (fun _ _ ht => ht) ?_ fun _ _ _ ht => ht
    simp only [List.forall_mem_cons, Indexed]
    exact ⟨fun ⟨⟨hcopied, hsafe⟩, hline, hall⟩ => ⟨⟨hcopied, hsafe, hline⟩, hall⟩,
      fun ⟨⟨hcopied, hsafe, hline⟩, hall⟩ => ⟨⟨hcopied, hsafe⟩, hline, hall⟩⟩

/-! ## The whole archive -/

theorem writeInternalFile_done (hH : H → Quiet κ) (hp : p.Apart) (broken : Option Break) :
    DoneIff κ b H (broken = none) (Draft H p bytes lines)
      (writeInternalFile h p broken "_snapshot/file-index.jsonl" p.index : Work δ Written)
      (fun w t d => w = ⟨"_snapshot/file-index.jsonl", false, lines⟩ ∧
        Draft H p (bytes ++ h.zip.record w) lines t d) := by
  unfold writeInternalFile
  rw [if_pos (by decide +kernel)]
  have hK : Unseen p.archive fun t => t.obj p.index = some (.file lines) ∧ Room H p t := unseen_archive hp
  refine DoneIff.weaken (φ := True ∧ True ∧ True ∧ broken = none ∧ True) ?_ (fun _ _ ht => ht) (by simp)
    fun _ _ _ ht => ht
  refine DoneIff.bind (Q := fun _ => Draft H p bytes lines) ((DoneIff.mapError (DoneIff.mapError (doneIff_lstat hH
    (o := .file lines) (K := fun t => t.obj p.archive = some (.file bytes) ∧ Room H p t)))).weaken
      (fun t d ht => ⟨ht.2.1, ht.1, ht.2.2⟩) Iff.rfl fun _ t d ht => ⟨ht.2.1, ht.1, ht.2.2⟩) fun _ => ?_
  refine DoneIff.bind (Q := fun _ t _ => t.obj p.index = some (.file lines) ∧
      t.obj p.archive = some (.file (bytes ++ h.zip.header "_snapshot/file-index.jsonl" false)) ∧ Room H p t)
    ((createHeader_done hH hK _ false).weaken (fun _ _ ht => ht) Iff.rfl fun _ t d ht => ⟨ht.2.1, ht.1, ht.2.2⟩)
    fun _ => ?_
  refine DoneIff.bind (DoneIff.mapError (DoneIff.mapError (doneIff_readFile hH))) fun content => ?_
  refine DoneIff.start (fun _ _ ht => ht.1) fun hcontent => ?_
  subst hcontent
  refine DoneIff.bind (Q := fun _ =>
      Draft H p (bytes ++ h.zip.header "_snapshot/file-index.jsonl" false ++ h.zip.body content) content)
    ((copyContext_done hH hK content broken).weaken (fun t d ht => ⟨ht.2.2.1, ht.2.1, ht.2.2.2⟩) Iff.rfl
      fun _ _ _ ht => ht) fun _ => ?_
  refine DoneIff.pure (Q := fun w t d => w = ⟨"_snapshot/file-index.jsonl", false, content⟩ ∧
    Draft H p (bytes ++ h.zip.record w) content t d) fun t d ht => ⟨rfl, ?_⟩
  rw [List.append_assoc] at ht
  exact ht

theorem sync_done (hH : H → Quiet κ) {P : Tree → δ → Prop} : DoneIff κ b H True P (sync : Action δ Unit)
    (fun _ => P) :=
  DoneIff.mapError (doneIff_look hH fun _ _ ht => ⟨(), rfl, ht⟩)

/-- From the last entry of the data on. -/
theorem writeOwn_done (hH : H → Quiet κ) (hp : p.Apart) (s : Sources) (plan : Plan)
    (manifest : Except GoError (List Byte))
    (done : List Written) :
    DoneIff κ b H (s.indexBroken = none ∧ There (h.warnings plan.warnings) ∧ There manifest)
      (Draft H p (done.flatMap h.zip.record) lines)
      (do
        let index ← writeInternalFile h p s.indexBroken "_snapshot/file-index.jsonl" p.index
        let warnings ← codedValue "ARCHIVE_WRITE_FAILED" (h.warnings plan.warnings)
        let warnings ← writeBytes h p "_snapshot/warnings.json" warnings
        let internal ← codedValue "ARCHIVE_WRITE_FAILED" manifest
        let internal ← writeBytes h p "_snapshot/manifest.json" internal
        codedIo "ARCHIVE_WRITE_FAILED" (write p.archive (h.zip.ending (done ++ [index, warnings, internal])))
        coded "STORAGE_WRITE_FAILED" sync : Work δ Unit)
      (fun _ => Draft H p (archiveOf h.zip (done ++ ownRecords h lines plan manifest)) lines) := by
  have hK : Unseen p.archive fun t => t.obj p.index = some (.file lines) ∧ Room H p t := unseen_archive hp
  let bytes := done.flatMap h.zip.record
  refine DoneIff.weaken (φ := s.indexBroken = none ∧ There (h.warnings plan.warnings) ∧ True ∧ There manifest ∧
    True ∧ True ∧ True) ?_ (fun _ _ ht => ht) (by simp) fun _ _ _ ht => ht
  refine DoneIff.bind (writeInternalFile_done hH hp _) fun index => DoneIff.start (fun _ _ ht => ht.1) fun hindex => ?_
  refine DoneIff.bind (Q := fun a t d => a = bytesOf (h.warnings plan.warnings) ∧
      Draft H p (bytes ++ h.zip.record index) lines t d)
    ((codedValue_done _ _).weaken (fun _ _ ht => ht.2) Iff.rfl fun _ _ _ ht => ht) fun warnings =>
      DoneIff.start (fun _ _ ht => ht.1) fun hwarnings => ?_
  refine DoneIff.bind (Q := fun w t d => w = ⟨"_snapshot/warnings.json", false, warnings⟩ ∧
      Draft H p (bytes ++ h.zip.record index ++ h.zip.record w) lines t d)
    ((writeBytes_done hH hK rfl (by decide +kernel) _).weaken (fun _ _ ht => ht.2) Iff.rfl fun _ _ _ ht => ht)
    fun second => DoneIff.start (fun _ _ ht => ht.1) fun hsecond => ?_
  refine DoneIff.bind (Q := fun a t d => a = bytesOf manifest ∧
      Draft H p (bytes ++ h.zip.record index ++ h.zip.record second) lines t d)
    ((codedValue_done _ _).weaken (fun _ _ ht => ht.2) Iff.rfl fun _ _ _ ht => ht) fun internal =>
      DoneIff.start (fun _ _ ht => ht.1) fun hinternal => ?_
  refine DoneIff.bind (Q := fun w t d => w = ⟨"_snapshot/manifest.json", false, internal⟩ ∧
      Draft H p (bytes ++ h.zip.record index ++ h.zip.record second ++ h.zip.record w) lines t d)
    ((writeBytes_done hH hK rfl (by decide +kernel) _).weaken (fun _ _ ht => ht.2) Iff.rfl fun _ _ _ ht => ht)
    fun third => DoneIff.start (fun _ _ ht => ht.1) fun hthird => ?_
  have hrecords : [index, second, third] = ownRecords h lines plan manifest := by
    rw [hindex, hsecond, hthird, hwarnings, hinternal]
    rfl
  refine DoneIff.bind ((writeBody_done hH hK _).weaken (fun _ _ ht => ht.2) Iff.rfl fun _ t d ht => ?_)
    fun _ => DoneIff.mapError (sync_done hH)
  have hbytes : bytes ++ h.zip.record index ++ h.zip.record second ++ h.zip.record third ++
      h.zip.ending (done ++ [index, second, third]) = archiveOf h.zip (done ++ ownRecords h lines plan manifest) := by
    rw [← hrecords, archiveOf, List.flatMap_append]
    simp [bytes]
  rw [hbytes] at ht
  exact ht

theorem writeContents_done (hH : H → Quiet κ) (hp : p.Apart) (s : Sources) (plan : Plan)
    (manifest : Except GoError (List Byte)) :
    DoneIff κ b H ((∀ e ∈ plan.files, Stable (s.reading e) ∧ Indexed h (indexedFile s e)) ∧
        (∀ e ∈ plan.sqlite, (Copied (s.online e).check (s.online e).attempts ∧ (s.online e).broken = none) ∧
          Indexed h (indexedDatabase s e)) ∧
        s.indexBroken = none ∧ There (h.warnings plan.warnings) ∧ There manifest)
      (Holding p.archive ((plan.directories.map directoryRecord).flatMap h.zip.record) fun t => H → Vacant p t)
      (writeContents h s p plan manifest (plan.directories.map directoryRecord) : Work δ Unit)
      (fun _ => Draft H p (archiveOf h.zip (records h s plan manifest)) (fileIndex h s plan)) := by
  let start := plan.directories.map directoryRecord
  have hK : Unseen p.index fun t => t.obj p.archive = some (.file (start.flatMap h.zip.record)) ∧
      (H → Room True p t) :=
    (unseen_obj hp.index).and (unseen_room p.index_ne_copies).imp
  refine DoneIff.weaken (φ := True ∧ _ ∧ _ ∧ True ∧ _) ?_ (fun _ _ ht => ht)
    (by rw [true_and]; exact and_congr_right fun _ => and_congr_right fun _ => iff_of_eq (true_and _))
    fun _ _ _ ht => ht
  refine DoneIff.bind (Q := fun _ => Draft H p (start.flatMap h.zip.record) [])
    ((DoneIff.mapError (DoneIff.mapError (doneIff_createExclusive hH hK))).weaken ?_ Iff.rfl ?_) fun _ => ?_
  · intro t d ht
    refine ⟨fun hh => ⟨(ht.2 hh).1, ?_⟩, ht.1, fun hh => (ht.2 hh).2⟩
    rw [Places.index, List.dropLast_concat]
    exact (ht.2 hh).2.cache
  · intro _ t d ht
    obtain ⟨hindex, hcache, harchive, hroom⟩ := ht
    rw [Places.index, List.dropLast_concat] at hcache
    exact ⟨harchive, hindex, hcache, fun hh => (hroom hh).copies trivial, fun hh => (hroom hh).temporary trivial⟩
  refine DoneIff.bind (writeFiles_done hH hp s plan.files start []) fun files =>
    DoneIff.start (fun _ _ ht => ht.1) fun hfiles => ?_
  refine DoneIff.bind ((writeDatabases_done hH hp s 0 plan.sqlite files _).weaken (fun _ _ ht => ht.2) Iff.rfl
    fun _ _ _ ht => ht) fun databases => DoneIff.start (fun _ _ ht => ht.1) fun hdatabases => ?_
  refine DoneIff.bind (DoneIff.mapError (sync_done hH)) fun _ => ?_
  refine (writeOwn_done hH hp s plan manifest databases).weaken (fun _ _ ht => ht.2) Iff.rfl fun _ t d ht => ?_
  have hrecords : databases ++ ownRecords h (fileIndex h s plan) plan manifest = records h s plan manifest := by
    rw [hdatabases, hfiles]
    rfl
  rw [← hrecords]
  exact ht

/-- The writer can start: there is no archive, in a directory that is there, and a vacant cache. -/
structure Free (base : List String) (p : Places) (t : Tree) : Prop where
  within : base <+: p.archive
  parent : t.obj p.archive.dropLast = some .directory
  archive : t.obj p.archive = none
  vacant : Vacant p t

theorem ensureWithin_done (hH : H → Quiet κ) {base target : List String} {P : Tree → δ → Prop}
    (hP : H → ∀ t d, P t d → base <+: target ∧ t.obj target.dropLast = some .directory) :
    DoneIff κ b H True P (ensureWithin base target : Action δ Unit) (fun _ => P) := by
  refine Does.quiet hH (ensureWithin_does.post ?_ ?_ fun _ _ hc => hc) fun hcalm => lives_ensureWithin hcalm
  · exact fun _ _ _ ht => ⟨trivial, ht.1⟩
  · intro _ t d ht hh _
    obtain ⟨hwithin, hparent⟩ := hP hh t d ht.1
    exact ht.2 (hH hh b) hwithin (Tree.passable_of_directory hparent)

/-- A run of the writer that is done has written the archive of its plan and its sources, and
found nothing that could stop it. -/
theorem writeArchive_done (hH : H → Quiet κ) {base cache : List String} {part : Partial}
    (hp : Places.Apart ⟨part.archive, cache⟩) (s : Sources) (plan : Plan) (manifest : Except GoError (List Byte)) :
    DoneIff κ b H (Complete h s plan manifest) (fun t (_ : δ) => H → Free base ⟨part.archive, cache⟩ t)
      (writeArchive h s base part cache plan manifest)
      (fun _ t _ => t.obj part.archive = some (.file (archiveOf h.zip (records h s plan manifest)))) := by
  let p : Places := ⟨part.archive, cache⟩
  have hK : Unseen p.archive fun t => H → Vacant p t := ((unseen_obj hp.index.symm).and (unseen_room hp.copies)).imp
  have hcreate : DoneIff κ b H True (fun t (_ : δ) => H → Free base p t) (createArchive base part : Action δ Unit)
      (fun _ => Holding p.archive [] fun t => H → Vacant p t) := by
    refine DoneIff.weaken (φ := True ∧ True) ?_ (fun _ _ ht => ht) (by simp) fun _ _ _ ht => ht
    refine DoneIff.bind (ensureWithin_done hH fun hh t d ht => ⟨(ht hh).within, (ht hh).parent⟩) fun _ => ?_
    refine (DoneIff.mapError (doneIff_createExclusive hH hK)).weaken ?_ Iff.rfl ?_
    · exact fun t d ht => ⟨fun hh => ⟨(ht hh).archive, (ht hh).parent⟩, fun hh => (ht hh).vacant⟩
    · exact fun _ t d ht => ⟨ht.1, ht.2.2⟩
  refine DoneIff.weaken (φ := True ∧ (∀ e ∈ plan.directories, safeInternalZipName e.relative = true) ∧
    (∀ e ∈ plan.files, Stable (s.reading e) ∧ Indexed h (indexedFile s e)) ∧
    (∀ e ∈ plan.sqlite, (Copied (s.online e).check (s.online e).attempts ∧ (s.online e).broken = none) ∧
      Indexed h (indexedDatabase s e)) ∧
    s.indexBroken = none ∧ There (h.warnings plan.warnings) ∧ There manifest) ?_ (fun _ _ ht => ht) ?_
      fun _ _ _ ht => ht
  · refine DoneIff.bind (DoneIff.mapError hcreate) fun _ => ?_
    refine DoneIff.bind (writeDirectories_done hH hK rfl plan.directories []) fun done => ?_
    refine DoneIff.start (fun _ _ ht => ht.1) fun hdone => ?_
    rw [List.nil_append] at hdone
    subst hdone
    refine DoneIff.removing hH ((writeContents_done hH hp s plan manifest).weaken (fun _ _ ht => ht.2) Iff.rfl
      fun _ _ _ ht => ht) ?_
    intro _ t d ht
    refine ⟨ht.1, fun t' hremove => ?_⟩
    obtain ⟨-, -, hobj⟩ := Tree.remove_ok hremove
    have hne : part.archive ≠ p.index := hp.index
    rw [hobj, Function.update_of_ne hne]
    exact ht.1
  · refine ⟨?_, ?_⟩
    · intro ⟨_, hdirectories, hfiles, hdatabases, hindex, hwarnings, hmanifest⟩
      exact ⟨hdirectories, hfiles, hdatabases, hindex, hwarnings, hmanifest⟩
    · intro hc
      exact ⟨trivial, hc.directories, hc.files, hc.databases, hc.index, hc.warnings, hc.manifest⟩

end

end AppBackup.Backup
