import AppBackup.Lib.Base64
import AppBackup.Storage.Footprint
import AppBackup.Storage.Restore

/- The deep check of a snapshot (`FullVerify` in `storage/storage.go`). After `QuickVerify` each
   entry of the archive is read to its end; one that begins as a SQLite database is copied to a
   temporary directory below `_partial` and checked there. `temporary` is the name that
   `os.MkdirTemp` draws, and `quickCheck` what SQLite's quick_check says of a file; what SQLite
   puts beside the file is left out.

   What is proved:
     1. `fullVerify_exact` -- where nothing fails for a reason of its own, a snapshot passes just
        if it passes `QuickVerify` and each of its entries is intact; and nothing but the
        directory `_partial` stays of the check.
     2. `fullVerify_confined` -- whatever fails, and wherever the process dies, only the temporary
        directory of the check has changed, but for new directories. -/
namespace AppBackup.Storage
open Program Disk Path Text

variable {δ : Type}

/-- What a SQLite database begins with. -/
def sqliteMagic : List Byte := Base64.utf8 "SQLite format 3\x00"

def databaseName (index : Nat) : String := toString index ++ ".sqlite"

/-- The part of the loop for a database, whose header has been read. -/
def checkDatabase (quickCheck : List Byte → Bool) (filename : List String) (bytes : List Byte) (whole : Bool) :
    Action δ Unit := do
  io (createExclusive filename)
  io (write filename (bytes.take 16))
  io (write filename (bytes.drop 16))
  if whole then do
    let stored ← io (readFile filename)
    if quickCheck stored then pure () else Prog.fail (.refused "sqlite quick_check")
  else Prog.fail (.refused "read entry")

def verifyEntry (quickCheck : List Byte → Bool) (directory : List String) (index : Nat) (entry : ZipEntry) :
    Action δ Unit :=
  if !safeZipPath entry.name || entry.symlink then Prog.fail (.refused "unsafe archive entry")
  else if entry.isDir then pure ()
  else
    match entry.content with
    | none => Prog.fail (.refused "open entry")
    | some (bytes, whole) =>
      -- a read that breaks off within the header fails like one behind it
      if bytes.take 16 = sqliteMagic then checkDatabase quickCheck (directory ++ [databaseName index]) bytes whole
      else if whole then pure ()
      else Prog.fail (.refused "read entry")

/-- The names `QuickVerify` looks at. -/
def entryNames (openZip : List Byte → Option (List ZipEntry)) (bytes : List Byte) : Option (List String) :=
  (openZip bytes).map (·.map (·.name))

/-- `FullVerify` after `QuickVerify`. -/
def verifyArchive (openZip : List Byte → Option (List ZipEntry)) (quickCheck : List Byte → Bool)
    (base : List String)
    (location : Location) (temporary : String) : Action δ Unit := do
  let archive ← resolve base (pathJoin [location.directory, "snapshot.zip"])
  let bytes ← io (readFile archive)
  match openZip bytes with
  | none => Prog.fail (.refused "zip: not a valid zip file")
  | some entries => do
    let root ← resolve base "_partial"
    makeDirectories base "_partial"
    io (mkdir (root ++ [temporary]))
    Prog.deferred (cleaningUp (removeAll (root ++ [temporary])))
      (Prog.each entries.zipIdx fun e => verifyEntry quickCheck (root ++ [temporary]) e.2 e.1)

def fullVerify (openZip : List Byte → Option (List ZipEntry)) (sha256 : List Byte → String)
    (quickCheck : List Byte → Bool) (base : List String) (location : Location) (expectedSize : Int)
    (expectedSHA256 temporary : String) : Action δ Unit := do
  quickVerify (entryNames openZip) sha256 base location expectedSize expectedSHA256
  verifyArchive openZip quickCheck base location temporary

/-- An entry the check accepts. -/
structure Intact (quickCheck : List Byte → Bool) (e : ZipEntry) : Prop where
  safe : safeZipPath e.name = true
  plain : e.symlink = false
  read : e.isDir = false → ∃ bytes, e.content = some (bytes, true) ∧
    (bytes.take 16 = sqliteMagic → quickCheck bytes = true)

/-! ## One entry -/

theorem databaseName_inj {i j : Nat} (h : databaseName i = databaseName j) : i = j := by
  have htext : (toString i).toList = (toString j).toList := by
    have hlist := congrArg String.toList h
    unfold databaseName at hlist
    rw [String.toList_append, String.toList_append] at hlist
    exact List.append_cancel_right hlist
  have hdigits : Nat.toDigits 10 i = Nat.toDigits 10 j := by simpa using htext
  rw [← @Nat.ofDigitChars_ten_toDigits i, ← @Nat.ofDigitChars_ten_toDigits j, hdigits]

/-- What is in the temporary directory when `n` entries have been checked. -/
def Room (H : Prop) (directory : List String) (n : Nat) (t : Tree) : Prop :=
  t.obj directory = some .directory ∧ (H → ∀ j, n ≤ j → t.obj (directory ++ [databaseName j]) = none)

section
variable {κ : Fates} {b : Bool} {H : Prop} {quickCheck : List Byte → Bool} {directory : List String} {n : Nat}

theorem Room.next {t : Tree} (h : Room H directory n t) : Room H directory (n + 1) t :=
  ⟨h.1, fun hh j hj => h.2 hh j (by omega)⟩

theorem unseen_room : Unseen (directory ++ [databaseName n]) fun t => Room H directory (n + 1) t := by
  refine unseen_directory.and fun t t' ht _ _ hsame hh j hj => ?_
  have hne : directory ++ [databaseName j] ≠ directory ++ [databaseName n] := by
    intro he
    have hname := databaseName_inj (List.cons.inj (List.append_cancel_left he)).1
    omega
  rw [hsame _ hne]
  exact ht hh j hj

theorem checkDatabase_done (hH : H → Quiet κ) {filename : List String} {K : Tree → Prop} (hK : Unseen filename K)
    (bytes : List Byte) (whole : Bool) :
    DoneIff κ b H (whole = true ∧ quickCheck bytes = true)
      (fun t (_ : δ) => (H → t.obj filename = none ∧ t.obj filename.dropLast = some .directory) ∧ K t)
      (checkDatabase quickCheck filename bytes whole) fun _ t _ => K t := by
  unfold checkDatabase
  refine DoneIff.after (DoneIff.mapError (doneIff_createExclusive hH hK)) fun _ => ?_
  refine DoneIff.after (DoneIff.mapError ((doneIff_write hH hK (bytes.take 16)).weaken
    (fun _ _ ht => ⟨ht.1, ht.2.2⟩) Iff.rfl fun _ _ _ ht => ht)) fun _ => ?_
  refine DoneIff.after (DoneIff.mapError (doneIff_write hH hK (bytes.drop 16))) fun _ => ?_
  simp only [List.nil_append, List.take_append_drop]
  cases whole with
  | false =>
    rw [if_neg Bool.false_ne_true]
    exact DoneIff.fail.weaken (fun _ _ ht => ht) (by simp) fun _ _ _ ht => ht
  | true =>
    rw [if_pos rfl]
    refine DoneIff.after (DoneIff.mapError (doneIff_readFile hH)) fun stored => ?_
    refine DoneIff.start (fun _ _ ht => ht.1) fun hstored => ?_
    subst hstored
    by_cases hcheck : quickCheck stored = true
    · rw [if_pos hcheck]
      exact (DoneIff.pure fun _ _ ht => ht.2.2).weaken (fun _ _ ht => ht) (by simp [hcheck]) fun _ _ _ ht => ht
    · rw [if_neg hcheck]
      exact DoneIff.fail.weaken (fun _ _ ht => ht) (by simp [hcheck]) fun _ _ _ ht => ht

theorem verifyEntry_done (hH : H → Quiet κ) (e : ZipEntry) :
    DoneIff κ b H (Intact quickCheck e) (fun t (_ : δ) => Room H directory n t)
      (verifyEntry quickCheck directory n e) fun _ t _ => Room H directory (n + 1) t := by
  unfold verifyEntry
  by_cases hunsafe : (!safeZipPath e.name || e.symlink) = true
  · rw [if_pos hunsafe]
    refine DoneIff.fail.weaken (fun _ _ ht => ht) (iff_of_false not_false fun h => ?_) fun _ _ _ ht => ht
    rw [h.safe, h.plain] at hunsafe
    cases hunsafe
  rw [if_neg hunsafe]
  obtain ⟨hsafe, hplain⟩ : safeZipPath e.name = true ∧ e.symlink = false := by simpa using hunsafe
  by_cases hdir : e.isDir = true
  · rw [if_pos hdir]
    refine (DoneIff.pure fun t _ ht => Room.next ht).weaken (fun _ _ ht => ht) ?_ fun _ _ _ ht => ht
    refine iff_of_true trivial ⟨hsafe, hplain, fun hfile => ?_⟩
    rw [hdir] at hfile
    cases hfile
  rw [if_neg hdir]
  have hintact : Intact quickCheck e ↔ ∃ bytes, e.content = some (bytes, true) ∧
      (bytes.take 16 = sqliteMagic → quickCheck bytes = true) :=
    ⟨fun h => h.read (Bool.eq_false_iff.mpr hdir), fun h => ⟨hsafe, hplain, fun _ => h⟩⟩
  cases hcontent : e.content with
  | none => exact DoneIff.fail.weaken (fun _ _ ht => ht) (by simp [hintact, hcontent]) fun _ _ _ ht => ht
  | some c =>
    obtain ⟨bytes, whole⟩ := c
    dsimp only
    by_cases hmagic : bytes.take 16 = sqliteMagic
    · rw [if_pos hmagic]
      refine (checkDatabase_done hH unseen_room bytes whole).weaken (fun t _ ht => ⟨fun hh => ?_, ht.next⟩) ?_
        fun _ _ _ ht => ht
      · exact ⟨ht.2 hh n (Nat.le_refl n), by rw [List.dropLast_concat]; exact ht.1⟩
      · rw [hintact, hcontent]
        simp [hmagic, and_comm]
    · rw [if_neg hmagic]
      cases whole with
      | false =>
        rw [if_neg Bool.false_ne_true]
        exact DoneIff.fail.weaken (fun _ _ ht => ht) (by simp [hintact, hcontent]) fun _ _ _ ht => ht
      | true =>
        rw [if_pos rfl]
        refine (DoneIff.pure fun t _ ht => Room.next ht).weaken (fun _ _ ht => ht) ?_ fun _ _ _ ht => ht
        rw [hintact, hcontent]
        simp [hmagic]

theorem verifyEntries_done (hH : H → Quiet κ) (entries : List ZipEntry) :
    DoneIff κ b H (∀ e ∈ entries, Intact quickCheck e) (fun t (_ : δ) => Room H directory 0 t)
      (Prog.each entries.zipIdx fun e => verifyEntry quickCheck directory e.2 e.1)
      fun _ t _ => Room H directory entries.length t := by
  have heach := @DoneIff.eachIff δ _ _ κ b H (fun e : ZipEntry × Nat => verifyEntry quickCheck directory e.2 e.1)
    (fun e => Intact quickCheck e.1) (fun before t (_ : δ) => Room H directory before.length t) entries.zipIdx ?_
  · refine heach.weaken (fun _ _ ht => ht) ?_ fun _ t _ ht => ?_
    · have hfst : entries.zipIdx.map Prod.fst = entries := List.zipIdx_map_fst 0 entries
      rw [← List.forall_mem_map, hfst]
    · rwa [List.length_zipIdx] at ht
  · intro before e after hall
    have hindex : e.2 = before.length := by
      have hget : entries.zipIdx[before.length]? = some e := by
        rw [hall, List.getElem?_append_right (Nat.le_refl _), Nat.sub_self]
        rfl
      rw [List.getElem?_zipIdx] at hget
      obtain ⟨x, -, rfl⟩ := Option.map_eq_some_iff.mp hget
      exact Nat.zero_add _
    rw [List.length_append, List.length_singleton, ← hindex]
    exact verifyEntry_done hH e.1

end

/-! ## The whole check -/

section
variable {κ : Fates} {b : Bool} {base : List String} {deployID name temporary : String} {bytes : List Byte}
  {entries : List ZipEntry} {openZip : List Byte → Option (List ZipEntry)} {quickCheck : List Byte → Bool}
  {location : Location} {t₀ : Tree}

/-- Where the check makes its temporary directory. -/
def checkPath (base : List String) (temporary : String) : List String := base ++ ["_partial"] ++ [temporary]

/-- The tree has an archive, and room for the temporary directory. -/
structure Checkable (base : List String) (deployID name temporary : String) (bytes : List Byte) (t : Tree) : Prop where
  archive : t.obj (archivePath base deployID name) = some (.file bytes)
  partials : t.obj (base ++ ["_partial"]) = none ∨ t.obj (base ++ ["_partial"]) = some .directory
  free : t.obj (checkPath base temporary) = none

theorem Checkable.final (h : Checkable base deployID name temporary bytes t₀) :
    t₀.obj (finalPath base deployID name) = some .directory := by
  have hup := t₀.parent_directory h.archive (by unfold archivePath; exact List.append_ne_nil_of_right_ne_nil _ nofun)
  rwa [archivePath_dropLast] at hup

theorem Checkable.root (h : Checkable base deployID name temporary bytes t₀) : t₀.obj base = some .directory :=
  Tree.prefix_of_directory h.final (List.prefix_append _ _)

theorem Checkable.passable (h : Checkable base deployID name temporary bytes t₀) :
    Tree.Passable t₀ (base ++ ["_partial"]) := by
  intro q hq
  obtain rfl | hq := List.prefix_concat_iff.mp hq
  · exact h.partials
  · exact .inr (Tree.prefix_of_directory h.root hq)

theorem split_partials : split "_partial" = ["_partial"] := by decide +kernel

theorem Checkable.room (h : Checkable base deployID name temporary bytes t₀) {t t' : Tree}
    (hlaid : Tree.Laid t₀ (base ++ ["_partial"]) t)
    (hobj : t'.obj = Function.update t.obj (checkPath base temporary) (some .directory)) (H : Prop) :
    Room H (checkPath base temporary) 0 t' := by
  refine ⟨by rw [hobj, Function.update_self], fun _ j _ => ?_⟩
  have hne : checkPath base temporary ++ [databaseName j] ≠ checkPath base temporary := by simp
  have hbelow : ¬checkPath base temporary ++ [databaseName j] <+: base ++ ["_partial"] := by
    intro hle
    have hlength := hle.length_le
    simp [checkPath] at hlength
  rw [hobj, Function.update_of_ne hne, hlaid]
  show (if checkPath base temporary ++ [databaseName j] <+: base ++ ["_partial"] then _ else _) = _
  rw [if_neg hbelow]
  refine Tree.below_none t₀ ?_ (List.cons_ne_nil _ _)
  rw [h.free]
  exact nofun

theorem verifyArchive_done (hdeploy : Proper deployID) (hname : Proper name)
    (hlocation : location.directory = pathJoin [deployID, name]) (hopen : openZip bytes = some entries)
    (h : Checkable base deployID name temporary bytes t₀) :
    DoneIff κ b (Quiet κ) (∀ e ∈ entries, Intact quickCheck e) (fun t (_ : δ) => t = t₀)
      (verifyArchive openZip quickCheck base location temporary)
      fun _ t _ => Quiet κ → ∀ q, checkPath base temporary <+: q → t.obj q = none := by
  have hsplit : split (pathJoin [location.directory, "snapshot.zip"]) = [deployID, name, "snapshot.zip"] := by
    rw [hlocation, join_archive hdeploy hname]
    exact split_join (List.cons_ne_nil _ _) fun n hn => (proper_archive hdeploy hname n hn).2.2.2
  have hsafe : safeRelative (pathJoin [location.directory, "snapshot.zip"]) = true := by
    rw [hlocation, join_archive hdeploy hname]
    exact safeRelative_join (List.cons_ne_nil _ _) (proper_archive hdeploy hname)
  have hpartials : safeRelative "_partial" = true := by decide +kernel
  unfold verifyArchive
  -- the archive is found and opened
  refine DoneIff.after (resolve_done id hsafe fun t d ht => ?_) fun archive => ?_
  · rw [hsplit, archivePath_eq, archivePath_dropLast, ht]
    exact h.final
  refine DoneIff.start (fun _ _ ht => ht.1) fun harchive => ?_
  rw [hsplit, archivePath_eq] at harchive
  subst harchive
  refine DoneIff.after (Q := fun found t (_ : δ) => found = bytes ∧ t = t₀)
    (DoneIff.mapError (doneIff_look id fun t d ht => ?_)) fun found => ?_
  · exact ⟨bytes, Tree.read_iff.mpr (ht.2 ▸ h.archive), rfl, ht.2⟩
  refine DoneIff.start (fun _ _ ht => ht.1) fun hfound => ?_
  subst hfound
  rw [hopen]
  -- a temporary directory is made below `_partial`
  refine DoneIff.after (resolve_done id hpartials fun t d ht => ?_) fun root => ?_
  · rw [split_partials, List.dropLast_concat, ht.2]
    exact h.root
  refine DoneIff.start (fun _ _ ht => ht.1) fun hroot => ?_
  rw [split_partials] at hroot
  subst hroot
  refine DoneIff.after (makeDirectories_done id hpartials fun t d ht => ?_) fun _ => ?_
  · rw [split_partials, ht.2.2]
    exact h.passable
  rw [split_partials]
  refine DoneIff.after (Q := fun _ t (_ : δ) => Room (Quiet κ) (checkPath base temporary) 0 t)
    (DoneIff.mapError (doneIff_change id ?_ ?_)) fun _ => ?_
  · intro t d ht t' hmade
    obtain ⟨t₁, ⟨-, -, rfl⟩, hlaid⟩ := ht
    exact h.room hlaid (Tree.create_ok hmade).2 _
  · intro _ t d ht
    obtain ⟨t₁, ⟨-, -, rfl⟩, hlaid⟩ := ht
    have hnew : t.obj (checkPath base temporary) = none := by
      rw [hlaid]
      show (if checkPath base temporary <+: base ++ ["_partial"] then _ else _) = _
      rw [if_neg fun hle => by simpa [checkPath] using hle.length_le]
      exact h.free
    have hparent : t.obj (checkPath base temporary).dropLast = some .directory := by
      unfold checkPath
      rw [List.dropLast_concat, hlaid]
      exact if_pos (List.prefix_refl _)
    obtain ⟨t', hmade, -⟩ := Tree.create_eq (o := .directory) hnew hparent
    exact ⟨t', hmade⟩
  · exact (verifyEntries_done id entries).clearing id (List.append_ne_nil_of_right_ne_nil _ (List.cons_ne_nil _ _))

end

/-! ## What the check changes -/

section
variable {κ : Fates} {b : Bool} {own : List String → Prop} {I : Tree → δ → Prop}
    {quickCheck : List Byte → Bool}

theorem framed_verifyEntry (hI : Framed own I) {directory : List String} (hown : ∀ child, own (directory ++ [child]))
    (n : Nat) (e : ZipEntry) : Always κ b I (verifyEntry quickCheck directory n e) := by
  refine Always.ite (Always.fail _) (Always.ite (Always.pure _) ?_)
  cases e.content with
  | none => exact Always.fail _
  | some c =>
    obtain ⟨bytes, whole⟩ := c
    refine Always.ite ?_ (Always.ite (Always.pure _) (Always.fail _))
    refine Always.bind (Always.mapError (hI.createExclusive (hown _))) fun _ => ?_
    refine Always.bind (Always.mapError (hI.write (hown _) _)) fun _ => ?_
    refine Always.bind (Always.mapError (hI.write (hown _) _)) fun _ => ?_
    refine Always.ite ?_ (Always.fail _)
    exact Always.bind (Always.mapError (always_look _)) fun _ => Always.ite (Always.pure _) (Always.fail _)

end

/-- Whatever fails and wherever the process dies: outside the temporary directory of the check
all is as it was, but for new directories. -/
theorem fullVerify_confined (openZip : List Byte → Option (List ZipEntry)) (sha256 : List Byte → String)
    (quickCheck : List Byte → Bool) (base : List String) (location : Location) (expectedSize : Int)
    (expectedSHA256 temporary : String) (m : Machine δ) :
    Frame (checkPath base temporary <+: ·) m.tree
      (fullVerify openZip sha256 quickCheck base location expectedSize expectedSHA256 temporary m).state.tree := by
  have hframe : Framed (checkPath base temporary <+: ·)
      fun t (_ : δ) => Frame (checkPath base temporary <+: ·) m.tree t := framed_frame
  have halways : Always m.fate m.cleaning (fun t (_ : δ) => Frame (checkPath base temporary <+: ·) m.tree t)
      (fullVerify openZip sha256 quickCheck base location expectedSize expectedSHA256 temporary) := by
    refine Always.bind (always_quickVerify _ _ _) fun _ => Always.bind always_resolve fun archive => ?_
    refine Always.bind (Always.mapError (always_look _)) fun bytes => ?_
    cases openZip bytes with
    | none => exact Always.fail _
    | some entries =>
      refine Does.bind (resolve_does.post (fun _ _ _ ht => ht) (fun _ _ _ ht => ht.1) fun _ _ ht => ht) fun root => ?_
      refine Does.start (fun _ _ ht => ht.2.2) fun hroot => ?_
      rw [split_partials] at hroot
      subst hroot
      refine Does.pre (Always.bind (framed_makeDirectories hframe) fun _ => ?_) fun _ _ ht => ht.1
      refine Always.bind (Always.mapError (always_change fun t _ t' ht hmade => ?_)) fun _ => ?_
      · exact ht.update (List.prefix_refl _) (Tree.create_ok hmade).2
      · refine Always.deferred (Does.each (I := fun _ t (_ : δ) => Frame (checkPath base temporary <+: ·) m.tree t) _
          fun e _ => ?_) (always_removeAll fun _ _ _ ht => ht.removed fun _ hq => hq)
        exact framed_verifyEntry hframe (fun _ => List.prefix_append _ _) _ _
  exact halways.state Frame.refl

section
variable {base : List String} {deployID name temporary : String} {bytes : List Byte} {entries : List ZipEntry}
  {openZip : List Byte → Option (List ZipEntry)} {sha256 : List Byte → String} {quickCheck : List Byte → Bool}
  {location : Location} {expectedSize : Int} {expectedSHA256 : String} {m : Machine δ}

/-- Where nothing fails for a reason of its own a snapshot passes just if it passes `QuickVerify`
and each entry of its archive is intact; the check leaves nothing but new directories. -/
theorem fullVerify_exact (hdeploy : Proper deployID) (hname : Proper name)
    (hlocation : location.directory = pathJoin [deployID, name]) (hopen : openZip bytes = some entries)
    (hquiet : Quiet m.fate) (hroom : Checkable base deployID name temporary bytes m.tree) :
    ((∃ m', fullVerify openZip sha256 quickCheck base location expectedSize expectedSHA256 temporary m =
        .done () m') ↔
      (∃ m', quickVerify (entryNames openZip) sha256 base location expectedSize expectedSHA256 m = .done () m') ∧
        ∀ e ∈ entries, Intact quickCheck e) ∧
    ∀ m', fullVerify openZip sha256 quickCheck base location expectedSize expectedSHA256 temporary m = .done () m' →
      Frame (fun _ => False) m.tree m'.tree := by
  have hquick : ∀ m₁, quickVerify (entryNames openZip) sha256 base location expectedSize expectedSHA256 m =
      .done () m₁ →
      Quiet m₁.fate ∧ At m₁.fate m₁.cleaning (fun t _ => t = m.tree) m₁ := by
    intro m₁ hq
    have hkeeps : Always m.fate m.cleaning (fun t (_ : δ) => t = m.tree)
        (quickVerify (entryNames openZip) sha256 base location expectedSize expectedSHA256) := always_quickVerify _ _ _
    have hrun := Does.run hkeeps ⟨rfl, rfl, rfl⟩
    rw [hq] at hrun
    exact ⟨hrun.1 ▸ hquiet, rfl, rfl, hrun.2.2⟩
  have hspec : ∀ m₁ : Machine δ, DoneIff m₁.fate m₁.cleaning (Quiet m₁.fate)
      (∀ e ∈ entries, Intact quickCheck e)
      (fun t (_ : δ) => t = m.tree) (verifyArchive openZip quickCheck base location temporary) _ :=
    fun _ => verifyArchive_done hdeploy hname hlocation hopen hroom
  refine ⟨⟨fun ⟨m', hdone⟩ => ?_, fun ⟨⟨m₁, hq⟩, hall⟩ => ?_⟩, fun m' hdone q _ => ?_⟩
  · obtain ⟨⟨⟩, m₁, hq, hrest⟩ := done_bind.mp hdone
    obtain ⟨hquiet₁, hat⟩ := hquick m₁ hq
    exact ⟨⟨m₁, hq⟩, ((hspec m₁).run hquiet₁ hat).mpr ⟨(), m', hrest⟩⟩
  · obtain ⟨hquiet₁, hat⟩ := hquick m₁ hq
    obtain ⟨⟨⟩, m', hrest⟩ := ((hspec m₁).run hquiet₁ hat).mp hall
    exact ⟨m', done_bind.mpr ⟨(), m₁, hq, hrest⟩⟩
  · have hframe := fullVerify_confined openZip sha256 quickCheck base location expectedSize expectedSHA256 temporary m
    rw [hdone] at hframe
    by_cases hown : checkPath base temporary <+: q
    · -- the temporary directory was not there before, and is not there now
      obtain ⟨⟨⟩, m₁, hq, hrest⟩ := done_bind.mp hdone
      obtain ⟨hquiet₁, hat⟩ := hquick m₁ hq
      have hrun := Does.run (hspec m₁) hat
      rw [hrest] at hrun
      left
      rw [hrun.2.2.2 hquiet₁ q hown]
      obtain ⟨rest, rfl⟩ := hown
      by_cases hnil : rest = []
      · rw [hnil, List.append_nil, hroom.free]
      · exact (Tree.below_none m.tree (by rw [hroom.free]; exact nofun) hnil).symm
    · exact hframe q hown

end

/-! ### A snapshot with a database -/

def mailEntries : List ZipEntry :=
  [⟨"_snapshot/manifest.json", false, false, some ([123, 125], true)⟩,
   ⟨"appvar/box/", false, true, some ([], true)⟩,
   ⟨"appvar/mail.db", false, false, some (sqliteMagic ++ [7], true)⟩]

def mailZip (bytes : List Byte) : Option (List ZipEntry) := if bytes = [80, 75] then some mailEntries else none

def mailTree : Tree :=
  Tree.bare.withObjects [(["docs"], .directory), (["docs", "deploy-a"], .directory),
    (["docs", "deploy-a", "t1"], .directory), (["docs", "deploy-a", "t1", "snapshot.zip"], .file [80, 75]),
    (["docs", "deploy-a", "t1", "manifest.json"], .file [123, 125])]

def mailLocation : Location := ⟨"deploy-a/t1", ["docs", "deploy-a", "t1", "snapshot.zip"]⟩

def acceptsMail (bytes : List Byte) : Bool := decide (bytes.length = 17)

/-- The snapshot passes where SQLite accepts the database. -/
theorem fullVerify_exact_mail :
    ∃ m', fullVerify mailZip (fun _ => "digest") acceptsMail ["docs"] mailLocation 2 "digest" "verify-1"
      (Machine.calm mailTree ()) = .done () m' := by
  have hquick : (quickVerify (entryNames mailZip) (fun _ => "digest") ["docs"] mailLocation 2 "digest"
      (Machine.calm mailTree ())).isDone = true := by decide +kernel
  obtain ⟨⟨⟩, m₁, hrun⟩ := Outcome.isDone_iff.mp hquick
  have hintact : ∀ e ∈ mailEntries, Intact acceptsMail e := by
    refine List.forall_mem_cons.mpr ⟨?_, List.forall_mem_cons.mpr ⟨?_, List.forall_mem_singleton.mpr ?_⟩⟩
    · exact ⟨by decide +kernel, rfl, fun _ => ⟨_, rfl, by decide +kernel⟩⟩
    · exact ⟨by decide +kernel, rfl, fun _ => ⟨_, rfl, by decide +kernel⟩⟩
    · exact ⟨by decide +kernel, rfl, fun _ => ⟨_, rfl, by decide +kernel⟩⟩
  have hopen : mailZip [80, 75] = some mailEntries := rfl
  have hlocation : mailLocation.directory = pathJoin ["deploy-a", "t1"] := by decide +kernel
  have hroom : Checkable ["docs"] "deploy-a" "t1" "verify-1" [80, 75] (Machine.calm mailTree ()).tree :=
    ⟨by decide +kernel, by decide +kernel, by decide +kernel⟩
  exact (fullVerify_exact (by decide +kernel) (by decide +kernel) hlocation hopen (fun _ _ => rfl) hroom).1.mpr
    ⟨⟨m₁, hrun⟩, hintact⟩

end AppBackup.Storage
