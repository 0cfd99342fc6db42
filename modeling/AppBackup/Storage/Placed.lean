import AppBackup.Storage.Commit
import AppBackup.Storage.Restore

/- Where a stored archive ends up (`storage/storage.go`): a commit that is done has the bytes
   of the partial archive in one of two directories of the deployment, the manifest is put
   beside them, and `QuickVerify` accepts the two by the size and the digest of those bytes. -/
namespace AppBackup.Storage
open Program Disk Path Text

variable {δ : Type}

/-- The manifest beside the archive. -/
def manifestPath (base : List String) (deployID name : String) : List String :=
  finalPath base deployID name ++ ["manifest.json"]

section
variable {κ : Fates} {b : Bool} {base : List String} {p : Partial} {deployID timestamp suffix name : String}
  {bytes : List Byte}

theorem laid_file {t t' : Tree} {q r : List String} (hlaid : Tree.Laid t q t') (hpass : Tree.Passable t q)
    (hfile : t.obj r = some (.file bytes)) : t'.obj r = some (.file bytes) :=
  laid_kept [] hlaid hpass r _ List.not_mem_nil hfile nofun

/-! ## The commit -/

theorem moveArchive_places (hdeploy : Proper deployID) (hname : Proper name) :
    Yields κ b (fun t (_ : δ) => t.obj p.archive = some (.file bytes))
      (moveArchive base p (pathJoin [deployID, name]))
      fun location t _ => location.directory = pathJoin [deployID, name] ∧
        t.obj (archivePath base deployID name) = some (.file bytes) := by
  have hsplit : split (pathJoin [pathJoin [deployID, name], "snapshot.zip"]) = [deployID, name, "snapshot.zip"] := by
    rw [join_archive hdeploy hname]
    exact split_join (List.cons_ne_nil _ _) fun n hn => (proper_archive hdeploy hname n hn).2.2.2
  unfold moveArchive
  refine Does.bind (R := fun _ t (_ : δ) => t.obj p.archive = some (.file bytes))
    ((makeDirectories_does).yields.post ?_ (fun _ _ _ ht => ht) fun _ _ ht => ht) fun _ => ?_
  · intro _ t d ht
    obtain ⟨-, t', hfile, hlaid, hpass⟩ := ht
    exact laid_file hlaid hpass hfile
  refine Does.bind (resolve_does.yields) fun archive => ?_
  refine Does.start (fun _ _ ht => ht.2.2) fun harchive => ?_
  rw [hsplit, archivePath_eq] at harchive
  subst harchive
  refine Does.bind (R := fun _ t (_ : δ) => t.obj (archivePath base deployID name) = some (.file bytes))
    (Does.mapError (change_atOnce.yields.post ?_ (fun _ _ _ ht => ht) fun _ _ ht => ht)) fun _ => ?_
  · intro _ t d ht
    obtain ⟨t', ⟨hfile, -⟩, hrename⟩ := ht
    obtain ⟨moved, hmoved, hobj⟩ := Tree.rename_ok hrename
    rw [hfile] at hmoved
    obtain rfl := Object.file.inj (Option.some.inj hmoved)
    rw [hobj, Function.update_self]
  · exact Does.pure fun _ _ ht => ⟨rfl, ht⟩

/-- A commit that is done has the partial archive under one of its two names. -/
theorem commitArchive_places :
    Yields κ b (fun t (_ : δ) => t.obj p.archive = some (.file bytes))
      (commitArchive base p timestamp deployID suffix)
      fun location t _ => ∃ name, Proper deployID ∧ Proper name ∧
        (name = timestamp ∨ name = timestamp ++ "-" ++ suffix) ∧ location.directory = pathJoin [deployID, name] ∧
        t.obj (archivePath base deployID name) = some (.file bytes) := by
  unfold commitArchive
  refine Does.ite (fun hseg => ?_) fun _ => Does.fail fun _ _ _ => trivial
  simp only [Bool.and_eq_true] at hseg
  have htime := safeSegment_proper hseg.1.1
  have hdeploy := safeSegment_proper hseg.1.2
  have hsuffixed := proper_suffixed htime (safeSegment_proper hseg.2)
  refine Does.bind always_ensureWithin.yields fun _ => ?_
  refine Does.bind always_resolve.yields fun _ => ?_
  refine Does.bind (directoryTaken_does (F := fun _ _ _ => True) (safeRelative_pair hdeploy htime)).yields
    fun taken => ?_
  refine Does.ite (fun _ => ?_) fun _ => ?_
  · refine (moveArchive_places hdeploy hsuffixed).weaken (fun _ _ ht => ht.1) ?_ (fun _ _ _ ht => ht) fun _ _ ht => ht
    exact fun _ _ _ ht => ⟨_, hdeploy, hsuffixed, .inr rfl, ht⟩
  · refine (moveArchive_places hdeploy htime).weaken (fun _ _ ht => ht.1) ?_ (fun _ _ _ ht => ht) fun _ _ ht => ht
    exact fun _ _ _ ht => ⟨_, hdeploy, htime, .inl rfl, ht⟩

theorem always_commitArchive {I : Tree → δ → Prop} (hI : Lasting (fun _ => True) I) :
    Always κ b I (commitArchive base p timestamp deployID suffix : Action δ Location) := by
  have hmove : ∀ directory, Always κ b I (moveArchive base p directory : Action δ Location) := fun directory =>
    (moveArchive_does hI).post (fun _ _ _ ht => ht.2.2) (fun _ _ _ ht => ht) fun _ _ ht => ht
  unfold commitArchive
  refine Always.ite ?_ (Always.fail _)
  refine Always.bind always_ensureWithin fun _ => Always.bind always_resolve fun _ => Always.bind ?_ fun taken =>
    Always.ite (hmove _) (hmove _)
  refine Always.bind (Always.attempt (Always.bind always_resolve fun _ => Always.mapError (always_look _))) fun r => ?_
  split
  · exact Always.pure _
  · exact Always.pure _

theorem digest_yields {sha256 : List Byte → String} {q : List String} :
    Yields κ b (fun t (_ : δ) => t.obj q = some (.file bytes)) (digest sha256 base q)
      fun found t _ => found = ((bytes.length : Int), sha256 bytes) ∧ t.obj q = some (.file bytes) := by
  unfold digest
  refine Does.bind always_ensureWithin.yields fun _ => ?_
  refine Does.bind (R := fun found t (_ : δ) => found = bytes ∧ t.obj q = some (.file bytes))
    (Does.mapError (look_does.yields.post ?_ (fun _ _ _ ht => ht) fun _ _ ht => ht)) fun found => ?_
  · intro found t d ht
    have hread := Tree.read_iff.mp ht.2
    rw [ht.1] at hread
    exact ⟨(Object.file.inj (Option.some.inj hread)).symm, ht.1⟩
  · exact Does.pure fun _ _ ht => ⟨by rw [ht.1], ht.2⟩

/-! ## The manifest -/

theorem manifest_ne_archive : manifestPath base deployID name ≠ archivePath base deployID name := by
  intro h
  have hlast := List.append_cancel_left h
  exact absurd hlast (by decide)

theorem writeManifest_places (hdeploy : Proper deployID) (hname : Proper name) {location : Location}
    (hlocation : location.directory = pathJoin [deployID, name]) (external : List Byte) :
    Yields κ b (fun t (_ : δ) => t.obj (archivePath base deployID name) = some (.file bytes))
      (writeManifest base location external)
      fun _ t _ => t.obj (manifestPath base deployID name) = some (.file external) ∧
        t.obj (archivePath base deployID name) = some (.file bytes) := by
  let temporary : List String := finalPath base deployID name ++ [".manifest.json.tmp"]
  let K : Tree → Prop := fun t => t.obj (archivePath base deployID name) = some (.file bytes)
  have hne : archivePath base deployID name ≠ temporary := by
    intro h
    have hlast := List.append_cancel_left h
    exact absurd hlast (by decide)
  have hK : Unseen temporary K := unseen_obj hne
  have hno : False → Quiet κ := False.elim
  unfold writeManifest
  refine Does.bind resolve_does.yields fun directory => ?_
  refine Does.start (fun _ _ ht => ht.2.2) fun hdirectory => ?_
  rw [hlocation, split_pair hdeploy hname] at hdirectory
  subst hdirectory
  refine Does.bind always_ensureWithin.yields fun _ => Does.bind always_ensureWithin.yields fun _ => ?_
  refine Does.bind (R := fun _ t (_ : δ) => t.obj temporary = some (.file []) ∧ K t)
    (Does.mapError ((doneIff_createExclusive hno hK).yields.weaken ?_ ?_ (fun _ _ _ ht => ht) fun _ _ ht => ht))
    fun _ => ?_
  · exact fun t d ht => ⟨False.elim, ht.1⟩
  · exact fun _ _ _ ht => ⟨ht.2.1, ht.2.2.2⟩
  refine Does.bind (R := fun _ t (_ : δ) => t.obj temporary = some (.file external) ∧ K t)
    (Does.onFailure (G := fun _ _ _ => True) (Does.bind
      (R := fun _ t (_ : δ) => t.obj temporary = some (.file external) ∧ K t)
      (Does.mapError ((doneIff_write hno hK external).yields.post ?_ (fun _ _ _ ht => ht) fun _ _ ht => ht))
        fun _ => always_sync.yields) fun _ => ?_) fun _ => ?_
  · exact fun _ _ _ ht => ht.2
  · have hlasting : Lasting (fun _ => True) fun (_ : Tree) (_ : δ) => True := fun _ _ _ _ _ => trivial
    exact (always_remove hlasting _).post (fun _ _ _ ht => ht) (fun _ _ _ ht => ht)
      fun _ _ ht => ht
  refine Does.bind (R := fun _ t (_ : δ) => t.obj (manifestPath base deployID name) = some (.file external) ∧ K t)
    (Does.mapError (change_atOnce.yields.post ?_ (fun _ _ _ ht => ht) fun _ _ ht => ht)) fun _ => always_sync.yields
  intro _ t d ht
  obtain ⟨t', ⟨hfile, hkept⟩, hrename⟩ := ht
  have hrename : t'.rename temporary (manifestPath base deployID name) = .ok t := hrename
  obtain ⟨moved, hmoved, hobj⟩ := Tree.rename_ok hrename
  obtain rfl := Object.file.inj (Option.some.inj (hfile.symm.trans hmoved))
  refine ⟨?_, ?_⟩
  · rw [hobj]
    exact Function.update_self ..
  · show t.obj (archivePath base deployID name) = some (.file bytes)
    rw [hobj, Function.update_of_ne manifest_ne_archive.symm, Function.update_of_ne hne]
    exact hkept

/-! ## The check -/

theorem checkNames_done {H : Prop} {P : Tree → δ → Prop} {names : List String}
    (hsafe : ∀ name ∈ names, safeZipPath name = true) (hmanifest : "_snapshot/manifest.json" ∈ names) :
    DoneIff κ b H True P (checkNames names : Action δ Unit) fun _ => P := by
  have hany : (names.any fun name => !safeZipPath name) = false := by
    rw [List.any_eq_false]
    intro name hname
    rw [hsafe name hname]
    decide
  unfold checkNames
  rw [hany, if_neg Bool.false_ne_true, if_pos (List.contains_iff_mem.mpr hmanifest)]
  exact DoneIff.pure fun _ _ ht => ht

/-- An archive whose entries a reader accepts, beside a manifest, passes by its own size and digest. -/
theorem quickVerify_done {H : Prop} (hH : H → Quiet κ) {openZip : List Byte → Option (List String)}
    {sha256 : List Byte → String} (hdeploy : Proper deployID) (hname : Proper name) {location : Location}
    (hlocation : location.directory = pathJoin [deployID, name]) {names : List String}
    (hopen : openZip bytes = some names) (hsafe : ∀ name ∈ names, safeZipPath name = true)
    (hmanifest : "_snapshot/manifest.json" ∈ names) {P : Tree → δ → Prop}
    (hP : ∀ t d, P t d → t.obj (archivePath base deployID name) = some (.file bytes) ∧
      ∃ o, t.obj (manifestPath base deployID name) = some o) :
    DoneIff κ b H True P (quickVerify openZip sha256 base location bytes.length (sha256 bytes) : Action δ Unit)
      fun _ => P := by
  have hnames := proper_pair hdeploy hname
  -- the names of a file in the directory of the snapshot
  have hbelow : ∀ {child : String}, Proper child →
      pathJoin [location.directory, child] = join [deployID, name, child] ∧
      split (pathJoin [location.directory, child]) = [deployID, name, child] := by
    intro child hchild
    have hall : ∀ n ∈ [deployID, name, child], Proper n := by
      intro n hn
      obtain rfl | hn := List.mem_cons.mp hn
      · exact hdeploy
      · exact proper_pair hname hchild n hn
    have hjoin : pathJoin [location.directory, child] = join [deployID, name, child] := by
      rw [hlocation, pathJoin_proper (List.cons_ne_nil _ _) hnames,
        pathJoin_concat (List.cons_ne_nil _ _) hnames hchild]
      rfl
    exact ⟨hjoin, by rw [hjoin]; exact split_join (List.cons_ne_nil _ _) fun n hn => (hall n hn).2.2.2⟩
  have hparent : ∀ t d, P t d → t.obj (finalPath base deployID name) = some .directory := by
    intro t d ht
    have hup :=
        t.parent_directory (hP t d ht).1 (by unfold archivePath; exact List.append_ne_nil_of_right_ne_nil _ nofun)
    rw [archivePath_dropLast] at hup
    exact hup
  -- both files resolve, for their directory is there
  have hresolve : ∀ {child : String}, Proper child → DoneIff κ b H True P
      (resolve base (pathJoin [location.directory, child]) : Action δ (List String))
      (fun q t d => q = finalPath base deployID name ++ [child] ∧ P t d) := by
    intro child hchild
    obtain ⟨hjoin, hsplit⟩ := hbelow hchild
    have hpath : base ++ [deployID, name, child] = finalPath base deployID name ++ [child] := by
      unfold finalPath
      rw [List.append_assoc]
      rfl
    have hrelative : safeRelative (pathJoin [location.directory, child]) = true := by
      rw [hjoin]
      refine safeRelative_join (List.cons_ne_nil _ _) fun n hn => ?_
      obtain rfl | hn := List.mem_cons.mp hn
      · exact hdeploy
      · exact proper_pair hname hchild n hn
    have hdone := @resolve_done δ κ b H base (pathJoin [location.directory, child]) P hH hrelative fun t d ht => by
      rw [hsplit, hpath, List.dropLast_concat]
      exact hparent t d ht
    rw [hsplit, hpath] at hdone
    exact hdone
  have hread : DoneIff κ b H True P (io (readFile (archivePath base deployID name)) : Action δ (List Byte))
      (fun found t d => found = bytes ∧ P t d) :=
    DoneIff.mapError (doneIff_look hH fun t d ht => ⟨bytes, Tree.read_iff.mpr (hP t d ht).1, rfl, ht⟩)
  have hwithin : DoneIff κ b H True P (ensureWithin base (archivePath base deployID name) : Action δ Unit) fun _ =>
      P := by
    refine Does.quiet hH (ensureWithin_does.post ?_ ?_ fun _ _ hc => hc) fun hcalm => lives_ensureWithin hcalm
    · exact fun _ _ _ ht => ⟨trivial, ht.1⟩
    · intro _ t d ht hh
      refine absurd ?_ (ht.2 (hH hh b) ?_)
      · rw [archivePath_dropLast]
        exact Tree.passable_of_directory (hparent t d ht.1)
      · rw [← archivePath_eq]
        exact List.prefix_append _ _
  -- the checks in their order: archive, manifest, size and digest, entry names
  unfold quickVerify
  refine DoneIff.next (hresolve proper_snapshot) fun archive => ?_
  refine DoneIff.start (fun _ _ ht => ht.1) fun harchive => ?_
  subst harchive
  refine DoneIff.next ((hresolve (by decide +kernel)).weaken (fun _ _ ht => ht.2) Iff.rfl fun _ _ _ ht => ht)
    fun manifest => ?_
  refine DoneIff.start (fun _ _ ht => ht.1) fun hpath => ?_
  subst hpath
  refine DoneIff.next (Q := fun _ => P) (DoneIff.mapError (doneIff_look hH fun t d ht => ?_)) fun _ => ?_
  · obtain ⟨-, o, ho⟩ := hP t d ht.2
    exact ⟨o, Tree.lookup_iff.mpr ho, ht.2⟩
  refine DoneIff.next (Q := fun found t d => found = ((bytes.length : Int), sha256 bytes) ∧ P t d) ?_ fun found => ?_
  · unfold digest
    refine DoneIff.next hwithin fun _ => DoneIff.next hread fun found => ?_
    exact DoneIff.pure fun _ _ ht => ⟨by rw [ht.1], ht.2⟩
  refine DoneIff.start (fun _ _ ht => ht.1) fun hfound => ?_
  subst hfound
  dsimp only
  rw [if_neg (by simp)]
  refine DoneIff.next (hread.weaken (fun _ _ ht => ht.2) Iff.rfl fun _ _ _ ht => ht) fun found => ?_
  refine DoneIff.start (fun _ _ ht => ht.1) fun hfound => ?_
  subst hfound
  rw [hopen]
  exact (checkNames_done hsafe hmanifest).weaken (fun _ _ ht => ht.2) Iff.rfl fun _ _ _ ht => ht

end

end AppBackup.Storage
