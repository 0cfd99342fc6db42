import AppBackup.Lib.Directories
import AppBackup.Storage.Archive

/- What the storage leaves standing. Its calls make directories and files and move files, so
   an assertion that lasts is kept by all of them but the removal of a directory; and an
   archive that is committed lies in a directory that is there. -/
namespace AppBackup.Storage
open Program Disk Path Text

variable {δ : Type}

theorem proper_trash : Proper "_trash" := by decide +kernel

theorem proper_partial : Proper "_partial" := by decide +kernel

theorem split_proper {name : String} (h : Proper name) : split name = [name] := by
  have hsplit := split_join (List.cons_ne_nil name []) fun n hn => by
    rw [List.mem_singleton.mp hn]
    exact h.2.2.2
  rw [join_singleton] at hsplit
  exact hsplit

theorem split_pair {a b : String} (ha : Proper a) (hb : Proper b) : split (pathJoin [a, b]) = [a, b] := by
  have hall : ∀ n ∈ [a, b], Proper n := by
    intro n hn
    obtain rfl | hn := List.mem_cons.mp hn
    · exact ha
    · rw [List.mem_singleton.mp hn]
      exact hb
  rw [pathJoin_proper (List.cons_ne_nil a [b]) hall]
  exact split_join (List.cons_ne_nil a [b]) fun n hn => (hall n hn).2.2.2

/-! ## What the calls always keep -/

section
variable {κ : Fates} {b : Bool} {I : Tree → δ → Prop} {new : List String → Prop} {base target : List String}
  {relative : String}

theorem always_ensureWithin : Always κ b I (ensureWithin base target : Action δ Unit) :=
  ensureWithin_does.post (fun _ _ _ h => h.1) (fun _ _ _ h => h.1) fun _ _ h => h

theorem always_resolve : Always κ b I (resolve base relative : Action δ (List String)) :=
  resolve_does.post (fun _ _ _ h => h.1) (fun _ _ _ h => h.1) fun _ _ h => h

theorem always_sync : Always κ b I (sync : Action δ Unit) := Always.mapError (always_look _)

theorem always_makeDirectories (hI : Lasting new I) (hnew : ∀ q, q <+: base ++ split relative → new q) :
    Always κ b I (makeDirectories base relative : Action δ Unit) := by
  refine makeDirectories_does.post ?_ ?_ fun t d h => partLaid_lasting hI hnew h
  · intro _ t d h
    obtain ⟨-, t', ht', hlaid, -⟩ := h
    exact hI t' t d ht' (Tree.grows_laid hnew hlaid)
  · intro _ t d h
    obtain ⟨t', q, ⟨ht', -⟩, hrest⟩ := h
    exact partLaid_lasting hI hnew ⟨t', q, ht', hrest⟩

theorem always_createArchive (hI : Lasting new I) {p : Partial} (hp : new p.archive) :
    Always κ b I (createArchive base p : Action δ Unit) :=
  Always.bind always_ensureWithin fun _ => Always.mapError (always_createExclusive hI hp)

theorem always_discardArchive (hI : Lasting new I) (p : Partial) :
    Always κ b I (discardArchive base p : Action δ Unit) := by
  refine Always.bind always_ensureWithin fun _ => ?_
  refine Always.bind (Always.attempt (always_remove hI _)) fun r => ?_
  split
  · exact Always.pure _
  · exact Always.pure _
  · exact Always.fail _

theorem always_digest {sha256 : List Byte → String} :
    Always κ b I (digest sha256 base target : Action δ (Int × String)) :=
  Always.bind always_ensureWithin fun _ => Always.bind (Always.mapError (always_look _)) fun _ => Always.pure _

theorem always_syncArchive : Always κ b I (syncArchive base target : Action δ Unit) :=
  Always.bind always_ensureWithin fun _ => Always.bind (Always.mapError (always_look _)) fun _ => always_sync

theorem always_writeManifest (hI : Lasting (fun _ => True) I) (location : Location) (bytes : List Byte) :
    Always κ b I (writeManifest base location bytes : Action δ Unit) := by
  refine Always.bind always_resolve fun directory => ?_
  refine Always.bind always_ensureWithin fun _ => Always.bind always_ensureWithin fun _ => ?_
  refine Always.bind (Always.mapError (always_createExclusive hI trivial)) fun _ => ?_
  refine Always.bind (Always.onFailure ?_ (always_remove hI _)) fun _ => ?_
  · exact Always.bind (Always.mapError (always_write hI _ _)) fun _ => always_sync
  · exact Always.bind (Always.mapError (always_rename hI _ trivial)) fun _ => always_sync

theorem always_quickVerify {openZip : List Byte → Option (List String)} {sha256 : List Byte → String}
    (location : Location) (size : Int) (expected : String) :
    Always κ b I (quickVerify openZip sha256 base location size expected : Action δ Unit) := by
  refine Always.bind always_resolve fun archive => Always.bind always_resolve fun manifest => ?_
  refine Always.bind (Always.mapError (always_look _)) fun _ => Always.bind always_digest fun actual => ?_
  refine Always.ite (Always.fail _) (Always.bind (Always.mapError (always_look _)) fun bytes => ?_)
  split
  · exact Always.fail _
  · exact Always.ite (Always.fail _) (Always.ite (Always.pure _) (Always.fail _))

/-- The removal of a directory keeps what its removal from the tree keeps. -/
theorem always_removeDirectory
    (h : ∀ t d left, I t d → I (t.removeAll (base ++ split relative) left) d) :
    Always κ b I (removeDirectory base relative : Action δ Unit) := by
  refine removeDirectory_does.post ?_ ?_ ?_
  · intro _ t d ht
    obtain ⟨t', ht', ⟨rfl, -⟩ | rfl⟩ := ht
    · exact ht'
    · exact h t' d _ ht'
  · intro _ t d ht
    obtain ⟨t', ht', rfl | ⟨left, rfl⟩, -⟩ := ht
    · exact ht'
    · exact h t' d left ht'
  · intro t d ht
    obtain ⟨t', ht', rfl | ⟨left, rfl⟩⟩ := ht
    · exact ht'
    · exact h t' d left ht'

/-! ## Where an archive is written and where it goes -/

theorem createPartial_does (hI : Lasting new I) {id : String}
    (hnew : ∀ q, q <+: partialPath base id → new q) : Does κ b I (createPartial base id)
      (fun p t d => I t d ∧ Proper id ∧ p.directory = pathJoin ["_partial", id] ∧
        p.archive = partialPath base id ++ ["snapshot.zip"]) (fun _ => I) I := by
  unfold createPartial
  dsimp only
  refine Does.ite (fun hseg => ?_) fun _ => Does.fail fun _ _ h => h
  have hid := safeSegment_proper hseg
  have hpair := split_pair proper_partial hid
  have hdirectory : ∀ q, q <+: base ++ split (pathJoin ["_partial", id]) → new q := by
    rw [hpair]
    exact hnew
  refine Does.bind (always_makeDirectories hI hdirectory) fun _ => ?_
  refine Does.bind (resolve_does.post (fun _ _ _ h => h) (fun _ _ _ h => h.1) fun _ _ h => h) fun archive => ?_
  refine Does.pure fun t d h => ⟨h.1, hid, rfl, ?_⟩
  have hnames : ∀ n ∈ ["_partial", id], Proper n := by
    intro n hn
    obtain rfl | hn := List.mem_cons.mp hn
    · exact proper_partial
    · rw [List.mem_singleton.mp hn]
      exact hid
  have harchive : split (pathJoin [pathJoin ["_partial", id], "snapshot.zip"]) =
      ["_partial", id, "snapshot.zip"] := by
    rw [pathJoin_proper (List.cons_ne_nil _ _) hnames,
      pathJoin_concat (List.cons_ne_nil _ _) hnames proper_snapshot]
    refine split_join (List.cons_ne_nil _ _) fun n hn => ?_
    obtain hn | hn := List.mem_append.mp hn
    · exact (hnames n hn).2.2.2
    · rw [List.mem_singleton.mp hn]
      exact proper_snapshot.2.2.2
  rw [h.2.2, harchive]
  exact (List.append_assoc base ["_partial", id] ["snapshot.zip"]).symm

theorem passable_of_some {t : Tree} {p : List String} (h : t.obj p ≠ none) : Tree.Passable t p.dropLast := by
  obtain ⟨o, ho⟩ := Option.ne_none_iff_exists'.mp h
  by_cases hp : p = []
  · rw [hp]
    exact Tree.passable_of_directory t.root
  · exact Tree.passable_of_directory (t.parent_directory ho hp)

/-- The look of `CommitArchive` changes nothing, and in a calm process finds whether anything is there. -/
theorem directoryTaken_does {directory : String} (hsafe : safeRelative directory = true)
    {F : StorageError → Tree → δ → Prop} : Does κ b I (directoryTaken base directory)
      (fun taken t d => I t d ∧ (Calm κ b → (taken = true ↔ t.obj (base ++ split directory) ≠ none))) F I := by
  refine Does.bind (R := fun r t d => I t d ∧ (Calm κ b →
    (r.isOk = true ↔ t.obj (base ++ split directory) ≠ none)))
    (Does.attempt ?_) fun r => ?_
  · refine Does.bind (resolve_does.post (fun _ _ _ h => h) ?_ fun _ _ h => h) fun p => ?_
    · intro _ t d h
      refine ⟨h.1, fun hcalm => iff_of_false Bool.false_ne_true fun hsome => ?_⟩
      exact h.2 hcalm hsafe (passable_of_some hsome)
    · refine Does.start (fun _ _ h => h.2.2) fun hp => ?_
      subst hp
      refine Does.mapError (look_does.weaken (fun _ _ h => h.1) ?_ ?_ fun _ _ h => h)
      · intro o t d h
        refine ⟨h.1, fun _ => iff_of_true rfl ?_⟩
        rw [Tree.lookup_iff.mp h.2]
        exact Option.some_ne_none o
      · intro e t d h
        refine ⟨h.1, fun hcalm => iff_of_false Bool.false_ne_true fun hsome => ?_⟩
        obtain hlook | ⟨hnot, -⟩ := h.2
        · exact hsome (Tree.lookup_error hlook).1
        · exact hnot hcalm
  · split
    · exact Does.pure fun t d h => ⟨h.1, fun hcalm => iff_of_true rfl ((h.2 hcalm).mp rfl)⟩
    · refine Does.pure fun t d h => ⟨h.1, fun hcalm => iff_of_false Bool.false_ne_true fun hsome => ?_⟩
      exact Bool.false_ne_true ((h.2 hcalm).mpr hsome)

/-- The archive is moved to a directory that is there then. -/
theorem moveArchive_does {R : Tree → δ → Prop} (hR : Lasting (fun _ => True) R) {p : Partial}
    {directory : String} :
    Does κ b R (moveArchive base p directory)
      (fun location t d => location.directory = directory ∧
        t.obj (base ++ split directory) = some .directory ∧ R t d) (fun _ => R) R := by
  let S : Tree → δ → Prop := fun t d => t.obj (base ++ split directory) = some .directory ∧ R t d
  have hS : Lasting (fun _ => True) S := fun t t' d h hgrows =>
    ⟨hgrows.kept _ h.1, hR t t' d h.2 hgrows⟩
  refine Does.bind (R := fun _ => S) (makeDirectories_does.post ?_ ?_ ?_) fun _ => ?_
  · intro _ t d h
    obtain ⟨-, t', ht', hlaid, -⟩ := h
    refine ⟨?_, hR t' t d ht' (Tree.grows_laid (fun _ _ => trivial) hlaid)⟩
    rw [hlaid]
    exact if_pos (List.prefix_refl _)
  · intro _ t d h
    obtain ⟨t', q, ⟨ht', -⟩, hrest⟩ := h
    exact partLaid_lasting hR (fun _ _ => trivial) ⟨t', q, ht', hrest⟩
  · exact fun t d h => partLaid_lasting hR (fun _ _ => trivial) h
  have hfail : ∀ t d, S t d → R t d := fun _ _ h => h.2
  refine Does.bind (always_resolve.post (fun _ _ _ h => h) (fun _ t d h => hfail t d h) hfail) fun archive => ?_
  refine Does.bind ((Always.mapError (always_rename hS _ trivial)).post (fun _ _ _ h => h)
    (fun _ t d h => hfail t d h) hfail) fun _ => ?_
  exact Does.pure fun t d h => ⟨rfl, h⟩

theorem proper_suffixed {timestamp suffix : String} (ht : Proper timestamp) (hs : Proper suffix) :
    Proper (timestamp ++ "-" ++ suffix) := by
  have hlist : (timestamp ++ "-" ++ suffix).toList = timestamp.toList ++ '-' :: suffix.toList := by simp
  have hdash : '-' ∈ (timestamp ++ "-" ++ suffix).toList := by simp [hlist]
  refine ⟨?_, ?_, ?_, ?_⟩
  · intro he
    rw [he] at hdash
    exact absurd hdash (by decide)
  · intro he
    rw [he] at hdash
    exact absurd hdash (by decide)
  · intro he
    rw [he] at hdash
    exact absurd hdash (by decide)
  · intro hslash
    rw [hlist, List.mem_append, List.mem_cons] at hslash
    obtain h | h | h := hslash
    · exact ht.2.2.2 h
    · exact absurd h (by decide)
    · exact hs.2.2.2 h

/-- A committed archive lies in a directory of its deployment, named for its time, or for its
time and its job where that was taken. `R` is what holds of the directory before it is made. -/
theorem commitArchive_does (hcalm : Calm κ b) {I' : Tree → δ → Prop} {R : String → Tree → δ → Prop}
    {p : Partial}
    {timestamp deployID suffix : String} (hR : ∀ directory, Lasting (fun _ => True) (R directory))
    (hfree : Proper deployID → Proper timestamp → ∀ t d, I t d →
      t.obj (finalPath base deployID timestamp) = none → R (pathJoin [deployID, timestamp]) t d)
    (htaken : ∀ t d, I t d → t.obj (finalPath base deployID timestamp) ≠ none →
      R (pathJoin [deployID, timestamp ++ "-" ++ suffix]) t d)
    (hI : ∀ t d, I t d → I' t d) (hRI : ∀ directory t d, R directory t d → I' t d) :
    Does κ b I (commitArchive base p timestamp deployID suffix)
      (fun location t d => (∃ name, Proper deployID ∧ Proper name ∧
        location.directory = pathJoin [deployID, name] ∧
        t.obj (finalPath base deployID name) = some .directory) ∧ R location.directory t d)
      (fun _ => I') I' := by
  refine Does.ite (fun hseg => ?_) fun _ => Does.fail hI
  simp only [Bool.and_eq_true] at hseg
  have htime := safeSegment_proper hseg.1.1
  have hdeploy := safeSegment_proper hseg.1.2
  have hsuffixed := proper_suffixed htime (safeSegment_proper hseg.2)
  have hsafe : safeRelative (pathJoin [deployID, timestamp]) = true := by
    have hnames : ∀ n ∈ [deployID, timestamp], Proper n := by
      intro n hn
      obtain rfl | hn := List.mem_cons.mp hn
      · exact hdeploy
      · rw [List.mem_singleton.mp hn]
        exact htime
    rw [pathJoin_proper (List.cons_ne_nil _ _) hnames]
    exact safeRelative_join (List.cons_ne_nil _ _) hnames
  have hmove : ∀ {name : String}, Proper name → Does κ b (R (pathJoin [deployID, name]))
      (moveArchive base p (pathJoin [deployID, name]))
      (fun location t d => (∃ name, Proper deployID ∧ Proper name ∧
        location.directory = pathJoin [deployID, name] ∧
        t.obj (finalPath base deployID name) = some .directory) ∧ R location.directory t d)
      (fun _ => I') I' := by
    intro name hname
    refine (moveArchive_does (hR _)).post ?_ (fun _ t d h => hRI _ t d h) fun t d h => hRI _ t d h
    intro location t d h
    obtain ⟨hlocation, hdir, ht⟩ := h
    rw [split_pair hdeploy hname] at hdir
    exact ⟨⟨name, hdeploy, hname, hlocation, hdir⟩, hlocation ▸ ht⟩
  refine Does.bind (always_ensureWithin.post (fun _ _ _ h => h) (fun _ t d h => hI t d h) hI) fun _ => ?_
  refine Does.bind (always_resolve.post (fun _ _ _ h => h) (fun _ t d h => hI t d h) hI) fun _ => ?_
  refine Does.bind ((directoryTaken_does hsafe).post (fun _ _ _ h => h) (fun _ _ _ h => h) hI) fun taken => ?_
  rw [split_pair hdeploy htime]
  refine Does.ite (fun hyes => ?_) fun hno => ?_
  · exact (hmove hsuffixed).pre fun t d h => htaken t d h.1 ((h.2 hcalm).mp hyes)
  · refine (hmove htime).pre fun t d h => hfree hdeploy htime t d h.1 ?_
    by_contra hsome
    exact hno ((h.2 hcalm).mpr hsome)

end

end AppBackup.Storage
