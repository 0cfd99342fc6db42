import AppBackup.Lib.Footprint
import AppBackup.Storage.Commit

/- What the calls of the storage change (`storage/storage.go`): those that write an archive
   change it and make directories; a commit that fails has moved nothing; and a directory
   whose parent is there is removed with all below it unless a call fails. -/
namespace AppBackup.Storage
open Program Disk Path Text

variable {δ : Type} {κ : Fates} {b : Bool} {own : List String → Prop} {I : Tree → δ → Prop}
    {base : List String}
  {p : Partial} {relative deployID timestamp suffix name : String}

theorem framed_makeDirectories (h : Framed own I) : Always κ b I (makeDirectories base relative : Action δ Unit) := by
  refine makeDirectories_does.post ?_ ?_ fun t d hpart => h.partLaid hpart
  · intro _ t d ht
    obtain ⟨-, t', ht', hlaid, hpass⟩ := ht
    exact h.laid ht' hlaid hpass
  · intro _ t d ht
    obtain ⟨t', q, ⟨ht', -⟩, -, hlaid, hpass⟩ := ht
    exact h.laid ht' hlaid hpass

theorem framed_createPartial (h : Framed own I) (id : String) :
    Always κ b I (createPartial base id : Action δ Partial) :=
  Always.ite (Always.bind (framed_makeDirectories h) fun _ => Always.bind always_resolve fun _ => Always.pure _)
    (Always.fail _)

theorem framed_createArchive (h : Framed own I) (hp : own p.archive) :
    Always κ b I (createArchive base p : Action δ Unit) :=
  Always.bind always_ensureWithin fun _ => Always.mapError (h.createExclusive hp)

theorem framed_discardArchive (h : Framed own I) (hp : own p.archive) :
    Always κ b I (discardArchive base p : Action δ Unit) := by
  refine Always.bind always_ensureWithin fun _ => Always.bind (Always.attempt (h.remove hp)) fun r => ?_
  split
  · exact Always.pure _
  · exact Always.pure _
  · exact Always.fail _

theorem framed_writeManifest (h : Framed own I) {location : Location}
    (hown : ∀ q, base ++ split location.directory <+: q → own q) (bytes : List Byte) :
    Always κ b I (writeManifest base location bytes : Action δ Unit) := by
  refine Does.bind (resolve_does.post (fun _ _ _ ht => ht) (fun _ _ _ ht => ht.1) fun _ _ ht => ht) fun directory => ?_
  refine Does.start (fun _ _ ht => ht.2.2) fun hdirectory => ?_
  subst hdirectory
  have hbelow : ∀ child, own (base ++ split location.directory ++ [child]) :=
      fun child => hown _ (List.prefix_append _ _)
  refine Does.pre ?_ fun _ _ ht => ht.1
  refine Always.bind always_ensureWithin fun _ => Always.bind always_ensureWithin fun _ => ?_
  refine Always.bind (Always.mapError (h.createExclusive (hbelow _))) fun _ => ?_
  refine Always.bind (Always.onFailure ?_ (h.remove (hbelow _))) fun _ => ?_
  · exact Always.bind (Always.mapError (h.write (hbelow _) _)) fun _ => always_sync
  · exact Always.bind (Always.mapError (h.rename (hbelow _) (hbelow _))) fun _ => always_sync

/-! ## The commit -/

/-- The move of an archive to its directory. -/
def Moves (base : List String) (p : Partial) (deployID : String) (I : Tree → δ → Prop)
    (J : String → Tree → δ → Prop) (name : String) : Prop :=
  ∀ t t' d, I t d → t.obj (finalPath base deployID name) = some .directory →
    t.rename p.archive (archivePath base deployID name) = .ok t' → J name t' d

theorem moveArchive_leaves {J : String → Tree → δ → Prop} (h : Framed own I) (hdeploy : Proper deployID)
    (hname : Proper name) (hmoves : Moves base p deployID I J name) :
    Does κ b I (moveArchive base p (pathJoin [deployID, name]))
      (fun location t d => location.directory = pathJoin [deployID, name] ∧ J name t d) (fun _ => I) I := by
  have hsplit : split (pathJoin [pathJoin [deployID, name], "snapshot.zip"]) = [deployID, name, "snapshot.zip"] := by
    rw [join_archive hdeploy hname]
    exact split_join (List.cons_ne_nil _ _) fun n hn => (proper_archive hdeploy hname n hn).2.2.2
  let S : Tree → δ → Prop := fun t d => I t d ∧ t.obj (finalPath base deployID name) = some .directory
  refine Does.bind (R := fun _ => S) (makeDirectories_does.post ?_ ?_ fun t d hpart => h.partLaid hpart) fun _ => ?_
  · intro _ t d ht
    obtain ⟨-, t', ht', hlaid, hpass⟩ := ht
    rw [split_pair hdeploy hname] at hlaid hpass
    refine ⟨h.laid ht' hlaid hpass, ?_⟩
    rw [hlaid]
    exact if_pos (List.prefix_refl _)
  · intro _ t d ht
    obtain ⟨t', q, ⟨ht', -⟩, -, hlaid, hpass⟩ := ht
    exact h.laid ht' hlaid hpass
  refine Does.bind (resolve_does.post (fun _ _ _ ht => ht) (fun _ _ _ ht => ht.1.1) fun _ _ ht => ht.1) fun archive =>
    ?_
  refine Does.start (fun _ _ ht => ht.2.2) fun harchive => ?_
  rw [hsplit, archivePath_eq] at harchive
  subst harchive
  refine Does.bind (R := fun _ => J name) (Does.mapError (change_atOnce.weaken (fun _ _ ht => ht.1) ?_
    (fun _ _ _ ht => ht.1.1) fun _ _ ht => ht.1)) fun _ => Does.pure fun _ _ ht => ⟨rfl, ht⟩
  intro _ t d ht
  obtain ⟨t', ⟨hi, hdir⟩, hrename⟩ := ht
  exact hmoves t' t d hi hdir hrename

/-- A commit that fails has left the archive where it was. -/
theorem commitArchive_leaves {J : String → Tree → δ → Prop} (h : Framed own I)
    (hmoves : Proper deployID → ∀ name, Proper name → (name = timestamp ∨ name = timestamp ++ "-" ++ suffix) →
      Moves base p deployID I J name) :
    Does κ b I (commitArchive base p timestamp deployID suffix)
      (fun location t d => ∃ name, Proper deployID ∧ Proper name ∧
        (name = timestamp ∨ name = timestamp ++ "-" ++ suffix) ∧
        location.directory = pathJoin [deployID, name] ∧ J name t d)
      (fun _ => I) I := by
  refine Does.ite (fun hseg => ?_) fun _ => Does.fail fun _ _ ht => ht
  simp only [Bool.and_eq_true] at hseg
  have htime := safeSegment_proper hseg.1.1
  have hdeploy := safeSegment_proper hseg.1.2
  have hsuffixed := proper_suffixed htime (safeSegment_proper hseg.2)
  refine Does.bind always_ensureWithin fun _ => Does.bind always_resolve fun _ => ?_
  refine Does.bind (directoryTaken_does (safeRelative_pair hdeploy htime)) fun taken =>
    Does.ite (fun _ => ?_) fun _ => ?_
  · refine (moveArchive_leaves h hdeploy hsuffixed (hmoves hdeploy _ hsuffixed (.inr rfl))).weaken
      (fun _ _ ht => ht.1) ?_
      (fun _ _ _ ht => ht) fun _ _ ht => ht
    exact fun _ _ _ ht => ⟨_, hdeploy, hsuffixed, .inr rfl, ht⟩
  · refine (moveArchive_leaves h hdeploy htime (hmoves hdeploy _ htime (.inl rfl))).weaken (fun _ _ ht => ht.1) ?_
      (fun _ _ _ ht => ht) fun _ _ ht => ht
    exact fun _ _ _ ht => ⟨_, hdeploy, htime, .inl rfl, ht⟩

/-! ## The removal -/

/-- Where the parent of the directory is there and no call fails, nothing stays of it. -/
theorem removeDirectory_goes {J : Tree → δ → Prop} (hcalm : Calm κ b) (hsafe : safeRelative relative = true)
    (hparent : ∀ t d, I t d → t.obj (base ++ split relative).dropLast = some .directory)
    (hremoved : ∀ t d, I t d → J (t.removeAll (base ++ split relative) fun _ => false) d)
    (hnone : ∀ t d, I t d → t.obj (base ++ split relative) = none → J t d) {C : Tree → δ → Prop}
    (hdead : ∀ t d left, I t d → C t d ∧ C (t.removeAll (base ++ split relative) left) d) :
    Does κ b I (removeDirectory base relative : Action δ Unit) (fun _ => J) (fun _ => J) C := by
  refine removeDirectory_does.post ?_ ?_ ?_
  · intro _ t d ht
    obtain ⟨t', ht', ⟨rfl, hgone⟩ | rfl⟩ := ht
    · exact hnone t d ht' hgone
    · exact hremoved t' d ht'
  · intro _ t d ht
    obtain ⟨t', ht', -, hstuck⟩ := ht
    exact absurd (Tree.passable_of_directory (hparent t' d ht')) (hstuck hcalm hsafe)
  · intro t d ht
    obtain ⟨t', ht', rfl | ⟨left, rfl⟩⟩ := ht
    · exact (hdead t d (fun _ => false) ht').1
    · exact (hdead t' d left ht').2

end AppBackup.Storage
