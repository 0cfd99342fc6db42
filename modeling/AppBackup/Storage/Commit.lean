import AppBackup.Lib.Calm
import AppBackup.Storage.Standing

/- What `CommitArchive` (`storage/storage.go`) replaces. The directory of the archive's time
   is looked at, and where something is there the archive goes to the directory with its
   suffix, which is not looked at; a rename replaces the file it meets, and a deployment may
   have the name of a directory of the storage itself.

   What is proved:
     1. `rename_free`, `rename_laid` -- what the rename meets decides whether it replaces a
        file;
     2. `commitArchive_moves` -- a process in which no call fails moves the archive to the
        directory chosen, where it can be moved there;
     3. `calm_spares_iff`, `spares_of_empty` -- when nothing else is touched: exactly, in such
        a process, and enough in any other. `commitArchive_spares` has both. -/
namespace AppBackup.Storage
open Program Disk Path Text

variable {δ : Type}

/-- The directories the storage keeps for itself. -/
def reserved : List String := ["_partial", "_trash", "_restore_exports"]

/-- The archive of a deployment in a directory. -/
def archivePath (base : List String) (deployID name : String) : List String :=
  finalPath base deployID name ++ ["snapshot.zip"]

/-- The name `CommitArchive` takes for the directory. -/
def chosenName (t : Tree) (base : List String) (deployID timestamp suffix : String) : String :=
  if t.obj (finalPath base deployID timestamp) = none then timestamp else timestamp ++ "-" ++ suffix

/-- The archive can be moved there: it is a file of the storage, nothing is in the way of the
directory, and no directory has its new name. -/
structure Lands (t : Tree) (base : List String) (p : Partial) (deployID name : String) : Prop where
  within : base <+: p.archive
  file : ∃ bytes, t.obj p.archive = some (.file bytes)
  passable : Tree.Passable t (finalPath base deployID name)
  free : t.obj (archivePath base deployID name) ≠ some .directory

/-- All but directories is as it was, but perhaps at `changed`. -/
def KeptBut (changed : List (List String)) (t₀ t : Tree) : Prop :=
  ∀ q o, q ∉ changed → t₀.obj q = some o → o ≠ .directory → t.obj q = some o

/-- The directory held no archive and is none of the storage's own. -/
structure Fresh (t : Tree) (base : List String) (location : Location) : Prop where
  empty : t.obj (base ++ split location.directory ++ ["snapshot.zip"]) = none
  apart : ∀ name ∈ reserved, ¬base ++ [name] <+: base ++ split location.directory

/-- Nothing but the partial archive is replaced, moved or removed, and the directory that is
returned is fresh. -/
def Spares (t₀ : Tree) (base : List String) (p : Partial) (r : Outcome (Machine δ) StorageError Location) : Prop :=
  KeptBut [p.archive] t₀ r.state.tree ∧ ∀ location m, r = .done location m → Fresh t₀ base location

section
variable {κ : Fates} {b : Bool} {base : List String} {p : Partial} {deployID timestamp suffix name : String}
  {t₀ t : Tree} {d₀ : δ}

theorem kept_self (changed : List (List String)) : KeptBut changed t₀ t₀ := fun _ _ _ h _ => h

theorem laid_kept (changed : List (List String)) {q : List String} (hlaid : Tree.Laid t₀ q t)
    (hpass : Tree.Passable t₀ q) : KeptBut changed t₀ t := by
  intro r o _ hr hne
  have hnot : ¬r <+: q := by
    intro hrq
    obtain hnone | hdir := hpass r hrq
    · rw [hnone] at hr
      cases hr
    · exact hne (Option.some.inj (hr.symm.trans hdir))
  rw [hlaid]
  exact (if_neg hnot).trans hr

theorem proper_pair (hdeploy : Proper deployID) (hname : Proper name) : ∀ n ∈ [deployID, name], Proper n := by
  intro n hn
  obtain rfl | hn := List.mem_cons.mp hn
  · exact hdeploy
  · rw [List.mem_singleton.mp hn]
    exact hname

theorem safeRelative_pair (hdeploy : Proper deployID) (hname : Proper name) :
    safeRelative (pathJoin [deployID, name]) = true := by
  rw [pathJoin_proper (List.cons_ne_nil _ _) (proper_pair hdeploy hname)]
  exact safeRelative_join (List.cons_ne_nil _ _) (proper_pair hdeploy hname)

theorem join_archive (hdeploy : Proper deployID) (hname : Proper name) :
    pathJoin [pathJoin [deployID, name], "snapshot.zip"] = join [deployID, name, "snapshot.zip"] := by
  have hnames := proper_pair hdeploy hname
  rw [pathJoin_proper (List.cons_ne_nil _ _) hnames,
    pathJoin_concat (List.cons_ne_nil _ _) hnames proper_snapshot]
  rfl

theorem proper_archive (hdeploy : Proper deployID) (hname : Proper name) :
    ∀ n ∈ [deployID, name, "snapshot.zip"], Proper n := by
  intro n hn
  obtain rfl | hn := List.mem_cons.mp hn
  · exact hdeploy
  · exact proper_pair hname proper_snapshot n hn

theorem archivePath_eq : base ++ [deployID, name, "snapshot.zip"] = archivePath base deployID name := by
  unfold archivePath finalPath
  rw [List.append_assoc]
  rfl

theorem archivePath_dropLast : (archivePath base deployID name).dropLast = finalPath base deployID name := by
  unfold archivePath
  rw [List.dropLast_concat]

theorem archivePath_not_above : ¬archivePath base deployID name <+: finalPath base deployID name := by
  intro h
  have hlen := h.length_le
  unfold archivePath at hlen
  rw [List.length_append, List.length_singleton] at hlen
  omega

/-! ## The move -/

/-- A file is not moved over a directory. -/
theorem rename_free {q r : List String} {t' : Tree} (h : t.rename q r = .ok t') : t.obj r ≠ some .directory := by
  intro hdir
  unfold Tree.rename at h
  split at h
  · cases h
  · next bytes hread =>
    split at h
    · cases h
    · next moved hmoved =>
      have hne : r ≠ q := by
        intro he
        rw [he, Tree.read_iff.mp hread] at hdir
        cases hdir
      have hstill : moved.obj r = some .directory := by
        rw [(Tree.remove_ok hmoved).2.2, Function.update_of_ne hne]
        exact hdir
      rw [dif_pos hstill] at h
      cases h

/-- Once its directories are laid, the archive is moved exactly when it can be. -/
theorem rename_laid (hlaid : Tree.Laid t₀ (finalPath base deployID name) t)
    (hpass : Tree.Passable t₀ (finalPath base deployID name)) :
    (∀ t', t.rename p.archive (archivePath base deployID name) = .ok t' →
      (∃ bytes, t₀.obj p.archive = some (.file bytes)) ∧
      t₀.obj (archivePath base deployID name) ≠ some .directory ∧
      KeptBut [p.archive, archivePath base deployID name] t₀ t') ∧
    (∀ e, t.rename p.archive (archivePath base deployID name) = .error e → base <+: p.archive →
      ¬Lands t₀ base p deployID name) := by
  have hdest : t.obj (archivePath base deployID name) = t₀.obj (archivePath base deployID name) := by
    rw [hlaid]
    exact if_neg archivePath_not_above
  refine ⟨?_, ?_⟩
  · intro t' hrename
    obtain ⟨bytes, hfile, hobj⟩ := Tree.rename_ok hrename
    have hfile₀ : t₀.obj p.archive = some (.file bytes) := by
      have hlook : (if p.archive <+: finalPath base deployID name then some .directory else t₀.obj p.archive) =
          some (.file bytes) := by
        rw [← hfile, hlaid]
      split at hlook
      · cases hlook
      · exact hlook
    refine ⟨⟨bytes, hfile₀⟩, ?_, ?_⟩
    · rw [← hdest]
      exact rename_free hrename
    · intro q o hq hold hne
      simp only [List.mem_cons, List.not_mem_nil, or_false, not_or] at hq
      rw [hobj, Function.update_of_ne hq.2, Function.update_of_ne hq.1]
      exact laid_kept [] hlaid hpass q o List.not_mem_nil hold hne
  · intro e hrename _ hlands
    obtain ⟨bytes, hfile⟩ := hlands.file
    have hfile := laid_kept [] hlaid hpass _ _ List.not_mem_nil hfile (fun h => by cases h)
    have hparent : t.obj (archivePath base deployID name).dropLast = some .directory := by
      rw [archivePath_dropLast, hlaid]
      exact if_pos (List.prefix_refl _)
    obtain ⟨t', ht', -⟩ := Tree.rename_eq hfile (hdest ▸ hlands.free) hparent
    rw [ht'] at hrename
    cases hrename

/-- A move that is done was possible and replaces nothing but its target; one that is not done
leaves all as it was, and in a calm process was not possible. -/
theorem moveArchive_moves (hdeploy : Proper deployID) (hname : Proper name) :
    Does κ b (fun t d => t = t₀ ∧ d = d₀) (moveArchive base p (pathJoin [deployID, name]))
      (fun location t _ => location.directory = pathJoin [deployID, name] ∧
        ((base <+: p.archive) → Lands t₀ base p deployID name) ∧
        KeptBut [p.archive, archivePath base deployID name] t₀ t)
      (fun _ t _ => KeptBut [] t₀ t ∧ (Calm κ b → base <+: p.archive → ¬Lands t₀ base p deployID name))
      (fun t _ => KeptBut [] t₀ t) := by
  have hpair : base ++ split (pathJoin [deployID, name]) = finalPath base deployID name := by
    rw [split_pair hdeploy hname]
    rfl
  have hsplit : split (pathJoin [pathJoin [deployID, name], "snapshot.zip"]) = [deployID, name, "snapshot.zip"] := by
    rw [join_archive hdeploy hname]
    exact split_join (List.cons_ne_nil _ _) fun n hn => (proper_archive hdeploy hname n hn).2.2.2
  have hsafe : safeRelative (pathJoin [pathJoin [deployID, name], "snapshot.zip"]) = true := by
    rw [join_archive hdeploy hname]
    exact safeRelative_join (List.cons_ne_nil _ _) (proper_archive hdeploy hname)
  have hmade := @makeDirectories_does _ κ b (fun t d => t = t₀ ∧ d = d₀) base (pathJoin [deployID, name])
  rw [hpair] at hmade
  refine Does.bind (R := fun _ t d => Tree.Laid t₀ (finalPath base deployID name) t ∧
    Tree.Passable t₀ (finalPath base deployID name)) (hmade.post ?_ ?_ ?_) fun _ => ?_
  · intro _ t d h
    obtain ⟨-, t', ⟨rfl, -⟩, hlaid, hpass⟩ := h
    exact ⟨hlaid, hpass⟩
  · intro _ t d h
    obtain ⟨t', q, ⟨⟨rfl, -⟩, hstuck⟩, -, hlaid, hpass⟩ := h
    exact ⟨laid_kept [] hlaid hpass, fun hcalm _ hlands =>
      hstuck hcalm (safeRelative_pair hdeploy hname) hlands.passable⟩
  · intro t d h
    obtain ⟨t', q, ⟨rfl, -⟩, -, hlaid, hpass⟩ := h
    exact laid_kept [] hlaid hpass
  refine Does.bind (resolve_does.post (fun _ _ _ h => h) ?_ fun t d h => laid_kept [] h.1 h.2) fun archive => ?_
  · intro _ t d h
    refine ⟨laid_kept [] h.1.1 h.1.2, fun hcalm _ _ => ?_⟩
    refine h.2 hcalm hsafe ?_
    rw [hsplit, archivePath_eq, archivePath_dropLast]
    refine Tree.passable_of_directory ?_
    rw [h.1.1]
    exact if_pos (List.prefix_refl _)
  refine Does.start (fun _ _ h => h.2.2) fun harchive => ?_
  rw [hsplit, archivePath_eq] at harchive
  subst harchive
  refine Does.bind (Does.mapError (change_atOnce.weaken (fun _ _ h => h.1) ?_ ?_ ?_)) fun _ => Does.pure fun _ _ h => h
  · intro _ t d h
    obtain ⟨t', ⟨hlaid, hpass⟩, hrename⟩ := h
    obtain ⟨hfile, hfree, hkept⟩ := (rename_laid hlaid hpass).1 t hrename
    exact ⟨rfl, fun hwithin => ⟨hwithin, hfile, hpass, hfree⟩, hkept⟩
  · intro e t d h
    obtain ⟨⟨hlaid, hpass⟩, herror⟩ := h
    exact ⟨laid_kept [] hlaid hpass, fun hcalm hwithin => (rename_laid hlaid hpass).2 e (herror hcalm) hwithin⟩
  · intro t d h
    exact laid_kept [] h.1 h.2

/-! ## The commit -/

/-- `CommitArchive` moves the archive to one of two directories, and in a calm process to the
one for its time when nothing is there and to the other one otherwise. -/
theorem commitArchive_moves (htime : safeSegment timestamp = true) (hdeploy : safeSegment deployID = true)
    (hsuffix : safeSegment suffix = true) :
    Does κ b (fun t d => t = t₀ ∧ d = d₀) (commitArchive base p timestamp deployID suffix)
      (fun location t _ => ∃ name, Proper name ∧ (name = timestamp ∨ name = timestamp ++ "-" ++ suffix) ∧
        (Calm κ b → name = chosenName t₀ base deployID timestamp suffix) ∧
        location.directory = pathJoin [deployID, name] ∧ Lands t₀ base p deployID name ∧
        KeptBut [p.archive, archivePath base deployID name] t₀ t)
      (fun _ t _ => KeptBut [] t₀ t ∧
        (Calm κ b → ¬Lands t₀ base p deployID (chosenName t₀ base deployID timestamp suffix)))
      (fun t _ => KeptBut [] t₀ t) := by
  have hT := safeSegment_proper htime
  have hD := safeSegment_proper hdeploy
  have hS := proper_suffixed hT (safeSegment_proper hsuffix)
  have hsafe := safeRelative_pair hD hT
  have hsame : ∀ {t : Tree} {d : δ}, t = t₀ ∧ d = d₀ → KeptBut [] t₀ t := by
    intro t d h
    rw [h.1]
    exact kept_self []
  -- the directory of either name has the same one above it
  have habove : ∀ name, (finalPath base deployID name).dropLast = base ++ [deployID] := by
    intro name
    unfold finalPath
    rw [List.append_cons, List.dropLast_concat]
  unfold commitArchive
  rw [if_pos (by rw [htime, hdeploy, hsuffix]; rfl)]
  refine Does.bind (ensureWithin_does.post (fun _ _ _ h => h) ?_ fun t d h => hsame h) fun _ => ?_
  · intro _ t d h
    refine ⟨hsame h.1, fun hcalm hlands => ?_⟩
    obtain ⟨bytes, hfile⟩ := hlands.file
    refine h.2 hcalm hlands.within (passable_of_some ?_)
    rw [h.1.1, hfile]
    exact Option.some_ne_none _
  refine Does.start (fun _ _ h => h.2) fun hwithin => ?_
  refine Does.bind (resolve_does.weaken (fun _ _ h => h.1) (fun _ _ _ h => h.1) ?_ fun t d h => hsame h) fun _ => ?_
  · intro _ t d h
    refine ⟨hsame h.1, fun hcalm hlands => h.2 hcalm hsafe ?_⟩
    have hpass := passable_dropLast hlands.passable
    rw [habove] at hpass
    rw [split_pair hD hT, h.1.1]
    show Tree.Passable t₀ (finalPath base deployID timestamp).dropLast
    rw [habove]
    exact hpass
  refine Does.bind ((directoryTaken_does hsafe).post (fun _ _ _ h => h) (fun _ _ _ h => h) fun t d h => hsame h)
    fun taken => ?_
  refine Does.start (φ := Calm κ b → (taken = true ↔ t₀.obj (finalPath base deployID timestamp) ≠ none)) ?_
    fun htaken => ?_
  · intro t d h hcalm
    have hlook := h.2 hcalm
    rw [split_pair hD hT, h.1.1] at hlook
    exact hlook
  refine Does.ite (fun hyes => ?_) fun hno => ?_
  · have hchosen : Calm κ b → timestamp ++ "-" ++ suffix = chosenName t₀ base deployID timestamp suffix :=
      fun hcalm => (if_neg ((htaken hcalm).mp hyes)).symm
    refine (moveArchive_moves hD hS).weaken (fun _ _ h => h.1) ?_ ?_ fun t d h => h
    · exact fun location t d h => ⟨_, hS, .inr rfl, hchosen, h.1, h.2.1 hwithin, h.2.2⟩
    · exact fun _ t d h => ⟨h.1, fun hcalm => hchosen hcalm ▸ h.2 hcalm hwithin⟩
  · have hchosen : Calm κ b → timestamp = chosenName t₀ base deployID timestamp suffix := by
      intro hcalm
      refine (if_pos ?_).symm
      by_contra hsome
      exact hno ((htaken hcalm).mpr hsome)
    refine (moveArchive_moves hD hT).weaken (fun _ _ h => h.1) ?_ ?_ fun t d h => h
    · exact fun location t d h => ⟨_, hT, .inl rfl, hchosen, h.1, h.2.1 hwithin, h.2.2⟩
    · exact fun _ t d h => ⟨h.1, fun hcalm => hchosen hcalm ▸ h.2 hcalm hwithin⟩

/-! ## In a calm process it ends -/

section
variable {relative directory : String} {target : List String} (hcalm : Calm κ b)
include hcalm

theorem lives_ensureNames (root names : List String) : Lives κ b (ensureNames root names : Action δ Unit) := by
  induction names generalizing root with
  | nil => exact Lives.pure ()
  | cons name rest ih =>
    refine Lives.bind (Lives.attempt (lives_look hcalm _)) fun r => ?_
    split
    · exact ih _
    · exact Lives.pure ()
    · exact Lives.fail _

theorem lives_ensureWithin : Lives κ b (ensureWithin base target : Action δ Unit) :=
  Lives.ite (lives_ensureNames hcalm _ _) (Lives.fail _)

theorem lives_resolve : Lives κ b (resolve base relative : Action δ (List String)) :=
  Lives.ite (Lives.bind (lives_ensureWithin hcalm) fun _ => Lives.pure _) (Lives.fail _)

theorem lives_makeDirectories : Lives κ b (makeDirectories base relative : Action δ Unit) :=
  Lives.bind (lives_resolve hcalm) fun _ => Lives.bind (lives_ensureWithin hcalm) fun _ =>
    Lives.bind (Lives.mapError (lives_mkdirAll hcalm _)) fun _ => lives_ensureWithin hcalm

theorem lives_directoryTaken : Lives κ b (directoryTaken base directory : Action δ Bool) := by
  refine Lives.bind (Lives.attempt ?_) fun r => ?_
  · exact Lives.bind (lives_resolve hcalm) fun _ => Lives.mapError (lives_look hcalm _)
  · split
    · exact Lives.pure _
    · exact Lives.pure _

theorem lives_moveArchive : Lives κ b (moveArchive base p directory : Action δ Location) :=
  Lives.bind (lives_makeDirectories hcalm) fun _ => Lives.bind (lives_resolve hcalm) fun _ =>
    Lives.bind (Lives.mapError (lives_change hcalm _ _)) fun _ => Lives.pure _

theorem lives_commitArchive : Lives κ b (commitArchive base p timestamp deployID suffix : Action δ Location) := by
  refine Lives.ite ?_ (Lives.fail _)
  refine Lives.bind (lives_ensureWithin hcalm) fun _ => Lives.bind (lives_resolve hcalm) fun _ => ?_
  exact Lives.bind (lives_directoryTaken hcalm) fun _ => Lives.ite (lives_moveArchive hcalm) (lives_moveArchive hcalm)

end

/-! ## What is replaced -/

theorem fresh_iff (hdeploy : Proper deployID) (hname : Proper name) {location : Location}
    (hlocation : location.directory = pathJoin [deployID, name]) :
    Fresh t₀ base location ↔ deployID ∉ reserved ∧ t₀.obj (archivePath base deployID name) = none := by
  have hbelow : ∀ r, base ++ [r] <+: base ++ [deployID, name] ↔ r = deployID := by
    intro r
    rw [List.prefix_append_right_inj, List.cons_prefix_cons]
    exact and_iff_left List.nil_prefix
  refine ⟨?_, ?_⟩
  · intro h
    have hempty := h.empty
    have hapart := h.apart
    rw [hlocation, split_pair hdeploy hname] at hempty hapart
    exact ⟨fun hin => hapart deployID hin ((hbelow deployID).mpr rfl), hempty⟩
  · intro ⟨hreserved, hempty⟩
    refine ⟨?_, fun r hr hbelow' => ?_⟩
    · rw [hlocation, split_pair hdeploy hname]
      exact hempty
    · rw [hlocation, split_pair hdeploy hname] at hbelow'
      exact hreserved ((hbelow r).mp hbelow' ▸ hr)

theorem keptBut_empty {A dest : List String} (h : KeptBut [A, dest] t₀ t) (hempty : t₀.obj dest = none) :
    KeptBut [A] t₀ t := by
  intro q o hq hold hne
  refine h q o ?_ hold hne
  intro hin
  obtain rfl | hin := List.mem_cons.mp hin
  · exact hq (List.mem_cons_self ..)
  · rw [List.mem_singleton.mp hin, hempty] at hold
    cases hold

theorem kept_keptBut {A : List String} (h : KeptBut [] t₀ t) : KeptBut [A] t₀ t :=
  fun q o _ hold hne => h q o List.not_mem_nil hold hne

/-- In a calm process the commit spares what is there exactly when the directory it goes to is
no directory of the storage's own and holds no archive, or the archive cannot be moved. -/
theorem calm_spares_iff (htime : safeSegment timestamp = true) (hdeploy : safeSegment deployID = true)
    (hsuffix : safeSegment suffix = true) {m : Machine δ} (hcalm : Calm m.fate m.cleaning) :
    Spares m.tree base p (commitArchive base p timestamp deployID suffix m) ↔
      (Lands m.tree base p deployID (chosenName m.tree base deployID timestamp suffix) → deployID ∉ reserved ∧
        m.tree.obj (archivePath base deployID (chosenName m.tree base deployID timestamp suffix)) = none) := by
  have hD := safeSegment_proper hdeploy
  have hmoves :=
      @commitArchive_moves _ m.fate m.cleaning base p deployID timestamp suffix m.tree m.data htime hdeploy hsuffix
  have hrun := (hmoves.lives (lives_commitArchive hcalm)).run (m := m) ⟨rfl, rfl, rfl, rfl⟩
  unfold Spares
  cases hout : commitArchive base p timestamp deployID suffix m with
  | done location m' =>
    rw [hout] at hrun
    obtain ⟨-, -, name, hname, -, hchosen, hlocation, hlands, hkept⟩ := hrun
    obtain rfl := hchosen hcalm
    have hfresh := @fresh_iff base deployID _ m.tree hD hname _ hlocation
    refine ⟨fun h _ => hfresh.mp (h.2 location m' rfl), fun h => ?_⟩
    have hsafe := h hlands
    refine ⟨keptBut_empty hkept hsafe.2, fun location' m'' hdone => ?_⟩
    cases hdone
    exact hfresh.mpr hsafe
  | failed e m' =>
    rw [hout] at hrun
    obtain ⟨-, -, hkept, hnot⟩ := hrun
    refine ⟨fun _ hlands => absurd hlands (hnot hcalm), fun _ => ⟨kept_keptBut hkept, fun _ _ hdone => ?_⟩⟩
    cases hdone
  | crashed m' =>
    rw [hout] at hrun
    exact hrun.2.2.elim

/-- Whatever calls fail, the commit spares what is there when neither directory holds an archive. -/
theorem spares_of_empty (htime : safeSegment timestamp = true) (hdeploy : safeSegment deployID = true)
    (hsuffix : safeSegment suffix = true) {m : Machine δ} (hreserved : deployID ∉ reserved)
    (hempty : ∀ name, name = timestamp ∨ name = timestamp ++ "-" ++ suffix →
      m.tree.obj (archivePath base deployID name) = none) :
    Spares m.tree base p (commitArchive base p timestamp deployID suffix m) := by
  have hD := safeSegment_proper hdeploy
  have hmoves :=
      @commitArchive_moves _ m.fate m.cleaning base p deployID timestamp suffix m.tree m.data htime hdeploy hsuffix
  have hrun := hmoves.run (m := m) ⟨rfl, rfl, rfl, rfl⟩
  unfold Spares
  cases hout : commitArchive base p timestamp deployID suffix m with
  | done location m' =>
    rw [hout] at hrun
    obtain ⟨-, -, name, hname, heither, -, hlocation, -, hkept⟩ := hrun
    refine ⟨keptBut_empty hkept (hempty name heither), fun location' m'' hdone => ?_⟩
    cases hdone
    exact (fresh_iff hD hname hlocation).mpr ⟨hreserved, hempty name heither⟩
  | failed e m' =>
    rw [hout] at hrun
    refine ⟨kept_keptBut hrun.2.2.1, fun _ _ hdone => ?_⟩
    cases hdone
  | crashed m' =>
    rw [hout] at hrun
    refine ⟨kept_keptBut hrun.2.2, fun _ _ hdone => ?_⟩
    cases hdone

end

/-- A commit replaces, moves and removes nothing but the partial archive and returns a fresh
directory exactly when, if the archive can be moved to the directory chosen, that is no
directory of the storage's own and holds no archive. Where calls fail on their own it does so
at least when neither directory holds one. -/
theorem commitArchive_spares (base : List String) (p : Partial) {timestamp deployID suffix : String}
    (htime : safeSegment timestamp = true) (hdeploy : safeSegment deployID = true)
    (hsuffix : safeSegment suffix = true) (m : Machine δ) :
    (Calm m.fate m.cleaning →
      (Spares m.tree base p (commitArchive base p timestamp deployID suffix m) ↔
        (Lands m.tree base p deployID (chosenName m.tree base deployID timestamp suffix) → deployID ∉ reserved ∧
          m.tree.obj (archivePath base deployID (chosenName m.tree base deployID timestamp suffix)) = none))) ∧
    (deployID ∉ reserved → (∀ name, name = timestamp ∨ name = timestamp ++ "-" ++ suffix →
        m.tree.obj (archivePath base deployID name) = none) →
      Spares m.tree base p (commitArchive base p timestamp deployID suffix m)) :=
  ⟨calm_spares_iff htime hdeploy hsuffix, spares_of_empty htime hdeploy hsuffix⟩

/-- A storage with a finished archive of the job `j`. -/
def finishedTree : Tree :=
  Tree.bare.withObjects [(["docs"], .directory), (["docs", "_partial"], .directory),
    (["docs", "_partial", "j"], .directory), (["docs", "_partial", "j", "snapshot.zip"], .file [1])]

/-- There both directories of the time `t` are taken, and the second one holds an archive. -/
def crowdedTree : Tree :=
  finishedTree.withObjects [(["docs", "d"], .directory), (["docs", "d", "t"], .directory),
    (["docs", "d", "t-j"], .directory), (["docs", "d", "t-j", "snapshot.zip"], .file [2])]

def finished : Partial := ⟨"_partial/j", ["docs", "_partial", "j", "snapshot.zip"]⟩

theorem commitArchive_spares_finished :
    Spares finishedTree ["docs"] finished
      (commitArchive ["docs"] finished "t" "d" "j" (Machine.calm finishedTree ())) := by
  have htime : safeSegment "t" = true := by decide +kernel
  have hdeploy : safeSegment "d" = true := by decide +kernel
  have hsuffix : safeSegment "j" = true := by decide +kernel
  refine ((commitArchive_spares ["docs"] finished htime hdeploy hsuffix (Machine.calm finishedTree ())).1
    fun _ => rfl).mpr fun _ => ⟨by decide +kernel, by decide +kernel⟩

/-- The archive at the second directory is replaced, and a deployment named for the trash has
its archive put there. -/
theorem commitArchive_overwrites :
    ¬Spares crowdedTree ["docs"] finished
      (commitArchive ["docs"] finished "t" "d" "j" (Machine.calm crowdedTree ())) ∧
    ¬Spares finishedTree ["docs"] finished
      (commitArchive ["docs"] finished "t" "_trash" "j" (Machine.calm finishedTree ())) := by
  have htime : safeSegment "t" = true := by decide +kernel
  have hsuffix : safeSegment "j" = true := by decide +kernel
  refine ⟨?_, ?_⟩
  · intro h
    have hdeploy : safeSegment "d" = true := by decide +kernel
    have hname : chosenName crowdedTree ["docs"] "d" "t" "j" = "t-j" := by decide +kernel
    have hdir : crowdedTree.obj (finalPath ["docs"] "d" "t-j") = some .directory := by decide +kernel
    have hsafe := (calm_spares_iff (m := Machine.calm crowdedTree ()) htime hdeploy hsuffix fun _ => rfl).mp h
    simp only [Machine.calm, hname] at hsafe
    have hempty :=
        (hsafe ⟨by decide, ⟨[1], by decide +kernel⟩, Tree.passable_of_directory hdir, by decide +kernel⟩).2
    exact absurd hempty (by decide +kernel)
  · intro h
    have hdeploy : safeSegment "_trash" = true := by decide +kernel
    have hname : chosenName finishedTree ["docs"] "_trash" "t" "j" = "t" := by decide +kernel
    have hsafe := (calm_spares_iff (m := Machine.calm finishedTree ()) htime hdeploy hsuffix fun _ => rfl).mp h
    simp only [Machine.calm, hname] at hsafe
    have hinits : ∀ q ∈ (finalPath ["docs"] "_trash" "t").inits,
        finishedTree.obj q = none ∨ finishedTree.obj q = some .directory := by decide +kernel
    have hpass : Tree.Passable finishedTree (finalPath ["docs"] "_trash" "t") :=
      fun q hq => hinits q ((List.mem_inits q _).mpr hq)
    have hreserved := (hsafe ⟨by decide, ⟨[1], by decide +kernel⟩, hpass, by decide +kernel⟩).1
    exact absurd hreserved (by decide)

end AppBackup.Storage
