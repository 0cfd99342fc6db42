import AppBackup.Domain.Types
import AppBackup.Storage.Standing

/- The trash of the storage (`storage/storage.go`). `MoveToTrash` renames the directory of a
   snapshot to one under `_trash` with the snapshot's id; `RemoveExpiredChildren` removes the
   directories under `_trash` or `_partial` whose time of modification is long ago. That time
   is among the data: renaming a directory keeps it. -/
namespace AppBackup.Storage
open Program Disk Path Text

variable {δ : Type}

/-- `MoveToTrash`; `renamed` is what the rename does to the data. -/
def moveToTrash (renamed : List String → List String → δ → δ) (base : List String)
    (directory trashID : String) : Action δ Location :=
  if safeSegment trashID then do
    let source ← resolve base directory
    makeDirectories base "_trash"
    let relative := pathJoin ["_trash", trashID]
    let destination ← resolve base relative
    match ← (lstat destination).attempt with
    | .ok _ => Prog.fail (.refused "trash destination already exists")
    | .error .notExist => do
      io (move (renamed source destination) source destination)
      pure ⟨relative, destination ++ ["snapshot.zip"]⟩
    | .error e => Prog.fail (.io e)
  else Prog.fail (.refused "unsafe storage path segment")

/-- `os.ReadDir`: the names in a directory, among those that may be there, and whether each is
that of a directory. -/
def readDir (names : List String) (p : List String) : Prog (Machine δ) IoError (List (String × Bool)) :=
  look fun t =>
    match t.lookup p with
    | .ok .directory => .ok (names.filterMap fun name =>
        if Proper name then (t.obj (p ++ [name])).map fun o => (name, decide (o = .directory)) else none)
    | .ok _ => .error .notDirectory
    | .error e => .error e

/-- `entry.Info()`, of which the time of modification is used. -/
def modificationTime (modified : δ → List String → Time) (p : List String) : Prog (Machine δ) IoError Time :=
  step (fun t d => (t.lookup p).map fun _ => (modified d p, t, d)) .fault atOnce

/-- The loop of `RemoveExpiredChildren`. -/
def removeExpired (modified : δ → List String → Time) (base : List String) (parent : String) (before : Time) :
    List (String × Bool) → Nat → Action δ Nat
  | [], removed => pure removed
  | (name, isDir) :: rest, removed =>
    if isDir then do
      let stamp ← io (modificationTime modified (under base parent ++ [name]))
      if before < stamp then removeExpired modified base parent before rest removed
      else do
        removeDirectory base (pathJoin [parent, name])
        removeExpired modified base parent before rest (removed + 1)
    else removeExpired modified base parent before rest removed

/-- `RemoveExpiredChildren`; `names` are those that may be in the parent. -/
def removeExpiredChildren (modified : δ → List String → Time) (base names : List String) (parent : String)
    (before : Time) : Action δ Nat :=
  if parent ≠ "_partial" ∧ parent ≠ "_trash" then Prog.fail (.refused "unsafe maintenance parent")
  else do
    let directory ← resolve base parent
    match ← (readDir names directory).attempt with
    | .error .notExist => pure 0
    | .error e => Prog.fail (.io e)
    | .ok entries => removeExpired modified base parent before entries 0

/-! ## Where they work -/

def trashPath (base : List String) (id : String) : List String := base ++ ["_trash", id]

/-! ## What goes to the trash -/

section
variable {κ : Fates} {b : Bool} {P : Tree → δ → Prop} {base : List String} {directory trashID : String}
  {renamed : List String → List String → δ → δ}

/-- The directory has gone to the trash from a tree in `P`, but for the trash itself. -/
structure Trashed (P : Tree → δ → Prop) (renamed : List String → List String → δ → δ) (base : List String)
    (directory trashID : String) (t₀ t₁ t : Tree) (d₀ d : δ) : Prop where
  before : P t₀ d₀
  laid : Tree.Laid t₀ (base ++ ["_trash"]) t₁
  moved : Tree.Moved t₁ (base ++ split directory) (trashPath base trashID) t
  data : d = renamed (base ++ split directory) (trashPath base trashID) d₀

theorem makeTrash_does : Does κ b P (makeDirectories base "_trash")
    (fun _ t d => ∃ t', P t' d ∧ Tree.Laid t' (base ++ ["_trash"]) t ∧
      Tree.Passable t' (base ++ ["_trash"]))
    (fun _ t d => PartLaid P (base ++ ["_trash"]) t d) (PartLaid P (base ++ ["_trash"])) := by
  have hsplit : split "_trash" = ["_trash"] := split_proper proper_trash
  have hmake : Does κ b P (makeDirectories base "_trash") _ _ _ := makeDirectories_does
  rw [hsplit] at hmake
  refine hmake.post ?_ ?_ fun _ _ h => h
  · exact fun _ _ _ h => h.2
  · intro _ t d h
    obtain ⟨t', q, ⟨ht', -⟩, hrest⟩ := h
    exact ⟨t', q, ht', hrest⟩

/-- A directory goes to the trash, or nothing is changed but that the trash may be there. -/
theorem moveToTrash_does : Does κ b P (moveToTrash renamed base directory trashID)
    (fun location t d => safeSegment trashID = true ∧ location.directory = pathJoin ["_trash", trashID] ∧
      ∃ t₀ t₁ d₀, Trashed P renamed base directory trashID t₀ t₁ t d₀ d)
    (fun _ t d => PartLaid P (base ++ ["_trash"]) t d) (PartLaid P (base ++ ["_trash"])) := by
  refine Does.ite (fun hseg => ?_) fun _ => Does.fail fun t d h => partLaid_self h
  have hproper := safeSegment_proper hseg
  refine Does.bind (resolve_does.post (fun _ _ _ h => h) ?_ fun _ _ h => partLaid_self h) fun source => ?_
  · exact fun _ _ _ h => partLaid_self h.1
  refine Does.start (fun _ _ h => h.2) fun hsource => ?_
  obtain ⟨-, rfl⟩ := hsource
  refine Does.bind (makeTrash_does.pre fun _ _ h => h.1) fun _ => ?_
  have hstay : ∀ {t d}, (∃ t', P t' d ∧ Tree.Laid t' (base ++ ["_trash"]) t ∧
      Tree.Passable t' (base ++ ["_trash"])) → PartLaid P (base ++ ["_trash"]) t d := by
    intro t d h
    obtain ⟨t', ht', hlaid, hpass⟩ := h
    exact ⟨t', _, ht', List.prefix_refl _, hlaid, hpass⟩
  refine Does.bind (resolve_does.post (fun _ _ _ h => h) ?_ fun _ _ h => hstay h) fun destination => ?_
  · exact fun _ _ _ h => hstay h.1
  refine Does.start (fun _ _ h => h.2) fun hdestination => ?_
  obtain ⟨-, rfl⟩ := hdestination
  rw [split_pair proper_trash hproper]
  refine Does.bind (R := fun _ t d => ∃ t', P t' d ∧ Tree.Laid t' (base ++ ["_trash"]) t ∧
    Tree.Passable t' (base ++ ["_trash"])) (Does.attempt (Does.weaken (always_look _) (fun _ _ h => h.1)
      (fun _ _ _ h => h) (fun _ _ _ h => h) fun _ _ h => hstay h)) fun r => ?_
  split
  · exact Does.fail fun _ _ h => hstay h
  · refine Does.bind (Does.mapError (move_does.post (fun _ _ _ h => h) ?_ ?_)) fun _ => Does.pure ?_
    · exact fun _ _ _ h => hstay h.1
    · exact fun _ _ h => hstay h
    · intro t d h
      obtain ⟨t₁, d₀, ⟨t₀, ht₀, hlaid, -⟩, hmoved, hdata⟩ := h
      exact ⟨hseg, rfl, t₀, t₁, d₀, ht₀, hlaid, hmoved, hdata⟩
  · exact Does.fail fun _ _ h => hstay h

end

/-! ## What is removed there -/

/-- Nothing is changed but at and below children of `root` that were modified by `before`. -/
def Trimmed (stamp : List String → Time) (root : List String) (before : Time) (t₀ t : Tree) : Prop :=
  ∀ q, t.obj q = t₀.obj q ∨
    (t.obj q = none ∧ ∃ name, root ++ [name] <+: q ∧ stamp (root ++ [name]) ≤ before)

theorem Trimmed.refl {stamp : List String → Time} {root : List String} {before : Time} (t : Tree) :
    Trimmed stamp root before t t := fun _ => .inl rfl

theorem Trimmed.removeAll {stamp : List String → Time} {root : List String} {before : Time} {t₀ t : Tree}
    {name : String} {left : List String → Bool} (h : Trimmed stamp root before t₀ t)
    (hold : stamp (root ++ [name]) ≤ before) :
    Trimmed stamp root before t₀ (t.removeAll (root ++ [name]) left) := by
  intro q
  by_cases hq : root ++ [name] <+: q
  · cases ho : (t.removeAll (root ++ [name]) left).obj q with
    | none => exact .inr ⟨rfl, name, hq, hold⟩
    | some o =>
      have ht := Tree.removeAll_some ho
      obtain hsame | ⟨hnone, -⟩ := h q
      · rw [ht] at hsame
        exact .inl hsame
      · rw [ht] at hnone
        cases hnone
  · rw [Tree.removeAll_elsewhere hq]
    exact h q

theorem Trimmed.young {stamp : List String → Time} {root : List String} {before : Time} {t₀ t : Tree}
    {name : String} (h : Trimmed stamp root before t₀ t) (hyoung : before < stamp (root ++ [name])) :
    t.obj (root ++ [name]) = t₀.obj (root ++ [name]) := by
  obtain hsame | ⟨-, name', hin, hold⟩ := h (root ++ [name])
  · exact hsame
  · have hname : name' = name := by
      have hlist := hin.eq_of_length (by simp)
      simpa using hlist
    rw [hname] at hold
    exact absurd hold (not_le.mpr hyoung)

theorem Trimmed.elsewhere {stamp : List String → Time} {root : List String} {before : Time} {t₀ t : Tree}
    {q : List String} (h : Trimmed stamp root before t₀ t) (hq : ∀ name, ¬root ++ [name] <+: q) :
    t.obj q = t₀.obj q := by
  obtain hsame | ⟨-, name, hin, -⟩ := h q
  · exact hsame
  · exact absurd hin (hq name)

section
variable {κ : Fates} {b : Bool} {modified : δ → List String → Time} {base names : List String}
  {parent : String} {before : Time} {t₀ : Tree} {d₀ : δ}

theorem under_concat (hparent : Proper parent) (name : String) :
    under base parent ++ [name] = base ++ [parent, name] := by
  have hone : ∀ n ∈ split parent, Proper n := by
    rw [split_proper hparent]
    exact fun n hn => by rw [List.mem_singleton.mp hn]; exact hparent
  rw [under_proper hone, split_proper hparent, List.append_assoc]
  rfl

/-- One directory that is old enough goes, and those that had gone stay away. -/
theorem removeOld_does (hparent : Proper parent) {name : String} (hname : Proper name) {gone : List String}
    (hold : modified d₀ (base ++ [parent, name]) ≤ before) :
    Does κ b
      (fun t d => (d = d₀ ∧ Trimmed (modified d₀) (base ++ [parent]) before t₀ t) ∧
        ∀ name ∈ gone, t.obj (base ++ [parent, name]) = none)
      (removeDirectory base (pathJoin [parent, name]))
      (fun _ t d => (d = d₀ ∧ Trimmed (modified d₀) (base ++ [parent]) before t₀ t) ∧
        ∀ name' ∈ name :: gone, t.obj (base ++ [parent, name']) = none)
      (fun _ t d => d = d₀ ∧ Trimmed (modified d₀) (base ++ [parent]) before t₀ t)
      (fun t d => d = d₀ ∧ Trimmed (modified d₀) (base ++ [parent]) before t₀ t) := by
  have htrim : ∀ {t : Tree} {left}, Trimmed (modified d₀) (base ++ [parent]) before t₀ t →
      Trimmed (modified d₀) (base ++ [parent]) before t₀ (t.removeAll (base ++ [parent, name]) left) := by
    intro t left h
    have hlist : base ++ [parent, name] = base ++ [parent] ++ [name] := by simp
    rw [hlist] at hold ⊢
    exact h.removeAll hold
  refine removeDirectory_does.weaken (fun _ _ h => h) ?_ ?_ ?_
  · intro _ t d h
    rw [split_pair hparent hname] at h
    obtain ⟨t', ⟨⟨hd, ht'⟩, hgone⟩, ⟨rfl, hnone⟩ | rfl⟩ := h
    · refine ⟨⟨hd, ht'⟩, fun name' hin => ?_⟩
      obtain rfl | hin := List.mem_cons.mp hin
      · exact hnone
      · exact hgone name' hin
    · refine ⟨⟨hd, htrim ht'⟩, fun name' hin => ?_⟩
      obtain rfl | hin := List.mem_cons.mp hin
      · exact Tree.removeAll_below (List.append_ne_nil_of_right_ne_nil _ (List.cons_ne_nil _ _))
          (List.prefix_refl _)
      · -- a removal brings nothing back
        cases ho : (t'.removeAll (base ++ [parent, name]) fun _ => false).obj (base ++ [parent, name']) with
        | none => rfl
        | some o =>
          have hsome := Tree.removeAll_some ho
          rw [hgone name' hin] at hsome
          cases hsome
  · intro _ t d h
    rw [split_pair hparent hname] at h
    obtain ⟨t', ⟨⟨hd, ht'⟩, -⟩, rfl | ⟨left, rfl⟩, -⟩ := h
    · exact ⟨hd, ht'⟩
    · exact ⟨hd, htrim ht'⟩
  · intro t d h
    rw [split_pair hparent hname] at h
    obtain ⟨t', ⟨⟨hd, ht'⟩, -⟩, rfl | ⟨left, rfl⟩⟩ := h
    · exact ⟨hd, ht'⟩
    · exact ⟨hd, htrim ht'⟩

/-- The loop removes the directories it meets that were modified by `before`. -/
theorem removeExpired_does (hparent : Proper parent) {entries : List (String × Bool)}
    (hentries : ∀ e ∈ entries, Proper e.1) {gone : List String} {removed : Nat} :
    Does κ b
      (fun t d => (d = d₀ ∧ Trimmed (modified d₀) (base ++ [parent]) before t₀ t) ∧
        ∀ name ∈ gone, t.obj (base ++ [parent, name]) = none)
      (removeExpired modified base parent before entries removed)
      (fun _ t d => (d = d₀ ∧ Trimmed (modified d₀) (base ++ [parent]) before t₀ t) ∧
        (∀ name ∈ gone, t.obj (base ++ [parent, name]) = none) ∧
        ∀ name, (name, true) ∈ entries → modified d₀ (base ++ [parent, name]) ≤ before →
          t.obj (base ++ [parent, name]) = none)
      (fun _ t d => d = d₀ ∧ Trimmed (modified d₀) (base ++ [parent]) before t₀ t)
      (fun t d => d = d₀ ∧ Trimmed (modified d₀) (base ++ [parent]) before t₀ t) := by
  induction entries generalizing gone removed with
  | nil => exact Does.pure fun t d h => ⟨h.1, h.2, fun name hname => by cases hname⟩
  | cons entry rest ih =>
    obtain ⟨name, isDir⟩ := entry
    have hname : Proper name := hentries _ (List.mem_cons_self ..)
    have hrest : ∀ e ∈ rest, Proper e.1 := fun e he => hentries e (List.mem_cons_of_mem _ he)
    -- files are passed over, and so are young directories
    refine Does.ite (fun hdir => ?_) fun hdir => ?_
    · refine Does.bind (R := fun stamp t d => ((d = d₀ ∧
          Trimmed (modified d₀) (base ++ [parent]) before t₀ t) ∧
          ∀ name ∈ gone, t.obj (base ++ [parent, name]) = none) ∧ stamp = modified d₀ (base ++ [parent, name]))
        (Does.mapError (step_does ?_ ?_)) fun stamp => Does.start (fun _ _ h => h.2) fun hstamp => ?_
      · intro t d h
        rw [under_concat hparent]
        cases t.lookup (base ++ [parent, name]) with
        | error e => exact h.1
        | ok o => exact ⟨h, by rw [h.1.1]⟩
      · exact fun _ t d _ _ h => ⟨h.1, h.1⟩
      subst hstamp
      refine Does.ite (fun hyoung => ?_) fun hold => ?_
      · refine ((ih hrest).pre fun t d h => h.1).post ?_ (fun _ _ _ h => h) fun _ _ h => h
        intro _ t d h
        refine ⟨h.1, h.2.1, fun name' hin hold => ?_⟩
        obtain heq | hin := List.mem_cons.mp hin
        · rw [(Prod.mk.inj heq).1] at hold
          exact absurd hold (not_le.mpr hyoung)
        · exact h.2.2 name' hin hold
      · -- an old directory is removed, and what the loop does after it does not bring it back
        refine Does.bind ((removeOld_does hparent hname (not_lt.mp hold)).pre fun _ _ h => h.1) fun _ => ?_
        refine (ih hrest).post ?_ (fun _ _ _ h => h) fun _ _ h => h
        intro _ t d h
        refine ⟨h.1, fun name' hin => h.2.1 name' (List.mem_cons_of_mem _ hin), fun name' hin hage => ?_⟩
        obtain heq | hin := List.mem_cons.mp hin
        · rw [(Prod.mk.inj heq).1]
          exact h.2.1 name (List.mem_cons_self ..)
        · exact h.2.2 name' hin hage
    · refine (ih hrest).post ?_ (fun _ _ _ h => h) fun _ _ h => h
      intro _ t d h
      refine ⟨h.1, h.2.1, fun name' hin hage => ?_⟩
      obtain heq | hin := List.mem_cons.mp hin
      · exact absurd (Prod.mk.inj heq).2.symm hdir
      · exact h.2.2 name' hin hage

/-- What a listing says of a directory. -/
def Lists (names : List String) (t : Tree) (p : List String) (entries : List (String × Bool)) : Prop :=
  (∀ e ∈ entries, Proper e.1) ∧
    ∀ name ∈ names, Proper name → t.obj (p ++ [name]) = some .directory → (name, true) ∈ entries

theorem readDir_does {P : Tree → δ → Prop} {p : List String} : Does κ b P (readDir names p)
    (fun entries t d => P t d ∧ Lists names t p entries)
    (fun e t d => P t d ∧ (e = .notExist → t.obj p = none)) P := by
  refine look_does.post ?_ ?_ fun _ _ h => h
  · intro entries t d h
    obtain ⟨ht, hask⟩ := h
    refine ⟨ht, ?_⟩
    split at hask
    · cases hask
      refine ⟨fun e he => ?_, fun name hin hname hdir => ?_⟩
      · obtain ⟨name, -, hsome⟩ := List.mem_filterMap.mp he
        split at hsome
        · next hname =>
          obtain ⟨o, -, rfl⟩ := Option.map_eq_some_iff.mp hsome
          exact hname
        · cases hsome
      · refine List.mem_filterMap.mpr ⟨name, hin, ?_⟩
        rw [if_pos hname, hdir]
        rfl
    · cases hask
    · cases hask
  · intro e t d h
    obtain ⟨ht, hask⟩ := h
    refine ⟨ht, fun he => ?_⟩
    subst he
    obtain hask | ⟨-, hfault⟩ := hask
    · split at hask
      · cases hask
      · cases hask
      · next e hlook =>
        exact (Tree.lookup_error hlook).1
    · cases hfault

/-- `RemoveExpiredChildren` removes the directories among the names that were modified by
`before`, and changes nothing else. -/
theorem removeExpiredChildren_does (hparent : parent = "_partial" ∨ parent = "_trash") :
    Does κ b (fun t d => t = t₀ ∧ d = d₀) (removeExpiredChildren modified base names parent before)
      (fun _ t d => (d = d₀ ∧ Trimmed (modified d₀) (base ++ [parent]) before t₀ t) ∧
        ∀ name ∈ names, Proper name → t₀.obj (base ++ [parent, name]) = some .directory →
          modified d₀ (base ++ [parent, name]) ≤ before → t.obj (base ++ [parent, name]) = none)
      (fun _ t d => d = d₀ ∧ Trimmed (modified d₀) (base ++ [parent]) before t₀ t)
      (fun t d => d = d₀ ∧ Trimmed (modified d₀) (base ++ [parent]) before t₀ t) := by
  have hproper : Proper parent := by
    obtain rfl | rfl := hparent
    · exact proper_partial
    · exact proper_trash
  have hstay : ∀ {t : Tree} {d : δ}, t = t₀ ∧ d = d₀ →
      d = d₀ ∧ Trimmed (modified d₀) (base ++ [parent]) before t₀ t := by
    intro t d h
    rw [h.1]
    exact ⟨h.2, Trimmed.refl t₀⟩
  have hchild : ∀ name, base ++ [parent, name] = base ++ [parent] ++ [name] := by
    intro name
    rw [List.append_assoc]
    rfl
  refine Does.ite (fun hbad => ?_) fun _ => ?_
  · obtain rfl | rfl := hparent
    · exact absurd rfl hbad.1
    · exact absurd rfl hbad.2
  refine Does.bind (resolve_does.post (fun _ _ _ h => h) ?_ fun _ _ h => hstay h) fun p => ?_
  · exact fun _ _ _ h => hstay h.1
  refine Does.start (fun _ _ h => h.2.2) fun hp => ?_
  rw [split_proper hproper] at hp
  subst hp
  refine Does.bind (R := fun r t d => (t = t₀ ∧ d = d₀) ∧
      (∀ entries, r = .ok entries → Lists names t₀ (base ++ [parent]) entries) ∧
      (r = .error .notExist → t₀.obj (base ++ [parent]) = none))
    (Does.attempt (readDir_does.weaken (fun _ _ h => h.1) ?_ ?_ ?_)) fun r => ?_
  · intro entries t d h
    refine ⟨h.1, fun entries' he => ?_, fun he => (by cases he)⟩
    rw [← Except.ok.inj he, ← h.1.1]
    exact h.2
  · intro e t d h
    refine ⟨h.1, fun _ he => (by cases he), fun he => ?_⟩
    rw [← h.1.1]
    exact h.2 (Except.error.inj he)
  · exact fun _ _ h => hstay h
  split
  · refine Does.pure fun t d h => ⟨hstay h.1, fun name _ _ hdir => ?_⟩
    rw [hchild] at hdir
    have hparentDir := t₀.parents _ _ _ hdir
    rw [h.2.2 rfl] at hparentDir
    cases hparentDir
  · exact Does.fail fun _ _ h => hstay h.1
  · next entries =>
    refine Does.start (fun _ _ h => h.2.1 entries rfl) fun hlists => ?_
    refine (@removeExpired_does _ _ _ _ _ _ _ _ _ hproper entries hlists.1 [] _).weaken ?_ ?_ (fun _ _ _ h => h)
      fun _ _ h => h
    · exact fun _ _ h => ⟨hstay h.1, fun _ hin => by cases hin⟩
    · intro _ t d h
      refine ⟨h.1, fun name hin hname hdir hage => h.2.2 name ?_ hage⟩
      rw [hchild] at hdir
      exact hlists.2 name hin hname hdir

theorem always_removeExpiredChildren {I : Tree → δ → Prop} (hparent : parent = "_partial" ∨ parent = "_trash")
    (h : ∀ t d t' stamp, I t d → Trimmed stamp (base ++ [parent]) before t t' → I t' d) :
    Always κ b I (removeExpiredChildren modified base names parent before) := by
  refine Does.each_start fun t₁ d₁ h₁ => ?_
  have hkeep : ∀ t d, d = d₁ ∧ Trimmed (modified d₁) (base ++ [parent]) before t₁ t → I t d := by
    intro t d ht
    rw [ht.1]
    exact h t₁ d₁ t _ h₁ ht.2
  exact (removeExpiredChildren_does hparent).post (fun _ t d ht => hkeep t d ht.1)
    (fun _ t d ht => hkeep t d ht) fun t d ht => hkeep t d ht

end

end AppBackup.Storage
