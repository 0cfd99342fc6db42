import AppBackup.Storage.Confine

/- `ExportData` (`storage/storage.go`): the `appvar` entries of an archive, extracted into a
   new directory. Whatever the entries are called, nothing is written but below that
   directory and what is there stays as it is; and where the export fails, its directory is
   taken away again. Reading a zip file is the parameter `openZip`.

   What is proved:
     1. `safeRelative_destination`, `split_destination` -- an entry that passes the checks goes
        to a path below the export's directory, whatever its name;
     2. `exportEntries_does`, `exportData_does` -- so every step stays there, and `Exporting`
        says what there is so far;
     3. `withdraw_does` -- the clean-up takes back that directory, but not the directory of
        the exports, which is made where it is missing (`exports_directory_created`);
     4. `export_confined` -- for every archive, every fate and every point of a crash. -/
namespace AppBackup.Storage
open Program Disk Path Text

variable {δ : Type}

/-- An entry of an archive: what its mode says, and its bytes where it opens, with whether
they can be read to the end. -/
structure ZipEntry where
  name : String
  symlink : Bool
  directory : Bool
  content : Option (List Byte × Bool)
  deriving DecidableEq

/-- `FileInfo().IsDir()`: a name that ends in a slash is that of a directory. -/
def ZipEntry.isDir (entry : ZipEntry) : Bool := entry.directory || hasSuffix entry.name "/"

/-- `strings.TrimPrefix(name, "appvar/")`. -/
def trimAppvar (name : String) : String :=
  if hasPrefix name "appvar/" then String.ofList (name.toList.drop 7) else name

/-- The bytes of an entry, copied to the file it is exported to. -/
def copyEntry (target : List String) (entry : ZipEntry) : Action δ Unit :=
  match entry.content with
  | none => Prog.fail (.refused "open entry")
  | some (bytes, whole) => do
    io (write target bytes)
    if whole then pure () else Prog.fail (.refused "read entry")

def exportEntry (destination : List String) (entry : ZipEntry) : Action δ Unit :=
  if !safeZipPath entry.name || entry.symlink then Prog.fail (.refused "unsafe archive entry")
  else if !hasPrefix entry.name "appvar/" then pure ()
  else
    let relative := trimAppvar entry.name
    if relative = "" then pure ()
    else
      let target := under destination relative
      -- `ensureChild`
      if ¬destination <+: target then Prog.fail (.refused "archive path escapes export root")
      else if entry.isDir then io (mkdirAll target)
      else do
        io (mkdirAll target.dropLast)
        io (createExclusive target)
        copyEntry target entry

/-- The part of `ExportData` that is cleaned up after. -/
def exportEntries (openZip : List Byte → Option (List ZipEntry)) (archive destination : List String) :
    Action δ Unit := do
  let bytes ← io (readFile archive)
  match openZip bytes with
  | none => Prog.fail (.refused "zip: not a valid zip file")
  | some entries => Prog.each entries (exportEntry destination)

def exportData (openZip : List Byte → Option (List ZipEntry)) (base : List String)
    (directory exportID : String) : Action δ String :=
  if safeSegment exportID then do
    let archive ← resolve base (pathJoin [directory, "snapshot.zip"])
    let destinationRelative := pathJoin ["_restore_exports", exportID]
    makeDirectories base "_restore_exports"
    let destination ← resolve base destinationRelative
    match ← (lstat destination).attempt with
    | .ok _ => Prog.fail (.refused "export destination already exists")
    | .error .notExist => do
      io (mkdir destination)
      Prog.onFailure (cleaningUp (removeDirectory base destinationRelative))
        (exportEntries openZip archive destination)
      pure destinationRelative
    | .error e => Prog.fail (.io e)
  else Prog.fail (.refused "unsafe storage path segment")

/-! ## One entry -/

section
variable {κ : Fates} {b : Bool} {new : List String → Prop} {t₀ : Tree} {destination : List String}

/-- The export so far: nothing is new but where it may be, and its directory is there. -/
def Exporting (new : List String → Prop) (t₀ : Tree) (destination : List String) (t : Tree) (_ : δ) : Prop :=
  Grown new t₀ t ∧ t.obj destination = some .directory

theorem Exporting.append {t t' : Tree} {d : δ} {p : List String} {bytes : List Byte}
    (h : Exporting new t₀ destination t d) (hnone : t₀.obj p = none) (hnew : new p)
    (happend : t.append p bytes = .ok t') : Exporting new t₀ destination t' d := by
  obtain ⟨old, hold, hobj⟩ := Tree.append_ok happend
  refine ⟨h.1.update hnone hnew Object.noConfusion hobj, ?_⟩
  have hne : destination ≠ p := by
    intro he
    rw [← he, h.2] at hold
    cases hold
  rw [hobj, Function.update_of_ne hne]
  exact h.2

theorem copyEntry_does {p : List String} (hnew : new p) (entry : ZipEntry) :
    Does κ b (fun t (d : δ) => Exporting new t₀ destination t d ∧ t₀.obj p = none) (copyEntry p entry)
      (fun _ => Exporting new t₀ destination) (fun _ => Exporting new t₀ destination)
      (Exporting new t₀ destination) := by
  have hpart : ∀ {t t' : Tree} {d : δ} {bytes : List Byte} {written : Nat} {left},
      Exporting new t₀ destination t' d ∧ t₀.obj p = none → t = partWritten p bytes written left t' →
        Exporting new t₀ destination t d := by
    intro t t' d bytes written left h he
    unfold partWritten at he
    split at he
    · next t'' happend =>
      rw [he]
      exact h.1.append h.2 hnew happend
    · rw [he]
      exact h.1
  unfold copyEntry
  split
  · exact Does.fail fun _ _ h => h.1
  · next bytes whole _ =>
    refine Does.bind (R := fun _ => Exporting new t₀ destination) (Does.mapError (change_does.post ?_ ?_ ?_))
      fun _ => ?_
    · intro _ t d h
      obtain ⟨t', ht', happend⟩ := h
      exact ht'.1.append ht'.2 hnew happend
    · intro _ t d h
      obtain ⟨ht, -⟩ | ⟨-, t', written, left, ht', he⟩ := h
      · exact ht.1
      · exact hpart ht' he
    · intro t d h
      obtain ⟨t', written, left, ht', he⟩ := h
      exact hpart ht' he
    · refine Does.ite (fun _ => ?_) fun _ => ?_
      · exact Does.pure fun _ _ h => h
      · exact Does.fail fun _ _ h => h

/-- Directories on the way to the export's own, or below it. -/
theorem mkdirAll_exporting {p : List String} (hp : p <+: destination ∨ destination <+: p)
    (hnew : ∀ q, destination <+: q → new q) :
    Does κ b (Exporting new t₀ destination) (mkdirAll p) (fun _ (t : Tree) (d : δ) =>
        Exporting new t₀ destination t d ∧ t.obj p = some .directory)
      (fun _ => Exporting new t₀ destination) (Exporting new t₀ destination) := by
  have hlaid : ∀ {t t' : Tree} {d : δ} {q : List String}, Exporting new t₀ destination t' d → q <+: p →
      Tree.Laid t' q t → Tree.Passable t' q → Exporting new t₀ destination t d := by
    intro t t' d q h hq hlaid hpass
    refine ⟨h.1.laid hlaid hpass fun r hr => ?_, ?_⟩
    · have hway : r <+: destination ∨ destination <+: r := by
        obtain hp | hp := hp
        · exact .inl ((hr.trans hq).trans hp)
        · exact List.prefix_or_prefix_of_prefix (hr.trans hq) hp
      obtain hle | hle := hway
      · exact .inl (Tree.prefix_of_directory h.2 hle)
      · exact .inr (hnew r hle)
    · rw [hlaid]
      show (if destination <+: q then some Object.directory else t'.obj destination) = some .directory
      split
      · rfl
      · exact h.2
  refine mkdirAll_does.post ?_ ?_ ?_
  · intro _ t d h
    obtain ⟨t', ht', hl, hpass⟩ := h
    refine ⟨hlaid ht' (List.prefix_refl p) hl hpass, ?_⟩
    rw [hl]
    exact if_pos (List.prefix_refl p)
  · intro _ t d h
    obtain ⟨t', q, ⟨ht', -⟩, hq, hl, hpass⟩ := h
    exact hlaid ht' hq hl hpass
  · intro t d h
    obtain ⟨t', q, ht', hq, hl, hpass⟩ := h
    exact hlaid ht' hq hl hpass

theorem exportEntry_does (hnew : ∀ q, destination <+: q → new q) (entry : ZipEntry) :
    Does κ b (Exporting new t₀ destination) (exportEntry destination entry)
      (fun _ (t : Tree) (d : δ) => Exporting new t₀ destination t d)
      (fun _ => Exporting new t₀ destination) (Exporting new t₀ destination) := by
  refine Does.ite (fun _ => Does.fail fun _ _ h => h) fun _ => ?_
  refine Does.ite (fun _ => Does.pure fun _ _ h => h) fun _ => ?_
  refine Does.ite (fun _ => Does.pure fun _ _ h => h) fun _ => ?_
  refine Does.ite (fun _ => Does.fail fun _ _ h => h) fun hchild => ?_
  generalize under destination (trimAppvar entry.name) = target at hchild ⊢
  have hle : destination <+: target := not_not.mp hchild
  refine Does.ite (fun _ => ?_) fun _ => ?_
  · exact Does.mapError ((mkdirAll_exporting (.inr hle) hnew).post (fun _ _ _ h => h.1) (fun _ _ _ h => h)
      fun _ _ h => h)
  have hparent : target.dropLast <+: destination ∨ destination <+: target.dropLast :=
    List.prefix_or_prefix_of_prefix (List.dropLast_prefix target) hle
  refine Does.bind (Does.mapError (mkdirAll_exporting hparent hnew)) fun _ => ?_
  refine Does.bind (R := fun _ t (d : δ) => Exporting new t₀ destination t d ∧ t₀.obj target = none)
    (Does.mapError (change_atOnce.post ?_ ?_ ?_)) fun _ => copyEntry_does (hnew target hle) entry
  · intro _ t d h
    obtain ⟨t', ⟨ht', -⟩, hcreate⟩ := h
    obtain ⟨hnone, hobj⟩ := Tree.create_ok hcreate
    have hnone₀ : t₀.obj target = none := by
      cases h₀ : t₀.obj target with
      | none => rfl
      | some o =>
        rw [ht'.1.kept target o h₀] at hnone
        cases hnone
    refine ⟨⟨ht'.1.update hnone₀ (hnew target hle) Object.noConfusion hobj, ?_⟩, hnone₀⟩
    have hne : destination ≠ target := by
      intro he
      rw [← he, ht'.2] at hnone
      cases hnone
    rw [hobj, Function.update_of_ne hne]
    exact ht'.2
  · exact fun _ _ _ h => h.1.1
  · exact fun _ _ h => h.1

end

/-! ## The export -/

def exportsPath (base : List String) : List String := base ++ ["_restore_exports"]
def exportPath (base : List String) (exportID : String) : List String :=
  base ++ ["_restore_exports", exportID]

/-- Where an export may put something new: the directory of the exports, and its own and
what lies below it, which it must have created. -/
def MayAdd (t₀ : Tree) (base : List String) (exportID : String) (p : List String) : Prop :=
  p = exportsPath base ∨ (exportPath base exportID <+: p ∧ t₀.obj (exportPath base exportID) = none)

section
variable {κ : Fates} {base : List String} {exportID : String} {t₀ : Tree}

theorem exportPath_eq : exportPath base exportID = exportsPath base ++ [exportID] := by
  simp [exportPath, exportsPath]

theorem safeRelative_exports : safeRelative "_restore_exports" = true := by decide +kernel

theorem split_exports : split "_restore_exports" = ["_restore_exports"] := by decide +kernel

theorem export_names (h : Proper exportID) : ∀ n ∈ ["_restore_exports", exportID], Proper n := by
  intro n hn
  obtain rfl | hn := List.mem_cons.mp hn
  · exact ⟨by decide, by decide, by decide, by decide⟩
  · rw [List.mem_singleton.mp hn]
    exact h

theorem split_destination (h : Proper exportID) :
    base ++ split (pathJoin ["_restore_exports", exportID]) = exportPath base exportID := by
  rw [pathJoin_proper (List.cons_ne_nil _ _) (export_names h), split_join (List.cons_ne_nil _ _)
    fun n hn => (export_names h n hn).2.2.2]
  rfl

theorem safeRelative_destination (h : Proper exportID) :
    safeRelative (pathJoin ["_restore_exports", exportID]) = true := by
  rw [pathJoin_proper (List.cons_ne_nil _ _) (export_names h)]
  exact safeRelative_join (List.cons_ne_nil _ _) (export_names h)

/-- Before the export's directory is made only that of the exports may be new. -/
def Preparing (base : List String) (t₀ t : Tree) (_ : δ) : Prop :=
  Grown (fun p => p = exportsPath base) t₀ t

/-- What an export that fails leaves: where its clean-up goes through, not its directory. -/
def Withdrawn (κ : Fates) (base : List String) (exportID : String) (t₀ t : Tree) (_ : δ) : Prop :=
  Grown (MayAdd t₀ base exportID) t₀ t ∧ (Calm κ true → t₀.obj (exportPath base exportID) = none →
    t.obj (exportPath base exportID) = none)

theorem Preparing.grown {t : Tree} {d : δ} (h : Preparing base t₀ t d) :
    Grown (MayAdd t₀ base exportID) t₀ t := h.mono fun _ hp => .inl hp

theorem Preparing.same {t : Tree} {d : δ} (h : Preparing base t₀ t d) :
    t.obj (exportPath base exportID) = t₀.obj (exportPath base exportID) := by
  refine Grown.same h fun he => ?_
  have hlen := congrArg List.length he
  simp [exportPath, exportsPath] at hlen

theorem Preparing.withdrawn {t : Tree} {d : δ} (h : Preparing base t₀ t d) :
    Withdrawn κ base exportID t₀ t d :=
  ⟨h.grown, fun _ hnone => h.same.trans hnone⟩

theorem makeExports_does (hbase : t₀.obj base = some .directory) :
    Does κ false (Preparing base t₀) (makeDirectories base "_restore_exports")
      (fun _ (t : Tree) (d : δ) => Preparing base t₀ t d) (fun _ => Preparing base t₀)
      (Preparing base t₀) := by
  have hlaid : ∀ {t t' : Tree} {d : δ} {q : List String}, Preparing base t₀ t' d →
      q <+: base ++ split "_restore_exports" → Tree.Laid t' q t → Tree.Passable t' q →
        Preparing base t₀ t d := by
    intro t t' d q h hq hl hpass
    refine Grown.laid h hl hpass fun r hr => ?_
    have hr := hr.trans hq
    rw [split_exports] at hr
    obtain rfl | hr := List.prefix_concat_iff.mp hr
    · exact .inr rfl
    · exact .inl (Tree.prefix_of_directory (h.kept base _ hbase) hr)
  refine makeDirectories_does.post ?_ ?_ ?_
  · intro _ t d h
    obtain ⟨-, t', ht', hl, hpass⟩ := h
    exact hlaid ht' (List.prefix_refl _) hl hpass
  · intro _ t d h
    obtain ⟨t', q, ⟨ht', -⟩, hq, hl, hpass⟩ := h
    exact hlaid ht' hq hl hpass
  · intro t d h
    obtain ⟨t', q, ht', hq, hl, hpass⟩ := h
    exact hlaid ht' hq hl hpass

/-- The clean-up takes away what the export has made. -/
theorem withdraw_does (hid : Proper exportID) (hnone : t₀.obj (exportPath base exportID) = none) :
    Does κ true (Exporting (MayAdd t₀ base exportID) t₀ (exportPath base exportID))
      (removeDirectory base (pathJoin ["_restore_exports", exportID]))
      (fun _ (t : Tree) (d : δ) => Withdrawn κ base exportID t₀ t d)
      (fun _ => Withdrawn κ base exportID t₀)
      (fun t _ => Grown (MayAdd t₀ base exportID) t₀ t) := by
  refine removeDirectory_does.post ?_ ?_ ?_
  · intro _ t d h
    rw [split_destination hid] at h
    obtain ⟨t', ht', ⟨rfl, hgone⟩ | rfl⟩ := h
    · exact ⟨ht'.1, fun _ _ => hgone⟩
    · refine ⟨ht'.1.removed hnone, fun _ _ => ?_⟩
      exact Tree.removeAll_below (List.append_ne_nil_of_right_ne_nil _ (List.cons_ne_nil _ _))
        (List.prefix_refl _)
  · intro _ t d h
    rw [split_destination hid] at h
    obtain ⟨t', ht', he, hcalm⟩ := h
    have hstuck : ¬Calm κ true := by
      intro hc
      refine hcalm hc (safeRelative_destination hid) (passable_dropLast ?_)
      exact Tree.passable_of_directory ht'.2
    refine ⟨?_, fun hc => absurd hc hstuck⟩
    obtain rfl | ⟨left, rfl⟩ := he
    · exact ht'.1
    · exact ht'.1.removed hnone
  · intro t d h
    rw [split_destination hid] at h
    obtain ⟨t', ht', rfl | ⟨left, rfl⟩⟩ := h
    · exact ht'.1
    · exact ht'.1.removed hnone

theorem exportEntries_does (openZip : List Byte → Option (List ZipEntry)) {archive destination : List String}
    {new : List String → Prop} (hnew : ∀ q, destination <+: q → new q) :
    Does κ false (Exporting new t₀ destination) (exportEntries openZip archive destination)
      (fun _ (t : Tree) (d : δ) => Exporting new t₀ destination t d)
      (fun _ => Exporting new t₀ destination) (Exporting new t₀ destination) := by
  refine Does.bind (Does.mapError (look_does.post (fun _ _ _ h => h.1) (fun _ _ _ h => h.1)
    fun _ _ h => h)) fun bytes => ?_
  split
  · exact Does.fail fun _ _ h => h
  · next entries _ =>
    exact Does.each (I := fun _ => Exporting new t₀ destination) entries fun entry _ =>
      exportEntry_does hnew entry

theorem exportData_does (openZip : List Byte → Option (List ZipEntry)) (directory : String)
    (hbase : t₀.obj base = some .directory) :
    Does κ false (fun t (_ : δ) => t = t₀) (exportData openZip base directory exportID)
      (fun _ t _ => Grown (MayAdd t₀ base exportID) t₀ t) (fun _ => Withdrawn κ base exportID t₀)
      (fun t _ => Grown (MayAdd t₀ base exportID) t₀ t) := by
  refine Does.pre (P := Preparing base t₀) ?_ fun t d h => by rw [h]; exact Grown.refl
  refine Does.ite (fun hsafe => ?_) fun _ => Does.fail fun _ _ h => h.withdrawn
  have hid := safeSegment_proper hsafe
  refine Does.bind (R := fun _ => Preparing base t₀) (resolve_does.post ?_ ?_ ?_) fun archive => ?_
  · exact fun _ _ _ h => h.1
  · exact fun _ _ _ h => h.1.withdrawn
  · exact fun _ _ h => h.grown
  refine Does.bind ((makeExports_does hbase).post (fun _ _ _ h => h) (fun _ _ _ h => h.withdrawn)
    fun _ _ h => h.grown) fun _ => ?_
  refine Does.bind (resolve_does.post (fun _ _ _ h => h) (fun _ _ _ h => h.1.withdrawn)
    fun _ _ h => h.grown) fun destination => ?_
  refine Does.start (fun _ _ h => h.2.2) fun hdest => ?_
  rw [split_destination hid] at hdest
  subst hdest
  refine Does.bind (R := fun r t (d : δ) => Preparing base t₀ t d ∧ (r = .error .notExist →
    t₀.obj (exportPath base exportID) = none))
    (Does.attempt ((look_does.pre fun _ _ h => h.1).post ?_ ?_ ?_)) fun r => ?_
  · exact fun _ _ _ h => ⟨h.1, fun he => by cases he⟩
  · intro e t d h
    refine ⟨h.1, fun he => ?_⟩
    cases he
    obtain hlook | ⟨-, hfault⟩ := h.2
    · rw [← h.1.same]
      exact (Tree.lookup_error hlook).1
    · cases hfault
  · exact fun _ _ h => h.grown
  split
  · exact Does.fail fun _ _ h => h.1.withdrawn
  · refine Does.start (fun _ _ h => h.2 rfl) fun hnone => ?_
    have hnew : ∀ q, exportPath base exportID <+: q → MayAdd t₀ base exportID q :=
      fun q hq => .inr ⟨hq, hnone⟩
    refine Does.bind (R := fun _ => Exporting (MayAdd t₀ base exportID) t₀ (exportPath base exportID))
      (Does.mapError (change_atOnce.post ?_ ?_ ?_)) fun _ => ?_
    · intro _ t d h
      obtain ⟨t', ⟨ht', -⟩, hcreate⟩ := h
      obtain ⟨-, hobj⟩ := Tree.create_ok hcreate
      refine ⟨ht'.grown.update hnone (hnew _ (List.prefix_refl _)) Object.noConfusion hobj, ?_⟩
      rw [hobj, Function.update_self]
    · exact fun _ _ _ h => h.1.1.withdrawn
    · exact fun _ _ h => h.1.grown
    · refine Does.bind (Does.onFailure ((exportEntries_does openZip hnew).post (fun _ _ _ h => h)
        (fun _ _ _ h => h) fun _ _ h => h.1) fun _ => withdraw_does hid hnone) fun _ => ?_
      exact Does.pure fun _ _ h => h.1
  · exact Does.fail fun _ _ h => h.1.withdrawn

/-- Whatever the archive is, an export leaves what was there, puts nothing but directories
and files into a directory that it has created, which lies in that of the exports, and
takes its directory away again where it fails and its clean-up goes through. -/
theorem export_confined (openZip : List Byte → Option (List ZipEntry)) (base : List String)
    (directory exportID : String) (m : Machine δ) (hclean : m.cleaning = false)
    (hbase : m.tree.obj base = some .directory) :
    let out := exportData openZip base directory exportID m
    Grown (MayAdd m.tree base exportID) m.tree out.state.tree ∧
      ∀ e m', out = .failed e m' → Calm m.fate true → m.tree.obj (exportPath base exportID) = none →
        m'.tree.obj (exportPath base exportID) = none := by
  have hdoes : Does m.fate false (fun t (_ : δ) => t = m.tree) (exportData openZip base directory exportID) _ _ _ :=
    exportData_does openZip directory hbase
  have hrun := hdoes.run ⟨rfl, hclean, rfl⟩
  refine ⟨?_, fun e m' hout hcalm hnone => ?_⟩
  · cases hout : exportData openZip base directory exportID m with
    | done a m' => rw [hout] at hrun; exact hrun.2.2
    | failed e m' => rw [hout] at hrun; exact hrun.2.2.1
    | crashed m' => rw [hout] at hrun; exact hrun.2.2
  · rw [hout] at hrun
    exact hrun.2.2.2 hcalm hnone

end

/-! ## A small storage -/

def demoBase : List String := ["data", "MimiAppBakcup"]

/-- The root, and a snapshot whose archive has some bytes. -/
def demoTree : Tree :=
  Tree.bare.withObjects [(["data"], .directory), (demoBase, .directory),
    (demoBase ++ ["deploy-a"], .directory), (demoBase ++ ["deploy-a", "t1"], .directory),
    (demoBase ++ ["deploy-a", "t1", "snapshot.zip"], .file [80, 75])]

/-- The archive has a directory and a file in it. -/
def demoZip (bytes : List Byte) : Option (List ZipEntry) :=
  if bytes = [80, 75] then
    some [⟨"appvar/db/", false, true, some ([], true)⟩, ⟨"appvar/db/a.txt", false, false, some ([7], true)⟩]
  else none

def demoExport : Outcome (Machine Unit) StorageError String :=
  exportData demoZip demoBase "deploy-a/t1" "e1" (Machine.calm demoTree ())

theorem export_confined_demo :
    Grown (MayAdd demoTree demoBase "e1") demoTree demoExport.state.tree ∧
      demoExport.state.tree.obj (exportPath demoBase "e1" ++ ["db", "a.txt"]) = some (.file [7]) := by
  have hbase : (Machine.calm demoTree ()).tree.obj demoBase = some .directory := by decide +kernel
  refine ⟨(export_confined demoZip demoBase "deploy-a/t1" "e1" (Machine.calm demoTree ()) rfl hbase).1, ?_⟩
  decide +kernel

/-- The directory of the exports is itself made by the first export, also by one that
fails. -/
theorem exports_directory_created :
    ¬∀ (openZip : List Byte → Option (List ZipEntry)) (base : List String) (directory exportID : String)
      (m : Machine Unit), m.cleaning = false → m.tree.obj base = some .directory →
      ∀ p o, (exportData openZip base directory exportID m).state.tree.obj p = some o →
        m.tree.obj p = none → exportPath base exportID <+: p := by
  intro h
  have hprefix := h demoZip demoBase "deploy-a/t1" "e1" (Machine.calm demoTree ()) rfl
    (by decide +kernel) (exportsPath demoBase) .directory (by decide +kernel) (by decide +kernel)
  exact absurd hprefix (by decide)

end AppBackup.Storage
