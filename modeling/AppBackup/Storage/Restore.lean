import AppBackup.Lib.Layout
import AppBackup.Storage.Commit
import AppBackup.Storage.Export

/- What `ExportData` restores (`storage/storage.go`): the directories and files of an archive
   whose data entries are apart come back at the names below `appvar` with their bytes, in the
   directory of the export and with the directories they lie in, and nothing else comes. A
   process in which nothing fails for a reason of its own gets that far. -/
namespace AppBackup.Storage
open Program Disk Path Text

variable {δ : Type}

/-! ## Names of entries -/

/-- The name of the data at the names `names` in an archive. -/
def archivedName (names : List String) : String := "appvar/" ++ join names

section
variable {names : List String} (hne : names ≠ []) (h : ∀ n ∈ names, Proper n)
include hne

theorem archivedName_join : archivedName names = join ("appvar" :: names) := by
  obtain ⟨name, rest, rfl⟩ := List.exists_cons_of_ne_nil hne
  rw [join_cons_cons]
  rfl

include h

theorem safeRelative_archivedName : safeRelative (archivedName names) = true := by
  rw [archivedName_join hne]
  refine safeRelative_join (List.cons_ne_nil _ _) fun n hn => ?_
  obtain rfl | hn := List.mem_cons.mp hn
  · decide +kernel
  · exact h n hn

/-- Nothing that is joined ends in a slash. -/
theorem hasSuffix_join : hasSuffix (join names) "/" = false := by
  rw [Bool.eq_false_iff]
  intro hsuffix
  obtain ⟨start, hstart⟩ := hasSuffix_iff.mp hsuffix
  have hsplit := split_join hne fun n hn => (h n hn).2.2.2
  have hlast : split (join names) = (start.splitOn '/').map String.ofList ++ [""] := by
    unfold split
    rw [← hstart]
    show ((start ++ ['/']).splitOn '/').map String.ofList = _
    rw [List.splitOn_append_cons_self, List.map_append]
    rfl
  rw [hsplit] at hlast
  exact (h "" (by rw [hlast]; exact List.mem_concat_self)).1 rfl

end

theorem trimSlash_slash (value : String) : trimSlash (value ++ "/") = value := by
  have hsuffix : hasSuffix (value ++ "/") "/" = true := by
    rw [hasSuffix_iff, String.toList_append]
    exact List.suffix_append _ _
  unfold trimSlash
  rw [if_pos hsuffix, String.toList_append]
  show String.ofList (value.toList ++ ['/']).dropLast = value
  rw [List.dropLast_concat, String.ofList_toList]

theorem trimAppvar_append (value : String) : trimAppvar ("appvar/" ++ value) = value := by
  have happvar : hasPrefix ("appvar/" ++ value) "appvar/" = true := by
    rw [hasPrefix_iff, String.toList_append]
    exact List.prefix_append _ _
  unfold trimAppvar
  rw [if_pos happvar, String.toList_append]
  exact String.ofList_toList

theorem split_slash (value : String) : split (value ++ "/") = split value ++ [""] := by
  unfold split
  rw [String.toList_append]
  show ((value.toList ++ ['/']).splitOn '/').map String.ofList = _
  rw [List.splitOn_append_cons_self, List.map_append]
  rfl

theorem under_join (destination : List String) {names : List String} (hne : names ≠ [])
    (h : ∀ n ∈ names, Proper n) :
    under destination (join names) = destination ++ names := by
  have hsplit := split_join hne fun n hn => (h n hn).2.2.2
  rw [under_proper (by rw [hsplit]; exact h), hsplit]

theorem under_slash (destination : List String) {names : List String} (hne : names ≠ [])
    (h : ∀ n ∈ names, Proper n) : under destination (join names ++ "/") = destination ++ names := by
  unfold under
  rw [split_slash, split_join hne fun n hn => (h n hn).2.2.2, List.foldl_append, foldl_pushName_proper h]
  show (names.reverse ++ destination.reverse).reverse = _
  rw [List.reverse_append, List.reverse_reverse, List.reverse_reverse]

/-! ## Entries -/

/-- The entry of an item in an archive. -/
def itemEntry : Item → ZipEntry
  | .directory names => ⟨archivedName names ++ "/", false, true, some ([], true)⟩
  | .file names bytes => ⟨archivedName names, false, false, some (bytes, true)⟩

/-- The names of an item are those of a path. -/
def Nameable (i : Item) : Prop := i.names ≠ [] ∧ ∀ n ∈ i.names, Proper n

/-- An entry that an export takes and does nothing for. -/
def Skipped (entry : ZipEntry) : Prop :=
  safeZipPath entry.name = true ∧ entry.symlink = false ∧ hasPrefix entry.name "appvar/" = false

theorem safeZipPath_relative {value : String} (h : safeRelative value = true) (hslash : hasSuffix value "/" = false) :
    safeZipPath value = true ∧ safeZipPath (value ++ "/") = true := by
  obtain ⟨hne, hroot, hclean, -, hup, hbelow⟩ := safeRelative_iff.mp h
  have hroot' : ¬(value ++ "/" = "" ∨ hasPrefix (value ++ "/") "/" = true) := by
    rintro (he | happvar)
    · have hlength := congrArg (fun text : String => text.toList.length) he
      simp at hlength
    · rw [Bool.eq_false_iff] at hroot
      refine hroot (hasPrefix_iff.mpr ?_)
      rw [hasPrefix_iff, String.toList_append] at happvar
      cases hlist : value.toList with
      | nil => exact absurd (String.toList_eq_nil_iff.mp hlist) hne
      | cons c rest =>
        rw [hlist] at happvar
        obtain ⟨more, hmore⟩ := happvar
        exact ⟨rest, by rw [(List.cons.inj hmore).1.symm]; rfl⟩
  have htrim : trimSlash value = value := by
    unfold trimSlash
    rw [if_neg (by rw [hslash]; exact Bool.false_ne_true)]
  refine ⟨?_, ?_⟩
  · unfold safeZipPath
    rw [if_neg (by simp [hne, hroot]), htrim]
    simp [hne, hclean, hup, hbelow]
  · unfold safeZipPath
    rw [if_neg hroot', trimSlash_slash]
    simp [hne, hclean, hup, hbelow]

theorem hasSuffix_archivedName {i : Item} (h : Nameable i) : hasSuffix (archivedName i.names) "/" = false := by
  rw [archivedName_join h.1]
  refine hasSuffix_join (List.cons_ne_nil _ _) fun n hn => ?_
  obtain rfl | hn := List.mem_cons.mp hn
  · decide +kernel
  · exact h.2 n hn

theorem safeZipPath_item {i : Item} (h : Nameable i) : safeZipPath (itemEntry i).name = true := by
  obtain ⟨hplain, hdir⟩ := safeZipPath_relative (safeRelative_archivedName h.1 h.2) (hasSuffix_archivedName h)
  cases i with
  | directory names => exact hdir
  | file names bytes => exact hplain

theorem hasPrefix_archivedName (names : List String) (more : String) :
    hasPrefix (archivedName names ++ more) "appvar/" = true := by
  rw [hasPrefix_iff, String.toList_append, archivedName, String.toList_append, List.append_assoc]
  exact List.prefix_append _ _

section
variable {destination names : List String} {bytes : List Byte}

theorem exportEntry_skipped {entry : ZipEntry} (h : Skipped entry) :
    (exportEntry destination entry : Action δ Unit) = pure () := by
  obtain ⟨hsafe, hlink, happvar⟩ := h
  unfold exportEntry
  rw [hsafe, hlink, happvar]
  rfl

theorem exportEntry_data {entry : ZipEntry} {relative : String} {target : List String}
    (hsafe : safeZipPath entry.name = true) (hlink : entry.symlink = false)
    (happvar : hasPrefix entry.name "appvar/" = true) (htrim : trimAppvar entry.name = relative) (hne : relative ≠ "")
    (hunder : under destination relative = target) (hle : destination <+: target) :
    (exportEntry destination entry : Action δ Unit) =
      if entry.isDir then io (mkdirAll target)
      else (do
        io (mkdirAll target.dropLast)
        io (createExclusive target)
        copyEntry target entry) := by
  unfold exportEntry
  simp only [hsafe, hlink, happvar, htrim, hunder]
  rw [if_neg (by decide), if_neg (by decide), if_neg hne, if_neg (not_not.mpr hle)]

theorem exportEntry_directory (h : Nameable (.directory names)) :
    (exportEntry destination (itemEntry (.directory names)) : Action δ Unit) =
      io (mkdirAll (destination ++ names)) := by
  have happvar : hasPrefix (itemEntry (.directory names)).name "appvar/" = true := hasPrefix_archivedName names "/"
  have htrim : trimAppvar (itemEntry (.directory names)).name = join names ++ "/" := by
    show trimAppvar ("appvar/" ++ join names ++ "/") = _
    rw [String.append_assoc, trimAppvar_append]
  have hne : join names ++ "/" ≠ "" := by
    intro he
    have hlength := congrArg (fun text : String => text.toList.length) he
    simp at hlength
  rw [exportEntry_data (safeZipPath_item h) rfl happvar htrim hne (under_slash destination h.1 h.2)
    (List.prefix_append destination names)]
  exact if_pos rfl

theorem exportEntry_file (h : Nameable (.file names bytes)) :
    (exportEntry destination (itemEntry (.file names bytes)) : Action δ Unit) = (do
      io (mkdirAll (destination ++ names).dropLast)
      io (createExclusive (destination ++ names))
      io (write (destination ++ names) bytes)
      pure ()) := by
  have happvar : hasPrefix (itemEntry (.file names bytes)).name "appvar/" = true := by
    have happend := hasPrefix_archivedName names ""
    rw [String.append_empty] at happend
    exact happend
  have htrim : trimAppvar (itemEntry (.file names bytes)).name = join names := by
    show trimAppvar ("appvar/" ++ join names) = _
    rw [trimAppvar_append]
  have hne : join names ≠ "" := join_ne_empty h.1 fun n hn => (h.2 n hn).1
  have hplain : (itemEntry (.file names bytes)).isDir = false := by
    have hslash : hasSuffix (archivedName names) "/" = false := @hasSuffix_archivedName (.file names bytes) h
    show (false || hasSuffix (archivedName names) "/") = false
    rw [hslash]
    rfl
  rw [exportEntry_data (safeZipPath_item h) rfl happvar htrim hne (under_join destination h.1 h.2)
    (List.prefix_append destination names), hplain]
  rfl

end

/-! ## The export of apart items -/

section
variable {κ : Fates} {b : Bool} {H : Prop} {outside : List String → Option Object} {destination : List String}
  {before : List Item}

/-- An item goes to its place. -/
theorem exportItem_done (hH : H → Quiet κ) {i : Item} (h : Nameable i) (hbefore : ∀ j ∈ before, Nameable j)
    (hapart : ∀ j ∈ before, j.Apart i) :
    DoneIff κ b H True (fun t (_ : δ) => LaidOut outside destination before t) (exportEntry destination (itemEntry i))
      (fun _ t _ => LaidOut outside destination (before ++ [i]) t) := by
  have hne : ∀ j ∈ before, j.names ≠ [] := fun j hj => (hbefore j hj).1
  cases i with
  | directory names =>
    rw [exportEntry_directory h]
    refine (DoneIff.mapError (doneIff_mkdirAll hH fun t _ ht => ?_)).weaken (fun _ _ ht => ht) Iff.rfl ?_
    · exact LaidOut.passable ht hne hapart (List.prefix_refl names)
    · intro _ t d ht
      obtain ⟨t', ht', hlaid⟩ := ht
      exact LaidOut.directory ht' hne hapart hlaid
  | file names bytes =>
    rw [exportEntry_file h]
    have hnone : ∀ t, LaidOut outside destination before t → t.obj (destination ++ names) = none := by
      intro t ht
      rw [ht.inside]
      exact objAt_none hapart h.1
    have hparent : (destination ++ names).dropLast = destination ++ names.dropLast :=
      List.dropLast_append_of_ne_nil h.1
    refine DoneIff.next (DoneIff.mapError (doneIff_mkdirAll hH fun t _ ht => ?_)) fun _ => ?_
    · rw [hparent]
      exact LaidOut.passable ht hne hapart (List.dropLast_prefix names)
    -- an empty file is made first
    refine DoneIff.next (Q := fun _ t _ => t.obj (destination ++ names) = some (.file []) ∧ ∃ t' t'',
        LaidOut outside destination before t' ∧ Tree.Laid t' (destination ++ names).dropLast t'' ∧
        t.obj = Function.update t''.obj (destination ++ names) (some (.file [])))
      (DoneIff.mapError (doneIff_change hH ?_ ?_)) fun _ => ?_
    · intro t d ht t₁ hcreate
      obtain ⟨t', ht', hlaid⟩ := ht
      obtain ⟨-, hobj⟩ := Tree.create_ok hcreate
      exact ⟨by rw [hobj, Function.update_self], t', t, ht', hlaid, hobj⟩
    · intro _ t d ht
      obtain ⟨t', ht', hlaid⟩ := ht
      have hfree : t.obj (destination ++ names) = none := by
        rw [hlaid]
        dsimp only
        rw [if_neg, hnone t' ht']
        intro hle
        have hlength := hle.length_le
        rw [hparent, List.length_append, List.length_append, List.length_dropLast] at hlength
        have hpos : 0 < names.length := List.length_pos_iff.mpr h.1
        omega
      have hdir : t.obj (destination ++ names).dropLast = some .directory := by
        rw [hlaid]
        exact if_pos (List.prefix_refl _)
      obtain ⟨t₁, hcreate, -⟩ := @Tree.create_eq _ _ (.file []) hfree hdir
      exact ⟨t₁, hcreate⟩
    -- then its bytes are written to it
    refine DoneIff.next (DoneIff.mapError (doneIff_change hH (Q := fun t _ =>
      LaidOut outside destination (before ++ [.file names bytes]) t) ?_ ?_)) fun _ => DoneIff.pure fun _ _ ht => ht
    · intro t d ht t₁ happend
      obtain ⟨hempty, t', t'', ht', hlaid, hobj⟩ := ht
      obtain ⟨old, hold, hobj'⟩ := Tree.append_ok happend
      rw [hempty] at hold
      cases hold
      refine LaidOut.file ht' hne hapart h.1 hlaid ?_
      rw [hobj', hobj, Function.update_idem, List.nil_append]
    · intro _ t d ht
      obtain ⟨t₁, happend, -⟩ := @Tree.append_eq _ _ bytes _ ht.1
      exact ⟨t₁, happend⟩

/-- The entries of an archive whose items are apart, and of which it skips the others. -/
theorem exportAll_done (hH : H → Quiet κ) {items : List Item} {others : List ZipEntry}
    (hitems : ∀ i ∈ items, Nameable i) (hapart : items.Pairwise Item.Apart)
      (hothers : ∀ e ∈ others, Skipped e) :
    DoneIff κ b H True (fun t (_ : δ) => LaidOut outside destination [] t)
      (Prog.each (items.map itemEntry ++ others) (exportEntry destination))
      (fun _ t _ => LaidOut outside destination items t) := by
  -- the items of the entries so far; the others come last and change nothing
  refine (DoneIff.each (I := fun (done : List ZipEntry) t (_ : δ) =>
    LaidOut outside destination (items.take done.length) t) _ fun before e after he => ?_).weaken
      (fun _ _ ht => ht) Iff.rfl fun _ t _ ht => ?_
  · have hlength := congrArg List.length he
    rw [List.length_append, List.length_append, List.length_map, List.length_cons] at hlength
    have hget := congrArg (fun l : List ZipEntry => l[before.length]?) he
    simp only [List.getElem?_append_right (Nat.le_refl _), Nat.sub_self, List.getElem?_cons_zero] at hget
    by_cases hitem : before.length < items.length
    · rw [List.getElem?_append_left (by rw [List.length_map]; exact hitem), List.getElem?_map,
        List.getElem?_eq_getElem hitem] at hget
      have hentry : e = itemEntry items[before.length] := (Option.some.inj hget).symm
      have hmem : items[before.length] ∈ items := List.getElem_mem hitem
      rw [hentry]
      refine (exportItem_done hH (hitems _ hmem) (fun j hj => hitems j (List.mem_of_mem_take hj)) ?_).weaken
        (fun _ _ ht => ht) Iff.rfl fun _ t d ht => ?_
      · intro j hj
        obtain ⟨k, hk, rfl⟩ := List.getElem_of_mem hj
        rw [List.length_take] at hk
        rw [List.getElem_take]
        exact List.pairwise_iff_getElem.mp hapart k before.length (by omega) hitem (by omega)
      · rw [List.length_append, List.length_singleton, List.take_succ_eq_append_getElem hitem]
        exact ht
    · rw [List.getElem?_append_right (by rw [List.length_map]; omega)] at hget
      rw [exportEntry_skipped (hothers e (List.mem_of_getElem? hget))]
      refine DoneIff.pure fun t d ht => ?_
      rw [List.take_of_length_le (by omega)] at ht
      rw [List.take_of_length_le (by rw [List.length_append]; omega)]
      exact ht
  · rw [List.length_append, List.length_map, List.take_of_length_le (by omega)] at ht
    exact ht

end

/-! ## The whole export -/

section
variable {κ : Fates} {b : Bool} {H : Prop} {base : List String} {relative : String} {P : Tree → δ → Prop}

theorem resolve_done (hH : H → Quiet κ) (hsafe : safeRelative relative = true)
    (hP : ∀ t d, P t d → t.obj (base ++ split relative).dropLast = some .directory) :
    DoneIff κ b H True P (resolve base relative : Action δ (List String))
      (fun p t d => p = base ++ split relative ∧ P t d) := by
  refine Does.quiet hH (resolve_does.post ?_ ?_ fun _ _ hc => hc) fun hcalm => lives_resolve hcalm
  · exact fun _ _ _ ht => ⟨trivial, ht.2.2, ht.1⟩
  · intro _ t d ht hh
    exact absurd (Tree.passable_of_directory (hP t d ht.1)) (ht.2 (hH hh b) hsafe)

theorem makeDirectories_done (hH : H → Quiet κ) (hsafe : safeRelative relative = true)
    (hP : ∀ t d, P t d → Tree.Passable t (base ++ split relative)) :
    DoneIff κ b H True P (makeDirectories base relative : Action δ Unit)
      (fun _ t d => ∃ t', P t' d ∧ Tree.Laid t' (base ++ split relative) t) := by
  refine Does.quiet hH (makeDirectories_does.post ?_ ?_ fun _ _ hc => hc) fun hcalm => lives_makeDirectories hcalm
  · intro _ t d ht
    obtain ⟨-, t', ht', hlaid, -⟩ := ht
    exact ⟨trivial, t', ht', hlaid⟩
  · intro _ t d ht hh
    obtain ⟨t', q, ⟨ht', hstuck⟩, -⟩ := ht
    exact absurd (hP t' d ht') (hstuck (hH hh b) hsafe)

/-- A look at what is not there, in a directory that is, says so. -/
theorem lstat_none (hH : H → Quiet κ) {p : List String}
    (hP : ∀ t d, P t d → t.obj p = none ∧ t.obj p.dropLast = some .directory) :
    DoneIff κ b H True P ((lstat p).attempt : Action δ (Except IoError Object))
      (fun r t d => P t d ∧ ∀ o, r ≠ .ok o ∧ (H → r = .error .notExist)) := by
  refine Does.quiet (C := P) hH (Does.attempt (look_does.post ?_ ?_ ?_)) fun hcalm => Lives.attempt (lives_look hcalm _)
  · intro o t d ht
    have hobj := Tree.lookup_iff.mp ht.2
    rw [(hP t d ht.1).1] at hobj
    cases hobj
  · intro e t d ht
    refine ⟨trivial, ht.1, fun o => ⟨nofun, fun hh => ?_⟩⟩
    obtain hlook | ⟨hnot, -⟩ := ht.2
    · obtain ⟨hnone, hparent⟩ := hP t d ht.1
      rw [(Tree.lookup_error hlook).2, Tree.missing_below hnone hparent]
    · exact absurd (hH hh b) hnot
  · exact fun _ _ ht => ht

theorem DoneIff.withdrawing {ε ε' α : Type} {c : Prog (Machine δ) ε α} {cleanup : Prog (Machine δ) ε' Unit}
    {φ : Prop} {Q : α → Tree → δ → Prop} (h : DoneIff κ b H φ P c Q)
    (hclean : Does κ true (fun _ (_ : δ) => H → ¬φ) cleanup (fun _ _ _ => H → ¬φ) (fun _ _ _ => H → ¬φ)
      fun _ _ => ¬H) : DoneIff κ b H φ P (Prog.onFailure (cleaningUp cleanup) c) Q :=
  Does.onFailure h fun _ => hclean

end

/-- Elsewhere the directory of the exports may be new. -/
def besideExport (base : List String) (t₀ : Tree) (p : List String) : Option Object :=
  if p = exportsPath base then some .directory else t₀.obj p

section
variable {κ : Fates} {H : Prop} {base : List String} {directory exportID : String} {t₀ : Tree}

/-- There is room for an export, and its archive is there. -/
structure Exportable (base : List String) (directory exportID : String) (bytes : List Byte) (t : Tree) : Prop where
  root : t.obj base = some .directory
  archive : t.obj (base ++ split directory ++ ["snapshot.zip"]) = some (.file bytes)
  exports : t.obj (exportsPath base) = none ∨ t.obj (exportsPath base) = some .directory
  free : t.obj (exportPath base exportID) = none

theorem laidOut_new {t t' : Tree}
    (hbase : t₀.obj base = some .directory) (hlaid : Tree.Laid t₀ (exportsPath base) t)
    (hcreate : t.create (exportPath base exportID) .directory = .ok t') :
    LaidOut (besideExport base t₀) (exportPath base exportID) [] t' := by
  obtain ⟨hnone, hobj⟩ := Tree.create_ok hcreate
  have happvar : exportsPath base <+: exportPath base exportID := by
    rw [exportPath_eq]
    exact List.prefix_append _ _
  unfold LaidOut
  rw [hobj]
  funext p
  by_cases hp : p = exportPath base exportID
  · rw [hp, Function.update_self, if_pos (List.prefix_refl _), List.drop_length,
      objAt_nil fun _ hi => absurd hi List.not_mem_nil]
  · rw [Function.update_of_ne hp]
    by_cases hle : exportPath base exportID <+: p
    · obtain ⟨rest, rfl⟩ := hle
      have hrest : rest ≠ [] := fun he => hp (by rw [he, List.append_nil])
      rw [if_pos (List.prefix_append _ _), List.drop_left, t.below_none (by rw [hnone]; exact nofun) hrest,
        objAt_of_noFile fun _ => List.not_mem_nil, if_neg]
      rintro (he | ⟨i, hi, -⟩)
      · exact hrest he
      · exact absurd hi List.not_mem_nil
    · rw [if_neg hle, hlaid]
      unfold besideExport
      dsimp only
      by_cases hexports : p = exportsPath base
      · rw [if_pos hexports, hexports, if_pos (List.prefix_refl _)]
      · rw [if_neg hexports]
        by_cases hway : p <+: exportsPath base
        · have hbelow : p <+: base := (List.prefix_concat_iff.mp hway).resolve_left hexports
          rw [if_pos hway, Tree.prefix_of_directory hbase hbelow]
        · rw [if_neg hway]

theorem snapshot_names (hdirectory : safeRelative directory = true) :
    pathJoin [directory, "snapshot.zip"] = join (split directory ++ ["snapshot.zip"]) ∧
      ∀ n ∈ split directory ++ ["snapshot.zip"], Proper n := by
  have hconcat := pathJoin_concat (split_ne_nil directory) (safeRelative_proper hdirectory) proper_snapshot
  rw [join_split] at hconcat
  refine ⟨hconcat, fun n hn => ?_⟩
  obtain hn | hn := List.mem_append.mp hn
  · exact safeRelative_proper hdirectory n hn
  · rw [List.mem_singleton.mp hn]
    exact proper_snapshot

theorem split_snapshot (hdirectory : safeRelative directory = true) :
    base ++ split (pathJoin [directory, "snapshot.zip"]) = base ++ split directory ++ ["snapshot.zip"] := by
  obtain ⟨hjoin, hnames⟩ := snapshot_names hdirectory
  rw [hjoin, split_join (by simp) fun n hn => (hnames n hn).2.2.2, List.append_assoc]

theorem exportPath_dropLast : (exportPath base exportID).dropLast = exportsPath base := by
  rw [exportPath_eq, List.dropLast_concat]

/-- Once the directory of the exports is there, that of the export can be made in it. -/
theorem Exportable.room {bytes : List Byte} (h : Exportable base directory exportID bytes t₀) {t : Tree}
    (hlaid : Tree.Laid t₀ (exportsPath base) t) :
    t.obj (exportPath base exportID) = none ∧ t.obj (exportPath base exportID).dropLast = some .directory := by
  rw [exportPath_dropLast, hlaid]
  refine ⟨?_, if_pos (List.prefix_refl _)⟩
  dsimp only
  rw [if_neg, h.free]
  intro hle
  have hlength := hle.length_le
  simp [exportPath, exportsPath] at hlength

/-- Neither of the two directories is the archive, or above it. -/
theorem Exportable.kept {bytes : List Byte} (h : Exportable base directory exportID bytes t₀) {t : Tree}
    (ht : LaidOut (besideExport base t₀) (exportPath base exportID) [] t) :
    t.obj (base ++ split directory ++ ["snapshot.zip"]) = some (.file bytes) := by
  have hthere := h.archive
  have hbelow : ¬exportPath base exportID <+: base ++ split directory ++ ["snapshot.zip"] := by
    rintro ⟨rest, he⟩
    rw [← he] at hthere
    by_cases hrest : rest = []
    · rw [hrest, List.append_nil, h.free] at hthere
      cases hthere
    · have hdir := t₀.prefix_directory hthere hrest
      rw [h.free] at hdir
      cases hdir
  have hother : base ++ split directory ++ ["snapshot.zip"] ≠ exportsPath base := by
    intro he
    rw [he] at hthere
    obtain hexports | hexports := h.exports
    · rw [hthere] at hexports
      cases hexports
    · rw [hthere] at hexports
      cases hexports
  rw [ht]
  dsimp only
  rw [if_neg hbelow, besideExport, if_neg hother]
  exact hthere

/-- An export restores the items of its archive, and all else is what it was, but for the
directory of the exports. -/
theorem exportData_done (hH : H → Quiet κ) {openZip : List Byte → Option (List ZipEntry)} {bytes : List Byte}
    {items : List Item} {others : List ZipEntry} (hdirectory : safeRelative directory = true)
    (hid : safeSegment exportID = true) (hopen : openZip bytes = some (items.map itemEntry ++ others))
    (hitems : ∀ i ∈ items, Nameable i) (hapart : items.Pairwise Item.Apart) (hothers : ∀ e ∈ others, Skipped e)
    (hroom : Exportable base directory exportID bytes t₀) :
    DoneIff κ false H True (fun t (_ : δ) => t = t₀) (exportData openZip base directory exportID)
      (fun r t _ => r = pathJoin ["_restore_exports", exportID] ∧
        LaidOut (besideExport base t₀) (exportPath base exportID) items t) := by
  have hproper := safeSegment_proper hid
  have hexports : base ++ split "_restore_exports" = exportsPath base := by rw [split_exports, exportsPath]
  unfold exportData
  rw [if_pos hid]
  -- the archive is where its directory says
  refine DoneIff.next (resolve_done hH ?_ ?_) fun archive => DoneIff.start (fun _ _ ht => ht.1) fun harchive => ?_
  · obtain ⟨hjoin, hnames⟩ := snapshot_names hdirectory
    rw [hjoin]
    exact safeRelative_join (by simp) hnames
  · intro t d ht
    rw [ht, split_snapshot hdirectory]
    exact t₀.parent_directory hroom.archive (by simp)
  rw [split_snapshot hdirectory] at harchive
  -- the directory of the exports is made, or is there
  refine DoneIff.next (makeDirectories_done hH safeRelative_exports fun t d ht => ?_) fun _ => ?_
  · rw [ht.2, hexports]
    intro q hq
    obtain rfl | hq := List.prefix_concat_iff.mp hq
    · exact hroom.exports
    · exact .inr (Tree.prefix_of_directory hroom.root hq)
  refine DoneIff.next (Q := fun p t _ => p = exportPath base exportID ∧ Tree.Laid t₀ (exportsPath base) t)
    ((resolve_done hH (safeRelative_destination hproper) fun t d ht => ?_).weaken (fun _ _ ht => ht) Iff.rfl
      fun p t d ht => ?_) fun destination => DoneIff.start (fun _ _ ht => ht.1) fun hdestination => ?_
  · obtain ⟨t', ht', hlaid⟩ := ht
    rw [split_destination hproper, exportPath_dropLast, hlaid, hexports]
    exact if_pos (List.prefix_refl _)
  · obtain ⟨hp, t', ht', hlaid⟩ := ht
    rw [split_destination hproper] at hp
    rw [ht'.2, hexports] at hlaid
    exact ⟨hp, hlaid⟩
  subst hdestination
  -- nothing is where the export goes, so the look lets it pass and its directory can be made
  refine DoneIff.next ((lstat_none hH fun t d ht => hroom.room ht.2)) fun r => ?_
  split
  · next o =>
    exact Does.fail fun t d ht => absurd rfl (ht.2 o).1
  · refine DoneIff.next (Q := fun _ t _ => LaidOut (besideExport base t₀) (exportPath base exportID) [] t)
      (DoneIff.mapError (doneIff_change hH ?_ ?_)) fun _ => ?_
    · intro t d ht t' hcreate
      exact laidOut_new hroom.root ht.1.2 hcreate
    · intro _ t d ht
      have hfree := hroom.room ht.1.2
      obtain ⟨t', hcreate, -⟩ := @Tree.create_eq _ _ .directory hfree.1 hfree.2
      exact ⟨t', hcreate⟩
    -- from here on a failure takes the new directory away again
    refine DoneIff.next (DoneIff.withdrawing ?_ ?_) fun _ => DoneIff.pure fun t d ht => ⟨rfl, ht⟩
    · subst harchive
      refine DoneIff.next (DoneIff.mapError ((doneIff_readFile (K := fun t => LaidOut (besideExport base t₀)
        (exportPath base exportID) [] t) hH).weaken (fun t d ht => ⟨hroom.kept ht, ht⟩) Iff.rfl fun _ _ _ ht => ht))
          fun content => DoneIff.start (fun _ _ ht => ht.1) fun hcontent => ?_
      rw [hcontent, hopen]
      exact (exportAll_done hH hitems hapart hothers).weaken (fun _ _ ht => ht.2.2) Iff.rfl fun _ _ _ ht => ht
    · refine removeDirectory_does.post ?_ ?_ ?_
      · intro _ t d ht
        obtain ⟨t', ht', -⟩ := ht
        exact ht'
      · intro _ t d ht
        obtain ⟨t', ht', -⟩ := ht
        exact ht'
      · intro t d ht hh
        obtain ⟨t', ht', -⟩ := ht
        exact ht' hh trivial
  · next e hne =>
    exact Does.fail fun t d ht hh => absurd ((ht.2 .directory).2 hh) (fun he => hne (Except.error.inj he))

end

end AppBackup.Storage
