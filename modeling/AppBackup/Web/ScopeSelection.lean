import AppBackup.Domain.Types
import AppBackup.Lib.Transition
import AppBackup.Web.ScopeTree

/- The selection of the scope dialog (`web/src/ui/dialogs.tsx`, `PlanDialog`): `loadCatalog`
   and `toggleEntry` for one application. Answers come in any order and with any items; a
   `Set` is the list of its elements in the order they were added.

   What is proved:
     1. `toggleEntry_untick` -- what one toggle leaves selected;
     2. `untick_iff` -- it clears what is at and below a directory exactly when all that is
        selected there is loaded; `untick_after_iff` says so of every state reached;
     3. `SelectionLoaded.step` -- a dialog that drops no selected item from its lists stays in
        such states. -/
namespace AppBackup.Web
open Path Probe

/-! ## Sets -/

/-- `Set.add`. -/
def setAdd (s : List String) (p : String) : List String := if p ∈ s then s else s ++ [p]

/-- `new Set(values)`. -/
def newSet (values : List String) : List String := values.foldl setAdd []

/-- `Set.delete`. -/
def setDelete (s : List String) (p : String) : List String := s.filter (· != p)

section
variable {s values : List String} {p q : String}

theorem mem_setAdd : q ∈ setAdd s p ↔ q ∈ s ∨ q = p := by
  unfold setAdd
  by_cases h : p ∈ s
  · rw [if_pos h]
    exact ⟨.inl, fun hq => hq.elim id fun he => he ▸ h⟩
  · rw [if_neg h, List.mem_append, List.mem_singleton]

theorem mem_setDelete : q ∈ setDelete s p ↔ q ∈ s ∧ q ≠ p := by
  unfold setDelete
  rw [List.mem_filter, bne_iff_ne]

theorem mem_foldl_setAdd : q ∈ values.foldl setAdd s ↔ q ∈ s ∨ q ∈ values := by
  induction values generalizing s with
  | nil => simp
  | cons v values ih => rw [List.foldl_cons, ih, mem_setAdd, List.mem_cons, or_assoc]

theorem mem_newSet : q ∈ newSet values ↔ q ∈ values := by
  unfold newSet
  rw [mem_foldl_setAdd]
  simp

theorem mem_foldl_update {b : Bool} (h : q ∈ values.foldl (if b then setDelete else setAdd) s) :
    q ∈ s ∨ q ∈ values := by
  induction values generalizing s with
  | nil => exact .inl h
  | cons v values ih =>
    obtain h | h := ih h
    · cases b with
      | true => exact .inl (mem_setDelete.mp h).1
      | false =>
        obtain h | rfl := mem_setAdd.mp h
        · exact .inl h
        · exact .inr (List.mem_cons_self ..)
    · exact .inr (List.mem_cons_of_mem _ h)

theorem mem_foldl_setDelete : q ∈ values.foldl setDelete s ↔ q ∈ s ∧ q ∉ values := by
  induction values generalizing s with
  | nil => simp
  | cons v values ih => rw [List.foldl_cons, ih, mem_setDelete, List.mem_cons, not_or, and_assoc]

end

/-! ## The dialog -/

/-- `catalogs[deployId]` and `targetScopes[deployId]`. -/
structure ScopeEditor where
  catalog : Option (List ScopeEntry)
  targetScope : Option BackupScope

/-- `catalogs[deployId]?.items || []`. -/
def ScopeEditor.items (s : ScopeEditor) : List ScopeEntry := s.catalog.getD []

/-- `current[deployId] || {…}`. -/
def ScopeEditor.scope (s : ScopeEditor) : BackupScope := s.targetScope.getD ⟨"CUSTOM", [], [], 1, ""⟩

/-- An answer of `scope(deployId, query, cursor)`: a further page goes after the items there
are, the answer of a search takes their place. -/
def loadCatalog (s : ScopeEditor) (cursor : Bool) (items : List ScopeEntry) : ScopeEditor :=
  let previous := if cursor then s.catalog else none
  { s with catalog := some (previous.elim items (· ++ items)) }

/-- The selectable items loaded at and below a path. -/
def loadedBelow (items : List ScopeEntry) (path : String) : List ScopeEntry :=
  items.filter fun item => item.selectable && (item.path == path || below path item.path)

def toggleEntry (s : ScopeEditor) (entry : ScopeEntry) : ScopeEditor :=
  let currentScope := s.scope
  let descendants := loadedBelow s.items entry.path
  let alreadySelected := (newSet (currentScope.directories ++ currentScope.files)).contains entry.path
  let revision := max 1 (currentScope.revision + 1)
  if entry.type = "directory" then
    let directoryPaths := (descendants.filter (·.type == "directory")).map (·.path)
    let filePaths := (descendants.filter (·.type != "directory")).map (·.path)
    let update := if alreadySelected then setDelete else setAdd
    { s with targetScope := some { currentScope with
        mode := "CUSTOM", revision := revision
        directories := (directoryPaths ++ [entry.path]).foldl update (newSet currentScope.directories)
        files := filePaths.foldl update (newSet currentScope.files) } }
  else
    let values := currentScope.files
    { s with targetScope := some { currentScope with
        mode := "CUSTOM", revision := revision
        files := if values.contains entry.path then values.filter (· != entry.path) else values ++ [entry.path] } }

/-- `inherited` of `ScopeTree`: a directory above is ticked. -/
def inherited (scope : BackupScope) (path : String) : Bool := scope.directories.any fun root => below root path

/-- The tree has an enabled checkbox that passes the entry on. -/
def Offered (localeCompare : String → String → Int) (s : ScopeEditor) (entry : ScopeEntry) : Prop :=
  ∃ x ∈ listed "" (buildScopeTree localeCompare s.items),
    x.2.entry = some entry ∧ entry.selectable = true ∧ inherited s.scope x.2.path = false

inductive ScopeEvent where
  | loaded (cursor : Bool) (items : List ScopeEntry)
  | toggled (entry : ScopeEntry)

def scopeStep (s : ScopeEditor) : ScopeEvent → ScopeEditor
  | .loaded cursor items => loadCatalog s cursor items
  | .toggled entry => toggleEntry s entry

/-- The dialog opened on a scope, or on none, after some events. -/
def scopeAfter (initial : Option BackupScope) (events : List ScopeEvent) : ScopeEditor :=
  events.foldl scopeStep ⟨none, initial⟩

/-! ## Unticking a directory -/

/-- A ticked directory with no ticked directory above it. -/
structure Untickable (scope : BackupScope) (d : String) : Prop where
  ticked : d ∈ scope.directories
  apart : ∀ root ∈ scope.directories, below root d = false

/-- The directory and what is below it is no longer selected, the rest still is. -/
structure Unticks (scope scope' : BackupScope) (d : String) : Prop where
  directoriesGone : ∀ p ∈ scope'.directories, ¬Covers d p
  filesGone : ∀ p ∈ scope'.files, ¬Covers d p
  directoriesKept : ∀ p ∈ scope.directories, ¬Covers d p → p ∈ scope'.directories
  filesKept : ∀ p ∈ scope.files, ¬Covers d p → p ∈ scope'.files

/-- A selectable item of this path is loaded, as a directory or as something else. -/
def Loaded (items : List ScopeEntry) (directory : Bool) (p : String) : Prop :=
  ∃ item ∈ items, item.selectable = true ∧ item.path = p ∧ (item.type == "directory") = directory

/-- All that is selected below the directory is loaded. -/
structure AllLoaded (s : ScopeEditor) (d : String) : Prop where
  directories : ∀ p ∈ s.scope.directories, below d p = true → Loaded s.items true p
  files : ∀ p ∈ s.scope.files, Covers d p → Loaded s.items false p

section
variable {s : ScopeEditor} {entry : ScopeEntry} {items : List ScopeEntry} {d p : String}

theorem mem_loadedBelow {directory : Bool} {type : ScopeEntry → Bool}
    (hdirectory : ∀ item, type item = true ↔ (item.type == "directory") = directory) :
    p ∈ ((loadedBelow items d).filter type).map (·.path) ↔ Covers d p ∧ Loaded items directory p := by
  unfold loadedBelow Covers Loaded
  rw [List.mem_map]
  refine ⟨?_, ?_⟩
  · intro ⟨item, hin, hpath⟩
    obtain ⟨hin, htype⟩ := List.mem_filter.mp hin
    obtain ⟨hin, hbelow⟩ := List.mem_filter.mp hin
    obtain ⟨hselectable, hbelow⟩ := (Bool.and_eq_true _ _).mp hbelow
    refine ⟨?_, item, hin, hselectable, hpath, (hdirectory item).mp htype⟩
    rw [← hpath]
    simpa using hbelow
  · intro ⟨hcovers, item, hin, hselectable, hpath, htype⟩
    refine ⟨item, List.mem_filter.mpr ⟨List.mem_filter.mpr ⟨hin, ?_⟩, (hdirectory item).mpr htype⟩, hpath⟩
    rw [hselectable, Bool.true_and, hpath]
    simpa using hcovers

theorem mem_directoryPaths : p ∈ ((loadedBelow items d).filter (·.type == "directory")).map (·.path) ↔
    Covers d p ∧ Loaded items true p :=
  mem_loadedBelow fun _ => Iff.rfl

theorem mem_filePaths : p ∈ ((loadedBelow items d).filter (·.type != "directory")).map (·.path) ↔
    Covers d p ∧ Loaded items false p :=
  mem_loadedBelow fun item => by simp [bne]

/-- What is selected after a ticked directory is toggled. -/
theorem toggleEntry_untick (htype : entry.type = "directory") (hticked : entry.path ∈ s.scope.directories) :
    (∀ p, p ∈ (toggleEntry s entry).scope.directories ↔
      p ∈ s.scope.directories ∧ p ≠ entry.path ∧ ¬(Covers entry.path p ∧ Loaded s.items true p)) ∧
    (∀ p, p ∈ (toggleEntry s entry).scope.files ↔
      p ∈ s.scope.files ∧ ¬(Covers entry.path p ∧ Loaded s.items false p)) := by
  have halready : (newSet (s.scope.directories ++ s.scope.files)).contains entry.path = true := by
    rw [List.contains_iff_mem, mem_newSet]
    exact List.mem_append_left _ hticked
  refine ⟨?_, ?_⟩
  · intro p
    unfold toggleEntry
    simp only [if_pos htype, halready, if_true]
    show p ∈ List.foldl setDelete _ _ ↔ _
    rw [mem_foldl_setDelete, mem_newSet, List.mem_append, List.mem_singleton, mem_directoryPaths, not_or,
      and_comm (a := ¬_)]
  · intro p
    unfold toggleEntry
    simp only [if_pos htype, halready, if_true]
    show p ∈ List.foldl setDelete _ _ ↔ _
    rw [mem_foldl_setDelete, mem_newSet, mem_filePaths]

/-- Unticking a directory works exactly when all that is selected below it is loaded. -/
theorem untick_iff (htype : entry.type = "directory") (h : Untickable s.scope entry.path) :
    Unticks s.scope (toggleEntry s entry).scope entry.path ↔ AllLoaded s entry.path := by
  obtain ⟨hdirectories, hfiles⟩ := toggleEntry_untick htype h.ticked
  refine ⟨?_, ?_⟩
  · intro hunticks
    refine ⟨?_, ?_⟩
    · intro p hp hbelow
      by_contra hnot
      have hne : p ≠ entry.path := by
        intro he
        rw [he, h.apart _ h.ticked] at hbelow
        exact Bool.false_ne_true hbelow
      exact hunticks.directoriesGone p ((hdirectories p).mpr ⟨hp, hne, fun hl => hnot hl.2⟩) (.inr hbelow)
    · intro p hp hcovers
      by_contra hnot
      exact hunticks.filesGone p ((hfiles p).mpr ⟨hp, fun hl => hnot hl.2⟩) hcovers
  · intro hloaded
    refine ⟨?_, ?_, ?_, ?_⟩
    · intro p hp hcovers
      obtain ⟨hp, hne, hnot⟩ := (hdirectories p).mp hp
      exact hnot ⟨hcovers, hloaded.directories p hp (hcovers.below_of_ne hne)⟩
    · intro p hp hcovers
      obtain ⟨hp, hnot⟩ := (hfiles p).mp hp
      exact hnot ⟨hcovers, hloaded.files p hp hcovers⟩
    · intro p hp hcovers
      exact (hdirectories p).mpr ⟨hp, fun he => hcovers (.inl he), fun hl => hcovers hl.1⟩
    · intro p hp hcovers
      exact (hfiles p).mpr ⟨hp, fun hl => hcovers hl.1⟩

end

theorem offered_iff (localeCompare : String → String → Int) {s : ScopeEditor} {entry : ScopeEntry} :
    Offered localeCompare s entry ↔ normalised entry ≠ "" ∧ lastAt s.items (normalised entry) = some entry ∧
      entry.selectable = true ∧ inherited s.scope (normalised entry) = false := by
  refine ⟨?_, ?_⟩
  · intro ⟨x, hx, hentry, hselectable, hinherited⟩
    rw [shown_entry localeCompare hx] at hentry
    obtain ⟨ps, hnames, hne, -, hpath, -⟩ := shown_placed localeCompare hx
    have hnormalised : normalised entry = x.2.path := by simpa using List.find?_some hentry
    rw [hnormalised]
    exact ⟨fun hempty => hne (hnames.join_eq_empty.mp (hpath.symm.trans hempty)), hentry, hselectable, hinherited⟩
  · intro ⟨hne, hlast, hselectable, hinherited⟩
    have hin : entry ∈ s.items := List.mem_reverse.mp (List.mem_of_find?_eq_some hlast)
    have hparts : entryParts entry ≠ [] := fun hnil => hne (by rw [normalised, hnil]; rfl)
    obtain ⟨x, hx, hpath⟩ := List.mem_map.mp
      ((shown_iff localeCompare).mpr ⟨entry, hin, entryParts entry, hparts, List.prefix_refl _, rfl⟩)
    refine ⟨x, hx, ?_, hselectable, ?_⟩
    · rw [shown_entry localeCompare hx, hpath]
      exact hlast
    · rw [hpath]
      exact hinherited

/-- After any answers and ticks, unticking a directory clears what is at and below it, and
only that, exactly when all that is selected below it is loaded. -/
theorem untick_after_iff (initial : Option BackupScope) (events : List ScopeEvent) (entry : ScopeEntry)
    (htype : entry.type = "directory") (h : Untickable (scopeAfter initial events).scope entry.path) :
    Unticks (scopeAfter initial events).scope (toggleEntry (scopeAfter initial events) entry).scope entry.path ↔
      AllLoaded (scopeAfter initial events) entry.path :=
  untick_iff htype h

/-- A file that a search has shown, its directory as the last item of a page. -/
def searchedFile : ScopeEntry := ⟨"d/x", "file", 1, false, true⟩

def pagedDirectory : ScopeEntry := ⟨"d", "directory", 0, false, true⟩

/-- The file is ticked where the search shows it, then the directory where the file is not
loaded; when the directory is unticked the file stays. -/
theorem untick_leaves_file :
    ∃ s s' s'' : ScopeEditor, s = scopeAfter none [.loaded false [searchedFile]] ∧
      s' = scopeAfter none [.loaded false [searchedFile], .toggled searchedFile, .loaded false [pagedDirectory]] ∧
      s'' = scopeAfter none [.loaded false [searchedFile], .toggled searchedFile, .loaded false [pagedDirectory],
        .toggled pagedDirectory] ∧
      Offered (fun _ _ => 0) s searchedFile ∧ Offered (fun _ _ => 0) s' pagedDirectory ∧
      Offered (fun _ _ => 0) s'' pagedDirectory ∧ Untickable s''.scope pagedDirectory.path ∧
      ¬Unticks s''.scope (toggleEntry s'' pagedDirectory).scope pagedDirectory.path := by
  refine ⟨_, _, _, rfl, rfl, rfl, ?_, ?_, ?_, ?_, ?_⟩
  · exact (offered_iff _).mpr (by decide)
  · exact (offered_iff _).mpr (by decide)
  · exact (offered_iff _).mpr (by decide)
  · exact ⟨by decide, by decide⟩
  · intro h
    exact h.filesGone "d/x" (by decide) (.inr (by decide))

/-- Ticked where nothing of it has been forgotten, a directory is unticked with all below it. -/
theorem untick_after_tick :
    Unticks (scopeAfter none [.loaded false [pagedDirectory, searchedFile], .toggled pagedDirectory]).scope
      (scopeAfter none [.loaded false [pagedDirectory, searchedFile], .toggled pagedDirectory,
        .toggled pagedDirectory]).scope
      pagedDirectory.path := by
  refine (untick_after_iff none [.loaded false [pagedDirectory, searchedFile], .toggled pagedDirectory] pagedDirectory
    rfl ⟨by decide, by decide⟩).mpr ⟨?_, ?_⟩
  · intro p hp hbelow
    have hp : p = "d" := by simpa using (show p ∈ ["d"] from hp)
    exact absurd (hp ▸ hbelow) (by decide)
  · intro p hp _
    have hp : p = "d/x" := by simpa using (show p ∈ ["d/x"] from hp)
    exact ⟨searchedFile, by decide, rfl, hp.symm, by decide⟩

/-! ## Runs that forget nothing -/

/-- An answer that keeps the items there are, a tick of one of them. -/
def Keeps (s : ScopeEditor) : ScopeEvent → Prop
  | .loaded cursor items => ∀ item ∈ s.items, item ∈ (loadCatalog s cursor items).items
  | .toggled entry => entry ∈ s.items ∧ entry.selectable = true

/-- All that is selected is loaded. -/
structure SelectionLoaded (s : ScopeEditor) : Prop where
  directories : ∀ p ∈ s.scope.directories, Loaded s.items true p
  files : ∀ p ∈ s.scope.files, Loaded s.items false p

theorem Loaded.mono {items items' : List ScopeEntry} {directory : Bool} {p : String} (h : Loaded items directory p)
    (hkeep : ∀ item ∈ items, item ∈ items') : Loaded items' directory p := by
  obtain ⟨item, hin, hitem⟩ := h
  exact ⟨item, hkeep item hin, hitem⟩

theorem SelectionLoaded.toggleEntry {s : ScopeEditor} {entry : ScopeEntry} (h : SelectionLoaded s)
    (hin : entry ∈ s.items) (hselectable : entry.selectable = true) : SelectionLoaded (toggleEntry s entry) := by
  have hself : Loaded s.items (entry.type == "directory") entry.path := ⟨entry, hin, hselectable, rfl, rfl⟩
  unfold Web.toggleEntry
  by_cases htype : entry.type = "directory"
  · simp only [if_pos htype]
    rw [htype] at hself
    refine ⟨?_, ?_⟩
    · intro p hp
      obtain hp | hp := mem_foldl_update hp
      · exact h.directories p (mem_newSet.mp hp)
      · obtain hp | hp := List.mem_append.mp hp
        · exact (mem_directoryPaths.mp hp).2
        · rw [List.mem_singleton.mp hp]
          exact hself
    · intro p hp
      obtain hp | hp := mem_foldl_update hp
      · exact h.files p (mem_newSet.mp hp)
      · exact (mem_filePaths.mp hp).2
  · simp only [if_neg htype]
    rw [beq_eq_false_iff_ne.mpr htype] at hself
    refine ⟨h.directories, ?_⟩
    intro p (hp : p ∈ if s.scope.files.contains entry.path then s.scope.files.filter (· != entry.path)
      else s.scope.files ++ [entry.path])
    split at hp
    · exact h.files p (List.mem_of_mem_filter hp)
    · obtain hp | hp := List.mem_append.mp hp
      · exact h.files p hp
      · rw [List.mem_singleton.mp hp]
        exact hself

theorem SelectionLoaded.step {s s' : ScopeEditor} {event : ScopeEvent} (h : SelectionLoaded s) (hkeeps : Keeps s event)
    (hs : some (scopeStep s event) = some s') : SelectionLoaded s' := by
  obtain rfl := Option.some.inj hs
  cases event with
  | loaded cursor items =>
    exact ⟨fun p hp => (h.directories p hp).mono hkeeps, fun p hp => (h.files p hp).mono hkeeps⟩
  | toggled entry => exact h.toggleEntry hkeeps.1 hkeeps.2

/-- Where no answer drops an item and only loaded items are ticked, every ticked directory can
be unticked with all below it. -/
theorem unticks_of_keeps {s : ScopeEditor}
    (h : Transition.Reach (fun s event => some (scopeStep s event)) Keeps (· = ⟨none, none⟩) s)
      {entry : ScopeEntry}
    (htype : entry.type = "directory") (huntick : Untickable s.scope entry.path) :
    Unticks s.scope (toggleEntry s entry).scope entry.path := by
  have hloaded : SelectionLoaded s := h.invariant
    (fun s hs => by
      rw [hs]
      exact ⟨fun p hp => absurd hp List.not_mem_nil, fun p hp => absurd hp List.not_mem_nil⟩)
    fun s event s' hI hkeeps hs => hI.step hkeeps hs
  exact (untick_iff htype huntick).mpr
    ⟨fun p hp _ => hloaded.directories p hp, fun p hp _ => hloaded.files p hp⟩

end AppBackup.Web
