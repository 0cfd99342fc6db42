import AppBackup.Probe.Plan

/- The scope of a backup over a scanned tree (`probe/probe.go`): `ScopeCatalog` offers
   what a scan plans to the range picker, `ApplyScope` keeps the part of a plan that a scope
   selects, and refuses a scope whose paths are not there. A page of the catalog starts after
   a path and type here; the text of its cursor is in `Probe/Cursor.lean`.

   What is proved:
     1. `applyScope_ok_iff` -- a CUSTOM scope is accepted just if each of its paths is planned
        and some file or database is chosen;
     2. `applyScope_exact_of_ok` -- then it keeps what the listed paths choose, with the counts
        and the bytes of that;
     3. `Chosen.mono` -- and a scope that lists more keeps more (`applyScope_exact`). -/
namespace AppBackup.Probe
open Path Text

structure ScopeEntry where
  path : String
  type : String
  size : Nat
  sqlite : Bool
  selectable : Bool
  deriving DecidableEq

structure BackupScopeCatalog where
  items : List ScopeEntry
  nextAfter : Option (String × String)

/-- The closure `appendEntry` of `ScopeCatalog`: a database takes the place of an item that is
there. -/
def appendEntry (lower : String → String) (query type : String) (sqlite : Bool)
    (items : List ScopeEntry) (entry : Entry) : List ScopeEntry :=
  if query ≠ "" ∧ contains (lower entry.relative) query = false then items
  else
    let same := fun i : ScopeEntry => i.path == entry.relative && i.type == type
    match items.find? same with
    | none => items ++ [⟨entry.relative, type, entry.size, sqlite, true⟩]
    | some previous =>
      if sqlite then
        items.map fun i =>
          if same i then ⟨entry.relative, type, entry.size, previous.sqlite || sqlite, true⟩ else i
      else items

/-- By path, then by type. -/
def catalogBefore (i i' : ScopeEntry) : Prop := i.path < i'.path ∨ (i.path = i'.path ∧ i.type ≤ i'.type)

instance : DecidableRel catalogBefore := fun _ _ => inferInstanceAs (Decidable (_ ∨ _))

def catalogItems (lower : String → String) (plan : Plan) (query : String) : List ScopeEntry :=
  let items := plan.directories.foldl (appendEntry lower query "directory" false) []
  let items := plan.files.foldl (appendEntry lower query "file" false) items
  plan.sqlite.foldl (appendEntry lower query "file" true) items

/-- The items after a path and type. -/
def followsItem (after : Option (String × String)) (i : ScopeEntry) : Bool :=
  match after with
  | none => true
  | some (path, type) => !(decide (i.path < path) || (i.path == path && decide (i.type ≤ type)))

def cutCatalog (limit : Int) (items : List ScopeEntry) : BackupScopeCatalog :=
  let limit := if limit ≤ 0 ∨ 200 < limit then 200 else limit.toNat
  let items := items.insertionSort catalogBefore
  if limit < items.length then
    ⟨items.take limit, items[limit - 1]?.map fun last => (last.path, last.type)⟩
  else ⟨items, none⟩

def scopeCatalog (lower : String → String) (tree : SourceTree) (multiInstance : Bool) (query : String)
    (after : Option (String × String)) (limit : Int) : Except ProbeError BackupScopeCatalog := do
  let query := lower (trimSpace query)
  let plan ← buildPlan lower tree multiInstance
  return cutCatalog limit ((catalogItems lower plan query).filter (followsItem after))

/-! ## Applying a scope -/

/-- `ScopeValidationError`. -/
structure ScopeValidationError where
  path : String
  expected : String

/-- The closure `selected` of `ApplyScope`. -/
def selected (directories files : List String) (relative : String) : Bool :=
  directories.any (fun root => relative == root || below root relative) || files.contains relative

def totalBytes (entries : List Entry) : Nat := (entries.map (·.size)).sum

def applyScope (plan : Plan) (scope : BackupScope) : Except ScopeValidationError Plan :=
  if scope.mode = "" ∨ scope.mode = "FULL" then .ok plan
  else if scope.mode = "CORE" then
    if plan.sqlite = [] then .error ⟨"Notus core SQLite profile", "SQLite database"⟩
    else
      .ok
        { result := { plan.result with
            fileCount := 0
            sqliteCount := plan.sqlite.length
            totalBytes := totalBytes plan.sqlite }
          directories := []
          files := []
          sqlite := plan.sqlite
          warnings := plan.warnings }
  else
    match scope.directories.find? fun path => !(plan.directories.map (·.relative)).contains path with
    | some path => .error ⟨path, "directory"⟩
    | none =>
      match scope.files.find? fun path => !((plan.files ++ plan.sqlite).map (·.relative)).contains path with
      | some path => .error ⟨path, "file"⟩
      | none =>
        let keep := fun e : Entry => selected scope.directories scope.files e.relative
        let files := plan.files.filter keep
        let sqlite := plan.sqlite.filter keep
        let filtered : Plan :=
          { result := { plan.result with
              fileCount := files.length
              sqliteCount := sqlite.length
              totalBytes := totalBytes (files ++ sqlite) }
            directories := plan.directories.filter keep
            files := files
            sqlite := sqlite
            warnings := plan.warnings }
        if filtered.archiveFileCount = 0 then .error ⟨"selected range", "backupable file"⟩
        else .ok filtered

/-- The parts of a plan a CUSTOM scope keeps. -/
structure Filtered (plan : Plan) (roots chosen : List String) (filtered : Plan) : Prop where
  directories : filtered.directories = plan.directories.filter fun e => selected roots chosen e.relative
  files : filtered.files = plan.files.filter fun e => selected roots chosen e.relative
  sqlite : filtered.sqlite = plan.sqlite.filter fun e => selected roots chosen e.relative

theorem selected_iff {directories files : List String} {relative : String} :
    selected directories files relative = true ↔
      (∃ root ∈ directories, Covers root relative) ∨ relative ∈ files := by
  unfold selected Covers
  simp [List.any_eq_true]

variable {plan filtered : Plan} {scope : BackupScope}

theorem find?_notMem_none {paths planned : List String} :
    (paths.find? fun path => !planned.contains path) = none ↔ ∀ p ∈ paths, p ∈ planned := by
  simp

/-- A CUSTOM scope that is applied names planned paths, and keeps what it selects. -/
theorem applyScope_custom (hmode : scope.mode = "CUSTOM") (h : applyScope plan scope = .ok filtered) :
    (∀ d ∈ scope.directories, d ∈ plan.directories.map (·.relative)) ∧
      (∀ f ∈ scope.files, f ∈ (plan.files ++ plan.sqlite).map (·.relative)) ∧
      Filtered plan scope.directories scope.files filtered := by
  unfold applyScope at h
  rw [hmode, if_neg (by decide), if_neg (by decide)] at h
  cases hd : scope.directories.find? fun path => !(plan.directories.map (·.relative)).contains path with
  | some path => rw [hd] at h; cases h
  | none =>
    cases hf : scope.files.find? fun path => !((plan.files ++ plan.sqlite).map (·.relative)).contains path with
    | some path => rw [hd, hf] at h; cases h
    | none =>
      rw [hd, hf] at h
      simp only at h
      split at h
      · cases h
      · obtain rfl := Except.ok.inj h
        exact ⟨find?_notMem_none.mp hd, find?_notMem_none.mp hf, rfl, rfl, rfl⟩

/-- A CUSTOM scope of planned paths that selects a file is applied. -/
theorem applyScope_custom_ok (hmode : scope.mode = "CUSTOM")
    (hd : ∀ d ∈ scope.directories, d ∈ plan.directories.map (·.relative))
    (hf : ∀ f ∈ scope.files, f ∈ (plan.files ++ plan.sqlite).map (·.relative))
    (hsome : ∃ e ∈ plan.files ++ plan.sqlite, selected scope.directories scope.files e.relative = true) :
    ∃ filtered, applyScope plan scope = .ok filtered := by
  unfold applyScope
  rw [hmode, if_neg (by decide), if_neg (by decide), find?_notMem_none.mpr hd]
  simp only
  rw [find?_notMem_none.mpr hf]
  simp only
  rw [if_neg]
  · exact ⟨_, rfl⟩
  · intro hnone
    obtain ⟨e, he, hsel⟩ := hsome
    have hkeep : e ∈ (plan.files ++ plan.sqlite).filter fun e =>
        selected scope.directories scope.files e.relative := List.mem_filter.mpr ⟨he, hsel⟩
    have hlen := List.length_pos_of_mem hkeep
    rw [List.filter_append, List.length_append] at hlen
    have hzero : (plan.files.filter fun e => selected scope.directories scope.files e.relative).length +
        (plan.sqlite.filter fun e => selected scope.directories scope.files e.relative).length = 0 := hnone
    omega

theorem Filtered.congr {roots chosen roots' chosen' : List String}
    (h : Filtered plan roots chosen filtered)
    (hsel : ∀ p, selected roots chosen p = true ↔ selected roots' chosen' p = true) :
    Filtered plan roots' chosen' filtered := by
  have heq : (fun e : Entry => selected roots chosen e.relative) =
      fun e => selected roots' chosen' e.relative := by
    funext e
    exact Bool.eq_iff_iff.mpr (hsel e.relative)
  obtain ⟨hd, hf, hs⟩ := h
  rw [heq] at hd hf hs
  exact ⟨hd, hf, hs⟩

theorem filter_eq_iff {α : Type} {l : List α} {p q : α → Bool} (h : l.filter p = l.filter q) {a : α}
    (ha : a ∈ l) : p a = true ↔ q a = true := by
  have hmem : a ∈ l.filter p ↔ a ∈ l.filter q := by rw [h]
  simpa [List.mem_filter, ha] using hmem

/-! ## What a scope selects -/

/-- A planned entry is chosen by name: it is listed itself, or its names go on from those of
a listed directory. -/
def Chosen (plan : Plan) (scope : BackupScope) (e : Entry) : Prop :=
  e.relative ∈ scope.directories ++ scope.files ∨
    ∃ d ∈ plan.directories, d.relative ∈ scope.directories ∧ d.path <+: e.path ∧ d.path ≠ e.path

instance (plan : Plan) (scope : BackupScope) (e : Entry) : Decidable (Chosen plan scope e) :=
  inferInstanceAs (Decidable (_ ∨ _))

/-- What a scope lists is planned. -/
structure Listed (plan : Plan) (scope : BackupScope) : Prop where
  directories : ∀ p ∈ scope.directories, p ∈ plan.directories.map (·.relative)
  files : ∀ p ∈ scope.files, p ∈ (plan.files ++ plan.sqlite).map (·.relative)

/-- The chosen entries in their order, and their counts. -/
structure Exact (plan : Plan) (scope : BackupScope) (filtered : Plan) : Prop where
  directories : filtered.directories = plan.directories.filter fun e => decide (Chosen plan scope e)
  files : filtered.files = plan.files.filter fun e => decide (Chosen plan scope e)
  sqlite : filtered.sqlite = plan.sqlite.filter fun e => decide (Chosen plan scope e)
  fileCount : filtered.result.fileCount = filtered.files.length
  sqliteCount : filtered.result.sqliteCount = filtered.sqlite.length
  totalBytes : filtered.result.totalBytes = ((filtered.files ++ filtered.sqlite).map (·.size)).sum

/-- The entries of one plan are entries of the other, in the same order. -/
structure Plan.Within (p p' : Plan) : Prop where
  directories : p.directories.Sublist p'.directories
  files : p.files.Sublist p'.files
  sqlite : p.sqlite.Sublist p'.sqlite

section
variable {lower : String → String} {tree : SourceTree} {multiInstance : Bool} {scope' : BackupScope}
  {filtered' : Plan}

theorem buildPlan_named (h : buildPlan lower tree multiInstance = .ok plan) {e : Entry}
    (he : e ∈ plan.directories ++ (plan.files ++ plan.sqlite)) : e.Named := by
  obtain he | he := List.mem_append.mp he
  · exact buildPlan_directory_named h he
  · exact buildPlan_file_named h he

theorem Entry.Named.below_iff {d e : Entry} (hd : d.Named) (he : e.Named) :
    below d.relative e.relative = true ↔ d.path <+: e.path ∧ d.path ≠ e.path := by
  obtain ⟨hdne, hdproper, hdrel⟩ := hd
  obtain ⟨hene, heproper, herel⟩ := he
  rw [hdrel, herel]
  exact below_join hdne hene (fun n hn => (hdproper n hn).2.2.2) fun n hn => (heproper n hn).2.2.2

/-- The prefixes `ApplyScope` compares select what the names choose. -/
theorem selected_iff_chosen (hplan : buildPlan lower tree multiInstance = .ok plan)
    (hlisted : ∀ p ∈ scope.directories, p ∈ plan.directories.map (·.relative)) {e : Entry}
    (he : e ∈ plan.directories ++ (plan.files ++ plan.sqlite)) :
    selected scope.directories scope.files e.relative = true ↔ Chosen plan scope e := by
  have hnamed := buildPlan_named hplan he
  rw [selected_iff]
  refine ⟨?_, ?_⟩
  · intro h
    obtain ⟨root, hroot, hcovers⟩ | hfile := h
    · obtain hsame | hbelow := hcovers
      · exact .inl (List.mem_append_left _ (hsame ▸ hroot))
      · obtain ⟨d, hd, rfl⟩ := List.mem_map.mp (hlisted root hroot)
        have hnames := ((buildPlan_directory_named hplan hd).below_iff hnamed).mp hbelow
        exact .inr ⟨d, hd, hroot, hnames⟩
    · exact .inl (List.mem_append_right _ hfile)
  · intro h
    obtain hself | ⟨d, hd, hroot, hnames⟩ := h
    · obtain hdir | hfile := List.mem_append.mp hself
      · exact .inl ⟨e.relative, hdir, .inl rfl⟩
      · exact .inr hfile
    · have hbelow := ((buildPlan_directory_named hplan hd).below_iff hnamed).mpr hnames
      exact .inl ⟨d.relative, hroot, .inr hbelow⟩

theorem applyScope_counts (hmode : scope.mode = "CUSTOM") (h : applyScope plan scope = .ok filtered) :
    filtered.result.fileCount = filtered.files.length ∧
      filtered.result.sqliteCount = filtered.sqlite.length ∧
      filtered.result.totalBytes = totalBytes (filtered.files ++ filtered.sqlite) ∧
      filtered.archiveFileCount ≠ 0 := by
  unfold applyScope at h
  rw [hmode, if_neg (by decide), if_neg (by decide)] at h
  cases hd : scope.directories.find? fun path => !(plan.directories.map (·.relative)).contains path with
  | some path => rw [hd] at h; cases h
  | none =>
    cases hf : scope.files.find? fun path => !((plan.files ++ plan.sqlite).map (·.relative)).contains path with
    | some path => rw [hd, hf] at h; cases h
    | none =>
      rw [hd, hf] at h
      simp only at h
      split at h
      · cases h
      · next hcount =>
        obtain rfl := Except.ok.inj h
        exact ⟨rfl, rfl, rfl, hcount⟩

theorem applyScope_exact_of_ok (hplan : buildPlan lower tree multiInstance = .ok plan)
    (hmode : scope.mode = "CUSTOM") (h : applyScope plan scope = .ok filtered) :
    Exact plan scope filtered := by
  obtain ⟨hdirs, -, hkept⟩ := applyScope_custom hmode h
  obtain ⟨hfileCount, hsqliteCount, hbytes, -⟩ := applyScope_counts hmode h
  have hsel : ∀ e ∈ plan.directories ++ (plan.files ++ plan.sqlite),
      selected scope.directories scope.files e.relative = decide (Chosen plan scope e) := by
    intro e he
    rw [Bool.eq_iff_iff, decide_eq_true_iff]
    exact selected_iff_chosen hplan hdirs he
  refine ⟨?_, ?_, ?_, hfileCount, hsqliteCount, hbytes⟩
  · rw [hkept.directories]
    exact List.filter_congr fun e he => hsel e (List.mem_append_left _ he)
  · rw [hkept.files]
    exact List.filter_congr fun e he => hsel e (List.mem_append_right _ (List.mem_append_left _ he))
  · rw [hkept.sqlite]
    exact List.filter_congr fun e he => hsel e (List.mem_append_right _ (List.mem_append_right _ he))

/-- A scope is applied when what it lists is planned and a file is chosen, and only then. -/
theorem applyScope_ok_iff (hplan : buildPlan lower tree multiInstance = .ok plan)
    (hmode : scope.mode = "CUSTOM") : (∃ filtered, applyScope plan scope = .ok filtered) ↔
      Listed plan scope ∧ ∃ e ∈ plan.files ++ plan.sqlite, Chosen plan scope e := by
  refine ⟨?_, ?_⟩
  · intro h
    obtain ⟨filtered, h⟩ := h
    obtain ⟨hdirs, hfiles, -⟩ := applyScope_custom hmode h
    have hexact := applyScope_exact_of_ok hplan hmode h
    have hcount := (applyScope_counts hmode h).2.2.2
    refine ⟨⟨hdirs, hfiles⟩, ?_⟩
    have hne : filtered.files ++ filtered.sqlite ≠ [] := by
      intro hnil
      obtain ⟨hf, hs⟩ := List.append_eq_nil_iff.mp hnil
      apply hcount
      show filtered.files.length + filtered.sqlite.length = 0
      rw [hf, hs]
      rfl
    obtain ⟨e, he⟩ := List.exists_mem_of_ne_nil _ hne
    rw [hexact.files, hexact.sqlite, ← List.filter_append] at he
    obtain ⟨he, hchosen⟩ := List.mem_filter.mp he
    exact ⟨e, he, of_decide_eq_true hchosen⟩
  · intro h
    obtain ⟨hlisted, e, he, hchosen⟩ := h
    refine applyScope_custom_ok hmode hlisted.directories hlisted.files ⟨e, he, ?_⟩
    exact (selected_iff_chosen hplan hlisted.directories (List.mem_append_right _ he)).mpr hchosen

theorem Listed.directory_of_mem (hplan : buildPlan lower tree multiInstance = .ok plan)
    (h : Listed plan scope) (h' : Listed plan scope') {p : String} (hp : p ∈ scope'.directories)
    (hmem : p ∈ scope.directories ++ scope.files) : p ∈ scope.directories := by
  refine (List.mem_append.mp hmem).resolve_right fun hfile => ?_
  obtain ⟨d, hd, hdp⟩ := List.mem_map.mp (h'.directories p hp)
  obtain ⟨f, hf, hfp⟩ := List.mem_map.mp (h.files p hfile)
  exact buildPlan_disjoint hplan hd hf (hdp.trans hfp.symm)

theorem Chosen.mono (hplan : buildPlan lower tree multiInstance = .ok plan) (h : Listed plan scope)
    (h' : Listed plan scope')
    (hsub : ∀ p ∈ scope'.directories ++ scope'.files, p ∈ scope.directories ++ scope.files) {e : Entry}
    (he : Chosen plan scope' e) : Chosen plan scope e := by
  obtain hself | ⟨d, hd, hroot, hnames⟩ := he
  · exact .inl (hsub _ hself)
  · have hdir := h.directory_of_mem hplan h' hroot (hsub _ (List.mem_append_left _ hroot))
    exact .inr ⟨d, hd, hdir, hnames⟩

end

/-- A database in a directory, and a file beside a directory whose name starts the same. -/
def siblingsTree : SourceTree where
  listing := .directory "a" 0 (.object "db" (.regular sqliteHeader true) .nil)
    (.object "ab" (.regular [1] true) .nil)
  wellFormed := by decide

def siblingsPlan : Plan where
  result := ⟨.backupable, 17, 2, 1, 0, [⟨"a/db", "sqlite", true, "SQLite format 3 header"⟩]⟩
  directories := [⟨["a"], "a", 0⟩]
  files := [⟨["ab"], "ab", 1⟩]
  sqlite := [⟨["a", "db"], "a/db", 16⟩]
  warnings := []

def siblingsScope : BackupScope := ⟨"CUSTOM", ["a"], [], 1, ""⟩

end AppBackup.Probe
