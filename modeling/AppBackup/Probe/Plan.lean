import AppBackup.Domain.Types
import AppBackup.Lib.Base64
import AppBackup.Lib.Path
import Mathlib.Data.List.Sort
import Mathlib.Data.String.Basic

/- The scan of an application's data (`probe/probe.go`): `BuildPlan` walks the source tree
   in the order of `filepath.WalkDir`, sorts what it finds into directories, regular files
   and SQLite databases, and looks for databases it does not support. Reading the tree does
   not fail here, but for files that may not be opened; modes and times of objects are left
   out. `strings.ToLower` is the parameter `lower`. -/
namespace AppBackup.Probe
open Base64 Path Text

/-! ## Source trees -/

inductive SourceObject where
  | regular (bytes : List Byte) (readable : Bool)
  | symlink
  | special

/-- The objects of a directory, in the order of their names. -/
inductive Listing where
  | nil
  | object (name : String) (object : SourceObject) (rest : Listing)
  | directory (name : String) (size : Nat) (children rest : Listing)

namespace Listing

def names : Listing → List String
  | nil => []
  | object name _ rest => name :: rest.names
  | directory name _ _ rest => name :: rest.names

/-- Names are proper and in strictly increasing order, in every directory. -/
def WellFormed : Listing → Prop
  | nil => True
  | object name _ rest => Proper name ∧ (∀ n ∈ rest.names, name < n) ∧ rest.WellFormed
  | directory name _ children rest =>
    Proper name ∧ (∀ n ∈ rest.names, name < n) ∧ children.WellFormed ∧ rest.WellFormed

instance decidableWellFormed : (l : Listing) → Decidable l.WellFormed
  | nil => inferInstanceAs (Decidable True)
  | object _ _ rest =>
    have := decidableWellFormed rest
    inferInstanceAs (Decidable (_ ∧ _ ∧ _))
  | directory _ _ children rest =>
    have := decidableWellFormed children
    have := decidableWellFormed rest
    inferInstanceAs (Decidable (_ ∧ _ ∧ _ ∧ _))

end Listing

/-- The data directory of an instance. -/
structure SourceTree where
  listing : Listing
  wellFormed : listing.WellFormed

/-- What `WalkDir` hands to its function. -/
inductive Node where
  | directory (size : Nat)
  | object (object : SourceObject)

/-- The objects below a directory, each with the names that lead to it, a directory before
what it holds. -/
def Listing.walk (parent : List String) : Listing → List (List String × Node)
  | nil => []
  | object name o rest => (parent ++ [name], .object o) :: rest.walk parent
  | directory name size children rest =>
    (parent ++ [name], .directory size) :: (children.walk (parent ++ [name]) ++ rest.walk parent)

/-! ## Plans -/

structure DatabaseFinding where
  path : String
  type : String
  supported : Bool
  reason : String

structure Result where
  capabilityStatus : CapabilityStatus
  totalBytes : Nat
  fileCount : Nat
  sqliteCount : Nat
  skippedCount : Nat
  findings : List DatabaseFinding

/-- A preflighted source object: `path` is the names below the root, `relative` their text. -/
structure Entry where
  path : List String
  relative : String
  size : Nat

structure Plan where
  result : Result
  directories : List Entry
  files : List Entry
  sqlite : List Entry
  warnings : List String

def Plan.archiveFileCount (p : Plan) : Nat := p.files.length + p.sqlite.length

inductive ProbeError where
  | entryLimitExceeded

def maxEntries : Nat := 100000

/-- The first 16 bytes of a SQLite database. -/
def sqliteHeader : List Byte := utf8 "SQLite format 3\x00"

def hasSQLiteHeader : Node → Bool
  | .object (.regular bytes readable) => readable && bytes.take 16 == sqliteHeader
  | _ => false

/-- The kind of service database a file name stands for. -/
def serviceDatabase (base : String) : Option String :=
  if base = "pg_version" then some "postgresql"
  else if base = "ibdata1" then some "mysql"
  else if base = "wiredtiger" then some "mongodb"
  else if base = "dump.rdb" ∨ base = "appendonly.aof" ∨ base = "appendonlydir" then some "redis"
  else none

def databaseFinding (lower : String → String) (path : List String) (node : Node) :
    Option DatabaseFinding :=
  let relative := join path
  let base := lower (path.getLastD "")
  if hasSQLiteHeader node then some ⟨relative, "sqlite", true, "SQLite format 3 header"⟩
  else
    match serviceDatabase base with
    | some type => some ⟨relative, type, false, "service database signature"⟩
    | none =>
      if hasSuffix base ".wt" ∨ hasPrefix base "collection-" then
        some ⟨relative, "mongodb", false, "MongoDB WiredTiger signature"⟩
      else if base ∈ ["base", "global", "pg_wal", "mysql", "performance_schema"] then
        let type := if base = "mysql" ∨ base = "performance_schema" then "mysql" else "postgresql"
        some ⟨relative, type, false, "service database directory"⟩
      else if hasSuffix base ".sqlite" ∨ hasSuffix base ".sqlite3" ∨ hasSuffix base ".db" then
        some ⟨relative, "unknown", false, "database-like file without a valid SQLite header"⟩
      else none

/-- `strings.TrimSuffix(relative, suffix)`, when there is one to trim. -/
def trimmedSuffix (relative suffix : String) : Option String :=
  if hasSuffix relative suffix then
    some (String.ofList (relative.toList.take (relative.toList.length - suffix.toList.length)))
  else none

/-- The companion suffixes exclude each other, so the order of the map does not matter. -/
def hasSQLiteCompanion (relative : String) (sqlitePaths : List String) : Bool :=
  match ["-wal", "-shm", "-journal"].findSome? (trimmedSuffix relative) with
  | some base => sqlitePaths.contains base
  | none => false

/-! ## The scan -/

/-- The entries seen and the plan so far. -/
structure Scan where
  seen : Nat
  plan : Plan

def Scan.start : Scan := ⟨0, ⟨⟨.backupable, 0, 0, 0, 0, []⟩, [], [], [], []⟩⟩

/-- What one object adds to the plan. -/
def Scan.record (lower : String → String) (s : Scan) (found : List String × Node) : Scan :=
  let relative := join found.1
  let plan := s.plan
  let findings := plan.result.findings ++ (databaseFinding lower found.1 found.2).toList
  match found.2 with
  | .object .symlink =>
    ⟨s.seen + 1, { plan with
      result := { plan.result with skippedCount := plan.result.skippedCount + 1 }
      warnings := plan.warnings ++ ["skipped symbolic link: " ++ relative] }⟩
  | .directory size =>
    ⟨s.seen + 1, { plan with
      result := { plan.result with findings := findings }
      directories := plan.directories ++ [⟨found.1, relative, size⟩] }⟩
  | .object .special =>
    ⟨s.seen + 1, { plan with
      result := { plan.result with skippedCount := plan.result.skippedCount + 1 }
      warnings := plan.warnings ++ ["skipped special file: " ++ relative] }⟩
  | .object (.regular bytes _) =>
    ⟨s.seen + 1, { plan with
      result := { plan.result with
        fileCount := plan.result.fileCount + 1
        totalBytes := plan.result.totalBytes + bytes.length
        findings := findings }
      files := plan.files ++ [⟨found.1, relative, bytes.length⟩] }⟩

def Scan.visit (lower : String → String) (s : Scan) (found : List String × Node) :
    Except ProbeError Scan :=
  if s.seen + 1 > maxEntries then .error .entryLimitExceeded else .ok (s.record lower found)

/-- The status of what a scan has found. -/
def capability (multiInstance : Bool) (archiveFileCount : Nat) (findings : List DatabaseFinding) :
    CapabilityStatus :=
  if findings.any (!·.supported) then .unsupportedDatabase
  else if archiveFileCount = 0 then .noData
  else if multiInstance then .backupable
  else .backupableSharedWarning

/-- What `BuildPlan` makes of the walk: databases and their companions leave the files. -/
def Scan.finish (multiInstance : Bool) (s : Scan) : Plan :=
  let findings := s.plan.result.findings.insertionSort fun f f' => f.path ≤ f'.path
  let sqlitePaths := (findings.filter (·.type == "sqlite")).map (·.path)
  let sqlite := s.plan.files.filter fun e => sqlitePaths.contains e.relative
  let files := s.plan.files.filter fun e =>
    !sqlitePaths.contains e.relative && !hasSQLiteCompanion e.relative sqlitePaths
  { s.plan with
    result := { s.plan.result with
      capabilityStatus := capability multiInstance (files.length + sqlite.length) findings
      sqliteCount := sqlitePaths.length
      findings := findings }
    files := files
    sqlite := sqlite }

def buildPlan (lower : String → String) (tree : SourceTree) (multiInstance : Bool) :
    Except ProbeError Plan := do
  let scan ← (tree.listing.walk []).foldlM (Scan.visit lower) Scan.start
  return scan.finish multiInstance

/-! ## What a walk visits -/

/-- An object of a directory is visited below one of the directory's names. -/
theorem Listing.mem_walk_names {parent : List String} {l : Listing} {found : List String × Node}
    (h : found ∈ l.walk parent) : ∃ name ∈ l.names, ∃ more, found.1 = parent ++ name :: more := by
  induction l generalizing parent with
  | nil => cases h
  | object name o rest ih =>
    obtain rfl | h := List.mem_cons.mp h
    · exact ⟨name, List.mem_cons_self .., [], rfl⟩
    · obtain ⟨n, hn, more, he⟩ := ih h
      exact ⟨n, List.mem_cons_of_mem _ hn, more, he⟩
  | directory name size children rest ihc ihr =>
    obtain rfl | h := List.mem_cons.mp h
    · exact ⟨name, List.mem_cons_self .., [], rfl⟩
    obtain h | h := List.mem_append.mp h
    · obtain ⟨n, -, more, he⟩ := ihc h
      exact ⟨name, List.mem_cons_self .., n :: more, by rw [he, List.append_assoc]; rfl⟩
    · obtain ⟨n, hn, more, he⟩ := ihr h
      exact ⟨n, List.mem_cons_of_mem _ hn, more, he⟩

theorem Listing.WellFormed.walk_proper {parent : List String} {l : Listing} (h : l.WellFormed)
    {found : List String × Node} (hf : found ∈ l.walk parent) :
    ∃ names, names ≠ [] ∧ found.1 = parent ++ names ∧ ∀ n ∈ names, Proper n := by
  induction l generalizing parent with
  | nil => cases hf
  | object name o rest ih =>
    obtain ⟨hname, -, hrest⟩ := h
    obtain rfl | hf := List.mem_cons.mp hf
    · exact ⟨[name], by simp, rfl, by simpa using hname⟩
    · exact ih hrest hf
  | directory name size children rest ihc ihr =>
    obtain ⟨hname, -, hchildren, hrest⟩ := h
    obtain rfl | hf := List.mem_cons.mp hf
    · exact ⟨[name], by simp, rfl, by simpa using hname⟩
    obtain hf | hf := List.mem_append.mp hf
    · obtain ⟨names, -, he, hproper⟩ := ihc hchildren hf
      refine ⟨name :: names, by simp, by rw [he, List.append_assoc]; rfl, ?_⟩
      intro n hn
      obtain rfl | hn := List.mem_cons.mp hn
      · exact hname
      · exact hproper n hn
    · exact ihr hrest hf

theorem later_ne {name : String} {names : List String} (h : ∀ n ∈ names, name < n) :
    ∀ n ∈ names, name ≠ n := by
  intro n hn he
  exact absurd (h n hn) (he ▸ lt_irrefl name)

/-- No object is visited twice. -/
theorem Listing.WellFormed.walk_nodup {parent : List String} {l : Listing} (h : l.WellFormed) :
    ((l.walk parent).map (·.1)).Nodup := by
  induction l generalizing parent with
  | nil => exact List.nodup_nil
  | object name o rest ih =>
    obtain ⟨-, hlater, hrest⟩ := h
    refine List.nodup_cons.mpr ⟨?_, ih hrest⟩
    intro hmem
    obtain ⟨found, hfound, he⟩ := List.mem_map.mp hmem
    obtain ⟨n, hn, more, he'⟩ := mem_walk_names hfound
    rw [he'] at he
    exact later_ne hlater n hn (List.cons.inj (List.append_cancel_left he)).1.symm
  | directory name size children rest ihc ihr =>
    obtain ⟨-, hlater, hchildren, hrest⟩ := h
    -- Below the directory every path goes on, beside it every path has another name.
    have hbelow : ∀ found ∈ children.walk (parent ++ [name]),
        ∃ n more, found.1 = parent ++ name :: n :: more := by
      intro found hfound
      obtain ⟨n, -, more, he⟩ := mem_walk_names hfound
      exact ⟨n, more, by rw [he, List.append_assoc]; rfl⟩
    have hbeside : ∀ found ∈ rest.walk parent, ∃ n more, name ≠ n ∧ found.1 = parent ++ n :: more := by
      intro found hfound
      obtain ⟨n, hn, more, he⟩ := mem_walk_names hfound
      exact ⟨n, more, later_ne hlater n hn, he⟩
    refine List.nodup_cons.mpr ⟨?_, ?_⟩
    · intro hmem
      obtain ⟨found, hfound, he⟩ := List.mem_map.mp hmem
      obtain hfound | hfound := List.mem_append.mp hfound
      · obtain ⟨n, more, he'⟩ := hbelow found hfound
        rw [he'] at he
        cases (List.cons.inj (List.append_cancel_left he)).2
      · obtain ⟨n, more, hne, he'⟩ := hbeside found hfound
        rw [he'] at he
        exact hne (List.cons.inj (List.append_cancel_left he)).1.symm
    · rw [List.map_append, List.nodup_append]
      refine ⟨ihc hchildren, ihr hrest, ?_⟩
      intro p hp q hq he
      obtain ⟨found, hfound, rfl⟩ := List.mem_map.mp hp
      obtain ⟨found', hfound', rfl⟩ := List.mem_map.mp hq
      obtain ⟨n, more, he₁⟩ := hbelow found hfound
      obtain ⟨n', more', hne, he₂⟩ := hbeside found' hfound'
      rw [he₁, he₂] at he
      exact hne (List.cons.inj (List.append_cancel_left he)).1

/-! ## What a plan holds -/

def directoryEntry : List String × Node → Option Entry
  | (path, .directory size) => some ⟨path, join path, size⟩
  | _ => none

def regularEntry : List String × Node → Option Entry
  | (path, .object (.regular bytes _)) => some ⟨path, join path, bytes.length⟩
  | _ => none

theorem record_directories (lower : String → String) (s : Scan) (found : List String × Node) :
    (s.record lower found).plan.directories = s.plan.directories ++ (directoryEntry found).toList := by
  obtain ⟨path, node⟩ := found
  cases node with
  | directory size => rfl
  | object o => cases o <;> exact (List.append_nil _).symm

theorem record_files (lower : String → String) (s : Scan) (found : List String × Node) :
    (s.record lower found).plan.files = s.plan.files ++ (regularEntry found).toList := by
  obtain ⟨path, node⟩ := found
  cases node with
  | directory size => exact (List.append_nil _).symm
  | object o =>
    cases o with
    | regular bytes readable => rfl
    | symlink => exact (List.append_nil _).symm
    | special => exact (List.append_nil _).symm

/-- A scan within the limit lists every directory and every regular file it visits. -/
theorem foldlM_visit {lower : String → String} {items : List (List String × Node)} {s s' : Scan}
    (h : items.foldlM (Scan.visit lower) s = .ok s') :
    s'.plan.directories = s.plan.directories ++ items.filterMap directoryEntry ∧
      s'.plan.files = s.plan.files ++ items.filterMap regularEntry := by
  induction items generalizing s with
  | nil =>
    cases h
    simp
  | cons found rest ih =>
    rw [List.foldlM_cons] at h
    unfold Scan.visit at h
    by_cases hlimit : s.seen + 1 > maxEntries
    · rw [if_pos hlimit] at h
      cases h
    · rw [if_neg hlimit] at h
      obtain ⟨hd, hf⟩ := ih h
      rw [hd, hf, record_directories, record_files, List.append_assoc, List.append_assoc]
      constructor
      · cases hfound : directoryEntry found <;> simp [hfound]
      · cases hfound : regularEntry found <;> simp [hfound]

variable {lower : String → String} {tree : SourceTree} {multiInstance : Bool} {plan : Plan}

theorem buildPlan_ok (h : buildPlan lower tree multiInstance = .ok plan) :
    ∃ s, (tree.listing.walk []).foldlM (Scan.visit lower) Scan.start = .ok s ∧
      plan = s.finish multiInstance := by
  unfold buildPlan at h
  cases hs : (tree.listing.walk []).foldlM (Scan.visit lower) Scan.start with
  | error e => rw [hs] at h; cases h
  | ok s => rw [hs] at h; exact ⟨s, rfl, (Except.ok.inj h).symm⟩

theorem buildPlan_directories (h : buildPlan lower tree multiInstance = .ok plan) :
    plan.directories = (tree.listing.walk []).filterMap directoryEntry := by
  obtain ⟨s, hs, rfl⟩ := buildPlan_ok h
  exact (foldlM_visit hs).1

theorem buildPlan_files (h : buildPlan lower tree multiInstance = .ok plan) {e : Entry}
    (he : e ∈ plan.files ++ plan.sqlite) : e ∈ (tree.listing.walk []).filterMap regularEntry := by
  obtain ⟨s, hs, rfl⟩ := buildPlan_ok h
  have hfiles : s.plan.files = (tree.listing.walk []).filterMap regularEntry := (foldlM_visit hs).2
  rw [← hfiles]
  obtain he | he := List.mem_append.mp he
  · exact (List.mem_filter.mp he).1
  · exact (List.mem_filter.mp he).1

/-- An entry's text is its names, which are proper. -/
def Entry.Named (e : Entry) : Prop := e.path ≠ [] ∧ (∀ n ∈ e.path, Proper n) ∧ e.relative = join e.path

theorem walk_named (tree : SourceTree) {found : List String × Node} (h : found ∈ tree.listing.walk [])
    {size : Nat} : Entry.Named ⟨found.1, join found.1, size⟩ := by
  obtain ⟨names, hne, he, hproper⟩ := tree.wellFormed.walk_proper h
  rw [List.nil_append] at he
  rw [he]
  exact ⟨hne, hproper, rfl⟩

theorem directoryEntry_eq_some {found : List String × Node} {e : Entry}
    (h : directoryEntry found = some e) :
    e = ⟨found.1, join found.1, e.size⟩ ∧ found.2 = .directory e.size := by
  obtain ⟨path, node⟩ := found
  cases node with
  | directory size => cases h; exact ⟨rfl, rfl⟩
  | object o => cases h

theorem regularEntry_eq_some {found : List String × Node} {e : Entry} (h : regularEntry found = some e) :
    ∃ bytes readable, e = ⟨found.1, join found.1, bytes.length⟩ ∧
      found.2 = .object (.regular bytes readable) := by
  obtain ⟨path, node⟩ := found
  cases node with
  | directory size => cases h
  | object o =>
    cases o with
    | regular bytes readable => cases h; exact ⟨bytes, readable, rfl, rfl⟩
    | symlink => cases h
    | special => cases h

theorem buildPlan_directory_named (h : buildPlan lower tree multiInstance = .ok plan) {e : Entry}
    (he : e ∈ plan.directories) : e.Named := by
  rw [buildPlan_directories h] at he
  obtain ⟨found, hfound, he⟩ := List.mem_filterMap.mp he
  rw [(directoryEntry_eq_some he).1]
  exact walk_named tree hfound

theorem buildPlan_file_named (h : buildPlan lower tree multiInstance = .ok plan) {e : Entry}
    (he : e ∈ plan.files ++ plan.sqlite) : e.Named := by
  obtain ⟨found, hfound, he⟩ := List.mem_filterMap.mp (buildPlan_files h he)
  obtain ⟨bytes, readable, rfl, -⟩ := regularEntry_eq_some he
  exact walk_named tree hfound

theorem Entry.Named.path_eq {e e' : Entry} (h : e.Named) (h' : e'.Named) (he : e.relative = e'.relative) :
    e.path = e'.path := by
  obtain ⟨hne, hproper, hrel⟩ := h
  obtain ⟨hne', hproper', hrel'⟩ := h'
  rw [hrel, hrel'] at he
  exact join_inj hne hne' (fun n hn => (hproper n hn).2.2.2) (fun n hn => (hproper' n hn).2.2.2) he

/-- A planned directory and a planned file are never at one path. -/
theorem buildPlan_disjoint (h : buildPlan lower tree multiInstance = .ok plan) {d f : Entry}
    (hd : d ∈ plan.directories) (hf : f ∈ plan.files ++ plan.sqlite) : d.relative ≠ f.relative := by
  intro he
  have hpath := (buildPlan_directory_named h hd).path_eq (buildPlan_file_named h hf) he
  rw [buildPlan_directories h] at hd
  obtain ⟨found, hfound, hd⟩ := List.mem_filterMap.mp hd
  obtain ⟨found', hfound', hf⟩ := List.mem_filterMap.mp (buildPlan_files h hf)
  obtain ⟨hd, hnode⟩ := directoryEntry_eq_some hd
  obtain ⟨bytes, readable, rfl, hnode'⟩ := regularEntry_eq_some hf
  have hsame : found = found' := by
    refine List.inj_on_of_nodup_map tree.wellFormed.walk_nodup hfound hfound' ?_
    rw [hd] at hpath
    exact hpath
  rw [hsame, hnode'] at hnode
  cases hnode

end AppBackup.Probe
