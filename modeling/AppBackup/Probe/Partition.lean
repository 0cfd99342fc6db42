import AppBackup.Probe.Plan

/- How a plan divides the source. A file that can be opened and starts with the SQLite header
   is a database; one that is none, and is named as the `-wal`, `-shm` or `-journal` of a
   database, is left out; every other regular file is a plain file. Directories are listed,
   links and special files are not. -/
namespace AppBackup.Probe
open Path Text

/-- The object is a file that can be opened, and its first 16 bytes are the SQLite header. -/
def Recognised (found : List String × Node) : Prop := hasSQLiteHeader found.2 = true

instance (found : List String × Node) : Decidable (Recognised found) := inferInstanceAs (Decidable (_ = _))

/-- The path is that of a recognised file, followed by a suffix of SQLite's. -/
def CompanionName (tree : SourceTree) (path : List String) : Prop :=
  ∃ db ∈ tree.listing.walk [], Recognised db ∧
    ∃ suffix ∈ ["-wal", "-shm", "-journal"], join path = join db.1 ++ suffix

instance (tree : SourceTree) (path : List String) : Decidable (CompanionName tree path) :=
  inferInstanceAs (Decidable (∃ db ∈ tree.listing.walk [], _))

/-! ## Companions -/

theorem trimmedSuffix_eq_some {relative suffix base : String} :
    trimmedSuffix relative suffix = some base ↔ relative = base ++ suffix := by
  unfold trimmedSuffix
  refine ⟨?_, ?_⟩
  · intro h
    split at h
    · next hsuffix =>
      obtain ⟨front, hfront⟩ := hasSuffix_iff.mp hsuffix
      obtain rfl := Option.some.inj h
      rw [← hfront, List.length_append, Nat.add_sub_cancel, List.take_left]
      apply String.toList_inj.mp
      rw [String.toList_append, String.toList_ofList, hfront]
    · cases h
  · intro h
    subst h
    rw [if_pos]
    · rw [String.toList_append, List.length_append, Nat.add_sub_cancel, List.take_left, String.ofList_toList]
    · rw [hasSuffix_iff, String.toList_append]
      exact List.suffix_append _ _

/-- A name ends in one of the suffixes at most. -/
theorem trimmedSuffix_unique {relative base suffix suffix' : String}
    (hs : suffix ∈ ["-wal", "-shm", "-journal"]) (hs' : suffix' ∈ ["-wal", "-shm", "-journal"])
    (h : trimmedSuffix relative suffix = some base) (hne : suffix' ≠ suffix) :
    trimmedSuffix relative suffix' = none := by
  cases h' : trimmedSuffix relative suffix' with
  | none => rfl
  | some base' =>
    exfalso
    have heq := (trimmedSuffix_eq_some.mp h).symm.trans (trimmedSuffix_eq_some.mp h')
    have hlast : ((base ++ suffix).toList.reverse).take 4 = ((base' ++ suffix').toList.reverse).take 4 := by
      rw [heq]
    have htail : ∀ {b s : String}, 4 ≤ s.toList.length →
        ((b ++ s).toList.reverse).take 4 = s.toList.reverse.take 4 := by
      intro b s hlen
      rw [String.toList_append, List.reverse_append, List.take_append_of_le_length]
      rw [List.length_reverse]
      exact hlen
    have hlen : ∀ s ∈ ["-wal", "-shm", "-journal"], 4 ≤ s.toList.length := by decide
    rw [htail (hlen _ hs), htail (hlen _ hs')] at hlast
    have hdistinct : ∀ s ∈ ["-wal", "-shm", "-journal"], ∀ s' ∈ ["-wal", "-shm", "-journal"],
        s.toList.reverse.take 4 = s'.toList.reverse.take 4 → s' = s := by decide
    exact hne (hdistinct _ hs _ hs' hlast)

theorem hasSQLiteCompanion_iff {relative : String} {sqlitePaths : List String} :
    hasSQLiteCompanion relative sqlitePaths = true ↔
      ∃ base ∈ sqlitePaths, ∃ suffix ∈ ["-wal", "-shm", "-journal"], relative = base ++ suffix := by
  unfold hasSQLiteCompanion
  refine ⟨?_, ?_⟩
  · intro h
    split at h
    · next base hbase =>
      obtain ⟨suffix, hsuffix, htrim⟩ := List.exists_of_findSome?_eq_some hbase
      exact ⟨base, List.contains_iff_mem.mp h, suffix, hsuffix, trimmedSuffix_eq_some.mp htrim⟩
    · cases h
  · intro h
    obtain ⟨base, hbase, suffix, hsuffix, heq⟩ := h
    have htrim := trimmedSuffix_eq_some.mpr heq
    have hfind : ["-wal", "-shm", "-journal"].findSome? (trimmedSuffix relative) = some base := by
      cases hf : ["-wal", "-shm", "-journal"].findSome? (trimmedSuffix relative) with
      | none => rw [List.findSome?_eq_none_iff.mp hf suffix hsuffix] at htrim; cases htrim
      | some base' =>
        obtain ⟨suffix', hsuffix', htrim'⟩ := List.exists_of_findSome?_eq_some hf
        by_cases hsame : suffix' = suffix
        · rw [hsame, htrim] at htrim'
          exact htrim'.symm
        · rw [trimmedSuffix_unique hsuffix hsuffix' htrim hsame] at htrim'
          cases htrim'
    rw [hfind]
    exact List.contains_iff_mem.mpr hbase

/-! ## Findings -/

/-- What a scan looks for databases in. -/
def inspected : Node → Bool
  | .directory _ => true
  | .object (.regular _ _) => true
  | .object _ => false

def nodeFindings (lower : String → String) (found : List String × Node) : List DatabaseFinding :=
  if inspected found.2 then (databaseFinding lower found.1 found.2).toList else []

theorem record_findings (lower : String → String) (s : Scan) (found : List String × Node) :
    (s.record lower found).plan.result.findings = s.plan.result.findings ++ nodeFindings lower found := by
  obtain ⟨path, node⟩ := found
  cases node with
  | directory size => rfl
  | object o =>
    cases o with
    | regular bytes readable => rfl
    | symlink => exact (List.append_nil _).symm
    | special => exact (List.append_nil _).symm

theorem foldlM_findings {lower : String → String} {items : List (List String × Node)} {s s' : Scan}
    (h : items.foldlM (Scan.visit lower) s = .ok s') :
    s'.plan.result.findings = s.plan.result.findings ++ items.flatMap (nodeFindings lower) := by
  induction items generalizing s with
  | nil =>
    cases h
    simp
  | cons found rest ih =>
    rw [List.foldlM_cons] at h
    unfold Scan.visit at h
    by_cases hlimit : s.seen + 1 > maxEntries
    · rw [if_pos hlimit] at h
      cases h
    · rw [if_neg hlimit] at h
      calc s'.plan.result.findings
          = (s.record lower found).plan.result.findings ++ rest.flatMap (nodeFindings lower) := ih h
        _ = s.plan.result.findings ++ (found :: rest).flatMap (nodeFindings lower) := by
            rw [record_findings, List.flatMap_cons, List.append_assoc]

theorem serviceDatabase_ne {base type : String} (h : serviceDatabase base = some type) : type ≠ "sqlite" := by
  unfold serviceDatabase at h
  split at h
  · cases h; decide
  · split at h
    · cases h; decide
    · split at h
      · cases h; decide
      · split at h
        · cases h; decide
        · cases h

/-- A finding of a database is that of a file with the header. -/
theorem databaseFinding_sqlite {lower : String → String} {path : List String} {node : Node}
    {f : DatabaseFinding} (h : databaseFinding lower path node = some f) :
    f.type = "sqlite" ↔ hasSQLiteHeader node = true := by
  have hother : ∀ {type reason : String}, some (⟨join path, type, false, reason⟩ : DatabaseFinding) = some f →
      type ≠ "sqlite" → f.type ≠ "sqlite" := by
    intro type reason hf htype
    obtain rfl := Option.some.inj hf
    exact htype
  unfold databaseFinding at h
  simp only at h
  split at h
  · next hheader =>
    obtain rfl := Option.some.inj h
    exact ⟨fun _ => hheader, fun _ => rfl⟩
  · next hheader =>
    have hne : f.type ≠ "sqlite" := by
      split at h
      · next type hservice => exact hother h (serviceDatabase_ne hservice)
      · split at h
        · exact hother h (by decide)
        · split at h
          · refine hother h ?_
            split
            · decide
            · decide
          · split at h
            · exact hother h (by decide)
            · cases h
    exact ⟨fun htype => absurd htype hne, fun hyes => absurd hyes hheader⟩

theorem databaseFinding_header {lower : String → String} {path : List String} {node : Node}
    (h : hasSQLiteHeader node = true) :
    databaseFinding lower path node = some ⟨join path, "sqlite", true, "SQLite format 3 header"⟩ := by
  unfold databaseFinding
  simp only
  rw [if_pos h]

theorem inspected_of_header {node : Node} (h : hasSQLiteHeader node = true) : inspected node = true := by
  cases node with
  | directory size => rfl
  | object o =>
    cases o with
    | regular bytes readable => rfl
    | symlink => cases h
    | special => cases h

/-- The paths taken for databases are those of the recognised files. -/
theorem mem_sqlitePaths {lower : String → String} {walk : List (List String × Node)}
    {findings : List DatabaseFinding} (hperm : findings.Perm (walk.flatMap (nodeFindings lower)))
    {relative : String} : relative ∈ (findings.filter (·.type == "sqlite")).map (·.path) ↔
      ∃ db ∈ walk, Recognised db ∧ join db.1 = relative := by
  refine ⟨?_, ?_⟩
  · intro h
    obtain ⟨f, hf, rfl⟩ := List.mem_map.mp h
    obtain ⟨hf, htype⟩ := List.mem_filter.mp hf
    obtain ⟨db, hdb, hf⟩ := List.mem_flatMap.mp (hperm.mem_iff.mp hf)
    unfold nodeFindings at hf
    split at hf
    · have hfinding := Option.mem_toList.mp hf
      have hheader := (databaseFinding_sqlite hfinding).mp (beq_iff_eq.mp htype)
      rw [databaseFinding_header hheader] at hfinding
      obtain rfl := Option.some.inj hfinding
      exact ⟨db, hdb, hheader, rfl⟩
    · cases hf
  · intro h
    obtain ⟨db, hdb, hheader, rfl⟩ := h
    refine List.mem_map.mpr ⟨⟨join db.1, "sqlite", true, "SQLite format 3 header"⟩, ?_, rfl⟩
    refine List.mem_filter.mpr ⟨hperm.mem_iff.mpr (List.mem_flatMap.mpr ⟨db, hdb, ?_⟩), beq_self_eq_true _⟩
    unfold nodeFindings
    rw [if_pos (inspected_of_header hheader), databaseFinding_header hheader]
    exact List.mem_singleton_self _

/-! ## The partition -/

/-- Each regular file is in one place, each place has nothing else, and nothing is listed
twice. -/
structure Partitioned (tree : SourceTree) (plan : Plan) : Prop where
  sqlite : ∀ e, e ∈ plan.sqlite ↔
    ∃ found ∈ tree.listing.walk [], regularEntry found = some e ∧ Recognised found
  files : ∀ e, e ∈ plan.files ↔ ∃ found ∈ tree.listing.walk [], regularEntry found = some e ∧
    ¬Recognised found ∧ ¬CompanionName tree found.1
  directories : ∀ e, e ∈ plan.directories ↔ ∃ found ∈ tree.listing.walk [], directoryEntry found = some e
  once : ((plan.directories ++ (plan.files ++ plan.sqlite)).map (·.path)).Nodup

/-- The status is the one of the findings and the files that are left. -/
structure Assessed (plan : Plan) : Prop where
  unsupported : plan.result.capabilityStatus = .unsupportedDatabase ↔
    ∃ f ∈ plan.result.findings, f.supported = false
  noData : plan.result.capabilityStatus = .noData ↔
    plan.result.capabilityStatus ≠ .unsupportedDatabase ∧ plan.files ++ plan.sqlite = []

section
variable {lower : String → String} {tree : SourceTree} {multiInstance : Bool} {plan : Plan}

theorem regularEntry_path {found : List String × Node} {e : Entry} (h : regularEntry found = some e) :
    e.path = found.1 ∧ e.relative = join found.1 := by
  obtain ⟨bytes, readable, rfl, -⟩ := regularEntry_eq_some h
  exact ⟨rfl, rfl⟩

theorem walk_inj (tree : SourceTree) {found found' : List String × Node}
    (h : found ∈ tree.listing.walk []) (h' : found' ∈ tree.listing.walk [])
    (he : join found.1 = join found'.1) : found = found' := by
  apply List.inj_on_of_nodup_map tree.wellFormed.walk_nodup h h'
  exact (@walk_named tree found h 0).path_eq (@walk_named tree found' h' 0) he

theorem buildPlan_sqlitePaths (h : buildPlan lower tree multiInstance = .ok plan) :
    ∃ sqlitePaths : List String, (∀ relative, relative ∈ sqlitePaths ↔
        ∃ db ∈ tree.listing.walk [], Recognised db ∧ join db.1 = relative) ∧
      plan.sqlite = ((tree.listing.walk []).filterMap regularEntry).filter
        (fun e => sqlitePaths.contains e.relative) ∧
      plan.files = ((tree.listing.walk []).filterMap regularEntry).filter
        (fun e => !sqlitePaths.contains e.relative && !hasSQLiteCompanion e.relative sqlitePaths) := by
  obtain ⟨s, hs, rfl⟩ := buildPlan_ok h
  have hfiles : s.plan.files = (tree.listing.walk []).filterMap regularEntry := (foldlM_visit hs).2
  have hfindings : s.plan.result.findings = (tree.listing.walk []).flatMap (nodeFindings lower) :=
    foldlM_findings hs
  have hperm := (List.perm_insertionSort (fun f f' : DatabaseFinding => f.path ≤ f'.path)
    s.plan.result.findings).trans (List.Perm.of_eq hfindings)
  rw [← hfiles]
  exact ⟨_, fun relative => mem_sqlitePaths hperm, rfl, rfl⟩

theorem mem_sqlitePaths_iff {sqlitePaths : List String} (hpaths : ∀ relative, relative ∈ sqlitePaths ↔
      ∃ db ∈ tree.listing.walk [], Recognised db ∧ join db.1 = relative)
    {found : List String × Node} (hfound : found ∈ tree.listing.walk []) :
    join found.1 ∈ sqlitePaths ↔ Recognised found := by
  rw [hpaths]
  refine ⟨?_, fun h => ⟨found, hfound, h, rfl⟩⟩
  intro h
  obtain ⟨db, hdb, hheader, hsame⟩ := h
  rw [walk_inj tree hfound hdb hsame.symm]
  exact hheader

theorem companion_iff {sqlitePaths : List String} (hpaths : ∀ relative, relative ∈ sqlitePaths ↔
      ∃ db ∈ tree.listing.walk [], Recognised db ∧ join db.1 = relative) (path : List String) :
    hasSQLiteCompanion (join path) sqlitePaths = true ↔ CompanionName tree path := by
  rw [hasSQLiteCompanion_iff]
  refine ⟨?_, ?_⟩
  · intro h
    obtain ⟨base, hbase, suffix, hsuffix, heq⟩ := h
    obtain ⟨db, hdb, hheader, rfl⟩ := (hpaths base).mp hbase
    exact ⟨db, hdb, hheader, suffix, hsuffix, heq⟩
  · intro h
    obtain ⟨db, hdb, hheader, suffix, hsuffix, heq⟩ := h
    exact ⟨join db.1, (hpaths _).mpr ⟨db, hdb, hheader, rfl⟩, suffix, hsuffix, heq⟩

theorem filterMap_paths {f : List String × Node → Option Entry}
    (hf : ∀ found e, f found = some e → e.path = found.1)
    (walk : List (List String × Node)) : ((walk.filterMap f).map (·.path)).Sublist (walk.map (·.1)) := by
  induction walk with
  | nil => exact List.Sublist.refl _
  | cons found rest ih =>
    cases he : f found with
    | none =>
      rw [List.filterMap_cons_none he]
      exact ih.cons _
    | some e =>
      rw [List.filterMap_cons_some he, List.map_cons, List.map_cons, hf found e he]
      exact ih.cons_cons _

theorem buildPlan_partitioned (h : buildPlan lower tree multiInstance = .ok plan) :
    Partitioned tree plan := by
  obtain ⟨sqlitePaths, hpaths, hsqlite, hfiles⟩ := buildPlan_sqlitePaths h
  have hdirectories := buildPlan_directories h
  refine ⟨?_, ?_, ?_, ?_⟩
  · intro e
    rw [hsqlite, List.mem_filter, List.mem_filterMap]
    refine ⟨?_, ?_⟩
    · intro he
      obtain ⟨⟨found, hfound, he⟩, hin⟩ := he
      rw [(regularEntry_path he).2] at hin
      exact ⟨found, hfound, he, (mem_sqlitePaths_iff hpaths hfound).mp (List.contains_iff_mem.mp hin)⟩
    · intro he
      obtain ⟨found, hfound, he, hheader⟩ := he
      refine ⟨⟨found, hfound, he⟩, ?_⟩
      rw [(regularEntry_path he).2]
      exact List.contains_iff_mem.mpr ((mem_sqlitePaths_iff hpaths hfound).mpr hheader)
  · intro e
    have hplain : ∀ found ∈ tree.listing.walk [],
        (!sqlitePaths.contains (join found.1) && !hasSQLiteCompanion (join found.1) sqlitePaths) = true ↔
          ¬Recognised found ∧ ¬CompanionName tree found.1 := by
      intro found hfound
      rw [Bool.and_eq_true, Bool.not_eq_true', Bool.not_eq_true', Bool.eq_false_iff, Bool.eq_false_iff,
        ne_eq, ne_eq, List.contains_iff_mem, mem_sqlitePaths_iff hpaths hfound, companion_iff hpaths]
    rw [hfiles, List.mem_filter, List.mem_filterMap]
    refine ⟨?_, ?_⟩
    · intro he
      obtain ⟨⟨found, hfound, he⟩, hin⟩ := he
      rw [(regularEntry_path he).2] at hin
      exact ⟨found, hfound, he, (hplain found hfound).mp hin⟩
    · intro he
      obtain ⟨found, hfound, he, hout⟩ := he
      refine ⟨⟨found, hfound, he⟩, ?_⟩
      rw [(regularEntry_path he).2]
      exact (hplain found hfound).mpr hout
  · intro e
    rw [hdirectories, List.mem_filterMap]
  · -- paths are those of the walk, which come once; a database is no plain file
    have hdirs : (plan.directories.map (·.path)).Nodup := by
      rw [hdirectories]
      refine tree.wellFormed.walk_nodup.sublist (filterMap_paths ?_ _)
      intro found e he
      rw [(directoryEntry_eq_some he).1]
    have hregular : (((tree.listing.walk []).filterMap regularEntry).map (·.path)).Nodup :=
      tree.wellFormed.walk_nodup.sublist (filterMap_paths (fun found e he => (regularEntry_path he).1) _)
    rw [List.map_append, List.map_append, List.nodup_append', List.nodup_append']
    refine ⟨hdirs, ⟨?_, ?_, ?_⟩, ?_⟩
    · rw [hfiles]
      exact hregular.sublist (List.filter_sublist.map _)
    · rw [hsqlite]
      exact hregular.sublist (List.filter_sublist.map _)
    · intro path hfile hdb
      obtain ⟨e, he, rfl⟩ := List.mem_map.mp hfile
      obtain ⟨e', he', hsame⟩ := List.mem_map.mp hdb
      rw [hfiles, List.mem_filter] at he
      rw [hsqlite, List.mem_filter] at he'
      obtain rfl := List.inj_on_of_nodup_map hregular he.1 he'.1 hsame.symm
      simp only [he'.2, Bool.not_true, Bool.false_and, Bool.false_eq_true, and_false] at he
    · intro path hdir hfile
      rw [← List.map_append] at hfile
      obtain ⟨d, hd, rfl⟩ := List.mem_map.mp hdir
      obtain ⟨e, he, hsame⟩ := List.mem_map.mp hfile
      apply buildPlan_disjoint h hd he
      rw [(buildPlan_directory_named h hd).2.2, (buildPlan_file_named h he).2.2, hsame]

theorem buildPlan_assessed (h : buildPlan lower tree multiInstance = .ok plan) : Assessed plan := by
  obtain ⟨s, -, rfl⟩ := buildPlan_ok h
  generalize hplan : s.finish multiInstance = plan
  have hstatus : plan.result.capabilityStatus =
      capability multiInstance (plan.files.length + plan.sqlite.length) plan.result.findings := by
    rw [← hplan]
    rfl
  have hany : plan.result.findings.any (!·.supported) = true ↔
      ∃ f ∈ plan.result.findings, f.supported = false := by
    rw [List.any_eq_true]
    simp only [Bool.not_eq_true']
  have hcount : plan.files.length + plan.sqlite.length = 0 ↔ plan.files ++ plan.sqlite = [] := by
    rw [← List.length_append, List.length_eq_zero_iff]
  unfold capability at hstatus
  by_cases hbad : plan.result.findings.any (!·.supported) = true
  · rw [if_pos hbad] at hstatus
    refine ⟨⟨fun _ => hany.mp hbad, fun _ => hstatus⟩, ?_⟩
    rw [hstatus]
    refine ⟨?_, fun hno => absurd rfl hno.1⟩
    intro hno
    cases hno
  · rw [if_neg hbad] at hstatus
    by_cases hzero : plan.files.length + plan.sqlite.length = 0
    · rw [if_pos hzero] at hstatus
      refine ⟨⟨fun hno => ?_, fun hyes => absurd (hany.mpr hyes) hbad⟩, ?_⟩
      · rw [hstatus] at hno
        cases hno
      · refine ⟨fun _ => ⟨?_, hcount.mp hzero⟩, fun _ => hstatus⟩
        rw [hstatus]
        decide
    · rw [if_neg hzero] at hstatus
      have hother : plan.result.capabilityStatus ≠ .unsupportedDatabase ∧
          plan.result.capabilityStatus ≠ .noData := by
        rw [hstatus]
        cases multiInstance
        · exact ⟨by decide, by decide⟩
        · exact ⟨by decide, by decide⟩
      exact ⟨⟨fun hno => absurd hno hother.1, fun hyes => absurd (hany.mpr hyes) hbad⟩,
        ⟨fun hno => absurd hno hother.2, fun hyes => absurd (hcount.mpr hyes.2) hzero⟩⟩

end

end AppBackup.Probe
