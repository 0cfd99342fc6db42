import AppBackup.Plans.Scope
import AppBackup.Probe.Scope

/- The range picker, the normaliser and the planner on one scan: what `ScopeCatalog`
   offers, `normalizeScope` of a CUSTOM scope made of it, and `ApplyScope` with the result.
   They agree exactly when no chosen file looks like the companion of a database and the
   normaliser changes no path in a way that matters.

   What is proved:
     1. an item of the catalog is a planned entry of the scan (`Offered.planned`), and a scope
        that is taken keeps the chosen paths in normal form that none covers
        (`kept_of_normalizeScope`);
     2. `selected_iff` -- where no path is changed in a way that matters, kept and chosen paths
        select the same entries; `unchanged_of_kept` is the way back;
     3. `picker_agrees_iff` puts the two together with the refusal of companions. -/
namespace AppBackup.Plans
open Probe Path Text

variable {lower : String → String} {tree : SourceTree} {multiInstance : Bool} {plan : Plan}

/-! ## What the picker offers -/

/-- Some page of the catalog, for some query, has the path as a selectable item of the type. -/
def Offered (lower : String → String) (tree : SourceTree) (multiInstance : Bool) (type path : String) :
    Prop :=
  ∃ query after limit catalog, scopeCatalog lower tree multiInstance query after limit = .ok catalog ∧
    ∃ item ∈ catalog.items, item.path = path ∧ item.type = type ∧ item.selectable = true

theorem mem_appendEntry {query type : String} {sqlite : Bool} {items : List ScopeEntry} {entry : Entry}
    {i : ScopeEntry} (h : i ∈ appendEntry lower query type sqlite items entry) :
    (∃ j ∈ items, i.path = j.path ∧ i.type = j.type) ∨ (i.path = entry.relative ∧ i.type = type) := by
  unfold appendEntry at h
  by_cases hquery : query ≠ "" ∧ contains (lower entry.relative) query = false
  · rw [if_pos hquery] at h
    exact .inl ⟨i, h, rfl, rfl⟩
  rw [if_neg hquery] at h
  simp only at h
  split at h
  · obtain h | h := List.mem_append.mp h
    · exact .inl ⟨i, h, rfl, rfl⟩
    · rw [List.mem_singleton.mp h]
      exact .inr ⟨rfl, rfl⟩
  · cases sqlite with
    | false => exact .inl ⟨i, h, rfl, rfl⟩
    | true =>
      rw [if_pos rfl] at h
      obtain ⟨j, hj, rfl⟩ := List.mem_map.mp h
      split
      · exact .inr ⟨rfl, rfl⟩
      · exact .inl ⟨j, hj, rfl, rfl⟩

theorem mem_foldl_appendEntry {query type : String} {sqlite : Bool} {entries : List Entry}
    {items : List ScopeEntry} {i : ScopeEntry}
    (h : i ∈ entries.foldl (appendEntry lower query type sqlite) items) :
    (∃ j ∈ items, i.path = j.path ∧ i.type = j.type) ∨
      ∃ e ∈ entries, i.path = e.relative ∧ i.type = type := by
  induction entries generalizing items with
  | nil => exact .inl ⟨i, h, rfl, rfl⟩
  | cons e rest ih =>
    obtain ⟨j, hj, hpath, htype⟩ | ⟨e', he', hi⟩ := ih h
    · obtain ⟨k, hk, hkpath, hktype⟩ | ⟨hkpath, hktype⟩ := mem_appendEntry hj
      · exact .inl ⟨k, hk, hpath.trans hkpath, htype.trans hktype⟩
      · exact .inr ⟨e, List.mem_cons_self .., hpath.trans hkpath, htype.trans hktype⟩
    · exact .inr ⟨e', List.mem_cons_of_mem _ he', hi⟩

theorem mem_catalogItems {query : String} {i : ScopeEntry} (h : i ∈ catalogItems lower plan query) :
    (∃ e ∈ plan.directories, i.path = e.relative ∧ i.type = "directory") ∨
      ∃ e ∈ plan.files ++ plan.sqlite, i.path = e.relative ∧ i.type = "file" := by
  unfold catalogItems at h
  obtain ⟨j, hj, hpath, htype⟩ | ⟨e, he, hi⟩ := mem_foldl_appendEntry h
  · obtain ⟨k, hk, hkpath, hktype⟩ | ⟨e, he, hjpath, hjtype⟩ := mem_foldl_appendEntry hj
    · obtain ⟨_, hm, -⟩ | ⟨e, he, hepath, hetype⟩ := mem_foldl_appendEntry hk
      · cases hm
      · exact .inl ⟨e, he, hpath.trans (hkpath.trans hepath), htype.trans (hktype.trans hetype)⟩
    · exact .inr ⟨e, List.mem_append_left _ he, hpath.trans hjpath, htype.trans hjtype⟩
  · exact .inr ⟨e, List.mem_append_right _ he, hi⟩

theorem mem_cutCatalog {limit : Int} {items : List ScopeEntry} {i : ScopeEntry}
    (h : i ∈ (cutCatalog limit items).items) : i ∈ items := by
  apply (List.mem_insertionSort catalogBefore).mp
  unfold cutCatalog at h
  generalize (if limit ≤ 0 ∨ 200 < limit then 200 else limit.toNat) = cut at h
  by_cases hmore : cut < (items.insertionSort catalogBefore).length
  · simp only [if_pos hmore] at h
    exact List.mem_of_mem_take h
  · simp only [if_neg hmore] at h
    exact h

theorem Offered.planned {type path : String} (hplan : buildPlan lower tree multiInstance = .ok plan)
    (h : Offered lower tree multiInstance type path) :
    (∃ e ∈ plan.directories, path = e.relative ∧ type = "directory") ∨
      ∃ e ∈ plan.files ++ plan.sqlite, path = e.relative ∧ type = "file" := by
  obtain ⟨query, after, limit, catalog, hcatalog, item, hitem, rfl, rfl, -⟩ := h
  unfold scopeCatalog at hcatalog
  rw [hplan] at hcatalog
  obtain rfl := Except.ok.inj hcatalog
  exact mem_catalogItems (List.mem_filter.mp (mem_cutCatalog hitem)).1

theorem Offered.directory {path : String} (hplan : buildPlan lower tree multiInstance = .ok plan)
    (h : Offered lower tree multiInstance "directory" path) : path ∈ plan.directories.map (·.relative) := by
  obtain ⟨e, he, rfl, -⟩ | ⟨_, -, -, htype⟩ := h.planned hplan
  · exact List.mem_map_of_mem he
  · exact absurd htype (by decide)

theorem Offered.file {path : String} (hplan : buildPlan lower tree multiInstance = .ok plan)
    (h : Offered lower tree multiInstance "file" path) :
    path ∈ (plan.files ++ plan.sqlite).map (·.relative) := by
  obtain ⟨_, -, -, htype⟩ | ⟨e, he, rfl, -⟩ := h.planned hplan
  · exact absurd htype (by decide)
  · exact List.mem_map_of_mem he

/-! ## What a saved scope holds -/

theorem normalizeScope_custom (lower : String → String) {input : BackupScope}
    (hmode : input.mode = "CUSTOM") :
    normalizeScope lower input = (do
      let directories ← cleanPaths input.directories
      let files ← cleanPaths input.files
      closeScope lower "CUSTOM" (if input.revision < 1 then 1 else input.revision) directories files) := by
  have hcustom : toUpper (trimSpace "CUSTOM") = "CUSTOM" := by decide
  unfold normalizeScope
  simp only [hmode, hcustom]
  rw [if_neg (by decide), if_neg (by decide)]
  simp

/-- The paths of a CUSTOM scope that is taken are normal forms of the given ones: the directories
that no other is above, and the files that no kept directory is above. -/
structure Kept (input scope : BackupScope) : Prop where
  mode : scope.mode = "CUSTOM"
  directories : ∀ p, p ∈ scope.directories ↔ (∃ d ∈ input.directories, normalPath d = p) ∧
    ∀ d ∈ input.directories, below (normalPath d) p = false
  files : ∀ p, p ∈ scope.files ↔ (∃ f ∈ input.files, normalPath f = p) ∧
    ∀ d ∈ scope.directories, below d p = false

theorem closeScope_ok {revision : Int} {directories files : List String} {scope : BackupScope}
    (h : closeScope lower "CUSTOM" revision directories files = .ok scope) :
    (∀ f ∈ files, companionName lower f = false) ∧ scope.mode = "CUSTOM" ∧
      scope.directories = removeCoveredDirectories directories ∧
      scope.files = removeFilesCoveredByDirectories files scope.directories := by
  unfold closeScope at h
  by_cases hcompanion : files.any (companionName lower) = true
  · rw [if_pos hcompanion] at h
    cases h
  · rw [if_neg hcompanion] at h
    simp only at h
    split at h
    · cases h
    · obtain rfl := Except.ok.inj h
      refine ⟨?_, rfl, rfl, rfl⟩
      intro f hf
      by_contra hname
      exact hcompanion (List.any_eq_true.mpr ⟨f, hf, by simpa using hname⟩)

/-- Cleaned paths without companions are taken when there is one. -/
theorem closeScope_some {revision : Int} {directories files : List String}
    (hcompanion : ∀ f ∈ files, companionName lower f = false) {p : String}
    (hp : p ∈ directories ∨ p ∈ files) :
    ∃ scope, closeScope lower "CUSTOM" revision directories files = .ok scope := by
  have hany : ¬files.any (companionName lower) = true := by
    intro h
    obtain ⟨f, hf, hname⟩ := List.any_eq_true.mp h
    rw [hcompanion f hf] at hname
    cases hname
  have hsome : ¬((removeCoveredDirectories directories).length +
      (removeFilesCoveredByDirectories files (removeCoveredDirectories directories)).length = 0) := by
    intro hzero
    have hnone : removeCoveredDirectories directories = [] := List.length_eq_zero_iff.mp (by omega)
    have hnone' : removeFilesCoveredByDirectories files (removeCoveredDirectories directories) = [] :=
      List.length_eq_zero_iff.mp (by omega)
    obtain hp | hp := hp
    · obtain ⟨root, hroot, habove, -⟩ := exists_root hp
      have hmem := mem_removeCoveredDirectories.mpr ⟨hroot, habove⟩
      rw [hnone] at hmem
      cases hmem
    · have hmem : p ∈ removeFilesCoveredByDirectories files (removeCoveredDirectories directories) := by
        rw [mem_removeFiles, hnone]
        exact ⟨hp, fun d hd => by cases hd⟩
      rw [hnone'] at hmem
      cases hmem
  unfold closeScope
  rw [if_neg hany]
  simp only
  rw [if_neg fun h => hsome h.2]
  exact ⟨_, rfl⟩

section
variable {input : BackupScope} (hmode : input.mode = "CUSTOM")
  (hdlen : input.directories.length ≤ 500) (hflen : input.files.length ≤ 500)
include hmode hdlen hflen

/-- A scope that is taken has safe paths and no companion, and its paths are the kept ones. -/
theorem kept_of_normalizeScope {scope : BackupScope} (h : normalizeScope lower input = .ok scope) :
    (∀ p ∈ input.directories ++ input.files, unsafePath (normalPath p) = false) ∧
      (∀ f ∈ input.files, companionName lower (normalPath f) = false) ∧ Kept input scope := by
  rw [normalizeScope_custom lower hmode] at h
  cases hd : cleanPaths input.directories with
  | error e => rw [hd] at h; cases h
  | ok directories =>
    cases hf : cleanPaths input.files with
    | error e => rw [hd, hf] at h; cases h
    | ok files =>
      rw [hd, hf] at h
      obtain ⟨hcompanion, hscope, hdirectories, hfiles⟩ := closeScope_ok h
      have hdmem := mem_cleanPaths hdlen hd
      have hfmem := mem_cleanPaths hflen hf
      refine ⟨?_, ?_, hscope, ?_, ?_⟩
      · intro p hp
        obtain hp | hp := List.mem_append.mp hp
        · exact safe_of_cleanPaths hd p hp
        · exact safe_of_cleanPaths hf p hp
      · intro f hfile
        exact hcompanion _ ((hfmem _).mpr ⟨f, hfile, rfl⟩)
      · intro p
        rw [hdirectories, mem_removeCoveredDirectories, hdmem]
        simp [hdmem]
      · intro p
        rw [hfiles, mem_removeFiles, hfmem]

theorem normalizeScope_ok (hsafe : ∀ p ∈ input.directories ++ input.files, unsafePath (normalPath p) = false)
    (hcompanion : ∀ f ∈ input.files, companionName lower (normalPath f) = false)
    (hsome : ∃ p, p ∈ input.directories ∨ p ∈ input.files) :
    ∃ scope, normalizeScope lower input = .ok scope := by
  obtain ⟨directories, hd, hdmem⟩ := cleanPaths_ok hdlen fun p hp => hsafe p (List.mem_append_left _ hp)
  obtain ⟨files, hf, hfmem⟩ := cleanPaths_ok hflen fun p hp => hsafe p (List.mem_append_right _ hp)
  have hfiles : ∀ f ∈ files, companionName lower f = false := by
    intro f hfile
    obtain ⟨v, hv, rfl⟩ := (hfmem f).mp hfile
    exact hcompanion v hv
  have hpath : ∃ p, p ∈ directories ∨ p ∈ files := by
    obtain ⟨p, hp⟩ := hsome
    exact ⟨normalPath p, hp.imp (fun hp => (hdmem _).mpr ⟨p, hp, rfl⟩) fun hp => (hfmem _).mpr ⟨p, hp, rfl⟩⟩
  obtain ⟨p, hp⟩ := hpath
  rw [normalizeScope_custom lower hmode, hd, hf]
  exact closeScope_some hfiles hp

end

/-! ## Agreement -/

/-- A CUSTOM scope of at most 500 directories and 500 files that the picker offers on a
scan, with a file to back up in it. -/
structure Picked (lower : String → String) (tree : SourceTree) (multiInstance : Bool) (plan : Plan)
    (input : BackupScope) : Prop where
  scan : buildPlan lower tree multiInstance = .ok plan
  mode : input.mode = "CUSTOM"
  directories : ∀ d ∈ input.directories, Offered lower tree multiInstance "directory" d
  files : ∀ f ∈ input.files, Offered lower tree multiInstance "file" f
  fewDirectories : input.directories.length ≤ 500
  fewFiles : input.files.length ≤ 500
  covering : ∃ e ∈ plan.files ++ plan.sqlite, selected input.directories input.files e.relative = true

/-- The scope is saved, and applied to the scan keeps exactly what is chosen or below. -/
def PickerAgrees (lower : String → String) (plan : Plan) (input : BackupScope) : Prop :=
  ∃ scope filtered, normalizeScope lower input = .ok scope ∧ applyScope plan scope = .ok filtered ∧
    Filtered plan input.directories input.files filtered

/-- The normaliser takes the chosen paths and changes none in a way that matters: a path it
changes is below a chosen directory it does not change, and becomes a path that is, or lies
below, a chosen one it does not change. -/
structure PathsKept (lower : String → String) (directories files : List String) : Prop where
  companion : ∀ f ∈ files, companionName lower (normalPath f) = false
  accepted : ∀ p ∈ directories ++ files, unsafePath (normalPath p) = false
  covered : ∀ p ∈ directories ++ files, normalPath p ≠ p →
    ∃ u ∈ directories, normalPath u = u ∧ below u p = true
  directory : ∀ d ∈ directories, ∃ u ∈ directories, normalPath u = u ∧ Covers u (normalPath d)
  file : ∀ f ∈ files, normalPath f ∈ files ∨
    ∃ u ∈ directories, normalPath u = u ∧ below u (normalPath f) = true

section
variable {input scope : BackupScope}

theorem Kept.normal_directory (h : Kept input scope) {r : String} (hr : r ∈ scope.directories) :
    normalPath r = r := by
  obtain ⟨d, -, rfl⟩ := ((h.directories r).mp hr).1
  exact normalPath_normalPath d

theorem Kept.normal_file (h : Kept input scope) {f : String} (hf : f ∈ scope.files) :
    normalPath f = f := by
  obtain ⟨v, -, rfl⟩ := ((h.files f).mp hf).1
  exact normalPath_normalPath v

theorem Kept.root (h : Kept input scope) {d : String} (hd : d ∈ input.directories) :
    ∃ r ∈ scope.directories, Covers r (normalPath d) := by
  obtain ⟨root, hroot, hnone, hcovers⟩ := exists_root (List.mem_map_of_mem (f := normalPath) hd)
  obtain ⟨v, hv, rfl⟩ := List.mem_map.mp hroot
  refine ⟨normalPath v, (h.directories _).mpr ⟨⟨v, hv, rfl⟩, ?_⟩, hcovers.imp Eq.symm id⟩
  intro w hw
  exact hnone _ (List.mem_map_of_mem hw)

/-- A scope that keeps what is chosen, on a scan that has all its paths. -/
structure Agreeing (plan : Plan) (input scope : BackupScope) : Prop where
  kept : Kept input scope
  chosenDirectories : ∀ d ∈ input.directories, d ∈ plan.directories.map (·.relative)
  chosenFiles : ∀ f ∈ input.files, f ∈ (plan.files ++ plan.sqlite).map (·.relative)
  directories : ∀ d ∈ scope.directories, d ∈ plan.directories.map (·.relative)
  files : ∀ f ∈ scope.files, f ∈ (plan.files ++ plan.sqlite).map (·.relative)
  disjoint : ∀ p ∈ plan.directories.map (·.relative), p ∉ (plan.files ++ plan.sqlite).map (·.relative)
  selected : ∀ p, p ∈ plan.directories.map (·.relative) ∨ p ∈ (plan.files ++ plan.sqlite).map (·.relative) →
    (Probe.selected scope.directories scope.files p = true ↔
      Probe.selected input.directories input.files p = true)

namespace Agreeing

theorem chosen_root (h : Agreeing plan input scope) {r : String} (hr : r ∈ scope.directories) :
    ∃ d ∈ input.directories, Covers d r := by
  have hplanned := h.directories r hr
  have hsel := (h.selected r (.inl hplanned)).mp (selected_iff.mpr (.inl ⟨r, hr, .inl rfl⟩))
  obtain hroot | hfile := selected_iff.mp hsel
  · exact hroot
  · exact absurd (h.chosenFiles r hfile) (h.disjoint r hplanned)

theorem kept_root (h : Agreeing plan input scope) {d : String} (hd : d ∈ input.directories) :
    ∃ r ∈ scope.directories, Covers r d := by
  have hplanned := h.chosenDirectories d hd
  have hsel := (h.selected d (.inl hplanned)).mpr (selected_iff.mpr (.inl ⟨d, hd, .inl rfl⟩))
  obtain hroot | hfile := selected_iff.mp hsel
  · exact hroot
  · exact absurd (h.files d hfile) (h.disjoint d hplanned)

/-- A chosen directory is covered by one that is its own normal form: the kept directory above
it is covered by a chosen one in turn, which is shorter unless it is not changed. -/
theorem unchanged_root (h : Agreeing plan input scope) {d : String} (hd : d ∈ input.directories) :
    ∃ u ∈ input.directories, normalPath u = u ∧ Covers u d := by
  generalize hn : d.toList.length = n
  induction n using Nat.strongRecOn generalizing d with
  | ind n ih =>
    by_cases hnormal : normalPath d = d
    · exact ⟨d, hd, hnormal, .inl rfl⟩
    · obtain ⟨r, hr, hrd⟩ := h.kept_root hd
      have hne : d ≠ r := by
        intro he
        rw [he] at hnormal
        exact hnormal (h.kept.normal_directory hr)
      have hbelow := hrd.below_of_ne hne
      obtain ⟨d', hd', hcovers⟩ := h.chosen_root hr
      have hshort : d'.toList.length < n := by
        rw [← hn]
        exact below_length (hcovers.below hbelow)
      obtain ⟨u, hu, hunchanged, hud⟩ := ih _ hshort hd' rfl
      exact ⟨u, hu, hunchanged, hud.trans (hcovers.trans hrd)⟩

theorem unchanged_of_kept (h : Agreeing plan input scope) {r : String} (hr : r ∈ scope.directories) :
    ∃ u ∈ input.directories, normalPath u = u ∧ Covers u r := by
  obtain ⟨d, hd, hdr⟩ := h.chosen_root hr
  obtain ⟨u, hu, hunchanged, hud⟩ := h.unchanged_root hd
  exact ⟨u, hu, hunchanged, hud.trans hdr⟩

/-- A planned file is no planned directory, so what covers it is above it. -/
theorem below_file (h : Agreeing plan input scope) {root f : String}
    (hroot : root ∈ plan.directories.map (·.relative)) (hf : f ∈ (plan.files ++ plan.sqlite).map (·.relative))
    (hcovers : Covers root f) : below root f = true := by
  apply hcovers.below_of_ne
  intro he
  rw [he] at hf
  exact h.disjoint root hroot hf

theorem pathsKept (h : Agreeing plan input scope)
    (hsafe : ∀ p ∈ input.directories ++ input.files, unsafePath (normalPath p) = false)
    (hcompanion : ∀ f ∈ input.files, companionName lower (normalPath f) = false) :
    PathsKept lower input.directories input.files := by
  refine ⟨hcompanion, hsafe, ?_, ?_, ?_⟩
  · intro p hp hchanged
    obtain hd | hf := List.mem_append.mp hp
    · obtain ⟨u, hu, hunchanged, hup⟩ := h.unchanged_root hd
      refine ⟨u, hu, hunchanged, hup.below_of_ne ?_⟩
      intro he
      rw [he] at hchanged
      exact hchanged hunchanged
    · have hplanned := h.chosenFiles p hf
      have hsel := (h.selected p (.inr hplanned)).mpr (selected_iff.mpr (.inr hf))
      obtain ⟨r, hr, hcovers⟩ | hkept := selected_iff.mp hsel
      · obtain ⟨u, hu, hunchanged, hur⟩ := h.unchanged_of_kept hr
        exact ⟨u, hu, hunchanged, hur.below (h.below_file (h.directories r hr) hplanned hcovers)⟩
      · exact absurd (h.kept.normal_file hkept) hchanged
  · intro d hd
    obtain ⟨r, hr, hcovers⟩ := h.kept.root hd
    obtain ⟨u, hu, hunchanged, hur⟩ := h.unchanged_of_kept hr
    exact ⟨u, hu, hunchanged, hur.trans hcovers⟩
  · intro f hf
    by_cases hroot : ∃ r ∈ scope.directories, below r (normalPath f) = true
    · obtain ⟨r, hr, hbelow⟩ := hroot
      obtain ⟨u, hu, hunchanged, hur⟩ := h.unchanged_of_kept hr
      exact .inr ⟨u, hu, hunchanged, hur.below hbelow⟩
    · have hkept : normalPath f ∈ scope.files := by
        refine (h.kept.files _).mpr ⟨⟨f, hf, rfl⟩, ?_⟩
        intro r hr
        by_contra hbelow
        exact hroot ⟨r, hr, by simpa using hbelow⟩
      have hplanned := h.files _ hkept
      have hsel := (h.selected _ (.inr hplanned)).mp (selected_iff.mpr (.inr hkept))
      obtain ⟨d, hd, hcovers⟩ | hchosen := selected_iff.mp hsel
      · obtain ⟨u, hu, hunchanged, hud⟩ := h.unchanged_root hd
        have hbelow := h.below_file (h.chosenDirectories d hd) hplanned hcovers
        exact .inr ⟨u, hu, hunchanged, hud.below hbelow⟩
      · exact .inl hchosen

end Agreeing

/-! ### From paths that are kept to agreement -/

namespace PathsKept

theorem root (h : PathsKept lower input.directories input.files) (hkept : Kept input scope) {d : String}
    (hd : d ∈ input.directories) : ∃ r ∈ scope.directories, Covers r d := by
  by_cases hnormal : normalPath d = d
  · obtain ⟨r, hr, hcovers⟩ := hkept.root hd
    rw [hnormal] at hcovers
    exact ⟨r, hr, hcovers⟩
  · obtain ⟨u, hu, hunchanged, hud⟩ := h.covered d (List.mem_append_left _ hd) hnormal
    obtain ⟨r, hr, hcovers⟩ := hkept.root hu
    rw [hunchanged] at hcovers
    exact ⟨r, hr, hcovers.trans (.inr hud)⟩

/-- The kept paths select what the chosen ones select. -/
theorem selected_iff (h : PathsKept lower input.directories input.files) (hkept : Kept input scope)
    (p : String) : selected scope.directories scope.files p = true ↔
      selected input.directories input.files p = true := by
  rw [Probe.selected_iff, Probe.selected_iff]
  refine ⟨fun hsel => ?_, fun hsel => ?_⟩
  · obtain ⟨r, hr, hcovers⟩ | hf := hsel
    · obtain ⟨d, hd, rfl⟩ := ((hkept.directories r).mp hr).1
      obtain ⟨u, hu, -, hud⟩ := h.directory d hd
      exact .inl ⟨u, hu, hud.trans hcovers⟩
    · obtain ⟨v, hv, rfl⟩ := ((hkept.files p).mp hf).1
      obtain hfile | ⟨u, hu, -, hbelow⟩ := h.file v hv
      · exact .inr hfile
      · exact .inl ⟨u, hu, .inr hbelow⟩
  · obtain ⟨d, hd, hcovers⟩ | hf := hsel
    · obtain ⟨r, hr, hrd⟩ := h.root hkept hd
      exact .inl ⟨r, hr, hrd.trans hcovers⟩
    · by_cases hnormal : normalPath p = p
      · by_cases hroot : ∃ r ∈ scope.directories, below r p = true
        · obtain ⟨r, hr, hbelow⟩ := hroot
          exact .inl ⟨r, hr, .inr hbelow⟩
        · refine .inr ((hkept.files p).mpr ⟨⟨p, hf, hnormal⟩, ?_⟩)
          intro r hr
          by_contra hbelow
          exact hroot ⟨r, hr, by simpa using hbelow⟩
      · obtain ⟨u, hu, -, hbelow⟩ := h.covered p (List.mem_append_right _ hf) hnormal
        obtain ⟨r, hr, hru⟩ := h.root hkept hu
        exact .inl ⟨r, hr, hru.trans (.inr hbelow)⟩

theorem mem_directories (h : PathsKept lower input.directories input.files) (hkept : Kept input scope)
    {r : String} (hr : r ∈ scope.directories) : r ∈ input.directories := by
  obtain ⟨⟨d, hd, rfl⟩, hnone⟩ := (hkept.directories r).mp hr
  obtain ⟨u, hu, hunchanged, hcovers⟩ := h.directory d hd
  obtain he | hbelow := hcovers
  · rw [he]
    exact hu
  · have hfalse := hnone u hu
    rw [hunchanged, hbelow] at hfalse
    cases hfalse

theorem mem_files (h : PathsKept lower input.directories input.files) (hkept : Kept input scope)
    {f : String} (hf : f ∈ scope.files) : f ∈ input.files := by
  obtain ⟨⟨v, hv, rfl⟩, hnone⟩ := (hkept.files f).mp hf
  obtain hfile | ⟨u, hu, -, hbelow⟩ := h.file v hv
  · exact hfile
  · obtain ⟨r, hr, hru⟩ := h.root hkept hu
    have hfalse := hnone r hr
    rw [hru.below hbelow] at hfalse
    cases hfalse

end PathsKept

end

/-- On every scan and for every choice from the picker: the scope is saved and keeps exactly
what was chosen, if and only if no chosen file looks like a companion and the normaliser
changes no path in a way that matters. -/
theorem picker_agrees_iff {input : BackupScope} (h : Picked lower tree multiInstance plan input) :
    PickerAgrees lower plan input ↔ PathsKept lower input.directories input.files := by
  have hdirectories : ∀ d ∈ input.directories, d ∈ plan.directories.map (·.relative) :=
    fun d hd => (h.directories d hd).directory h.scan
  have hfiles : ∀ f ∈ input.files, f ∈ (plan.files ++ plan.sqlite).map (·.relative) :=
    fun f hf => (h.files f hf).file h.scan
  refine ⟨?_, ?_⟩
  · intro ⟨scope, filtered, hscope, happly, hfiltered⟩
    obtain ⟨hsafe, hcompanion, hkept⟩ :=
      kept_of_normalizeScope h.mode h.fewDirectories h.fewFiles hscope
    obtain ⟨hpd, hpf, hfiltered'⟩ := applyScope_custom hkept.mode happly
    have hagree : Agreeing plan input scope := by
      refine ⟨hkept, hdirectories, hfiles, hpd, hpf, ?_, ?_⟩
      · intro p hp hp'
        obtain ⟨d, hd, rfl⟩ := List.mem_map.mp hp
        obtain ⟨f, hf, he⟩ := List.mem_map.mp hp'
        exact buildPlan_disjoint h.scan hd hf he.symm
      · intro p hp
        obtain hp | hp := hp
        · obtain ⟨d, hd, rfl⟩ := List.mem_map.mp hp
          exact filter_eq_iff (hfiltered'.directories.symm.trans hfiltered.directories) hd
        · obtain ⟨f, hf, rfl⟩ := List.mem_map.mp hp
          obtain hf | hf := List.mem_append.mp hf
          · exact filter_eq_iff (hfiltered'.files.symm.trans hfiltered.files) hf
          · exact filter_eq_iff (hfiltered'.sqlite.symm.trans hfiltered.sqlite) hf
    exact hagree.pathsKept hsafe hcompanion
  · intro hpaths
    have hsome : ∃ p, p ∈ input.directories ∨ p ∈ input.files := by
      obtain ⟨e, -, hsel⟩ := h.covering
      obtain ⟨root, hroot, -⟩ | hf := selected_iff.mp hsel
      · exact ⟨root, .inl hroot⟩
      · exact ⟨_, .inr hf⟩
    obtain ⟨scope, hscope⟩ : ∃ scope, normalizeScope lower input = .ok scope :=
      normalizeScope_ok h.mode h.fewDirectories h.fewFiles hpaths.accepted hpaths.companion hsome
    obtain ⟨-, -, hkept⟩ := kept_of_normalizeScope h.mode h.fewDirectories h.fewFiles hscope
    have hsel := hpaths.selected_iff hkept
    have hcovering : ∃ e ∈ plan.files ++ plan.sqlite,
        selected scope.directories scope.files e.relative = true := by
      obtain ⟨e, he, hchosen⟩ := h.covering
      exact ⟨e, he, (hsel e.relative).mpr hchosen⟩
    obtain ⟨filtered, happly⟩ := applyScope_custom_ok hkept.mode
      (fun d hd => hdirectories d (hpaths.mem_directories hkept hd))
      (fun f hf => hfiles f (hpaths.mem_files hkept hf)) hcovering
    obtain ⟨-, -, hfiltered⟩ := applyScope_custom hkept.mode happly
    exact ⟨scope, filtered, hscope, happly, hfiltered.congr hsel⟩

/-! ### A directory with one file, and a file that only looks like a companion -/

def notesTree : SourceTree where
  listing := .object "draft-wal" (.regular [] true)
    (.directory "notes" 0 (.object "a.txt" (.regular [] true) .nil) .nil)
  wellFormed := by decide

/-- The plan of `notesTree`. -/
def notesPlan : Plan where
  result := ⟨.backupable, 0, 2, 0, 0, []⟩
  directories := [⟨["notes"], "notes", 0⟩]
  files := [⟨["draft-wal"], "draft-wal", 0⟩, ⟨["notes", "a.txt"], "notes/a.txt", 0⟩]
  sqlite := []
  warnings := []

theorem notesPlan_scan : buildPlan id notesTree true = .ok notesPlan := by rfl

def notesCatalog : BackupScopeCatalog where
  items := [⟨"draft-wal", "file", 0, false, true⟩, ⟨"notes", "directory", 0, false, true⟩,
    ⟨"notes/a.txt", "file", 0, false, true⟩]
  nextAfter := none

theorem notesCatalog_page : scopeCatalog id notesTree true "" none 200 = .ok notesCatalog := by rfl

/-- Choosing the directory. -/
def notesScope : BackupScope := ⟨"CUSTOM", ["notes"], [], 1, ""⟩

/-- Choosing the file. -/
def draftScope : BackupScope := ⟨"CUSTOM", [], ["draft-wal"], 1, ""⟩

theorem notesScope_picked : Picked id notesTree true notesPlan notesScope where
  scan := notesPlan_scan
  mode := rfl
  directories := by
    intro d hd
    rw [List.mem_singleton.mp hd]
    exact ⟨"", none, 200, notesCatalog, notesCatalog_page, ⟨"notes", "directory", 0, false, true⟩,
      by decide, rfl, rfl, rfl⟩
  files := by
    intro f hf
    cases hf
  fewDirectories := by decide
  fewFiles := by decide
  covering := ⟨⟨["notes", "a.txt"], "notes/a.txt", 0⟩, by simp [notesPlan], by decide⟩

theorem draftScope_picked : Picked id notesTree true notesPlan draftScope where
  scan := notesPlan_scan
  mode := rfl
  directories := by
    intro d hd
    cases hd
  files := by
    intro f hf
    rw [List.mem_singleton.mp hf]
    exact ⟨"", none, 200, notesCatalog, notesCatalog_page, ⟨"draft-wal", "file", 0, false, true⟩,
      by decide, rfl, rfl, rfl⟩
  fewDirectories := by decide
  fewFiles := by decide
  covering := ⟨⟨["draft-wal"], "draft-wal", 0⟩, by simp [notesPlan], by decide⟩

theorem picker_agrees_on_notes : PickerAgrees id notesPlan notesScope := by
  refine (picker_agrees_iff notesScope_picked).mpr ⟨by decide, by decide, by decide, ?_, by decide⟩
  intro d hd
  rw [List.mem_singleton.mp hd]
  exact ⟨"notes", by decide, by decide, .inl (by decide)⟩

/-- The picker offers `draft-wal`, which is no companion of any database; the normaliser
refuses it. -/
theorem picker_disagrees_on_draft : ¬∀ (lower : String → String) (tree : SourceTree) (multiInstance : Bool)
    (plan : Plan) (input : BackupScope), Picked lower tree multiInstance plan input →
      PickerAgrees lower plan input := by
  intro h
  obtain ⟨scope, filtered, hscope, -⟩ := h id notesTree true notesPlan draftScope draftScope_picked
  have herror : normalizeScope id draftScope = .error "sqlite companion files cannot be selected" := by rfl
  rw [herror] at hscope
  cases hscope

end AppBackup.Plans
