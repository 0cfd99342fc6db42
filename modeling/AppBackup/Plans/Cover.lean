import AppBackup.Plans.Scope

/- What the scope of a target selects. Paths that a chosen directory covers are dropped when
   the scope is saved; what is left selects the same, whatever the order of the paths in the
   request. A scope that is saved is left as it is when it is saved again. Its paths are in
   normal form as far as the request's were: `clean` looks for `..` at the start of a path and
   between slashes, and lets `..` at the end, `.` and empty names pass.

   What is proved:
     1. `cover_keeps_selection` -- what is left selects what was chosen, in any order, and
        nothing in it covers anything else;
     2. `normalizeScope_normalizeScope` -- saving a saved scope changes nothing;
     3. `saved_canonical_iff` -- its paths are canonical exactly when the uncovered paths of the
        request are, in normal form. -/
namespace AppBackup.Plans
open Path Text

/-- The path is a chosen directory, lies below one, or is a chosen file. -/
def Selects (directories files : List String) (p : String) : Prop :=
  (∃ d ∈ directories, Covers d p) ∨ p ∈ files

section
variable {directories files : List String}

theorem foldl_keepUncovered_sublist (values : List String) : ∀ result,
    ∃ kept, values.foldl keepUncovered result = result ++ kept ∧ kept.Sublist values := by
  induction values with
  | nil => exact fun result => ⟨[], by simp, List.Sublist.refl _⟩
  | cons v rest ih =>
    intro result
    rw [List.foldl_cons]
    by_cases hcovered : result.any (fun parent => below parent v) = true
    · have hskip : keepUncovered result v = result := if_pos hcovered
      obtain ⟨kept, he, hsub⟩ := ih result
      rw [hskip]
      exact ⟨kept, he, hsub.cons v⟩
    · have htake : keepUncovered result v = result ++ [v] := if_neg hcovered
      obtain ⟨kept, he, hsub⟩ := ih (result ++ [v])
      rw [htake]
      refine ⟨v :: kept, ?_, hsub.cons_cons v⟩
      rw [he, List.append_assoc]
      rfl

theorem removeCoveredDirectories_sublist (directories : List String) :
    (removeCoveredDirectories directories).Sublist (directories.insertionSort shorterFirst) := by
  obtain ⟨kept, he, hsub⟩ := foldl_keepUncovered_sublist (directories.insertionSort shorterFirst) []
  have hkept : removeCoveredDirectories directories = kept := he
  rw [hkept]
  exact hsub

theorem removeCoveredDirectories_nodup (h : directories.Nodup) : (removeCoveredDirectories directories).Nodup := by
  refine List.Nodup.sublist (removeCoveredDirectories_sublist directories) ?_
  exact (List.perm_insertionSort shorterFirst directories).nodup_iff.mpr h

theorem removeCoveredDirectories_perm {directories' : List String} (h : directories'.Perm directories) :
    removeCoveredDirectories directories' = removeCoveredDirectories directories := by
  have hsort : directories'.insertionSort shorterFirst = directories.insertionSort shorterFirst := by
    have hperm := (List.perm_insertionSort shorterFirst directories').trans
      (h.trans (List.perm_insertionSort shorterFirst directories).symm)
    exact hperm.eq_of_pairwise' (List.pairwise_insertionSort shorterFirst directories')
      (List.pairwise_insertionSort shorterFirst directories)
  unfold removeCoveredDirectories
  rw [hsort]

theorem kept_covers {d : String} (h : d ∈ directories) :
    ∃ k ∈ removeCoveredDirectories directories, Covers k d := by
  obtain ⟨k, hk, hnone, hcovers⟩ := exists_root h
  exact ⟨k, mem_removeCoveredDirectories.mpr ⟨hk, hnone⟩, hcovers.imp_left Eq.symm⟩

/-- Directories of which none lies below another stay. -/
theorem removeCoveredDirectories_kept (directories : List String) :
    removeCoveredDirectories (removeCoveredDirectories directories) = removeCoveredDirectories directories := by
  have hsorted : (removeCoveredDirectories directories).Pairwise shorterFirst :=
    (List.pairwise_insertionSort shorterFirst directories).sublist (removeCoveredDirectories_sublist directories)
  have hapart : ∀ p ∈ removeCoveredDirectories directories, ∀ q ∈ removeCoveredDirectories directories,
      below p q = false := by
    intro p hp q hq
    exact (mem_removeCoveredDirectories.mp hq).2 p (mem_removeCoveredDirectories.mp hp).1
  generalize removeCoveredDirectories directories = kept at hsorted hapart
  have hfold : ∀ rest result : List String, (∀ p ∈ result, ∀ q ∈ rest, below p q = false) →
      (∀ p ∈ rest, ∀ q ∈ rest, below p q = false) → rest.foldl keepUncovered result = result ++ rest := by
    intro rest
    induction rest with
    | nil => exact fun result _ _ => by simp
    | cons q rest ih =>
      intro result hresult hrest
      have hfree : ¬result.any (fun parent => below parent q) = true := by
        rw [List.any_eq_true]
        intro ⟨p, hp, hbelow⟩
        rw [hresult p hp q (List.mem_cons_self ..)] at hbelow
        cases hbelow
      have htake : keepUncovered result q = result ++ [q] := if_neg hfree
      rw [List.foldl_cons, htake, ih]
      · rw [List.append_assoc]
        rfl
      · intro p hp q' hq'
        obtain hp | hp := List.mem_append.mp hp
        · exact hresult p hp q' (List.mem_cons_of_mem _ hq')
        · rw [List.mem_singleton.mp hp]
          exact hrest q (List.mem_cons_self ..) q' (List.mem_cons_of_mem _ hq')
      · exact fun p hp q' hq' => hrest p (List.mem_cons_of_mem _ hp) q' (List.mem_cons_of_mem _ hq')
  unfold removeCoveredDirectories
  rw [hsorted.insertionSort_eq]
  exact hfold kept [] (fun p hp => absurd hp List.not_mem_nil) hapart

theorem selects_kept {p : String} :
    Selects (removeCoveredDirectories directories)
      (removeFilesCoveredByDirectories files (removeCoveredDirectories directories)) p ↔
      Selects directories files p := by
  refine ⟨fun h => ?_, fun h => ?_⟩
  · obtain ⟨d, hd, hcovers⟩ | hp := h
    · exact .inl ⟨d, (mem_removeCoveredDirectories.mp hd).1, hcovers⟩
    · exact .inr (mem_removeFiles.mp hp).1
  · obtain ⟨d, hd, hcovers⟩ | hp := h
    · obtain ⟨k, hk, hkd⟩ := kept_covers hd
      exact .inl ⟨k, hk, hkd.trans hcovers⟩
    · by_cases hcovered : ∃ k ∈ removeCoveredDirectories directories, below k p = true
      · obtain ⟨k, hk, hbelow⟩ := hcovered
        exact .inl ⟨k, hk, .inr hbelow⟩
      · refine .inr (mem_removeFiles.mpr ⟨hp, fun k hk => ?_⟩)
        by_contra hbelow
        exact hcovered ⟨k, hk, by simpa using hbelow⟩

end

/-- Of directories without duplicates those that are kept are distinct, none is below another
and no kept file is below one; together they select what was chosen; and the order in which
directories and files were listed does not matter. -/
theorem cover_keeps_selection (directories files : List String) (hdirectories : directories.Nodup) :
    (removeCoveredDirectories directories).Nodup ∧
    (∀ d ∈ removeCoveredDirectories directories, ∀ e ∈ removeCoveredDirectories directories,
      below d e = false) ∧
    (∀ f ∈ removeFilesCoveredByDirectories files (removeCoveredDirectories directories),
      ∀ d ∈ removeCoveredDirectories directories, below d f = false) ∧
    (∀ p, Selects (removeCoveredDirectories directories)
      (removeFilesCoveredByDirectories files (removeCoveredDirectories directories)) p ↔
        Selects directories files p) ∧
    ∀ directories' files' : List String, directories'.Perm directories → files'.Perm files →
      removeCoveredDirectories directories' = removeCoveredDirectories directories ∧
      ∀ f, f ∈ removeFilesCoveredByDirectories files' (removeCoveredDirectories directories') ↔
        f ∈ removeFilesCoveredByDirectories files (removeCoveredDirectories directories) := by
  refine ⟨removeCoveredDirectories_nodup hdirectories, ?_, ?_, fun p => selects_kept, ?_⟩
  · intro d hd e he
    exact (mem_removeCoveredDirectories.mp he).2 d (mem_removeCoveredDirectories.mp hd).1
  · exact fun f hf => (mem_removeFiles.mp hf).2
  · intro directories' files' hperm hperm'
    have hkept := removeCoveredDirectories_perm hperm
    refine ⟨hkept, fun f => ?_⟩
    rw [hkept, mem_removeFiles, mem_removeFiles, hperm'.mem_iff]

theorem cover_keeps_selection_siblings :
    removeCoveredDirectories ["notes/a", "notes-old", "notes"] = ["notes", "notes-old"] ∧
    ∀ p, Selects (removeCoveredDirectories ["notes/a", "notes-old", "notes"])
      (removeFilesCoveredByDirectories ["notes/b", "notes-b"]
        (removeCoveredDirectories ["notes/a", "notes-old", "notes"])) p ↔
        Selects ["notes/a", "notes-old", "notes"] ["notes/b", "notes-b"] p :=
  ⟨by decide +kernel,
    (cover_keeps_selection ["notes/a", "notes-old", "notes"] ["notes/b", "notes-b"] (by decide)).2.2.2.1⟩

/-! ## Cleaned paths -/

/-- What `clean` gives out. -/
structure Cleaned (paths : List String) : Prop where
  normal : ∀ p ∈ paths, normalPath p = p
  safe : ∀ p ∈ paths, unsafePath p = false
  nodup : paths.Nodup
  few : paths.length ≤ 500

theorem Cleaned.sub {paths paths' : List String} (h : Cleaned paths) (hsub : paths'.Subperm paths) :
    Cleaned paths' where
  normal p hp := h.normal p (hsub.subset hp)
  safe p hp := h.safe p (hsub.subset hp)
  nodup := by
    obtain ⟨paths'', hperm, hlist⟩ := hsub
    exact hperm.nodup_iff.mp (h.nodup.sublist hlist)
  few := hsub.length_le.trans h.few

theorem Cleaned.cleanPaths {paths : List String} (h : Cleaned paths) : cleanPaths paths = .ok paths := by
  have hfold : ∀ (rest out : List String), (∀ p ∈ rest, normalPath p = p ∧ unsafePath p = false) →
      (out ++ rest).Nodup → rest.foldlM cleanPath out = .ok (out ++ rest) := by
    intro rest
    induction rest with
    | nil =>
      intro out _ _
      rw [List.append_nil]
      rfl
    | cons p rest ih =>
      intro out hrest hnodup
      obtain ⟨hnormal, hsafe⟩ := hrest p (List.mem_cons_self ..)
      have hnew : out.contains p = false := by
        have hdisjoint := (List.nodup_append.mp hnodup).2.2
        by_contra hseen
        have hmem : p ∈ out := by simpa using hseen
        exact hdisjoint p hmem p (List.mem_cons_self ..) rfl
      have htake : cleanPath out p = .ok (out ++ [p]) := by
        unfold cleanPath
        simp only [hnormal, hsafe, hnew, Bool.false_eq_true, if_false]
      rw [List.foldlM_cons, htake]
      show rest.foldlM cleanPath (out ++ [p]) = _
      rw [ih (out ++ [p]) (fun q hq => hrest q (List.mem_cons_of_mem _ hq))]
      · rw [List.append_assoc]
        rfl
      · rw [List.append_assoc]
        exact hnodup
  have hall := hfold paths [] (fun p hp => ⟨h.normal p hp, h.safe p hp⟩) h.nodup
  unfold Plans.cleanPaths
  rw [hall]
  show (if paths.length > 500 then _ else _) = _
  rw [if_neg (not_lt.mpr h.few)]
  rfl

theorem foldlM_cleanPath_nodup {values : List String} : ∀ {out out' : List String},
    values.foldlM cleanPath out = .ok out' → out.Nodup → out'.Nodup := by
  induction values with
  | nil =>
    intro out out' h hnodup
    obtain rfl := Except.ok.inj h
    exact hnodup
  | cons v rest ih =>
    intro out out' h hnodup
    rw [List.foldlM_cons] at h
    cases hclean : cleanPath out v with
    | error e => rw [hclean] at h; cases h
    | ok out₁ =>
      rw [hclean] at h
      refine ih h ?_
      unfold cleanPath at hclean
      simp only at hclean
      split at hclean
      · cases hclean
      · split at hclean
        · obtain rfl := Except.ok.inj hclean
          exact hnodup
        · next hnew =>
          obtain rfl := Except.ok.inj hclean
          refine List.nodup_append.mpr ⟨hnodup, List.nodup_singleton _, ?_⟩
          intro p hp q hq he
          rw [he, List.mem_singleton.mp hq] at hp
          exact hnew (by simpa using hp)

/-- What is taken is cleaned: the normal forms of the paths given. -/
theorem cleaned_of_cleanPaths {values out : List String} (h : cleanPaths values = .ok out) :
    Cleaned out ∧ ∀ p, p ∈ out ↔ ∃ v ∈ values, normalPath v = p := by
  have hsafe := safe_of_cleanPaths h
  obtain ⟨out', hfold, -, hmem⟩ := foldlM_cleanPath hsafe []
  unfold cleanPaths at h
  rw [hfold] at h
  have h : (if out'.length > 500 then Except.error "too many paths" else .ok out') = .ok out := h
  split at h
  · cases h
  · next hfew =>
    obtain rfl := Except.ok.inj h
    have hmem : ∀ p, p ∈ out' ↔ ∃ v ∈ values, normalPath v = p := by simpa using hmem
    refine ⟨⟨?_, ?_, foldlM_cleanPath_nodup hfold List.nodup_nil, not_lt.mp hfew⟩, hmem⟩
    · intro p hp
      obtain ⟨v, -, rfl⟩ := (hmem p).mp hp
      exact normalPath_normalPath v
    · intro p hp
      obtain ⟨v, hv, rfl⟩ := (hmem p).mp hp
      exact hsafe v hv

/-! ## Saved scopes -/

/-- The mode a request is saved with. -/
def requestedMode (request : BackupScope) : String :=
  if toUpper (trimSpace request.mode) = "" then "FULL" else toUpper (trimSpace request.mode)

theorem normalizeScope_eq (lower : String → String) (request : BackupScope) :
    normalizeScope lower request =
      if requestedMode request ≠ "FULL" ∧ requestedMode request ≠ "CORE" ∧
        requestedMode request ≠ "CUSTOM" then
        .error "invalid scope mode"
      else if requestedMode request = "FULL" then
        .ok ⟨requestedMode request, [], [], if request.revision < 1 then 1 else request.revision,
          "全部支持数据"⟩
      else
        cleanPaths request.directories >>= fun directories =>
          cleanPaths request.files >>= fun files =>
            closeScope lower (requestedMode request) (if request.revision < 1 then 1 else request.revision)
              directories files := by
  unfold normalizeScope requestedMode
  rfl

theorem kept_of_closeScope {lower : String → String} {mode : String} {revision : Int}
    {directories files : List String}
    {scope : BackupScope} (h : closeScope lower mode revision directories files = .ok scope) :
    scope.mode = mode ∧ scope.revision = revision ∧ scope.directories = removeCoveredDirectories directories ∧
      scope.files = removeFilesCoveredByDirectories files (removeCoveredDirectories directories) ∧
      files.any (companionName lower) = false := by
  unfold closeScope at h
  split at h
  · cases h
  · next hcompanion =>
    simp only at h
    split at h
    · cases h
    · obtain rfl := Except.ok.inj h
      exact ⟨rfl, rfl, rfl, rfl, by simpa using hcompanion⟩

/-- A scope is saved for everything, without paths, or for the paths that are cleaned and kept. -/
theorem normalizeScope_cases {lower : String → String} {request scope : BackupScope}
    (h : normalizeScope lower request = .ok scope) :
    (requestedMode request = "FULL" ∧ scope.mode = "FULL" ∧ scope.directories = [] ∧ scope.files = []) ∨
      ∃ directories files, (requestedMode request = "CORE" ∨ requestedMode request = "CUSTOM") ∧
        cleanPaths request.directories = .ok directories ∧ cleanPaths request.files = .ok files ∧
        closeScope lower (requestedMode request) (if request.revision < 1 then 1 else request.revision) directories
          files = .ok scope := by
  rw [normalizeScope_eq] at h
  split at h
  · cases h
  · next hknown =>
    split at h
    · next hfull =>
      have he := Except.ok.inj h
      rw [hfull] at he
      rw [← he]
      exact .inl ⟨hfull, rfl, rfl, rfl⟩
    · next hfull =>
      cases hdirectories : cleanPaths request.directories with
      | error e => rw [hdirectories] at h; cases h
      | ok directories =>
        rw [hdirectories] at h
        cases hfiles : cleanPaths request.files with
        | error e => rw [hfiles] at h; cases h
        | ok files =>
          rw [hfiles] at h
          refine .inr ⟨directories, files, ?_, rfl, rfl, h⟩
          by_contra hno
          rw [not_or] at hno
          exact hknown ⟨hfull, hno.1, hno.2⟩

theorem cleaned_of_normalizeScope {lower : String → String} {input scope : BackupScope}
    (h : normalizeScope lower input = .ok scope) (hmode : scope.mode ≠ "FULL") : ∃ directories files,
      cleanPaths input.directories = .ok directories ∧ cleanPaths input.files = .ok files ∧
      (scope.mode = "CORE" ∨ scope.mode = "CUSTOM") ∧ 1 ≤ scope.revision ∧
      closeScope lower scope.mode scope.revision directories files = .ok scope := by
  obtain ⟨-, hfull, -⟩ | ⟨directories, files, hknown, hdirectories, hfiles, hclose⟩ := normalizeScope_cases h
  · exact absurd hfull hmode
  · obtain ⟨hsame, hrevision, -⟩ := kept_of_closeScope hclose
    rw [hsame, hrevision]
    refine ⟨directories, files, hdirectories, hfiles, hknown, ?_, hclose⟩
    split <;> omega

/-- A saved scope is taken as it is. -/
theorem normalizeScope_normalizeScope {lower : String → String} {input scope : BackupScope}
    (h : normalizeScope lower input = .ok scope) (hmode : scope.mode ≠ "FULL") :
    normalizeScope lower scope = .ok scope := by
  obtain ⟨directories, files, hdirectories, hfiles, hknown, hrevision, hclose⟩ := cleaned_of_normalizeScope h hmode
  obtain ⟨-, -, hd, hf, hcompanion⟩ := kept_of_closeScope hclose
  have hcleanDirectories : cleanPaths scope.directories = .ok scope.directories := by
    rw [hd]
    refine ((cleaned_of_cleanPaths hdirectories).1.sub ?_).cleanPaths
    exact (removeCoveredDirectories_sublist directories).subperm.trans
      (List.perm_insertionSort shorterFirst directories).subperm
  have hcleanFiles : cleanPaths scope.files = .ok scope.files := by
    rw [hf]
    exact ((cleaned_of_cleanPaths hfiles).1.sub List.filter_sublist.subperm).cleanPaths
  have hkeptDirectories : removeCoveredDirectories scope.directories = removeCoveredDirectories directories := by
    rw [hd, removeCoveredDirectories_kept]
  have hkeptFiles : removeFilesCoveredByDirectories scope.files (removeCoveredDirectories directories) =
      removeFilesCoveredByDirectories files (removeCoveredDirectories directories) := by
    rw [hf]
    unfold removeFilesCoveredByDirectories
    rw [List.filter_filter]
    simp
  have hnone : scope.files.any (companionName lower) = false := by
    rw [List.any_eq_false] at hcompanion ⊢
    intro f hfile
    rw [hf] at hfile
    exact hcompanion f (mem_removeFiles.mp hfile).1
  -- what the first run made of the paths, the second makes of what is left of them
  have hagain : closeScope lower scope.mode scope.revision scope.directories scope.files = .ok scope := by
    rw [← hclose]
    unfold closeScope
    rw [hnone, hcompanion]
    simp only [hkeptDirectories, hkeptFiles]
  have hupper : toUpper (trimSpace scope.mode) = scope.mode ∧ scope.mode ≠ "" := by
    obtain he | he := hknown
    · rw [he]
      decide
    · rw [he]
      decide
  have hallowed : ¬(scope.mode ≠ "FULL" ∧ scope.mode ≠ "CORE" ∧ scope.mode ≠ "CUSTOM") := by
    intro ⟨_, hcore, hcustom⟩
    exact hknown.elim hcore hcustom
  unfold normalizeScope
  simp only [hupper.1]
  rw [if_neg hupper.2, if_neg hallowed, if_neg hmode, if_neg (not_lt.mpr hrevision), hcleanDirectories, hcleanFiles]
  exact hagain

/-! ## Paths in normal form -/

/-- A clean relative path that does not lead upwards. -/
def Canonical (p : String) : Prop :=
  p ≠ "" ∧ hasPrefix p "/" = false ∧ clean p = p ∧ ".." ∉ split p

instance (p : String) : Decidable (Canonical p) := inferInstanceAs (Decidable (_ ∧ _ ∧ _ ∧ _))

/-- A path of a request, in normal form, is below no directory of it. -/
def Uncovered (input : BackupScope) (p : String) : Prop :=
  ∀ d ∈ input.directories, below (normalPath d) p = false

theorem uncovered_cleaned {input : BackupScope} {directories : List String}
    (h : cleanPaths input.directories = .ok directories) (p : String) :
    Uncovered input p ↔ ∀ d ∈ directories, below d p = false := by
  have hin := (cleaned_of_cleanPaths h).2
  refine ⟨fun hp d hd => ?_, fun hp d hd => hp _ ((hin _).mpr ⟨d, hd, rfl⟩)⟩
  obtain ⟨v, hv, rfl⟩ := (hin d).mp hd
  exact hp v hv

theorem uncovered_kept {directories : List String} (p : String) :
    (∀ d ∈ removeCoveredDirectories directories, below d p = false) ↔
    ∀ d ∈ directories, below d p = false := by
  refine ⟨fun hp d hd => ?_, fun hp d hd => hp d (mem_removeCoveredDirectories.mp hd).1⟩
  obtain ⟨k, hk, hcovers⟩ := kept_covers hd
  by_contra hbelow
  have hkp := hcovers.below (by simpa using hbelow : below d p = true)
  rw [hp k hk] at hkp
  cases hkp

theorem mem_saved {lower : String → String} {input scope : BackupScope} (h : normalizeScope lower input = .ok scope)
    (hmode : scope.mode ≠ "FULL") (p : String) :
    (p ∈ scope.directories ↔ (∃ v ∈ input.directories, normalPath v = p) ∧ Uncovered input p) ∧
      (p ∈ scope.files ↔ (∃ v ∈ input.files, normalPath v = p) ∧ Uncovered input p) := by
  obtain ⟨directories, files, hdirectories, hfiles, -, -, hclose⟩ := cleaned_of_normalizeScope h hmode
  obtain ⟨-, -, hd, hf, -⟩ := kept_of_closeScope hclose
  rw [hd, hf, mem_removeCoveredDirectories, mem_removeFiles, uncovered_kept, uncovered_cleaned hdirectories,
    (cleaned_of_cleanPaths hdirectories).2, (cleaned_of_cleanPaths hfiles).2]
  exact ⟨Iff.rfl, Iff.rfl⟩

theorem mem_saved_either {lower : String → String} {input scope : BackupScope}
    (h : normalizeScope lower input = .ok scope) (hmode : scope.mode ≠ "FULL") (p : String) :
    p ∈ scope.directories ++ scope.files ↔
      (∃ v ∈ input.directories ++ input.files, normalPath v = p) ∧ Uncovered input p := by
  obtain ⟨hd, hf⟩ := mem_saved h hmode p
  rw [List.mem_append, hd, hf, ← or_and_right]
  refine and_congr_left fun _ => ?_
  simp only [List.mem_append, or_and_right, exists_or]

/-- A scope that is saved has only canonical paths, and is left as it is when it is saved
again, exactly when the paths of the request, in normal form, are canonical as far as no
directory of the request covers them. -/
theorem saved_canonical_iff (lower : String → String) (input scope : BackupScope)
    (h : normalizeScope lower input = .ok scope) (hmode : scope.mode ≠ "FULL") :
    ((∀ p ∈ scope.directories ++ scope.files, Canonical p) ∧ normalizeScope lower scope = .ok scope) ↔
      ∀ v ∈ input.directories ++ input.files, Uncovered input (normalPath v) → Canonical (normalPath v) := by
  rw [and_iff_left (normalizeScope_normalizeScope h hmode)]
  refine ⟨fun hall v hv huncovered => ?_, fun hall p hp => ?_⟩
  · exact hall _ ((mem_saved_either h hmode _).mpr ⟨⟨v, hv, rfl⟩, huncovered⟩)
  · obtain ⟨⟨v, hv, rfl⟩, huncovered⟩ := (mem_saved_either h hmode p).mp hp
    exact hall v hv huncovered

theorem saved_canonical_notes :
    ((∀ p ∈ ["notes"] ++ [], Canonical p) ∧ normalizeScope id
      ⟨"CUSTOM", ["notes"], [], 1, "1 个目录，0 个文件"⟩ =
        .ok ⟨"CUSTOM", ["notes"], [], 1, "1 个目录，0 个文件"⟩) ↔
      ∀ v ∈ ["notes", "/notes/a//b"] ++ [], Uncovered ⟨"custom", ["notes", "/notes/a//b"], [], 0, ""⟩
        (normalPath v) →
        Canonical (normalPath v) :=
  saved_canonical_iff id ⟨"custom", ["notes", "/notes/a//b"], [], 0, ""⟩
    ⟨"CUSTOM", ["notes"], [], 1, "1 个目录，0 个文件"⟩
    (by rfl) (by decide)

/-- A path that ends in `..` is taken. -/
theorem dotdot_saved : ¬∀ (lower : String → String) (input scope : BackupScope),
    normalizeScope lower input = .ok scope → scope.mode ≠ "FULL" →
      (∀ p ∈ scope.directories ++ scope.files, Canonical p) ∧ normalizeScope lower scope = .ok scope := by
  intro h
  have hsaved : normalizeScope id ⟨"CUSTOM", ["notes/.."], [], 1, ""⟩ =
      .ok ⟨"CUSTOM", ["notes/.."], [], 1, "1 个目录，0 个文件"⟩ := by rfl
  obtain ⟨hcanonical, -⟩ := h id _ _ hsaved (by decide)
  exact absurd (hcanonical "notes/.." (by decide)) (by decide)

end AppBackup.Plans
