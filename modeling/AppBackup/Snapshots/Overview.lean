import AppBackup.Persistence.Overview
import AppBackup.Snapshots.Coherence
import AppBackup.Storage.Commit

/- What the overview page says of the library, and what is on the disk.

   The page shows the counts of `Overview` (`persistence/operations.go`). Its storage numbers are
   those of `Summary` (`snapshots/service.go`), which looks at the directory of each snapshot that
   is not trashed; only where `Summary` fails are they the ones that `Overview` itself has read
   (`overview` in `httpapi/phase5.go`). The bytes and the numbers of partial and trashed
   directories, which `Usage` adds to a summary, are left out; that `Usage` may fail is not.

   In every run of sound calls the counts add up, an application that counts as protected has its
   snapshot in place, and the snapshots that are shown are as many directories, none of them
   missing: `overview_backed`. -/
namespace AppBackup.Snapshots.Service
open Program Disk Path Storage Persistence Overview Backup Table Transition

/-! ## The storage numbers of the page -/

inductive LocationStatus where
  | available | missing | inaccessible
  deriving DecidableEq

/-- `LocationStatus` (`storage/storage.go`). -/
def locationStatus {δ : Type} (base : List String) (directory : String) :
    Storage.Action δ LocationStatus := do
  match ← (resolve base directory).attempt with
  | .error _ => pure .inaccessible
  | .ok path =>
    match ← (lstat path).attempt with
    | .ok .directory => pure .available
    | .error .notExist => pure .missing
    | _ => pure .inaccessible

structure StorageSummary where
  snapshotCount : Nat
  missingCount : Nat
  lastVerifiedAt : Option Time

/-- The later of a time and that at which an item was verified. -/
def lastVerified (verifiedAt : Option Time) (item : Snapshot) : Option Time :=
  match item.verifiedAt, verifiedAt with
  | none, best => best
  | some stamp, none => some stamp
  | some stamp, some best => if best < stamp then some stamp else some best

/-- The loop of `Summary`. -/
def summarize (base : List String) : List Snapshot → StorageSummary → Work Control StorageSummary
  | [], summary => pure summary
  | item :: rest, summary =>
    if item.retentionStatus = .trashed then summarize base rest summary
    else do
      let status ← (locationStatus base item.storagePath).mapError storageError
      summarize base rest
        { snapshotCount := summary.snapshotCount + 1
          missingCount := if status = .available then summary.missingCount else summary.missingCount + 1
          lastVerifiedAt := lastVerified summary.lastVerifiedAt item }

/-- `Summary`; `usage` is the error that `Usage` ends with, if any. -/
def summary (base : List String) (tenant : String) (usage : Option GoError) : Work Control StorageSummary := do
  let items ← reading .allSnapshots fun s => .ok (s.allSnapshots tenant)
  let summary ← summarize base items ⟨0, 0, none⟩
  match usage with
  | some e => Prog.fail e
  | none => pure summary

/-- The storage numbers that the page shows. -/
def shownStorage (base : List String) (tenant : String) (usage : Option GoError) : Work Control StorageSummary := do
  let counted ← reading .snapshotSummary fun s => .ok (snapshotSummary s tenant)
  match ← (summary base tenant usage).attempt with
  | .ok summary => pure summary
  | .error _ => pure ⟨counted.count, counted.missing, counted.verifiedAt⟩

/-! ## What they are of directories that are in place -/

section
variable {δ : Type} {κ : Fates} {b : Bool} {base : List String} {tenant : String} {K : Tree → δ → Prop}

theorem locationStatus_does {directory : String} (hcalm : Calm κ b) (hsafe : safeRelative directory = true)
    (hK : ∀ t d, K t d → t.obj (base ++ split directory) = some .directory) :
    Does κ b K (locationStatus base directory) (fun status t d => status = .available ∧ K t d) (fun _ _ _ => False)
      fun _ _ => False := by
  unfold locationStatus
  refine Does.bind (R := fun r t d => r = .ok (base ++ split directory) ∧ K t d) (Does.attempt ?_) fun r => ?_
  · refine (resolve_does.lives (lives_resolve hcalm)).post ?_ ?_ fun _ _ h => h
    · exact fun _ _ _ h => ⟨congrArg Except.ok h.2.2, h.1⟩
    · intro _ t d h
      have hway : Tree.Passable t (base ++ split directory) := Tree.passable_of_directory (hK t d h.1)
      exact absurd (passable_dropLast hway) (h.2 hcalm hsafe)
  · refine Does.start (fun _ _ h => h.1) fun hr => ?_
    subst hr
    refine Does.bind (R := fun r t d => r = .ok .directory ∧ K t d) (Does.attempt ?_) fun r => ?_
    · refine ((look_does.pre fun _ _ h => h.2).lives (lives_look hcalm _)).post ?_ ?_ fun _ _ h => h
      · intro o t d h
        have hobj := Tree.lookup_iff.mp h.2
        rw [hK t d h.1] at hobj
        exact ⟨congrArg Except.ok (Option.some.inj hobj).symm, h.1⟩
      · intro e t d h
        obtain hlook | ⟨hnot, -⟩ := h.2
        · rw [(Tree.lookup_iff (o := .directory)).mpr (hK t d h.1)] at hlook
          cases hlook
        · exact absurd hcalm hnot
    · refine Does.start (fun _ _ h => h.1) fun hr => ?_
      subst hr
      exact Does.pure fun _ _ h => ⟨rfl, h.2⟩

theorem lives_reading {α : Type} {c : Statement} {ask : Store → Except StoreError α} (hcalm : Calm κ b) :
    Lives κ b (reading c ask) := by
  unfold Lives reading statement
  refine step_does (fun t d _ => ?_) fun hnot => absurd hcalm hnot
  cases (d.run c fun s => (ask s).map fun a => (a, s)).map fun r => (r.1, t, r.2) with
  | ok r => exact trivial
  | error e => exact trivial

/-- The items of a list that are not in the trash. -/
def listed (items : List Snapshot) : List Snapshot := items.filter (·.retentionStatus == .active)

variable {P : Tree → Control → Prop}

/-- Where the directories of all listed items are there, each is counted and none is missing. -/
theorem summarize_does (hcalm : Calm κ b) (items : List Snapshot) (summary : StorageSummary)
    (hplaces : ∀ item ∈ listed items, safeRelative item.storagePath = true ∧
      ∀ t d, P t d → t.obj (base ++ split item.storagePath) = some .directory) :
    Does κ b P (summarize base items summary)
      (fun r t d => P t d ∧ r.snapshotCount = summary.snapshotCount + (listed items).length ∧
        r.missingCount = summary.missingCount) (fun _ _ _ => False) fun _ _ => False := by
  induction items generalizing summary with
  | nil => exact Does.pure fun _ _ h => ⟨h, rfl, rfl⟩
  | cons item rest ih =>
    unfold summarize
    cases hstatus : item.retentionStatus with
    | trashed =>
      have hskip : listed (item :: rest) = listed rest := by
        unfold listed
        rw [List.filter_cons_of_neg (by simp [hstatus])]
      rw [if_pos rfl]
      rw [hskip] at hplaces ⊢
      exact ih summary hplaces
    | active =>
      have hcount : listed (item :: rest) = item :: listed rest := by
        unfold listed
        rw [List.filter_cons_of_pos (by simp [hstatus])]
      rw [if_neg (by decide)]
      rw [hcount] at hplaces ⊢
      obtain ⟨hsafe, hplace⟩ := hplaces item (List.mem_cons_self ..)
      refine Does.bind (Does.mapError (locationStatus_does hcalm hsafe hplace)) fun status => ?_
      refine Does.start (fun _ _ h => h.1) fun havailable => ?_
      subst havailable
      refine (ih _ fun item' hitem' => hplaces item' (List.mem_cons_of_mem _ hitem')).weaken (fun _ _ h => h.2) ?_
        (fun _ _ _ h => h) fun _ _ h => h
      intro r t d h
      obtain ⟨ht, hsnapshots, hmissing⟩ := h
      refine ⟨ht, ?_, hmissing⟩
      rw [hsnapshots, List.length_cons]
      dsimp only
      omega

theorem listed_allSnapshots (s : Store) (tenant : String) :
    (listed (s.allSnapshots tenant)).length = (listedSnapshots s tenant).length := by
  unfold listed listedSnapshots
  rw [← List.countP_eq_length_filter, Store.allSnapshots_countP, List.countP_filter, ← List.countP_eq_length_filter]
  refine congrArg (List.countP · _) (funext fun r => ?_)
  exact Bool.and_comm ..

end

/-- The directories of the snapshots that are listed. -/
def listedDirectories (base : List String) (s : Store) (tenant : String) : List (List String) :=
  (listedSnapshots s tenant).map fun r => base ++ split r.storagePath

theorem mem_listedSnapshots {s : Store} {tenant : String} {r : SnapshotRow} :
    r ∈ listedSnapshots s tenant ↔ r ∈ s.snapshots ∧ r.tenantUid = tenant ∧ r.retentionStatus = .active := by
  simp [listedSnapshots]

section
variable {base : List String} {t₀ : Tree} {s : Store}

theorem listedDirectories_nodup (h : Coherent base t₀ s) (tenant : String) :
    (listedDirectories base s tenant).Nodup := by
  have hrows : (listedSnapshots s tenant).Nodup := (List.Nodup.of_map _ s.snapshots_pk).filter _
  refine hrows.map_on fun r hr r' hr' he => ?_
  obtain ⟨hmem, -, hactive⟩ := mem_listedSnapshots.mp hr
  obtain ⟨hmem', -, hactive'⟩ := mem_listedSnapshots.mp hr'
  have hpath : r.storagePath = r'.storagePath := by
    rw [← join_split r.storagePath, List.append_cancel_left he, join_split]
  exact eq_of_key s.snapshots_pk hmem hmem' (h.apart r hmem r' hmem' hactive hactive' hpath)

theorem Final.safe {storagePath : String} (h : Final storagePath) : safeRelative storagePath = true := by
  obtain ⟨deploy, name, hdeploy, hname, -, -, rfl⟩ := h
  exact safeRelative_pair hdeploy hname

/-- Of a library whose snapshots are in place the page shows as many as there are, and none as
missing where `Summary` goes through. -/
theorem shownStorage_does {κ : Fates} {b : Bool} {d₀ : Control} {tenant : String} {usage : Option GoError}
    (hcalm : Calm κ b) (h : Coherent base t₀ d₀.store) :
    Does κ b (fun t d => t = t₀ ∧ d = d₀) (shownStorage base tenant usage)
      (fun r _ _ => r.snapshotCount = (listedSnapshots d₀.store tenant).length ∧
        (usage = none → d₀.fails .allSnapshots = false → r.missingCount = 0))
      (fun _ _ _ => d₀.fails .snapshotSummary = true) fun _ _ => False := by
  have hplaces : ∀ item ∈ listed (d₀.store.allSnapshots tenant), safeRelative item.storagePath = true ∧
      ∀ (t : Tree) (d : Control), t = t₀ ∧ d = d₀ →
      t.obj (base ++ split item.storagePath) = some .directory := by
    intro item hitem
    obtain ⟨hmem, hactive⟩ := List.mem_filter.mp hitem
    obtain ⟨r, hr, -, rfl⟩ := Store.mem_allSnapshots.mp hmem
    have hactive : r.retentionStatus = .active := beq_iff_eq.mp hactive
    exact ⟨(h.final r hr hactive).safe, fun t d ht => ht.1 ▸ h.inPlace r hr hactive⟩
  unfold shownStorage
  refine Does.bind (R := fun counted t d => (t = t₀ ∧ d = d₀) ∧ counted = snapshotSummary d₀.store tenant)
    ((reading_does.lives (lives_reading hcalm)).post ?_ ?_ fun _ _ h => h) fun counted => ?_
  · intro a t d ht
    obtain ⟨⟨rfl, rfl⟩, -, hread⟩ := ht
    exact ⟨⟨rfl, rfl⟩, (Except.ok.inj hread).symm⟩
  · intro _ t d ht
    obtain ⟨⟨-, rfl⟩, hfails⟩ := ht
    obtain hfails | ⟨e, he⟩ := hfails hcalm
    · exact hfails
    · cases he
  refine Does.start (fun _ _ ht => ht.2) fun hcounted => ?_
  subst hcounted
  -- what `Summary` finds where it goes through, and why it does not elsewhere
  let found : Except GoError StorageSummary → Prop := fun r =>
    match r with
    | .ok summary => summary.snapshotCount = (listedSnapshots d₀.store tenant).length ∧ summary.missingCount = 0
    | .error _ => usage ≠ none ∨ d₀.fails .allSnapshots = true
  refine Does.bind (R := fun r _ _ => found r) (Does.attempt ?_) fun r => ?_
  · unfold summary
    refine Does.bind (R := fun items t d => (t = t₀ ∧ d = d₀) ∧ items = d₀.store.allSnapshots tenant)
      (((reading_does.pre fun _ _ ht => ht.1).lives (lives_reading hcalm)).post ?_ ?_ fun _ _ h => h) fun items => ?_
    · intro a t d ht
      obtain ⟨⟨rfl, rfl⟩, -, hread⟩ := ht
      exact ⟨⟨rfl, rfl⟩, (Except.ok.inj hread).symm⟩
    · intro _ t d ht
      obtain ⟨⟨-, rfl⟩, hfails⟩ := ht
      obtain hfails | ⟨e, he⟩ := hfails hcalm
      · exact .inr hfails
      · cases he
    refine Does.start (fun _ _ ht => ht.2) fun hitems => ?_
    subst hitems
    refine Does.bind ((summarize_does hcalm _ _ hplaces).weaken (fun _ _ ht => ht.1) (fun _ _ _ ht => ht)
      (fun _ _ _ ht => ht.elim) fun _ _ ht => ht) fun summary => ?_
    cases usage with
    | some e => exact Does.fail fun _ _ _ => .inl (Option.some_ne_none e)
    | none =>
      refine Does.pure fun t d ht => ?_
      obtain ⟨-, hcount, hmissing⟩ := ht
      refine ⟨?_, hmissing⟩
      rw [hcount, listed_allSnapshots]
      exact Nat.zero_add _
  · cases r with
    | ok summary => exact Does.pure fun _ _ ht => ⟨ht.1, fun _ _ => ht.2⟩
    | error e =>
      refine Does.pure fun t d ht => ⟨rfl, fun husage hfails => ?_⟩
      obtain hused | hfailed := ht
      · exact absurd husage hused
      · rw [hfails] at hfailed
        cases hfailed

end

/-! ## In every run -/

/-- In every run of sound calls: the applications that can be backed up are the protected and the
unprotected ones; the tasks are those that wait, that are in progress and that have ended, and
those that succeeded or failed lately have ended; a protected application has a snapshot of its own
whose directory is in place; the directories of the snapshots that are listed are different and all
there; and these are as many as the page shows, with none missing where its summary goes through. -/
theorem overview_backed (v : Service) {l : Library} (h : Reach (next v) (Sound v) Vacant l) (tenant : String) :
    ((protectionCounts l.store tenant).protectedCount + (protectionCounts l.store tenant).unprotectedCount =
        (applicationCounts l.store tenant).backupableCount ∧
      ∀ since, (taskCounts l.store tenant since).queuedTasks + (taskCounts l.store tenant since).runningTasks +
          (tasksOf l.store tenant).countP (·.status.terminal) = (taskCounts l.store tenant since).taskCount ∧
        (taskCounts l.store tenant since).succeeded24h + (taskCounts l.store tenant since).failed24h ≤
          (tasksOf l.store tenant).countP (·.status.terminal)) ∧
    (∀ i ∈ activeInstances l.store tenant, l.store.snapshots.any (protects i) = true →
      ∃ r ∈ l.store.snapshots, r.tenantUid = tenant ∧ r.deployId = i.deployId ∧
        l.tree.obj (v.base ++ split r.storagePath) = some .directory) ∧
    (listedDirectories v.base l.store tenant).Nodup ∧
    (∀ directory ∈ listedDirectories v.base l.store tenant, l.tree.obj directory = some .directory) ∧
    ∀ usage fails, fails .snapshotSummary = false →
      ∃ shown m, shownStorage v.base tenant usage (l.start fails) = .done shown m ∧
        shown.snapshotCount = (listedDirectories v.base l.store tenant).length ∧
        (usage = none → fails .allSnapshots = false → shown.missingCount = 0) := by
  have hcoherent := reach_coherent h
  refine ⟨⟨protection_adds_up _ _, fun since => tasks_add_up _ _ since⟩, fun i hi hprotected => ?_,
    listedDirectories_nodup hcoherent tenant, fun directory hdirectory => ?_, fun usage fails hread => ?_⟩
  · obtain ⟨r, hr, hprotects⟩ := List.any_eq_true.mp hprotected
    have howner : i.tenantUid = tenant := by
      have hactive := (List.mem_filter.mp hi).2
      rw [Bool.and_eq_true, beq_iff_eq] at hactive
      exact hactive.1
    simp only [protects, Bool.and_eq_true, beq_iff_eq] at hprotects
    obtain ⟨⟨⟨htenant, hdeploy⟩, -⟩, hactive⟩ := hprotects
    exact ⟨r, hr, htenant.trans howner, hdeploy, hcoherent.inPlace r hr hactive⟩
  · obtain ⟨r, hr, rfl⟩ := List.mem_map.mp hdirectory
    obtain ⟨hmem, -, hactive⟩ := mem_listedSnapshots.mp hr
    exact hcoherent.inPlace r hmem hactive
  · have hdoes : Does (l.start fails).fate false (fun t d => t = l.tree ∧ d = ⟨l.store, fails, l.modified⟩)
        (shownStorage v.base tenant usage) _ _ _ := shownStorage_does (calm_start l fails false) hcoherent
    have hrun := hdoes.run (m := l.start fails) ⟨rfl, rfl, rfl, rfl⟩
    cases hshown : shownStorage v.base tenant usage (l.start fails) with
    | done shown m =>
      rw [hshown] at hrun
      refine ⟨shown, m, rfl, ?_, hrun.2.2.2⟩
      rw [hrun.2.2.1]
      exact (List.length_map _).symm
    | failed e m =>
      rw [hshown] at hrun
      have hfails : fails .snapshotSummary = true := hrun.2.2
      rw [hread] at hfails
      cases hfails
    | crashed m =>
      rw [hshown] at hrun
      exact hrun.2.2.elim

/-! ### The mail, once it is stored and its application is in the catalog -/

def mailCatalog (l : Library) : Action := ⟨.other { l.store with instances := [mailInstance] }, fun _ => false⟩

theorem mail_shown_run : ∃ stored shown, next mailService mailLibrary mailBackup = some stored ∧
    next mailService stored (mailCatalog stored) = some shown ∧ activeInstances shown.store "u" = [mailInstance] ∧
      (protectionCounts shown.store "u").protectedCount = 1 ∧
      shown.store.snapshots.any (protects mailInstance) = true := by
  obtain ⟨stored, hbackup, -, hprotects, -⟩ := mail_run
  refine ⟨stored, _, hbackup, if_pos rfl, rfl, ?_, hprotects⟩
  show [mailInstance].countP (fun i => stored.store.snapshots.any (protects i)) = 1
  rw [List.countP_singleton, hprotects]
  rfl

theorem overview_backed_mail : ∃ l : Library, (protectionCounts l.store "u").protectedCount = 1 ∧
    (∃ r ∈ l.store.snapshots, r.tenantUid = "u" ∧ r.deployId = "mail" ∧
      l.tree.obj (mailService.base ++ split r.storagePath) = some .directory) ∧
    (listedDirectories mailService.base l.store "u").Nodup ∧
    ∃ shown m, shownStorage mailService.base "u" none (l.start fun _ => false) = .done shown m ∧
      shown.snapshotCount = (listedDirectories mailService.base l.store "u").length ∧ shown.missingCount = 0 := by
  obtain ⟨stored, shown, hbackup, hcatalog, hactive, hcount, hprotects⟩ := mail_shown_run
  have hstored : Reach (next mailService) (Sound mailService) Vacant stored :=
    .next (.start mailLibrary_vacant) mailBackup_sound hbackup
  have hreach : Reach (next mailService) (Sound mailService) Vacant shown :=
    .next hstored ⟨fun _ h => absurd h List.not_mem_nil, trivial⟩ hcatalog
  have hmem : mailInstance ∈ activeInstances shown.store "u" := by
    rw [hactive]
    exact List.mem_singleton_self _
  obtain ⟨-, hprotected, hnodup, -, hpage⟩ := overview_backed mailService hreach "u"
  obtain ⟨summary, m, hdone, hsnapshots, hmissing⟩ := hpage none (fun _ => false) rfl
  refine ⟨shown, hcount, ?_, hnodup, summary, m, hdone, hsnapshots, hmissing rfl rfl⟩
  exact hprotected mailInstance hmem hprotects

end AppBackup.Snapshots.Service
