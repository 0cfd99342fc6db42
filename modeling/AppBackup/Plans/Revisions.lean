import AppBackup.Plans.Cover
import AppBackup.Plans.Schedule

/- The revision of a scope. `Update` compares the scopes of a plan's targets with the stored
   ones: a target whose selection changed gets the next revision, and where a target was
   added, removed or changed the queued work of the plan is cancelled. The directories of a
   saved scope are sorted, its files stand in the order of the request, and `samePaths`
   compares lists: a request that lists the files of a target in another order than the one
   stored counts as a change.

   What is proved:
     1. `storedSaved_of_reach` -- in whatever order the statements of the calls run, the scopes
        that are stored are scopes as they are saved;
     2. `revised_selection`, `changed_iff` -- what one update makes of a target, and when it
        counts as a change;
     3. `scope_revision_iff` -- revisions and cancelled work are as they should be exactly where
        each target that keeps its selection has its files listed in the stored order. -/
namespace AppBackup.Plans
open Persistence Queue Threads Threads.Thread Transition Table Path Text

/-! ## What a scope selects -/

@[ext]
structure Selection where
  mode : String
  directories : Set String
  files : Set String

def selection (scope : BackupScope) : Selection :=
  ⟨scope.mode, {p | p ∈ scope.directories}, {p | p ∈ scope.files}⟩

instance (request : BackupScope) (p : String) : Decidable (Uncovered request p) :=
  inferInstanceAs (Decidable (∀ d ∈ request.directories, below (normalPath d) p = false))

/-- The files of a request in normal form, in its order, without repetitions and without those
its directories cover. -/
def requestedFiles (request : BackupScope) : List String :=
  if requestedMode request = "FULL" then []
  else (request.files.map normalPath).eraseDups.filter fun f => decide (Uncovered request f)

/-- What a request selects. -/
def requestedSelection (request : BackupScope) : Selection :=
  if requestedMode request = "FULL" then ⟨"FULL", ∅, ∅⟩
  else
    ⟨requestedMode request, {p | (∃ d ∈ request.directories, normalPath d = p) ∧ Uncovered request p},
      {p | (∃ f ∈ request.files, normalPath f = p) ∧ Uncovered request p}⟩

/-- Where the request selects what is stored, it lists the files in the stored order. -/
def KeepsOrder (stored request : BackupScope) : Prop :=
  selection stored = requestedSelection request → requestedFiles request = stored.files

/-! ## What is saved of it -/

theorem eraseDups_snoc (l : List String) (v : String) :
    (l ++ [v]).eraseDups = if l.eraseDups.contains v then l.eraseDups else l.eraseDups ++ [v] := by
  rw [List.eraseDups_append]
  have hcontains : l.eraseDups.contains v = l.contains v := by
    rw [Bool.eq_iff_iff, List.contains_iff_mem, List.contains_iff_mem, List.mem_eraseDups]
  rw [hcontains]
  by_cases hv : l.contains v = true
  · have hmem : v ∈ l := by simpa using hv
    have hnone : [v].removeAll l = [] := by simp [List.removeAll, hmem]
    rw [if_pos hv, hnone, List.eraseDups_nil, List.append_nil]
  · have hmem : v ∉ l := by simpa using hv
    have hall : [v].removeAll l = [v] := by simp [List.removeAll, hmem]
    rw [if_neg hv, hall]
    rfl

/-- The cleaned paths, in the order in which they are first met. -/
theorem cleanPaths_order {values out : List String} (h : cleanPaths values = .ok out) :
    out = (values.map normalPath).eraseDups := by
  have hfold : ∀ (values out : List String), values.foldlM cleanPath [] = .ok out →
      out = (values.map normalPath).eraseDups := by
    intro values
    induction values using List.reverseRecOn with
    | nil =>
      intro out h
      obtain rfl := Except.ok.inj h
      rfl
    | append_singleton values v ih =>
      intro out h
      rw [List.foldlM_append] at h
      obtain ⟨before, hvalues, h⟩ := ok_of_bind h
      rw [List.foldlM_cons] at h
      obtain ⟨out', h, hout⟩ := ok_of_bind h
      obtain rfl := Except.ok.inj hout
      unfold cleanPath at h
      simp only at h
      rw [List.map_append, List.map_singleton, eraseDups_snoc, ← ih before hvalues]
      split at h
      · cases h
      · split at h
        · next hseen =>
          rw [if_pos hseen]
          exact (Except.ok.inj h).symm
        · next hnew =>
          rw [if_neg hnew]
          exact (Except.ok.inj h).symm
  unfold cleanPaths at h
  obtain ⟨out', hvalues, h⟩ := ok_of_bind h
  split at h
  · cases h
  · obtain rfl := Except.ok.inj h
    exact hfold values _ hvalues

section
variable {lower : String → String} {request scope : BackupScope}

theorem requestedMode_saved (h : normalizeScope lower request = .ok scope) : requestedMode request = scope.mode := by
  obtain ⟨hfull, hmode, -⟩ | ⟨directories, files, -, -, -, hclose⟩ := normalizeScope_cases h
  · rw [hfull, hmode]
  · exact (kept_of_closeScope hclose).1.symm

theorem paths_saved_full (h : normalizeScope lower request = .ok scope) (hmode : scope.mode = "FULL") :
    scope.directories = [] ∧ scope.files = [] := by
  obtain ⟨-, -, hpaths⟩ | ⟨directories, files, hknown, -, -, hclose⟩ := normalizeScope_cases h
  · exact hpaths
  · rw [← (kept_of_closeScope hclose).1, hmode] at hknown
    exact absurd hknown (by decide)

theorem selection_saved (h : normalizeScope lower request = .ok scope) :
    selection scope = requestedSelection request := by
  unfold requestedSelection selection
  rw [requestedMode_saved h]
  by_cases hmode : scope.mode = "FULL"
  · obtain ⟨hd, hf⟩ := paths_saved_full h hmode
    rw [if_pos hmode, hmode, hd, hf]
    simp
  · rw [if_neg hmode]
    ext p
    · rfl
    · exact (mem_saved h hmode p).1
    · exact (mem_saved h hmode p).2

/-- Its files are those of the request in the order of the request. -/
theorem files_saved (h : normalizeScope lower request = .ok scope) : scope.files = requestedFiles request := by
  unfold requestedFiles
  rw [requestedMode_saved h]
  by_cases hmode : scope.mode = "FULL"
  · rw [if_pos hmode]
    exact (paths_saved_full h hmode).2
  · obtain ⟨directories, files, hdirectories, hfiles, -, -, hclose⟩ := cleaned_of_normalizeScope h hmode
    obtain ⟨-, -, -, hf, -⟩ := kept_of_closeScope hclose
    rw [if_neg hmode, hf, cleanPaths_order hfiles]
    unfold removeFilesCoveredByDirectories
    apply List.filter_congr
    intro f _
    rw [Bool.eq_iff_iff, decide_eq_true_iff, uncovered_cleaned hdirectories, ← uncovered_kept]
    simp

/-- Saved scopes that select the same have the same directories. -/
theorem directories_saved {request' scope' : BackupScope} (h : normalizeScope lower request = .ok scope)
    (h' : normalizeScope lower request' = .ok scope') (hsame : selection scope = selection scope') :
    scope.directories = scope'.directories := by
  have hmode : scope.mode = scope'.mode := congrArg Selection.mode hsame
  have hmem : ∀ p, p ∈ scope.directories ↔ p ∈ scope'.directories := fun p =>
    iff_of_eq (congrFun (congrArg Selection.directories hsame) p)
  by_cases hfull : scope.mode = "FULL"
  · rw [(paths_saved_full h hfull).1, (paths_saved_full h' (hmode ▸ hfull)).1]
  · obtain ⟨directories, files, hclean, -, -, -, hclose⟩ := cleaned_of_normalizeScope h hfull
    obtain ⟨directories', files', hclean', -, -, -, hclose'⟩ :=
      cleaned_of_normalizeScope h' (fun he => hfull (hmode.trans he))
    obtain ⟨-, -, hd, -⟩ := kept_of_closeScope hclose
    obtain ⟨-, -, hd', -⟩ := kept_of_closeScope hclose'
    -- both lists are sorted, and neither has a path twice
    have hperm : scope.directories.Perm scope'.directories := by
      refine (List.perm_ext_iff_of_nodup ?_ ?_).mpr hmem
      · rw [hd]
        exact removeCoveredDirectories_nodup (cleaned_of_cleanPaths hclean).1.nodup
      · rw [hd']
        exact removeCoveredDirectories_nodup (cleaned_of_cleanPaths hclean').1.nodup
    have hkept := removeCoveredDirectories_perm hperm
    rw [hd, hd', removeCoveredDirectories_kept, removeCoveredDirectories_kept] at hkept
    rw [hd, hd', hkept]

end

/-! ## What is stored -/

/-- Every stored scope is a saved one. -/
def StoredSaved (lower : String → String) (s : Store) : Prop := ∀ t ∈ s.targets, SavedScope lower t.scope

/-- A plan that a call writes has saved scopes. -/
def SavesScopes (lower : String → String) : Stmt → Prop
  | .write (.createPlan plan) _ | .write (.updatePlan _ plan _) _ => SavedTargets lower plan.targets
  | _ => True

theorem updatePlan_targets {s s' : Store} {tenant : String} {plan : BackupPlan} {cancelQueued : Bool}
    (h : s.updatePlan tenant plan cancelQueued = .ok s') :
    s'.targets = (s.targets.filter fun t => !(t.planId == plan.id && t.tenantUid == plan.tenantUid)) ++
      plan.targets.map (targetRow plan) := by
  unfold Store.updatePlan at h
  split at h
  · cases h
  · split at h
    · cases h
    · cases cancelQueued with
      | false =>
        have ht := Store.replacePlanTargets_ok h
        rw [ht]
        rfl
      | true =>
        simp only [if_true] at h
        split at h
        · cases h
        · next s₁ hw =>
          have ht := Store.replacePlanTargets_ok h
          rw [ht]
          show (List.filter _ s₁.targets) ++ _ = _
          rw [Store.endWaiting_ok hw]
          rfl

section
variable {lower : String → String} {cron : Cron}

theorem storedSaved_replaced {s s' : Store} {plan : BackupPlan} {keep : TargetRow → Bool}
    (h : StoredSaved lower s) (hplan : SavedTargets lower plan.targets)
    (ht : s'.targets = s.targets.filter keep ++ plan.targets.map (targetRow plan)) : StoredSaved lower s' := by
  intro t hmem
  rw [ht] at hmem
  obtain hmem | hmem := List.mem_append.mp hmem
  · exact h t (List.mem_filter.mp hmem).1
  · obtain ⟨target, htarget, rfl⟩ := List.mem_map.mp hmem
    exact hplan target htarget

theorem storedSaved_apply {s s' : Store} {op : Op} {basis : Option BackupPlan} (h : StoredSaved lower s)
    (hop : SavesScopes lower (.write op basis)) (hs : op.apply s = .ok s') : StoredSaved lower s' := by
  by_cases hsaves : op.savesTargets = true
  · cases op with
    | createPlan plan =>
      have hs : s.createPlan plan = .ok s' := hs
      unfold Store.createPlan at hs
      split at hs
      · cases hs
      · split at hs
        · cases hs
        · next s₁ hinsert =>
          have ht := Store.replacePlanTargets_ok hs
          rw [Store.insertPlan_ok hinsert] at ht
          exact storedSaved_replaced h hop (congrArg Tables.targets ht)
    | updatePlan tenant plan changed => exact storedSaved_replaced h hop (updatePlan_targets hs)
    | _ => cases hsaves
  · intro t ht
    rw [Op.apply_targets hs (by simpa using hsaves)] at ht
    exact h t ht

theorem storedSaved_exec {s : Store} {c : Stmt} (h : StoredSaved lower s) (hc : SavesScopes lower c) :
    StoredSaved lower (Stmt.exec c s).2 := by
  cases c with
  | write op basis =>
    show StoredSaved lower (Stmt.commit s (op.apply s)).2
    cases hop : op.apply s with
    | ok s' => exact storedSaved_apply h hc hop
    | error e => exact h
  | deletePlan tenant id =>
    show StoredSaved lower (Stmt.commit s (s.deletePlan tenant id)).2
    unfold Store.deletePlan
    split
    · exact h
    · exact fun t ht => h t (List.mem_filter.mp ht).1
  | _ => exact h

theorem savesScopes_of_reads {c : Stmt} (h : Reads c) : SavesScopes lower c := by
  cases c with
  | write op basis => cases h
  | _ => trivial

theorem savesScopes_of_expands {tenant planId : String} {c : Stmt} (h : Calls.Expands tenant planId c) :
    SavesScopes lower c := by
  cases c with
  | write op basis =>
    cases op with
    | createPlan plan => exact h.elim
    | updatePlan tenant plan changed => exact h.elim
    | _ => trivial
  | _ => trivial

theorem program_savesScopes (q : Request) : Every (SavesScopes lower) (q.program lower cron) := by
  have hread : ∀ tenant id, Every (SavesScopes lower) (readPlan tenant id) := fun tenant id =>
    readPlan_every fun _ => savesScopes_of_reads
  cases q with
  | tick tenant now draws =>
    refine every_bindE (every_query trivial) fun _ => ?_
    unfold runDue
    split
    · exact every_pure _
    · refine every_bindE (every_query trivial) fun rows => ?_
      refine every_bindE ?_ fun plans => every_each plans fun plan _ => ?_
      · induction rows with
        | nil => exact every_pure _
        | cons r rest ih =>
          refine every_bindE (every_query trivial) fun targets => ?_
          exact every_bindE ih fun _ => every_pure _
      · exact runMissed_every (fun _ _ _ => trivial) (fun _ hc _ => savesScopes_of_expands hc)
          (fun _ _ _ _ _ => trivial)
          128 plan rfl
  | create tenant input subject hex now =>
    exact every_bindE (create_every (fun _ => savesScopes_of_reads) fun _ _ hsaved => hsaved) fun _ =>
      every_pure _
  | update tenant id input now =>
    exact every_bindE (update_every (fun _ => savesScopes_of_reads) fun _ _ _ hsaved => hsaved) fun _ =>
      every_pure _
  | delete tenant id => exact every_bindE (every_query trivial) fun _ => Calls.every_ofStore _
  | pause tenant id now =>
    refine every_bindE ?_ fun _ => every_pure _
    exact every_bindE (Calls.every_write trivial) fun _ => hread ..
  | resume tenant id now =>
    refine every_bindE ?_ fun _ => every_pure _
    refine every_bindE (hread ..) fun plan => every_bindE (every_result _) fun next => ?_
    exact every_bindE (Calls.every_write trivial) fun _ => hread ..
  | runByHand tenant id now draws =>
    refine every_bindE ?_ fun _ => every_pure _
    refine every_bindE (hread ..) fun plan => ?_
    exact Calls.runPlan_every (fun _ => trivial) fun _ hc _ => savesScopes_of_expands hc

theorem write_store (w : Watched) (op : Op) : (w.write op).store = op.next w.store := by
  unfold Watched.write Op.next
  cases op.apply w.store with
  | ok s => rfl
  | error e => rfl

theorem exec_store (c : Stmt) (w : Watched) : (Watched.exec c w).2.store = (Stmt.exec c w.store).2 := by
  cases c with
  | write op basis =>
    show (w.write op).store = (Stmt.commit w.store (op.apply w.store)).2
    rw [write_store]
    unfold Op.next
    cases op.apply w.store with
    | ok s => rfl
    | error e => rfl
  | _ => rfl

theorem storedSaved_step {p p' : Desk} {m : Move Request Outside} (h : StoredSaved lower p.state.store)
    (hcalls : ∀ i, Every (SavesScopes lower) (p.threads i)) (hs : Desk.step lower cron p m = some p') :
    StoredSaved lower p'.state.store := by
  obtain hsame | ⟨i, c, k, -, hc, hnext⟩ | ⟨e, -, houtside⟩ := Pool.step_state hs
  · rw [hsame]
    exact h
  · have hmeets := hcalls i
    rw [hc] at hmeets
    rw [hnext, exec_store]
    exact storedSaved_exec h (every_call.mp hmeets).1
  · rw [houtside]
    cases e with
    | library applications instances => exact h
    | queue op hedit =>
      show StoredSaved lower (p.state.write op).store
      rw [write_store]
      obtain hop | hsame := Op.next_cases p.state.store op
      · have hmeets : SavesScopes lower (.write op none) := by
          cases op with
          | createPlan plan => cases hedit
          | updatePlan tenant plan changed => cases hedit
          | _ => trivial
        exact storedSaved_apply h hmeets hop
      · rw [hsame]
        exact h

theorem storedSaved_of_reach {p : Desk} (h : Reach (Desk.step lower cron) (fun _ _ => True) Desk.fresh p) :
    StoredSaved lower p.state.store := by
  have hinv : StoredSaved lower p.state.store ∧ ∀ i, Every (SavesScopes lower) (p.threads i) := by
    refine h.invariant (I := fun p : Desk => StoredSaved lower p.state.store ∧
      ∀ i, Every (SavesScopes lower) (p.threads i)) ?_ ?_
    · intro p hp
      rw [hp]
      exact ⟨fun t ht => absurd ht List.not_mem_nil, fun i => every_done _⟩
    · intro p m p' hp _ hs
      exact ⟨storedSaved_step hp.1 hp.2 hs, Pool.every_step program_savesScopes hp.2 hs⟩
  exact hinv.1

end

/-! ## Targets before and after -/

section
variable {s s' : Store} {tenant id : String}

theorem mem_planTargets {t : PlanTarget} : t ∈ s.planTargets tenant id ↔
    ∃ r ∈ s.targets, r.tenantUid = tenant ∧ r.planId = id ∧
    t = ⟨r.deployId, r.sharedRiskAccepted, r.scope.orFull⟩ := by
  unfold Store.planTargets
  simp only [List.mem_map, List.mem_insertionSort, List.mem_filter, Bool.and_eq_true, beq_iff_eq]
  refine ⟨?_, ?_⟩
  · intro ⟨r, ⟨hr, hten, hid⟩, he⟩
    exact ⟨r, hr, hten, hid, he.symm⟩
  · intro ⟨r, hr, hten, hid, he⟩
    exact ⟨r, ⟨hr, hten, hid⟩, he.symm⟩

theorem planTargets_nodup : ((s.planTargets tenant id).map (·.deployId)).Nodup := by
  have hsort : ((s.planTargets tenant id).map (·.deployId)).Perm
      ((s.targets.filter fun t => t.tenantUid == tenant && t.planId == id).map (·.deployId)) := by
    unfold Store.planTargets
    rw [List.map_map]
    exact (List.perm_insertionSort _ _).map _
  refine hsort.nodup_iff.mpr ?_
  have hkeys : ((s.targets.filter fun t => t.tenantUid == tenant && t.planId == id).map
      fun t => (t.planId, t.deployId)).Nodup := s.targets_pk.sublist (List.filter_sublist.map _)
  have hsame : (s.targets.filter fun t => t.tenantUid == tenant && t.planId == id).map
        (fun t => (t.planId, t.deployId)) =
      ((s.targets.filter fun t => t.tenantUid == tenant && t.planId == id).map (·.deployId)).map (id, ·) := by
    rw [List.map_map]
    apply List.map_congr_left
    intro t ht
    have hid : t.planId = id := beq_iff_eq.mp (Bool.and_eq_true_iff.mp (List.mem_filter.mp ht).2).2
    rw [hid]
    rfl
  rw [hsame] at hkeys
  exact hkeys.of_map

theorem readPlan_ok {current : BackupPlan} (h : (run Stmt.exec (readPlan tenant id) s).1 = .ok current) :
    ∃ r ∈ s.plans, planIn tenant id r = true ∧ current = scanPlan r (s.planTargets tenant id) := by
  unfold readPlan at h
  cases hfind : s.plans.find? (planIn tenant id) with
  | none =>
    have hrow : (Stmt.exec (.planRow tenant id) s).1 = .error .notFound := Stmt.exec_planRow_none hfind
    rw [run_query, hrow] at h
    have h : Except.error (GoError.store .notFound) = Except.ok current := h
    cases h
  | some r =>
    have hrow : (Stmt.exec (.planRow tenant id) s).1 = .ok r := Stmt.exec_planRow.mpr hfind
    rw [run_query, hrow] at h
    have h : Except.ok (scanPlan r (s.planTargets tenant id)) = Except.ok current := h
    exact ⟨r, List.mem_of_find?_eq_some hfind, List.find?_some hfind, (Except.ok.inj h).symm⟩

/-- What an update that goes through has done: the targets of the request, as they are saved, are
revised against the stored ones. -/
theorem update_ok {lower : String → String} {cron : Cron} {input : PlanInput} {now : Time} {after : BackupPlan}
    (h : run Stmt.exec (update lower cron tenant id input now) s = (.ok after, s')) :
    ∃ current plan : BackupPlan, current.targets = s.planTargets tenant id ∧ plan.id = id ∧
      plan.tenantUid = tenant ∧ plan.updatedAt = now ∧ normalizeTargets lower input.targets = .ok plan.targets ∧
      s.updatePlan tenant (applyScopeRevisions plan current).1 (applyScopeRevisions plan current).2 = .ok s' := by
  have hread := run_reads (readPlan_every fun _ h => h : Every Reads (readPlan tenant id)) s
  have hcurrent := @readPlan_ok s tenant id
  unfold update at h
  rw [run_bindE] at h
  generalize run Stmt.exec (readPlan tenant id) s = outcome at h hread hcurrent
  obtain ⟨found, s₁⟩ := outcome
  obtain rfl : s₁ = s := hread
  cases found with
  | error e => cases h
  | ok current =>
    obtain ⟨r, -, hin, hscan⟩ := hcurrent rfl
    simp only at h
    rw [run_result] at h
    cases hnormal : normalize lower cron input now with
    | error e => rw [hnormal] at h; cases h
    | ok plan =>
      rw [hnormal] at h
      simp only at h
      rw [run_bindE] at h
      generalize hplan : ({ plan with
        id := current.id, tenantUid := tenant, createdBySubject := current.createdBySubject
        createdAt := current.createdAt, updatedAt := now
        lastScheduledAt := current.lastScheduledAt } : BackupPlan) = saved at h
      have hvalid := run_reads (validateTargets_every (fun _ h => h) saved :
        Every Reads (validateTargets tenant saved)) s₁
      generalize run Stmt.exec (validateTargets tenant saved) s₁ = outcome at h hvalid
      obtain ⟨valid, s₂⟩ := outcome
      obtain rfl : s₂ = s₁ := hvalid
      cases valid with
      | error e => cases h
      | ok u =>
        simp only at h
        rw [Calls.run_write_bind] at h
        have hid : current.id = id := by
          rw [hscan]
          exact (planIn_iff.mp hin).2
        refine ⟨current, saved, by rw [hscan]; rfl, by rw [← hplan]; exact hid, by rw [← hplan],
          by rw [← hplan], ?_, ?_⟩
        · rw [← hplan]
          exact (normalize_targets hnormal : normalizeTargets lower input.targets = .ok plan.targets)
        · simp only [Op.apply] at h
          cases hop : s₂.updatePlan tenant (applyScopeRevisions saved current).1
              (applyScopeRevisions saved current).2 with
          | error e => rw [hop] at h; cases h
          | ok s₃ =>
            rw [hop] at h
            have hlast : (run Stmt.exec (readPlan tenant id) s₃).2 = s' := congrArg Prod.snd h
            rw [run_reads (readPlan_every fun _ h => h)] at hlast
            rw [hlast]

/-! ## The revision of a target -/

/-- The old and the new scope are the same to `applyScopeRevisions`. -/
def SameLists (old next : BackupScope) : Prop :=
  old.mode = next.mode ∧ old.directories = next.directories ∧ old.files = next.files

theorem reviseTarget_old {current : BackupPlan} {old target : PlanTarget}
    (hnodup : (current.targets.map (·.deployId)).Nodup) (hold : old ∈ current.targets)
    (hid : old.deployId = target.deployId) :
    (SameLists old.scope target.scope → (reviseTarget current target).2 = false ∧
      (reviseTarget current target).1.scope.revision = old.scope.revision) ∧
    (¬SameLists old.scope target.scope → (reviseTarget current target).2 = true ∧
      (reviseTarget current target).1.scope.revision = old.scope.revision + 1) := by
  have hfind : current.targets.reverse.find? (·.deployId == target.deployId) = some old := by
    cases hfound : current.targets.reverse.find? (·.deployId == target.deployId) with
    | none =>
      have hno := List.find?_eq_none.mp hfound old (List.mem_reverse.mpr hold)
      exact absurd (beq_iff_eq.mpr hid) hno
    | some found =>
      have hmem := List.mem_reverse.mp (List.mem_of_find?_eq_some hfound)
      have hsame : found.deployId = target.deployId := by simpa using List.find?_some hfound
      rw [eq_of_key hnodup hmem hold (hsame.trans hid.symm)]
  unfold reviseTarget SameLists samePaths
  rw [hfind]
  refine ⟨?_, ?_⟩
  · intro ⟨hmode, hd, hf⟩
    simp [hmode, hd, hf]
  · intro hdiffer
    have hcond : old.scope.mode ≠ target.scope.mode ∨
        (!(old.scope.directories == target.scope.directories)) = true ∨
        (!(old.scope.files == target.scope.files)) = true := by
      simp only [Bool.not_eq_true', beq_eq_false_iff_ne]
      tauto
    simp only
    rw [if_pos hcond]
    exact ⟨rfl, rfl⟩

theorem reviseTarget_new {current : BackupPlan} {target : PlanTarget}
    (hnone : ∀ old ∈ current.targets, old.deployId ≠ target.deployId) :
    (reviseTarget current target).2 = true := by
  have hfind : current.targets.reverse.find? (·.deployId == target.deployId) = none := by
    refine List.find?_eq_none.mpr fun old hold => ?_
    rw [beq_iff_eq]
    exact hnone old (List.mem_reverse.mp hold)
  unfold reviseTarget
  rw [hfind]

/-- A target was removed, added, or has another selection. -/
def Changed (before after : List PlanTarget) : Prop :=
  (∃ t ∈ before, ∀ t' ∈ after, t'.deployId ≠ t.deployId) ∨
    (∃ t' ∈ after, ∀ t ∈ before, t.deployId ≠ t'.deployId) ∨
    ∃ t ∈ before, ∃ t' ∈ after, t.deployId = t'.deployId ∧ selection t.scope ≠ selection t'.scope

/-- Each target that stays keeps its revision with its selection, and gets the next one with
another selection. -/
structure RevisionLaw (before after : List PlanTarget) : Prop where
  kept : ∀ t ∈ before, ∀ t' ∈ after, t.deployId = t'.deployId → selection t.scope = selection t'.scope →
    t'.scope.revision = t.scope.revision
  raised : ∀ t ∈ before, ∀ t' ∈ after, t.deployId = t'.deployId → selection t.scope ≠ selection t'.scope →
    t'.scope.revision = t.scope.revision + 1

/-- The queued tasks of the plan are cancelled where a target changed, and no task is touched
where none did. -/
structure QueueLaw (s s' : Store) (tenant id : String) (now : Time) : Prop where
  cancelled : Changed (s.planTargets tenant id) (s'.planTargets tenant id) →
    s'.tasks = updateWhere (waitingTask tenant id)
      (endWaitingTask .cancelled "SCOPE_REVISION_SUPERSEDED" none now) s.tasks
  untouched : ¬Changed (s.planTargets tenant id) (s'.planTargets tenant id) → s'.tasks = s.tasks

end

section
variable {lower : String → String}

theorem SameLists.selection_eq {old next : BackupScope} (h : SameLists old next) : selection old = selection next := by
  obtain ⟨hmode, hd, hf⟩ := h
  unfold selection
  rw [hmode, hd, hf]

/-- The comparison finds the selection unchanged exactly when the request keeps the order of the
files. -/
theorem keepsOrder_iff {old request scope : BackupScope} (hold : SavedScope lower old)
    (h : normalizeScope lower request = .ok scope) :
    KeepsOrder old request ↔ (selection old = selection scope → SameLists old scope) := by
  unfold KeepsOrder
  rw [← selection_saved h, ← files_saved h]
  refine ⟨fun horder hsame => ⟨?_, ?_, (horder hsame).symm⟩, fun hlists hsame => (hlists hsame).2.2.symm⟩
  · exact congrArg Selection.mode hsame
  · obtain ⟨request', saved, hsaved, he⟩ := hold
    have hd : old.directories = saved.directories := by rw [he]
    have hselection : selection saved = selection scope := by
      rw [← hsame, he]
      rfl
    rw [hd]
    exact directories_saved hsaved h hselection

theorem orFull_saved {scope : BackupScope} (h : SavedScope lower scope) : scope.orFull = scope := by
  obtain ⟨request, saved, hsaved, he⟩ := h
  have hmode : scope.mode ≠ "" := by
    have hsame : scope.mode = saved.mode := by rw [he]
    obtain ⟨-, hfull, -⟩ | ⟨directories, files, hknown, -, -, hclose⟩ := normalizeScope_cases hsaved
    · rw [hsame, hfull]
      decide
    · rw [hsame, (kept_of_closeScope hclose).1]
      obtain hcore | hcustom := hknown
      · rw [hcore]
        decide
      · rw [hcustom]
        decide
  exact if_neg hmode

variable {s s' : Store} {tenant id : String}

theorem savedScope_planTargets (h : StoredSaved lower s) {t : PlanTarget} (ht : t ∈ s.planTargets tenant id) :
    SavedScope lower t.scope := by
  obtain ⟨r, hr, -, -, rfl⟩ := mem_planTargets.mp ht
  have hsaved := h r hr
  show SavedScope lower r.scope.orFull
  rw [orFull_saved hsaved]
  exact hsaved

theorem planTargets_updated {plan : BackupPlan} {changed : Bool} (hsaved : SavedTargets lower plan.targets)
    (h : s.updatePlan tenant plan changed = .ok s') (hid : plan.id = id) (hten : plan.tenantUid = tenant)
    {t : PlanTarget} : t ∈ s'.planTargets tenant id ↔ t ∈ plan.targets := by
  rw [mem_planTargets, updatePlan_targets h, hid, hten]
  refine ⟨?_, ?_⟩
  · intro ⟨r, hr, hrten, hrid, he⟩
    obtain hr | hr := List.mem_append.mp hr
    · have hother := (List.mem_filter.mp hr).2
      rw [hrten, hrid] at hother
      simp at hother
    · obtain ⟨target, htarget, rfl⟩ := List.mem_map.mp hr
      have hscope : (targetRow plan target).scope.orFull = target.scope := orFull_saved (hsaved target htarget)
      rw [he, hscope]
      exact htarget
  · intro ht
    refine ⟨targetRow plan t, List.mem_append_right _ (List.mem_map_of_mem ht), hten, hid, ?_⟩
    have hscope : (targetRow plan t).scope.orFull = t.scope := orFull_saved (hsaved t ht)
    rw [hscope]
    rfl

theorem updatePlan_nodup {plan : BackupPlan} {changed : Bool} (h : s.updatePlan tenant plan changed = .ok s') :
    (plan.targets.map (·.deployId)).Nodup := by
  obtain ⟨-, -, -, -, -, hkeys⟩ := (Store.updatePlan_isOk s tenant plan changed).mp ⟨s', h⟩
  have htargets := (List.nodup_append.mp hkeys).2.1
  have hsame : (plan.targets.map fun target => (plan.id, target.deployId)) =
      (plan.targets.map (·.deployId)).map (plan.id, ·) := by
    rw [List.map_map]
    rfl
  rw [hsame] at htargets
  exact htargets.of_map

end

section
variable {current plan : BackupPlan}

theorem mem_revised {t : PlanTarget} : t ∈ (applyScopeRevisions plan current).1.targets ↔
    ∃ target ∈ plan.targets, (reviseTarget current target).1 = t := by
  show t ∈ (plan.targets.map (reviseTarget current)).map (·.1) ↔ _
  simp

theorem revised_selection (target : PlanTarget) :
    (reviseTarget current target).1.deployId = target.deployId ∧
      selection (reviseTarget current target).1.scope = selection target.scope := by
  rw [reviseTarget_same]
  exact ⟨rfl, rfl⟩

/-- The change that `applyScopeRevisions` reports, where it finds the selections that are
unchanged. -/
theorem changed_iff (hbefore : (current.targets.map (·.deployId)).Nodup)
    (hafter : (plan.targets.map (·.deployId)).Nodup)
    (hsame : ∀ old ∈ current.targets, ∀ target ∈ plan.targets, old.deployId = target.deployId →
      selection old.scope = selection target.scope → SameLists old.scope target.scope) :
    (applyScopeRevisions plan current).2 = true ↔
      Changed current.targets (applyScopeRevisions plan current).1.targets := by
  have hflag : (applyScopeRevisions plan current).2 = true ↔
      (∃ target ∈ plan.targets, (reviseTarget current target).2 = true) ∨
        plan.targets.length ≠ current.targets.length := by
    show ((plan.targets.map (reviseTarget current)).any (·.2) ||
      plan.targets.length != current.targets.length) = true ↔ _
    simp
  rw [hflag]
  have hnewId : ∀ target, (reviseTarget current target).1.deployId = target.deployId := fun target =>
    (revised_selection target).1
  -- a flag is raised for a list that changed or a new target, or the numbers differ
  refine ⟨fun hchanged => ?_, fun hchanged => ?_⟩
  · by_contra hno
    unfold Changed at hno
    push Not at hno
    obtain ⟨hkept, hknown, hequal⟩ := hno
    obtain ⟨target, htarget, hflag⟩ | hlength := hchanged
    · obtain ⟨old, hold, hid⟩ := hknown _ (mem_revised.mpr ⟨target, htarget, rfl⟩)
      have hselection := hequal old hold _ (mem_revised.mpr ⟨target, htarget, rfl⟩) hid
      rw [hnewId] at hid
      rw [(revised_selection target).2] at hselection
      have hlists := hsame old hold target htarget hid hselection
      rw [((reviseTarget_old hbefore hold hid).1 hlists).1] at hflag
      cases hflag
    · -- the deployments are the same before and after
      have hperm : (plan.targets.map (·.deployId)).Perm (current.targets.map (·.deployId)) := by
        refine (List.perm_ext_iff_of_nodup hafter hbefore).mpr fun id => ?_
        rw [List.mem_map, List.mem_map]
        refine ⟨fun ⟨target, htarget, he⟩ => ?_, fun ⟨old, hold, he⟩ => ?_⟩
        · obtain ⟨old, hold, hid⟩ := hknown _ (mem_revised.mpr ⟨target, htarget, rfl⟩)
          rw [hnewId] at hid
          exact ⟨old, hold, hid.trans he⟩
        · obtain ⟨t, ht, hid⟩ := hkept old hold
          obtain ⟨target, htarget, rfl⟩ := mem_revised.mp ht
          rw [hnewId] at hid
          exact ⟨target, htarget, hid.trans he⟩
      have hlen := hperm.length_eq
      rw [List.length_map, List.length_map] at hlen
      exact hlength hlen
  · -- a target that went, without a flag: the others would be as many, and all known
    obtain ⟨t, ht, hgone⟩ | ⟨t', ht', hadded⟩ | ⟨t, ht, t', ht', hid, hdiffer⟩ := hchanged
    · by_contra hno
      push Not at hno
      obtain ⟨hflags, hlength⟩ := hno
      have hsub : plan.targets.map (·.deployId) ⊆ current.targets.map (·.deployId) := by
        intro id hmem
        obtain ⟨target, htarget, rfl⟩ := List.mem_map.mp hmem
        by_contra hnew
        refine hflags target htarget (reviseTarget_new fun old hold he => ?_)
        exact hnew (List.mem_map.mpr ⟨old, hold, he⟩)
      have hperm := (List.subperm_of_subset hafter hsub).perm_of_length_le (by simp [hlength])
      have hmem := hperm.mem_iff.mpr (List.mem_map_of_mem ht)
      obtain ⟨target, htarget, he⟩ := List.mem_map.mp hmem
      exact hgone _ (mem_revised.mpr ⟨target, htarget, rfl⟩) ((hnewId target).trans he)
    · obtain ⟨target, htarget, rfl⟩ := mem_revised.mp ht'
      refine .inl ⟨target, htarget, reviseTarget_new fun old hold he => ?_⟩
      exact hadded old hold (he.trans (hnewId target).symm)
    · obtain ⟨target, htarget, rfl⟩ := mem_revised.mp ht'
      rw [hnewId] at hid
      rw [(revised_selection target).2] at hdiffer
      refine .inl ⟨target, htarget, ((reviseTarget_old hbefore ht hid).2 fun hlists => ?_).1⟩
      exact hdiffer hlists.selection_eq

end

/-! ## The law -/

/-- An update gives every target that stays the revision its selection calls for, and cancels
the queued tasks of the plan exactly when a target changed, where each target that keeps its
selection has its files listed in the stored order, and only there. -/
theorem scope_revision_iff {lower : String → String} {cron : Cron} {p : Desk}
    (hreach : Reach (Desk.step lower cron) (fun _ _ => True) Desk.fresh p) {tenant id : String} {input : PlanInput}
    {now : Time} {after : BackupPlan} {s' : Store}
    (h : run Stmt.exec (update lower cron tenant id input now) p.state.store = (.ok after, s')) :
    (RevisionLaw (p.state.store.planTargets tenant id) (s'.planTargets tenant id) ∧
      QueueLaw p.state.store s' tenant id now) ↔
      ∀ target ∈ input.targets, ∀ t ∈ p.state.store.planTargets tenant id, t.deployId = target.deployId →
        KeepsOrder t.scope target.scope := by
  have hstored := storedSaved_of_reach hreach
  generalize p.state.store = s at hstored h
  obtain ⟨current, plan, hcurrent, hid, hten, hnow, hnormal, hop⟩ := update_ok h
  obtain ⟨hback, hforth⟩ := normalizeTargets_ok hnormal
  have hsaved : SavedTargets lower plan.targets := by
    intro target htarget
    obtain ⟨requested, -, -, hscope⟩ := hback target htarget
    exact ⟨requested.scope, target.scope, hscope, rfl⟩
  have hbefore : (current.targets.map (·.deployId)).Nodup := by
    rw [hcurrent]
    exact planTargets_nodup
  have hafter : (plan.targets.map (·.deployId)).Nodup := by
    have hnodup := updatePlan_nodup hop
    have hids : (applyScopeRevisions plan current).1.targets.map (·.deployId) = plan.targets.map (·.deployId) := by
      show ((plan.targets.map (reviseTarget current)).map (·.1)).map (·.deployId) = _
      rw [List.map_map, List.map_map]
      apply List.map_congr_left
      intro target _
      exact (revised_selection target).1
    rwa [hids] at hnodup
  have hmem : ∀ t, t ∈ s'.planTargets tenant id ↔
      ∃ target ∈ plan.targets, (reviseTarget current target).1 = t := by
    intro t
    rw [planTargets_updated (savedTargets_revised current hsaved) hop hid hten, mem_revised]
  -- the condition, said of the targets as they are saved
  have hcompare : (∀ target ∈ input.targets, ∀ t ∈ s.planTargets tenant id, t.deployId = target.deployId →
      KeepsOrder t.scope target.scope) ↔ ∀ old ∈ current.targets, ∀ target ∈ plan.targets,
        old.deployId = target.deployId → selection old.scope = selection target.scope →
          SameLists old.scope target.scope := by
    rw [hcurrent]
    refine ⟨fun horder old hold target htarget hsame => ?_, fun hlists target htarget t ht hsame => ?_⟩
    · obtain ⟨requested, hrequested, he, hscope⟩ := hback target htarget
      have hkeeps := horder requested hrequested old hold (hsame.trans he)
      exact (keepsOrder_iff (savedScope_planTargets hstored hold) hscope).mp hkeeps
    · obtain ⟨saved, hmemSaved, he, hscope⟩ := hforth target htarget
      refine (keepsOrder_iff (savedScope_planTargets hstored ht) hscope).mpr ?_
      exact hlists t ht saved hmemSaved (hsame.trans he.symm)
  rw [hcompare, ← hcurrent]
  refine ⟨fun ⟨hrevision, _⟩ old hold target htarget hsame hselection => ?_,
    fun hsame => ⟨⟨?_, ?_⟩, ?_⟩⟩
  · obtain ⟨hnewId, hnewSelection⟩ := @revised_selection current target
    have hnew := (hmem _).mpr ⟨target, htarget, rfl⟩
    have hkept := hrevision.kept old hold _ hnew (hsame.trans hnewId.symm) (hselection.trans hnewSelection.symm)
    by_contra hlists
    have hraised := ((reviseTarget_old hbefore hold hsame).2 hlists).2
    omega
  · intro t ht t' ht' he hselection
    obtain ⟨target, htarget, rfl⟩ := (hmem t').mp ht'
    obtain ⟨hnewId, hnewSelection⟩ := @revised_selection current target
    rw [hnewId] at he
    rw [hnewSelection] at hselection
    exact ((reviseTarget_old hbefore ht he).1 (hsame t ht target htarget he hselection)).2
  · intro t ht t' ht' he hselection
    obtain ⟨target, htarget, rfl⟩ := (hmem t').mp ht'
    obtain ⟨hnewId, hnewSelection⟩ := @revised_selection current target
    rw [hnewId] at he
    rw [hnewSelection] at hselection
    exact ((reviseTarget_old hbefore ht he).2 fun hlists => hselection hlists.selection_eq).2
  · have hflag := changed_iff hbefore hafter hsame
    have hchanged : Changed (s.planTargets tenant id) (s'.planTargets tenant id) ↔
        (applyScopeRevisions plan current).2 = true := by
      rw [hflag, ← hcurrent]
      unfold Changed
      simp only [hmem, mem_revised]
    obtain ⟨targets, htables⟩ := Store.updatePlan_ok hop
    have htasks := congrArg Tables.tasks htables
    have hplan : (applyScopeRevisions plan current).1.id = id ∧
        (applyScopeRevisions plan current).1.updatedAt = now := ⟨hid, hnow⟩
    simp only [hplan.1, hplan.2] at htasks
    refine ⟨fun hc => ?_, fun hc => ?_⟩
    · rw [htasks, if_pos (hchanged.mp hc)]
    · rw [htasks, if_neg fun he => hc (hchanged.mpr he)]

/-! ## The files of a plan in two orders -/

def filesPlan (files : List String) : PlanInput :=
  { planOf "MANUAL" "" with targets := [⟨"deploy-a", false, ⟨"CUSTOM", [], files, 0, ""⟩⟩] }

/-- A plan for two files is created. -/
def filesRun : List (Move Request Outside) :=
  [.outside (.library [demoApp] [demoInstance]),
    .start 0 (.create "tenant-a" (filesPlan ["b", "a"]) "subject-a" (some "a") 0)] ++ List.replicate 4 (.next 0)

theorem filesRun_reach : Reach (Desk.step id clockCron) (fun _ _ => True) Desk.fresh (Desk.after filesRun) :=
  @reach_final _ _ (Desk.step id clockCron) _ Desk.fresh (fun _ _ => true) (fun _ _ _ => trivial) _ filesRun rfl
    (by decide +kernel)

/-- It is updated to the same files, listed as they are given. -/
def relisted (files : List String) : Except GoError BackupPlan × Store :=
  run Stmt.exec (update id clockCron "tenant-a" "plan-a" (filesPlan files) hour) (Desk.after filesRun).state.store

theorem scope_revision_same_order : ∃ after s', relisted ["b", "a", "b"] = (.ok after, s') ∧
    ((RevisionLaw ((Desk.after filesRun).state.store.planTargets "tenant-a" "plan-a")
        (s'.planTargets "tenant-a" "plan-a") ∧
      QueueLaw (Desk.after filesRun).state.store s' "tenant-a" "plan-a" hour) ↔
      ∀ target ∈ (filesPlan ["b", "a", "b"]).targets,
        ∀ t ∈ (Desk.after filesRun).state.store.planTargets "tenant-a" "plan-a", t.deployId = target.deployId →
          KeepsOrder t.scope target.scope) := by
  have hok : (relisted ["b", "a", "b"]).1.isOk = true := by decide +kernel
  cases hrun : relisted ["b", "a", "b"] with
  | mk outcome s' =>
    rw [hrun] at hok
    cases outcome with
    | error e => cases hok
    | ok after => exact ⟨after, s', rfl, scope_revision_iff filesRun_reach hrun⟩

/-- The same files in another order get the next revision. -/
theorem reordered_files_raise_revision : ¬∀ p : Desk, Reach (Desk.step id clockCron)
    (fun _ _ => True) Desk.fresh p →
    ∀ (tenant i : String) (input : PlanInput) (now : Time) (after : BackupPlan) (s' : Store),
      run Stmt.exec (update id clockCron tenant i input now) p.state.store = (.ok after, s') →
        RevisionLaw (p.state.store.planTargets tenant i) (s'.planTargets tenant i) ∧
          QueueLaw p.state.store s' tenant i now := by
  intro h
  have hok : (relisted ["a", "b"]).1.isOk = true := by decide +kernel
  have hbefore : (Desk.after filesRun).state.store.planTargets "tenant-a" "plan-a" =
      [⟨"deploy-a", false, ⟨"CUSTOM", [], ["b", "a"], 1, "0 个目录，2 个文件"⟩⟩] := by decide +kernel
  have hafter : (relisted ["a", "b"]).2.planTargets "tenant-a" "plan-a" =
      [⟨"deploy-a", false, ⟨"CUSTOM", [], ["a", "b"], 2, "0 个目录，2 个文件"⟩⟩] := by decide +kernel
  cases hrun : relisted ["a", "b"] with
  | mk outcome s' =>
    rw [hrun] at hok hafter
    cases outcome with
    | error e => cases hok
    | ok after =>
      obtain ⟨⟨hkept, -⟩, -⟩ := h _ filesRun_reach _ _ _ _ after s' hrun
      rw [hbefore, hafter] at hkept
      have hsame : selection ⟨"CUSTOM", [], ["b", "a"], 1, "0 个目录，2 个文件"⟩ =
          selection ⟨"CUSTOM", [], ["a", "b"], 2, "0 个目录，2 个文件"⟩ := by
        ext p
        · rfl
        · rfl
        · simp [selection, or_comm]
      have hrevision := hkept _ (List.mem_singleton_self _) _ (List.mem_singleton_self _) rfl hsame
      exact absurd hrevision (by decide)

end AppBackup.Plans
