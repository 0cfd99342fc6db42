import AppBackup.Persistence.Apart
import AppBackup.Plans.Coherence
import AppBackup.Plans.Progress

/- One call of `RunDue` over several due plans. It returns at the first plan it cannot handle, so
   the due plans behind that one are not handled, however often it is called. Two calls are
   compared here: one on the database as it is, and one where the plans that fail are not due.

   What is proved:
     1. the handling of one plan leaves the rows, batches and next times of the others
        (`runPlan_leaves`, `runMissed_leaves`, `rowsOn_ofPlan`);
     2. the plans that do not fail see the same database in both calls, statement by statement
        (`exec_sameBut`), so they are due in both, in the same order (`SameBut.dueList`);
     3. `unblocked_iff` -- they are handled alike where none of them stands behind one that
        fails, and only there as far as the loop moves each plan it handles on. -/
namespace AppBackup.Plans
open Persistence Persistence.Store Queue Table Threads Threads.Thread

/-- What the handling of a plan leaves of it: its batches, its tasks and its next time. -/
def handled (tenant id : String) (s : Store) : List BatchRow × List TaskRow × List (Option Int) :=
  (s.batches.filter fun b => b.tenantUid == tenant && b.planId == id,
    s.tasks.filter fun t => t.tenantUid == tenant && t.planId == id,
    (s.plans.filter (planIn tenant id)).map (·.nextRunAt))

/-- The plans a call of `RunDue` goes through, in its order. -/
def dueList (tenant : String) (now : Time) (s : Store) : List BackupPlan :=
  if tenant = "" then [] else (s.duePlans tenant now).map fun r => scanPlan r (s.planTargets tenant r.id)

/-! ## A plan leaves the others alone -/

section Frame
variable {tenant id other : String}

theorem planIn_other (hne : id ≠ other) {r : PlanRow} (h : planIn tenant id r = true) :
    planIn tenant other r = false := by
  rw [Bool.eq_false_iff]
  intro h'
  exact hne ((planIn_iff.mp h).2.symm.trans (planIn_iff.mp h').2)

/-- The batch of an expansion belongs to its plan. -/
def BatchOf (id batchId : String) (s : Store) : Prop := ∀ b ∈ s.batches, b.id = batchId → b.planId = id

theorem write_keeps {J : Store → Prop} {op : Op} {basis : Option BackupPlan} {s : Store} (h : J s)
    (hok : ∀ s', op.apply s = .ok s' → J s') : J (Stmt.exec (.write op basis) s).2 := by
  show J (Stmt.commit s (op.apply s)).2
  cases hop : op.apply s with
  | ok s' => exact hok s' hop
  | error e => exact h

theorem handled_eq {s s' : Store} (hb : (s'.batches.filter fun b => b.tenantUid == tenant && b.planId == other) =
      s.batches.filter fun b => b.tenantUid == tenant && b.planId == other)
    (ht : (s'.tasks.filter fun t => t.tenantUid == tenant && t.planId == other) =
      s.tasks.filter fun t => t.tenantUid == tenant && t.planId == other)
    (hp : s'.plans.filter (planIn tenant other) = s.plans.filter (planIn tenant other)) :
    handled tenant other s' = handled tenant other s := by
  unfold handled
  rw [hb, ht, hp]

/-- A statement of an expansion leaves the other plans. -/
theorem handled_fills (hne : id ≠ other) {batchId : String} {c : Stmt}
    (hc : Calls.Fills tenant id batchId c) {s : Store} (hbatch : BatchOf id batchId s) :
    handled tenant other (Stmt.exec c s).2 = handled tenant other s ∧ BatchOf id batchId (Stmt.exec c s).2 := by
  cases c with
  | instance_ tenant' deployId => exact ⟨rfl, hbatch⟩
  | write op basis =>
    refine write_keeps (J := fun s' => handled tenant other s' = handled tenant other s ∧
      BatchOf id batchId s') ⟨rfl, hbatch⟩ fun s' hop => ?_
    cases op with
    | createBackupJob job =>
      have htables := createBackupJob_ok hop
      unfold BatchOf
      rw [htables]
      exact ⟨handled_eq (by rw [htables]) (by rw [htables]) (by rw [htables]), hbatch⟩
    | failBackupJob tenant' job code finished =>
      have htables := (moveJob_ok hop).2
      unfold BatchOf
      rw [htables]
      exact ⟨handled_eq (by rw [htables]) (by rw [htables]) (by rw [htables]), hbatch⟩
    | addTask task now =>
      obtain ⟨hplan, htask, -⟩ := hc
      have htables := addTask_ok hop
      refine ⟨handled_eq ?_ ?_ (by rw [htables]), ?_⟩
      · rw [htables]
        -- the batch whose counters are refreshed is the expanded plan's own
        apply filter_updateWhere_miss
        intro b hb hin
        have hin : b.tenantUid = task.tenantUid ∧ b.id = task.batchId := by
          simpa [batchIn] using hin
        have hbplan : b.planId = id := hbatch b hb (hin.2.trans htask)
        have hother : (b.tenantUid == tenant && b.planId == other) = false := by
          simp [hbplan, hne]
        exact ⟨hother, hother⟩
      · rw [htables]
        have htaskrow : (taskRow task).planId = id := hplan
        simp [List.filter_append, htaskrow, hne]
      · unfold BatchOf
        rw [htables]
        intro b hb hid
        obtain ⟨b₀, hb₀, rfl⟩ := mem_updateWhere.mp hb
        have hkeys : (if batchIn task.tenantUid task.batchId b₀ then
            setCounts (batchCounts (s.tasks ++ [taskRow task]) task.tenantUid task.batchId) now b₀ else b₀).keys =
              b₀.keys := by
          split
          · rfl
          · rfl
        obtain ⟨hkid, -, hkplan, -⟩ := BatchRow.keys_eq.mp hkeys
        exact hkplan.trans (hbatch b₀ hb₀ (hkid.symm.trans hid))
    -- a pause ends waiting tasks of its own plan
    | pausePlanForScope tenant' plan reason =>
      obtain ⟨rfl, rfl⟩ := hc
      have htables := endWaiting_ok hop
      unfold BatchOf
      rw [htables]
      refine ⟨handled_eq (by rw [htables]; rfl) ?_ ?_, hbatch⟩
      · rw [htables]
        apply filter_updateWhere_miss
        intro t _ hin
        have hplan := (waitingTask_iff.mp hin).2.1
        have hother : (t.tenantUid == tenant' && t.planId == other) = false := by
          simp [hplan, hne]
        exact ⟨hother, hother⟩
      · rw [htables]
        apply filter_updateWhere_miss
        intro r _ hin
        exact ⟨planIn_other hne hin, planIn_other hne hin⟩
    | _ => exact hc.elim
  | _ => exact hc.elim

theorem handled_createBatch {batch : BackupBatch} (hne : batch.planId ≠ other) {s s' : Store}
    (h : s.createBatch batch = .ok s') :
    handled tenant other s' = handled tenant other s ∧ BatchOf batch.planId batch.id s' := by
  have htables := createBatch_ok h
  refine ⟨handled_eq ?_ (by rw [htables]) (by rw [htables]), ?_⟩
  · rw [htables]
    have hrow : (batchRow batch).planId = batch.planId := rfl
    simp [List.filter_append, hrow, hne]
  · have hmem : batchRow batch ∈ s'.batches := by
      rw [htables]
      exact List.mem_append_right _ (List.mem_singleton_self _)
    intro b hb hid
    rw [eq_of_key s'.batches_pk hb hmem hid]
    rfl

theorem runPlan_leaves {plan : BackupPlan} (hne : plan.id ≠ other) (trigger : String) (scheduledAt : Time)
    (draws : Draws) :
    Leaves Stmt.exec (handled tenant other) (Calls.runPlan tenant plan trigger scheduledAt draws) := by
  intro s
  unfold Calls.runPlan
  rw [run_result]
  cases randomID "batch" draws.batchId with
  | error e => rfl
  | ok batchId =>
    simp only
    rw [run_attempt, Calls.run_write]
    simp only [Op.apply]
    cases hmade : s.createBatch (planBatch tenant batchId plan trigger scheduledAt draws.now) with
    | ok s' =>
      obtain ⟨hsame, hbatch⟩ : handled tenant other s' = handled tenant other s ∧ BatchOf plan.id batchId s' :=
        handled_createBatch hne hmade
      have hrest : Every (fun c => Calls.Fills tenant plan.id batchId c ∨ ∃ t i, c = .batch t i)
          (do Calls.expandPlan tenant plan (planBatch tenant batchId plan trigger scheduledAt draws.now) draws
              Calls.ofStore (← query (Stmt.batch tenant batchId)) : Program BackupBatch) := by
        have hfills := @Calls.expandPlan_fills tenant plan
          (planBatch tenant batchId plan trigger scheduledAt draws.now) rfl draws
        refine every_bindE (hfills.mono fun c hc => .inl hc) fun _ => ?_
        exact every_bindE (every_query (.inr ⟨_, _, rfl⟩)) fun _ => Calls.every_ofStore _
      refine (run_keep (J := fun s₁ => handled tenant other s₁ = handled tenant other s ∧
        BatchOf plan.id batchId s₁) ?_ hrest ⟨hsame, hbatch⟩).1
      intro c s₁ hc h₁
      obtain hc | ⟨t, i, rfl⟩ := hc
      · obtain ⟨hsame₁, hbatch₁⟩ := handled_fills hne hc h₁.2
        exact ⟨hsame₁.trans h₁.1, hbatch₁⟩
      · exact h₁
    | error e =>
      simp only
      split
      · rename_i heq
        cases heq
      · unfold Calls.existingBatch
        rw [run_query]
        split
        · rfl
        · rfl
      · rfl

theorem unlessConflict_leaves {α V : Type} {view : Store → V} {t : Program α}
    (h : Leaves Stmt.exec view t) : Leaves Stmt.exec view (unlessConflict t) := by
  refine leaves_bindE (leaves_attempt h) fun r => ?_
  split
  · exact leaves_pure _
  · split
    · exact leaves_pure _
    · exact leaves_pure _

theorem runMissed_leaves (cron : Cron) (now : Time) (draws : BackupPlan → Time → Draws) (steps : Nat)
    {plan : BackupPlan} (hne : plan.id ≠ other) :
    Leaves Stmt.exec (handled tenant other) (runMissed cron tenant now draws steps plan) := by
  induction steps generalizing plan with
  | zero => exact leaves_pure _
  | succ steps ih =>
    unfold runMissed
    split
    · exact leaves_pure _
    · next scheduled _ =>
      split
      · exact leaves_pure _
      · refine leaves_bindE (leaves_pure _) fun next => leaves_bindE ?_ fun stop => ?_
        · unfold handle
          split
          · refine leaves_bindE (unlessConflict_leaves ?_) fun _ => leaves_pure _
            refine leaves_bindE (leaves_pure _) fun batchId s => ?_
            rw [Calls.run_write]
            simp only [Op.apply]
            cases hmade : s.createBatch (skippedBatch tenant batchId plan scheduled (draws plan scheduled).now) with
            | error e => rfl
            | ok s' => exact (handled_createBatch hne hmade).1
          · refine leaves_bindE (unlessConflict_leaves (runPlan_leaves hne _ _ _)) fun _ => ?_
            refine leaves_bindE (fun s => ?_) fun _ => leaves_pure _
            rw [run_reads (readPlan_every fun _ h => h)]
        · split
          · exact leaves_pure _
          · refine leaves_bindE (fun s => ?_) fun _ => ih hne
            rw [Calls.run_write]
            refine handled_eq rfl rfl ?_
            apply filter_updateWhere_miss
            intro r _ hin
            exact ⟨planIn_other hne hin, planIn_other hne hin⟩

end Frame

/-! ## Two databases that differ in the rows of the plans that fail -/

/-- The databases differ in the plan rows of `fails` alone. -/
structure SameBut (fails : String → Bool) (s s' : Store) : Prop where
  tables : WithPlans s'.plans s s'
  plans : (s'.plans.filter fun r => !fails r.id) = s.plans.filter fun r => !fails r.id

section Pair
variable {fails : String → Bool} {tenant id : String} {s s' : Store}

theorem SameBut.write (h : SameBut fails s s') {op : Op} {basis : Option BackupPlan}
    (hbeside : Beside (op.plansAfter s'.plans) (op.apply s) (op.apply s'))
    (hplans : ((op.plansAfter s'.plans).filter fun r => !fails r.id) =
      (op.plansAfter s.plans).filter fun r => !fails r.id) :
    (Stmt.exec (.write op basis) s).1 = (Stmt.exec (.write op basis) s').1 ∧
      SameBut fails (Stmt.exec (.write op basis) s).2 (Stmt.exec (.write op basis) s').2 := by
  show (Stmt.commit s (op.apply s)).1 = (Stmt.commit s' (op.apply s')).1 ∧
    SameBut fails (Stmt.commit s (op.apply s)).2 (Stmt.commit s' (op.apply s')).2
  cases hs : op.apply s with
  | error e =>
    cases hs' : op.apply s' with
    | error e' =>
      rw [hs, hs'] at hbeside
      have he : e = e' := hbeside
      exact ⟨congrArg Except.error he, h⟩
    | ok s₁' =>
      rw [hs, hs'] at hbeside
      exact hbeside.elim
  | ok s₁ =>
    cases hs' : op.apply s' with
    | error e' =>
      rw [hs, hs'] at hbeside
      exact hbeside.elim
    | ok s₁' =>
      rw [hs, hs'] at hbeside
      have hrows := (Op.apply_frame hs).1
      have hrows' := (Op.apply_frame hs').1
      refine ⟨rfl, ?_, ?_⟩
      · show WithPlans s₁'.plans s₁ s₁'
        rw [hrows']
        exact hbeside
      · show (s₁'.plans.filter _) = s₁.plans.filter _
        rw [hrows, hrows']
        exact hplans

theorem SameBut.find (h : SameBut fails s s') (hid : fails id = false) :
    s'.plans.find? (planIn tenant id) = s.plans.find? (planIn tenant id) := by
  have hkept : ∀ rows : List PlanRow, rows.find? (planIn tenant id) =
      (rows.filter fun r => !fails r.id).find? (planIn tenant id) := by
    intro rows
    rw [List.find?_filter]
    congr 1
    funext r
    cases hin : planIn tenant id r with
    | false => simp
    | true => simp [(planIn_iff.mp hin).2, hid]
  rw [hkept s'.plans, h.plans, ← hkept]

/-- The statements of a plan that does not fail see no difference. -/
theorem exec_sameBut (hid : fails id = false) {c : Stmt} (hc : Calls.OfPlan tenant id c)
    (h : SameBut fails s s') : (Stmt.exec c s).1 = (Stmt.exec c s').1 ∧
      SameBut fails (Stmt.exec c s).2 (Stmt.exec c s').2 := by
  have hupdate : ∀ (p : PlanRow → Bool) (f : PlanRow → PlanRow), (∀ r, (f r).id = r.id) →
      ((updateWhere p f s'.plans).filter fun r => !fails r.id) =
        (updateWhere p f s.plans).filter fun r => !fails r.id := by
    intro p f hf
    have hkeep : ∀ r, (!fails (f r).id) = !fails r.id := fun r => by rw [hf r]
    rw [filter_updateWhere _ hkeep, filter_updateWhere _ hkeep, h.plans]
  cases c with
  | write op basis =>
    cases op with
    | createBatch batch => exact h.write (h.tables.createBatch batch) h.plans
    | addTask task now => exact h.write (h.tables.addTask task now) h.plans
    | createBackupJob job => exact h.write (h.tables.createBackupJob job) h.plans
    | failBackupJob tenant' job code finished =>
      exact h.write (h.tables.failBackupJob tenant' job code finished) h.plans
    | pausePlanForScope tenant' plan reason =>
      exact h.write ((h.tables.updatePlans _ _ _).endWaiting ..) (hupdate _ _ fun _ => rfl)
    | advancePlan tenant' plan scheduledAt next updated =>
      exact h.write (h.tables.updatePlans _ _ _) (hupdate _ _ fun _ => rfl)
    | _ => exact hc.elim
  | planRow tenant' plan =>
    obtain ⟨rfl, rfl⟩ := hc
    refine ⟨?_, h⟩
    simp only [Stmt.exec]
    rw [h.find hid]
  | planTargets tenant' plan =>
    refine ⟨?_, h⟩
    show s.planTargets tenant' plan = s'.planTargets tenant' plan
    unfold Store.planTargets
    rw [h.tables]
  | instance_ tenant' deployId =>
    refine ⟨?_, h⟩
    show s.instance tenant' deployId = s'.instance tenant' deployId
    unfold Store.instance Store.findInstance
    rw [h.tables]
  | recentBatches tenant' limit =>
    refine ⟨?_, h⟩
    show s.recentBatches tenant' limit = s'.recentBatches tenant' limit
    unfold Store.recentBatches
    rw [h.tables]
  | batch tenant' batchId =>
    refine ⟨?_, h⟩
    show s.batch tenant' batchId = s'.batch tenant' batchId
    unfold Store.batch
    rw [h.tables]
  | _ => exact hc.elim

theorem SameBut.handled (h : SameBut fails s s') (hid : fails id = false) :
    handled tenant id s' = handled tenant id s := by
  refine handled_eq (by rw [h.tables]) (by rw [h.tables]) ?_
  have hkept : ∀ rows : List PlanRow, rows.filter (planIn tenant id) =
      (rows.filter fun r => !fails r.id).filter (planIn tenant id) := by
    intro rows
    rw [List.filter_filter]
    congr 1
    funext r
    cases hin : planIn tenant id r with
    | false => simp
    | true => simp [(planIn_iff.mp hin).2, hid]
  rw [hkept s'.plans, h.plans, ← hkept]

instance : Std.Total Store.dueBefore where
  total a b := by
    unfold Store.dueBefore
    obtain h | h | h := lt_trichotomy (a.nextRunAt.getD 0) (b.nextRunAt.getD 0)
    · exact .inl (.inl h)
    · exact (le_total a.id b.id).imp (fun hid => .inr ⟨h, hid⟩) fun hid => .inr ⟨h.symm, hid⟩
    · exact .inr (.inl h)

instance : IsTrans PlanRow Store.dueBefore where
  trans a b c := by
    unfold Store.dueBefore
    intro hab hbc
    obtain hab | ⟨hab, hids⟩ := hab
    · obtain hbc | ⟨hbc, -⟩ := hbc
      · exact .inl (hab.trans hbc)
      · exact .inl (hbc ▸ hab)
    · obtain hbc | ⟨hbc, hids'⟩ := hbc
      · exact .inl (hab ▸ hbc)
      · exact .inr ⟨hab.trans hbc, hids.trans hids'⟩

/-- Where the plans that fail are not due, the other due plans are the same, in the same order. -/
theorem SameBut.duePlans (h : SameBut fails s s') {now : Time}
    (hrest : ∀ r ∈ s'.plans, fails r.id = true → due tenant now r = false) :
    s'.duePlans tenant now = (s.duePlans tenant now).filter fun r => !fails r.id := by
  have hdue : s'.plans.filter (due tenant now) = (s.plans.filter (due tenant now)).filter fun r => !fails r.id := by
    rw [List.filter_filter]
    have hswap : (fun r : PlanRow => (!fails r.id) && due tenant now r) =
        fun r => due tenant now r && !fails r.id := by
      funext r
      exact Bool.and_comm ..
    rw [hswap, ← List.filter_filter, ← h.plans, List.filter_filter]
    apply List.filter_congr
    intro r hr
    cases hfails : fails r.id with
    | false => simp
    | true => simp [hrest r hr hfails]
  have hperm : (s'.duePlans tenant now).Perm ((s.duePlans tenant now).filter fun r => !fails r.id) := by
    refine (List.perm_insertionSort _ _).trans ?_
    rw [hdue]
    exact ((List.perm_insertionSort _ _).filter _).symm
  refine hperm.eq_of_pairwise ?_ (List.pairwise_insertionSort _ _)
    ((List.pairwise_insertionSort _ _).sublist List.filter_sublist)
  intro a b ha hb hab hba
  have hmem : ∀ r ∈ s'.duePlans tenant now, r ∈ s'.plans := by
    intro r hr
    exact (List.mem_filter.mp ((List.perm_insertionSort _ _).mem_iff.mp hr)).1
  refine eq_of_key s'.plans_pk (hmem a ha) (hmem b (hperm.mem_iff.mpr hb)) ?_
  obtain hlt | ⟨htime, hids⟩ := hab
  · obtain hlt' | ⟨htime', -⟩ := hba
    · exact absurd hlt' hlt.asymm
    · exact absurd htime' hlt.ne'
  · obtain hlt' | ⟨-, hids'⟩ := hba
    · exact absurd htime hlt'.ne'
    · exact le_antisymm hids hids'

theorem SameBut.dueList (h : SameBut fails s s') {now : Time}
    (hrest : ∀ r ∈ s'.plans, fails r.id = true → due tenant now r = false) :
    dueList tenant now s' = (dueList tenant now s).filter fun p => !fails p.id := by
  unfold Plans.dueList
  split
  · rfl
  rw [h.duePlans hrest, List.filter_map]
  have htargets : ∀ id, s'.planTargets tenant id = s.planTargets tenant id := by
    intro id
    unfold Store.planTargets
    rw [h.tables]
  simp only [htargets]
  rfl

end Pair

/-! ## The handling of one plan moves its next time -/

section Moves
variable {cron : Cron} {occurs : String → String → Time → Prop} {tenant : String} {now scheduled : Time}
  {draws : BackupPlan → Time → Draws} {plan : BackupPlan} {s s' : Store}

/-- The rows of the plan are on. -/
def RowsOn (tenant id : String) (s : Store) : Prop := ∀ r ∈ s.plans, planIn tenant id r = true → r.enabled = true

/-- The rows of the plan are on, or were paused for a scope. -/
def RowsOnOrPaused (tenant id : String) (s : Store) : Prop :=
  ∀ r ∈ s.plans, planIn tenant id r = true → r.enabled = true ∨
  (r.nextRunAt = none ∧ r.pauseReason.isSome = true)

theorem createBatch_plans (batch : BackupBatch) (s : Store) :
    (Stmt.exec (.write (.createBatch batch) none) s).2.plans = s.plans := by
  obtain hplans | hplans := exec_plans (.createBatch batch) none s
  · exact hplans
  · exact hplans

theorem runPlan_rows (hon : RowsOn tenant plan.id s) (trigger : String) (d : Draws) :
    RowsOnOrPaused tenant plan.id (run Stmt.exec (Calls.runPlan tenant plan trigger scheduled d) s).2 := by
  have hcalls : Every (fun c => (∃ batch, c = .write (.createBatch batch) none) ∨ Calls.Expands tenant plan.id c)
      (Calls.runPlan tenant plan trigger scheduled d) :=
    Calls.runPlan_every (fun _ => .inl ⟨_, rfl⟩) fun _ hc _ => .inr hc
  refine run_keep (J := RowsOnOrPaused tenant plan.id) ?_ hcalls fun r hr hin => .inl (hon r hr hin)
  intro c s₁ hc h₁
  obtain ⟨batch, rfl⟩ | hc := hc
  · unfold RowsOnOrPaused
    rw [createBatch_plans]
    exact h₁
  · obtain hplans | ⟨reason, updated, hplans⟩ := exec_expands hc s₁
    · unfold RowsOnOrPaused
      rw [hplans]
      exact h₁
    · intro r hr hin
      rw [hplans] at hr
      obtain ⟨r₀, hr₀, rfl⟩ := mem_updateWhere.mp hr
      by_cases hin₀ : planIn tenant plan.id r₀ = true
      · rw [if_pos hin₀]
        exact .inr ⟨rfl, rfl⟩
      · rw [if_neg hin₀] at hin
        exact absurd hin hin₀

/-- What goes on after a call whose conflicts count as done goes on from what the call left. -/
theorem run_unlessConflict_ok {α β : Type} {t : Program α} {f : Unit → Program β} {b : β} {s s' : Store}
    (h : run Stmt.exec (unlessConflict t >>= f : Program β) s = (.ok b, s')) :
    run Stmt.exec (f ()) (run Stmt.exec t s).2 = (.ok b, s') := by
  unfold unlessConflict at h
  rw [run_bindE, run_attempt] at h
  generalize run Stmt.exec t s = outcome at h ⊢
  obtain ⟨r, s₁⟩ := outcome
  cases r with
  | ok a => exact h
  | error e =>
    by_cases hconflict : e.isConflict = true
    · simp only [hconflict, if_true] at h
      exact h
    · simp only [hconflict, if_false, Bool.false_eq_true] at h
      cases h

/-- A turn that breaks off leaves the plan without a next time; one that goes on leaves it on. -/
theorem handle_rows {d : Draws} {stop : Bool} (hon : RowsOn tenant plan.id s)
    (h : run Stmt.exec (handle tenant plan scheduled now d) s = (.ok stop, s')) :
    ∀ r ∈ s'.plans, planIn tenant plan.id r = true →
      (stop = true → r.nextRunAt = none) ∧ (stop = false → r.enabled = true) := by
  unfold handle at h
  split at h
  · have hrows : RowsOn tenant plan.id (run Stmt.exec (recordSkipped tenant plan scheduled d) s).2 := by
      have hcalls : Every (fun c => ∃ batch, c = .write (.createBatch batch) none)
          (recordSkipped tenant plan scheduled d) :=
        every_bindE (every_result _) fun _ => Calls.every_write ⟨_, rfl⟩
      refine run_keep (J := RowsOn tenant plan.id) ?_ hcalls hon
      intro c s₁ ⟨batch, hc⟩ h₁
      subst hc
      unfold RowsOn
      rw [createBatch_plans]
      exact h₁
    obtain ⟨hstop, rfl⟩ := Prod.mk.inj (run_unlessConflict_ok h)
    obtain rfl := Except.ok.inj hstop
    exact fun r hr hin => ⟨fun hstop => absurd hstop (by decide), fun _ => hrows r hr hin⟩
  · have hrows : RowsOnOrPaused tenant plan.id
        (run Stmt.exec (Calls.runPlan tenant plan "scheduled" scheduled d) s).2 := runPlan_rows hon "scheduled" d
    have h := run_unlessConflict_ok h
    generalize (run Stmt.exec (Calls.runPlan tenant plan "scheduled" scheduled d) s).2 = s₁ at h hrows
    rw [run_bindE] at h
    have hstate := run_readPlan_state tenant plan.id s₁
    have hread := fun r hr hin => @run_readPlan tenant plan.id s₁ r hr hin
    generalize run Stmt.exec (readPlan tenant plan.id) s₁ = outcome at h hstate hread
    obtain ⟨latest, s₂⟩ := outcome
    obtain rfl : s₂ = s₁ := hstate
    cases latest with
    | error e => cases h
    | ok latest =>
      obtain ⟨hstop, rfl⟩ := Prod.mk.inj h
      obtain rfl := Except.ok.inj hstop
      intro r hr hin
      obtain rfl := Except.ok.inj (hread r hr hin)
      have henabled : (scanPlan r (s₂.planTargets tenant plan.id)).enabled = r.enabled := rfl
      have hreason : (scanPlan r (s₂.planTargets tenant plan.id)).pauseReason = r.pauseReason := rfl
      rw [henabled, hreason]
      obtain hon | ⟨hnone, hpaused⟩ := hrows r hr hin
      · simp [hon]
      · simp [hnone, hpaused]

theorem turn_rows {next : Option BackupPlan} (hon : RowsOn tenant plan.id s)
    (h : run Stmt.exec (turn cron tenant now draws plan scheduled) s = (.ok next, s')) :
    ∀ r ∈ s'.plans, planIn tenant plan.id r = true →
      (next = none → r.nextRunAt = none) ∧ (next ≠ none → r.enabled = true) := by
  unfold turn at h
  rw [run_result] at h
  cases hnext : nextRun cron plan scheduled with
  | error e =>
    rw [hnext] at h
    cases h
  | ok computed =>
    rw [hnext] at h
    simp only at h
    rw [run_bindE] at h
    have hrows := fun stop s₁ => @handle_rows tenant now scheduled plan s s₁ (draws plan scheduled) stop hon
    generalize run Stmt.exec (handle tenant plan scheduled now (draws plan scheduled)) s = outcome at h hrows
    obtain ⟨stop, s₁⟩ := outcome
    cases stop with
    | error e => cases h
    | ok stop =>
      have hrows := hrows stop s₁ rfl
      cases stop with
      | true =>
        obtain ⟨hnext, rfl⟩ := Prod.mk.inj h
        obtain rfl := Except.ok.inj hnext
        exact fun r hr hin => ⟨fun _ => (hrows r hr hin).1 rfl, fun hsome => absurd rfl hsome⟩
      | false =>
        simp only [Bool.false_eq_true, if_false] at h
        rw [Calls.run_write_bind] at h
        obtain ⟨hnext, rfl⟩ := Prod.mk.inj h
        obtain rfl := Except.ok.inj hnext
        intro r hr hin
        refine ⟨fun hnone => absurd hnone (Option.some_ne_none _), fun _ => ?_⟩
        obtain ⟨r₀, hr₀, rfl⟩ := mem_updateWhere.mp hr
        by_cases hin₀ : planIn tenant plan.id r₀ = true
        · rw [if_pos hin₀]
          exact (hrows r₀ hr₀ hin₀).2 rfl
        · rw [if_neg hin₀] at hin
          exact absurd hin hin₀

theorem run_runMissed_done (steps : Nat) (h : ∀ t, plan.nextRunAt = some t → now < t) :
    run Stmt.exec (runMissed cron tenant now draws steps plan) s = (.ok (), s) := by
  cases steps with
  | zero => rfl
  | succ steps =>
    unfold runMissed
    cases hnext : plan.nextRunAt with
    | none => rfl
    | some t =>
      simp only
      rw [if_pos (h t hnext)]
      rfl

theorem rows_none {id : String}
    (h : ∀ r ∈ s.plans, planIn tenant id r = true → r.nextRunAt = none) :
    ∀ r ∈ s.plans, planIn tenant id r = true →
      ∀ seconds, r.nextRunAt = some seconds → unix scheduled < seconds := by
  intro r hr hin seconds hseconds
  rw [h r hr hin] at hseconds
  cases hseconds

theorem rows_later {id : String} {next : Option Time} (hlater : ∀ t, next = some t → unix scheduled < unix t)
    (h : ∀ r ∈ s.plans, planIn tenant id r = true → r.nextRunAt = nullableUnix next) :
    ∀ r ∈ s.plans, planIn tenant id r = true →
      ∀ seconds, r.nextRunAt = some seconds → unix scheduled < seconds := by
  intro r hr hin seconds hseconds
  rw [h r hr hin] at hseconds
  obtain ⟨t, ht, rfl⟩ := Option.map_eq_some_iff.mp hseconds
  exact hlater t ht

/-- The first turn of a loop that goes through: it breaks off, or goes on with a later time. -/
theorem firstTurn (hcron : cron.Searches occurs) {steps : Nat} (hfires : ∀ t, ¬Spent cron plan t)
    (hnext : plan.nextRunAt = some scheduled) (hdue : scheduled ≤ now) (hon : RowsOn tenant plan.id s)
    (h : run Stmt.exec (runMissed cron tenant now draws (steps + 1) plan) s = (.ok (), s')) :
    (∀ r ∈ s'.plans, planIn tenant plan.id r = true → r.nextRunAt = none) ∨
      ∃ next s₁, RowsOn tenant plan.id s₁ ∧ (∀ t, next = some t → unix scheduled < unix t) ∧
        (∀ r ∈ s₁.plans, planIn tenant plan.id r = true → r.nextRunAt = nullableUnix next) ∧
        run Stmt.exec (runMissed cron tenant now draws steps
          { plan with lastScheduledAt := some scheduled, nextRunAt := next }) s₁ = (.ok (), s') := by
  rw [run_runMissed steps hnext hdue] at h
  generalize hturn : run Stmt.exec (turn cron tenant now draws plan scheduled) s = outcome at h
  obtain ⟨copy, s₁⟩ := outcome
  cases copy with
  | error e => cases h
  | ok copy =>
    cases copy with
    | none =>
      obtain ⟨-, rfl⟩ := Prod.mk.inj h
      exact .inl fun r hr hin => (turn_rows hon hturn r hr hin).1 rfl
    | some copy =>
      obtain ⟨next, hcomputed, rfl, hrow⟩ := turn_ok hturn
      refine .inr ⟨next, s₁, fun r hr hin => ?_, fun t ht => ?_, hrow, h⟩
      · exact (turn_rows hon hturn r hr hin).2 (Option.some_ne_none _)
      · exact unix_lt_of_whole (hcron.whole_next hcomputed t ht) (hcron.next_later hcomputed (hfires _) t ht)

/-- A due plan that `Next` always finds an occurrence for is left with a later next time, or
with none. -/
theorem runMissed_moves (hcron : cron.Searches occurs) (steps : Nat) (hfires : ∀ t, ¬Spent cron plan t)
    (hnext : plan.nextRunAt = some scheduled) (hdue : scheduled ≤ now) (hon : RowsOn tenant plan.id s)
    (h : run Stmt.exec (runMissed cron tenant now draws (steps + 1) plan) s = (.ok (), s')) :
    ∀ r ∈ s'.plans, planIn tenant plan.id r = true →
      ∀ seconds, r.nextRunAt = some seconds → unix scheduled < seconds := by
  induction steps generalizing plan scheduled s with
  | zero =>
    obtain hnone | ⟨next, s₁, -, hlater, hrow, hrest⟩ := firstTurn hcron hfires hnext hdue hon h
    · exact rows_none hnone
    · obtain ⟨-, rfl⟩ := Prod.mk.inj hrest
      exact rows_later hlater hrow
  | succ steps ih =>
    obtain hnone | ⟨next, s₁, hon₁, hlater, hrow, hrest⟩ := firstTurn hcron hfires hnext hdue hon h
    · exact rows_none hnone
    · by_cases hstill : ∃ t, next = some t ∧ t ≤ now
      · obtain ⟨t, rfl, hle⟩ := hstill
        have hrows := @ih t { plan with lastScheduledAt := some scheduled, nextRunAt := some t } s₁
          hfires rfl hle hon₁ hrest
        intro r hr hin seconds hseconds
        exact (hlater t rfl).trans (hrows r hr hin seconds hseconds)
      · rw [run_runMissed_done] at hrest
        · obtain ⟨-, rfl⟩ := Prod.mk.inj hrest
          exact rows_later hlater hrow
        · intro t ht
          push Not at hstill
          exact hstill t ht

end Moves

/-! ## Two calls of `RunDue` -/

section TwoCalls
variable {cron : Cron} {tenant : String} {now : Time} {draws : BackupPlan → Time → Draws}
  {fails : String → Bool} {s s' : Store}

theorem run_readTargets (rows : List PlanRow) (s : Store) : run Stmt.exec (readTargets tenant rows) s =
    (.ok (rows.map fun r => scanPlan r (s.planTargets tenant r.id)), s) := by
  induction rows with
  | nil => rfl
  | cons r rest ih =>
    unfold readTargets
    rw [run_query, run_bindE]
    have hstate : (Stmt.exec (.planTargets tenant r.id) s).2 = s := rfl
    rw [hstate, ih]
    rfl

theorem run_runDue (s : Store) : run Stmt.exec (runDue cron tenant now draws) s =
    run Stmt.exec (each (runMissed cron tenant now draws 128) (dueList tenant now s)) s := by
  unfold runDue dueList
  by_cases htenant : tenant = ""
  · rw [if_pos htenant, if_pos htenant]
    rfl
  · rw [if_neg htenant, if_neg htenant, run_query, run_bindE]
    have hread : run Stmt.exec (readTargets tenant (Stmt.exec (.duePlans tenant now) s).1)
        (Stmt.exec (.duePlans tenant now) s).2 =
          (.ok ((s.duePlans tenant now).map fun r => scanPlan r (s.planTargets tenant r.id)), s) :=
      run_readTargets (s.duePlans tenant now) s
    rw [hread]

theorem runMissed_ofPlan (steps : Nat) (plan : BackupPlan) :
    Every (Calls.OfPlan tenant plan.id) (runMissed cron tenant now draws steps plan) :=
  runMissed_every (fun _ ht hid => ⟨ht, hid⟩) (fun _ _ hc => hc) (fun _ _ _ _ _ => ⟨rfl, rfl⟩) steps plan rfl

theorem each_sameBut {plans : List BackupPlan} (hplans : ∀ p ∈ plans, fails p.id = false)
    (h : SameBut fails s s') :
    (run Stmt.exec (each (runMissed cron tenant now draws 128) plans) s).1 =
        (run Stmt.exec (each (runMissed cron tenant now draws 128) plans) s').1 ∧
      SameBut fails (run Stmt.exec (each (runMissed cron tenant now draws 128) plans) s).2
        (run Stmt.exec (each (runMissed cron tenant now draws 128) plans) s').2 := by
  have hcalls : Every (fun c => ∃ id, fails id = false ∧ Calls.OfPlan tenant id c)
      (each (runMissed cron tenant now draws 128) plans) := by
    refine every_each plans fun p hp => (runMissed_ofPlan 128 p).mono fun c hc => ?_
    exact ⟨p.id, hplans p hp, hc⟩
  refine run_related ?_ hcalls h
  intro c s₁ s₁' ⟨id, hid, hc⟩ h₁
  exact exec_sameBut hid hc h₁

/-- No plan stands behind one that fails, unless it fails itself. -/
def NoneBehind (fails : String → Bool) (plans : List BackupPlan) : Prop :=
  plans.Pairwise fun f p => fails f.id = true → fails p.id = true

theorem NoneBehind.split {plans : List BackupPlan} (h : NoneBehind fails plans) :
    plans = (plans.filter fun p => !fails p.id) ++ plans.filter fun p => fails p.id := by
  induction plans with
  | nil => rfl
  | cons p rest ih =>
    obtain ⟨hp, hrest⟩ := List.pairwise_cons.mp h
    cases hfails : fails p.id with
    | false =>
      simp only [List.filter_cons, hfails, Bool.not_false, if_true, Bool.false_eq_true, if_false, List.cons_append]
      exact congrArg (p :: ·) (ih hrest)
    | true =>
      have hall : ∀ q ∈ rest, fails q.id = true := fun q hq => hp q hq hfails
      have hnone : (rest.filter fun q => !fails q.id) = [] := by
        rw [List.filter_eq_nil_iff]
        intro q hq
        simp [hall q hq]
      have hsame : (rest.filter fun q => fails q.id) = rest := List.filter_eq_self.mpr hall
      simp [hfails, hnone, hsame]

theorem exists_behind {plans : List BackupPlan} (h : ¬NoneBehind fails plans) :
    ∃ done f rest q, plans = done ++ f :: rest ∧ (∀ p ∈ done, fails p.id = false) ∧ fails f.id = true ∧
      q ∈ rest ∧ fails q.id = false := by
  induction plans with
  | nil => exact absurd List.Pairwise.nil h
  | cons p rest ih =>
    cases hfails : fails p.id with
    | true =>
      have hsome : ∃ q ∈ rest, fails q.id = false := by
        by_contra hall
        push Not at hall
        have hall : ∀ q ∈ rest, fails q.id = true := fun q hq => by simpa using hall q hq
        exact h (List.pairwise_cons.mpr ⟨fun q hq _ => hall q hq,
          List.Pairwise.imp_of_mem (fun _ hq _ _ => hall _ hq) (List.pairwise_of_forall fun _ _ => trivial)⟩)
      obtain ⟨q, hq, hok⟩ := hsome
      exact ⟨[], p, rest, q, rfl, fun _ hnil => absurd hnil List.not_mem_nil, hfails, hq, hok⟩
    | false =>
      have hrest : ¬NoneBehind fails rest := by
        intro hrest
        refine h (List.pairwise_cons.mpr ⟨fun q _ hp => ?_, hrest⟩)
        rw [hfails] at hp
        cases hp
      obtain ⟨done, f, rest', q, rfl, hdone, hf, hq, hok⟩ := ih hrest
      refine ⟨p :: done, f, rest', q, rfl, fun p' hp' => ?_, hf, hq, hok⟩
      obtain rfl | hp' := List.mem_cons.mp hp'
      · exact hfails
      · exact hdone p' hp'

/-- `fails` tells which plans fail. On `s'` they are not due, and a call goes through; on `s` the
first of them that a call comes to cannot be handled. -/
structure Assigned (cron : Cron) (tenant : String) (now : Time) (draws : BackupPlan → Time → Draws)
    (fails : String → Bool) (s s' : Store) : Prop where
  same : SameBut fails s s'
  rest : ∀ r ∈ s'.plans, fails r.id = true → due tenant now r = false
  others : (run Stmt.exec (runDue cron tenant now draws) s').1 = .ok ()
  first : ∀ done f rest, dueList tenant now s = done ++ f :: rest → (∀ p ∈ done, fails p.id = false) →
    fails f.id = true → ∃ e, (run Stmt.exec (runMissed cron tenant now draws 128 f)
      (run Stmt.exec (each (runMissed cron tenant now draws 128) done) s).2).1 = .error e

/-- Each due plan that does not fail is handled as where the others are not due. -/
def Unblocked (cron : Cron) (tenant : String) (now : Time) (draws : BackupPlan → Time → Draws)
    (fails : String → Bool) (s s' : Store) : Prop :=
  ∀ q ∈ dueList tenant now s, fails q.id = false →
    handled tenant q.id (run Stmt.exec (runDue cron tenant now draws) s).2 =
      handled tenant q.id (run Stmt.exec (runDue cron tenant now draws) s').2

theorem Assigned.dueList (h : Assigned cron tenant now draws fails s s') :
    dueList tenant now s' = (dueList tenant now s).filter fun p => !fails p.id := h.same.dueList h.rest

theorem unblocked_of_noneBehind (h : Assigned cron tenant now draws fails s s')
    (hlist : NoneBehind fails (dueList tenant now s)) : Unblocked cron tenant now draws fails s s' := by
  intro q _ hok
  have hothers := h.others
  rw [run_runDue, h.dueList] at hothers
  rw [run_runDue, run_runDue, h.dueList]
  have hkept : ∀ p ∈ (Plans.dueList tenant now s).filter (fun p => !fails p.id), fails p.id = false := by
    intro p hp
    simpa using (List.mem_filter.mp hp).2
  have hfailing : ∀ p ∈ (Plans.dueList tenant now s).filter (fun p => fails p.id), p.id ≠ q.id := by
    intro p hp hid
    have hp := (List.mem_filter.mp hp).2
    rw [hid, hok] at hp
    cases hp
  have hpair := @each_sameBut cron tenant now draws fails s s' _ hkept h.same
  have hsplit := hlist.split
  generalize (Plans.dueList tenant now s).filter (fun p => !fails p.id) = kept at hothers hpair hsplit ⊢
  generalize (Plans.dueList tenant now s).filter (fun p => fails p.id) = failing at hfailing hsplit
  rw [hsplit, run_each_append]
  generalize run Stmt.exec (each (runMissed cron tenant now draws 128) kept) s = outcome at hpair ⊢
  generalize run Stmt.exec (each (runMissed cron tenant now draws 128) kept) s' = outcome' at hpair hothers ⊢
  obtain ⟨r, s₁⟩ := outcome
  obtain ⟨r', s₁'⟩ := outcome'
  obtain ⟨hresult, hsame⟩ := hpair
  obtain rfl : r' = .ok () := hothers
  obtain rfl : r = .ok () := hresult
  have hrest : handled tenant q.id (run Stmt.exec (each (runMissed cron tenant now draws 128) failing) s₁).2 =
      handled tenant q.id s₁ :=
    leaves_each failing (fun p hp => runMissed_leaves cron now draws 128 (hfailing p hp)) s₁
  exact hrest.trans (hsame.handled hok).symm

theorem dueList_nodup (s : Store) : ((dueList tenant now s).map (·.id)).Nodup := by
  unfold dueList
  split
  · exact List.nodup_nil
  · rw [List.map_map]
    refine ((List.perm_insertionSort _ _).map _).nodup_iff.mpr ?_
    exact s.plans_pk.sublist (List.filter_sublist.map _)

theorem dueList_row {plan : BackupPlan} (h : plan ∈ dueList tenant now s) :
    ∃ r ∈ s.plans, planIn tenant plan.id r = true ∧ r.enabled = true ∧ plan.nextRunAt = fromUnix r.nextRunAt ∧
      ∃ seconds, r.nextRunAt = some seconds ∧ seconds ≤ unix now := by
  unfold dueList at h
  split at h
  · cases h
  · obtain ⟨r, hr, rfl⟩ := List.mem_map.mp h
    obtain ⟨hmem, hdue⟩ := List.mem_filter.mp ((List.perm_insertionSort _ _).mem_iff.mp hr)
    simp only [due, Bool.and_eq_true, beq_iff_eq, Option.any_eq_true, decide_eq_true_eq] at hdue
    obtain ⟨⟨hten, hon⟩, seconds, hsome, hle⟩ := hdue
    exact ⟨r, hmem, planIn_iff.mpr ⟨hten, rfl⟩, hon, rfl, seconds, hsome, hle⟩

/-- The handling of a plan leaves the rows of the others on. -/
theorem rowsOn_ofPlan {id other : String} (hne : id ≠ other) {c : Stmt} (hc : Calls.OfPlan tenant id c)
    (h : RowsOn tenant other s) : RowsOn tenant other (Stmt.exec c s).2 := by
  have hupdate : ∀ f : PlanRow → PlanRow, ∀ rows : List PlanRow,
      (∀ r ∈ rows, planIn tenant other r = true → r.enabled = true) →
      (∀ r, (f r).id = r.id) →
      ∀ r ∈ updateWhere (planIn tenant id) f rows, planIn tenant other r = true → r.enabled = true := by
    intro f rows hrows hf r hr hin
    obtain ⟨r₀, hr₀, rfl⟩ := mem_updateWhere.mp hr
    by_cases hin₀ : planIn tenant id r₀ = true
    · rw [if_pos hin₀] at hin
      have hid := (planIn_iff.mp hin).2
      rw [hf r₀] at hid
      exact absurd ((planIn_iff.mp hin₀).2.symm.trans hid) hne
    · rw [if_neg hin₀] at hin ⊢
      exact hrows r₀ hr₀ hin
  cases c with
  | write op basis =>
    obtain hplans | hplans := exec_plans op basis s
    · unfold RowsOn
      rw [hplans]
      cases op with
      | pausePlanForScope tenant' plan reason =>
        obtain ⟨rfl, rfl⟩ := hc
        exact hupdate _ _ h fun _ => rfl
      | advancePlan tenant' plan scheduledAt next updated =>
        obtain ⟨rfl, rfl⟩ := hc
        exact hupdate _ _ h fun _ => rfl
      | createBatch batch => exact h
      | addTask task now => exact h
      | createBackupJob job => exact h
      | failBackupJob tenant' job code finished => exact h
      | _ => exact hc.elim
    · unfold RowsOn
      rw [hplans]
      exact h
  | deletePlan tenant' id' => exact hc.elim
  | _ => exact h

/-- A plan the scheduler moves on: it has a next time, and `Next` always finds an occurrence. -/
def Fires (cron : Cron) (plan : BackupPlan) : Prop := plan.nextRunAt ≠ none ∧ ∀ t, ¬Spent cron plan t

theorem each_ok {plans rest : List BackupPlan} {s' : Store}
    (h : run Stmt.exec (each (runMissed cron tenant now draws 128) (plans ++ rest)) s = (.ok (), s')) :
    ∃ s₁, run Stmt.exec (each (runMissed cron tenant now draws 128) plans) s = (.ok (), s₁) ∧
      run Stmt.exec (each (runMissed cron tenant now draws 128) rest) s₁ = (.ok (), s') := by
  rw [run_each_append] at h
  generalize run Stmt.exec (each (runMissed cron tenant now draws 128) plans) s = outcome at h ⊢
  obtain ⟨r, s₁⟩ := outcome
  cases r with
  | error e => cases h
  | ok u => exact ⟨s₁, rfl, h⟩

theorem dueList_next {q : BackupPlan} (hq : q ∈ dueList tenant now s) (hnext : q.nextRunAt ≠ none) :
    ∃ scheduled, q.nextRunAt = some scheduled ∧ scheduled ≤ now ∧
      some (unix scheduled) ∈ (handled tenant q.id s).2.2 := by
  obtain ⟨r, hr, hin, -, hcopy, seconds, hsome, hle⟩ := dueList_row hq
  rw [hsome, fromUnix] at hcopy
  split at hcopy
  · exact absurd hcopy hnext
  · refine ⟨ofUnix seconds, hcopy, ?_, ?_⟩
    · exact (Int.mul_le_mul_of_nonneg_right hle (by decide)).trans (Int.ediv_mul_le now (by decide))
    · have hunix : unix (ofUnix seconds) = seconds := Int.mul_ediv_cancel seconds (by decide)
      rw [hunix, ← hsome]
      exact List.mem_map.mpr ⟨r, List.mem_filter.mpr ⟨hr, hin⟩, rfl⟩

/-- A plan behind one that cannot be handled is not handled. -/
theorem behind_leaves {done rest : List BackupPlan} {f q : BackupPlan}
    (hlist : dueList tenant now s = done ++ f :: rest) (hq : q ∈ rest)
    (hfails : ∃ e, (run Stmt.exec (runMissed cron tenant now draws 128 f)
      (run Stmt.exec (each (runMissed cron tenant now draws 128) done) s).2).1 = .error e) :
    handled tenant q.id (run Stmt.exec (runDue cron tenant now draws) s).2 = handled tenant q.id s := by
  have hnodup := @dueList_nodup tenant now s
  rw [hlist, List.map_append, List.map_cons] at hnodup
  obtain ⟨-, hrest, hapart⟩ := List.nodup_append.mp hnodup
  have hqid : q.id ∈ rest.map (·.id) := List.mem_map.mpr ⟨q, hq, rfl⟩
  have hne : f.id ≠ q.id := fun hid => (List.nodup_cons.mp hrest).1 (hid ▸ hqid)
  have hdone : ∀ p ∈ done, p.id ≠ q.id := fun p hp =>
    hapart p.id (List.mem_map.mpr ⟨p, hp, rfl⟩) q.id (List.mem_cons_of_mem _ hqid)
  have hbefore : handled tenant q.id (run Stmt.exec (each (runMissed cron tenant now draws 128) done) s).2 =
      handled tenant q.id s :=
    leaves_each done (fun p hp => runMissed_leaves cron now draws 128 (hdone p hp)) s
  rw [run_runDue, hlist, run_each_append]
  generalize run Stmt.exec (each (runMissed cron tenant now draws 128) done) s = outcome at hfails hbefore ⊢
  obtain ⟨r, s₁⟩ := outcome
  cases r with
  | error e => exact hbefore
  | ok u =>
    obtain ⟨e, he⟩ := hfails
    have hf : handled tenant q.id (run Stmt.exec (runMissed cron tenant now draws 128 f) s₁).2 =
        handled tenant q.id s₁ := runMissed_leaves cron now draws 128 hne s₁
    simp only
    rw [run_each_cons]
    generalize run Stmt.exec (runMissed cron tenant now draws 128 f) s₁ = outcome at he hf ⊢
    obtain ⟨r, s₂⟩ := outcome
    obtain rfl : r = .error e := he
    exact hf.trans hbefore

/-- A call that goes through moves on each due plan that fires. -/
theorem runDue_moves {occurs : String → String → Time → Prop} (hcron : cron.Searches occurs) {q : BackupPlan}
    {scheduled : Time} (hq : q ∈ dueList tenant now s) (hfires : ∀ t, ¬Spent cron q t)
    (hnext : q.nextRunAt = some scheduled) (hdue : scheduled ≤ now)
    (h : run Stmt.exec (runDue cron tenant now draws) s = (.ok (), s')) :
    some (unix scheduled) ∉ (handled tenant q.id s').2.2 := by
  obtain ⟨before, after, hlist⟩ := List.append_of_mem hq
  have hnodup := @dueList_nodup tenant now s
  rw [hlist, List.map_append, List.map_cons] at hnodup
  obtain ⟨-, hrest, hapart⟩ := List.nodup_append.mp hnodup
  have hbefore : ∀ p ∈ before, p.id ≠ q.id := fun p hp =>
    hapart p.id (List.mem_map.mpr ⟨p, hp, rfl⟩) q.id (List.mem_cons_self ..)
  have hafter : ∀ p ∈ after, p.id ≠ q.id := fun p hp hid =>
    (List.nodup_cons.mp hrest).1 (hid ▸ List.mem_map.mpr ⟨p, hp, rfl⟩)
  rw [run_runDue, hlist] at h
  -- the plans before it, the plan itself, and those after it
  obtain ⟨s₁, hrun₁, h⟩ := each_ok h
  obtain ⟨s₂, hrun₂, h⟩ := @each_ok cron tenant now draws s₁ [q] after s' h
  have hon : RowsOn tenant q.id s₁ := by
    have hcalls : Every (fun c => ∃ id, id ≠ q.id ∧ Calls.OfPlan tenant id c)
        (each (runMissed cron tenant now draws 128) before) := by
      refine every_each before fun p hp => (runMissed_ofPlan 128 p).mono fun c hc => ?_
      exact ⟨p.id, hbefore p hp, hc⟩
    have hkept := @run_keep _ _ _ _ Stmt.exec _ (RowsOn tenant q.id)
      (fun c s₃ ⟨id, hne, hc⟩ h₃ => rowsOn_ofPlan hne hc h₃) _ hcalls s
    rw [hrun₁] at hkept
    apply hkept
    obtain ⟨r, hr, hin, hon, -⟩ := dueList_row hq
    intro r' hr' hin'
    rw [eq_of_key s.plans_pk hr' hr ((planIn_iff.mp hin').2.trans (planIn_iff.mp hin).2.symm)]
    exact hon
  have hmoved : ∀ r ∈ s₂.plans, planIn tenant q.id r = true →
      ∀ seconds, r.nextRunAt = some seconds → unix scheduled < seconds := by
    rw [run_each_cons] at hrun₂
    generalize hone : run Stmt.exec (runMissed cron tenant now draws 128 q) s₁ = outcome at hrun₂
    obtain ⟨r, s₃⟩ := outcome
    cases r with
    | error e => cases hrun₂
    | ok u =>
      obtain ⟨-, rfl⟩ := Prod.mk.inj hrun₂
      exact runMissed_moves hcron 127 hfires hnext hdue hon hone
  -- those after it leave it alone
  have hlast : handled tenant q.id s' = handled tenant q.id s₂ := by
    have hleaves : handled tenant q.id (run Stmt.exec (each (runMissed cron tenant now draws 128) after) s₂).2 =
        handled tenant q.id s₂ :=
      leaves_each after (fun p hp => runMissed_leaves cron now draws 128 (hafter p hp)) s₂
    rw [h] at hleaves
    exact hleaves
  rw [hlast]
  intro hmem
  obtain ⟨r, hr, hsome⟩ := List.mem_map.mp hmem
  obtain ⟨hr, hin⟩ := List.mem_filter.mp hr
  exact absurd (hmoved r hr hin _ hsome) (lt_irrefl _)

theorem noneBehind_of_unblocked {occurs : String → String → Time → Prop} (hcron : cron.Searches occurs)
    (h : Assigned cron tenant now draws fails s s')
    (hfires : ∀ q ∈ dueList tenant now s, fails q.id = false → Fires cron q)
    (hsame : Unblocked cron tenant now draws fails s s') : NoneBehind fails (dueList tenant now s) := by
  by_contra hbehind
  obtain ⟨done, f, rest, q, hlist, hdone, hf, hq, hok⟩ := exists_behind hbehind
  have hmem : q ∈ dueList tenant now s := by
    rw [hlist]
    exact List.mem_append_right _ (List.mem_cons_of_mem f hq)
  have hmem' : q ∈ dueList tenant now s' := by
    rw [h.dueList]
    exact List.mem_filter.mpr ⟨hmem, by simp [hok]⟩
  obtain ⟨hnext, hfires⟩ := hfires q hmem hok
  obtain ⟨scheduled, hnext, hdue, hrow⟩ := dueList_next hmem hnext
  refine runDue_moves hcron hmem' hfires hnext hdue (Prod.ext h.others rfl) ?_
  rw [← hsame q hmem hok, behind_leaves hlist hq (h.first done f rest hlist hdone hf)]
  exact hrow

/-- The due plans that do not fail are handled as where the others are not due, if none of them
stands behind one that fails; and only then, where the scheduler moves on each of them. -/
theorem unblocked_iff (h : Assigned cron tenant now draws fails s s') :
    (NoneBehind fails (dueList tenant now s) → Unblocked cron tenant now draws fails s s') ∧
      ∀ occurs, cron.Searches occurs →
        (∀ q ∈ dueList tenant now s, fails q.id = false → Fires cron q) →
        (Unblocked cron tenant now draws fails s s' ↔ NoneBehind fails (dueList tenant now s)) := by
  refine ⟨unblocked_of_noneBehind h, fun occurs hcron hfires => ?_⟩
  exact ⟨noneBehind_of_unblocked hcron h hfires, unblocked_of_noneBehind h⟩

end TwoCalls

/-! ## A plan whose stored schedule does not parse -/

/-- The database where the plans that fail are not due. -/
def postponed (fails : String → Bool) (s : Store) : Store :=
  s.updatePlans (fun r => fails r.id) (fun r => { r with nextRunAt := none }) fun _ => rfl

theorem sameBut_postponed (fails : String → Bool) (s : Store) : SameBut fails s (postponed fails s) := by
  refine ⟨rfl, ?_⟩
  apply filter_updateWhere_miss
  intro r _ hfails
  have hkept : (!fails r.id) = false := by rw [hfails]; rfl
  exact ⟨hkept, hkept⟩

theorem due_postponed {fails : String → Bool} {s : Store} {tenant : String} {now : Time} :
    ∀ r ∈ (postponed fails s).plans, fails r.id = true → due tenant now r = false := by
  intro r hr hfails
  obtain ⟨r₀, -, rfl⟩ := mem_updateWhere.mp hr
  by_cases hfails₀ : fails r₀.id = true
  · rw [if_pos hfails₀]
    simp [due]
  · rw [if_neg hfails₀] at hfails
    exact absurd hfails hfails₀

/-- It cannot be handled, whatever the database holds. -/
theorem runMissed_unparsed {cron : Cron} {tenant : String} {now scheduled : Time}
    {draws : BackupPlan → Time → Draws} {plan : BackupPlan} {e : GoError} (steps : Nat)
    (hnext : plan.nextRunAt = some scheduled) (hdue : scheduled ≤ now)
    (h : nextRun cron plan scheduled = .error e) (s : Store) :
    (run Stmt.exec (runMissed cron tenant now draws (steps + 1) plan) s).1 = .error e := by
  rw [run_runMissed steps hnext hdue]
  unfold turn
  rw [run_result, h]

/-- A plan at one o'clock. -/
def oneOClock (id deployId expression : String) : BackupPlan :=
  { filledPlan (planOf "HOURLY" "") [⟨deployId, false, .full⟩] with
    id := id, tenantUid := "tenant-a", cronExpression := expression, nextRunAt := some hour }

/-- Two plans over two instances, both due at one o'clock. -/
def twoPlans (expressionA expressionB : String) : Store :=
  (Op.createPlan (oneOClock "plan-b" "deploy-b" expressionB)).next
    ((Op.createPlan (oneOClock "plan-a" "deploy-a" expressionA)).next
      { Store.empty with
        applications := [demoApp]
        instances := [demoInstance, { demoInstance with deployId := "deploy-b" }] })

def drawsFor (plan : BackupPlan) (_ : Time) : Draws :=
  { fixedDraws with batchId := some plan.id, enqueue := fun _ => ⟨some plan.id, some plan.id, fun _ => 0⟩ }

theorem assigned_unparsed {s : Store} {id : String}
    (hothers : (run Stmt.exec (runDue clockCron "tenant-a" hour drawsFor) (postponed (· == id) s)).1 = .ok ())
    (hterms : ∀ p ∈ dueList "tenant-a" hour s, p.id = id →
      (p.scheduleType, p.cronExpression, p.timezone, p.nextRunAt) = ("HOURLY", "broken", "UTC", some hour)) :
    Assigned clockCron "tenant-a" hour drawsFor (· == id) s (postponed (· == id) s) := by
  refine ⟨sameBut_postponed _ s, due_postponed, hothers, fun done f rest hlist _ hf => ?_⟩
  have hmem : f ∈ dueList "tenant-a" hour s := by
    rw [hlist]
    exact List.mem_append_right _ (List.mem_cons_self ..)
  have hf := hterms f hmem (beq_iff_eq.mp hf)
  simp only [Prod.mk.injEq] at hf
  obtain ⟨hkind, hexpression, hzone, hnext⟩ := hf
  have hbroken : nextRun clockCron f hour = .error (invalid "INVALID_CRON") := by
    unfold nextRun
    rw [hkind, hzone, hexpression]
    rfl
  exact ⟨_, runMissed_unparsed 127 hnext (le_refl _) hbroken _⟩

/-- Behind a plan that is handled, a plan that fails does no harm. -/
theorem unblocked_in_front :
    Unblocked clockCron "tenant-a" hour drawsFor (· == "plan-b") (twoPlans "0 * * * *" "broken")
      (postponed (· == "plan-b") (twoPlans "0 * * * *" "broken")) := by
  have hassigned : Assigned clockCron "tenant-a" hour drawsFor (· == "plan-b") (twoPlans "0 * * * *" "broken")
      (postponed (· == "plan-b") (twoPlans "0 * * * *" "broken")) :=
    assigned_unparsed (by decide +kernel) (by decide +kernel)
  have hids : (dueList "tenant-a" hour (twoPlans "0 * * * *" "broken")).map (·.id) = ["plan-a", "plan-b"] := by
    decide +kernel
  apply (unblocked_iff hassigned).1
  unfold NoneBehind
  have hpairs : (["plan-a", "plan-b"] : List String).Pairwise fun f p =>
      (f == "plan-b") = true → (p == "plan-b") = true := by decide
  rw [← hids] at hpairs
  exact List.pairwise_map.mp hpairs

/-- In front of one, it keeps that one from being handled. -/
theorem unparsed_plan_blocks :
    ¬∀ (cron : Cron) (tenant : String) (now : Time) (draws : BackupPlan → Time → Draws)
      (fails : String → Bool) (s s' : Store), Assigned cron tenant now draws fails s s' →
      ((dueList tenant now s).Pairwise fun p q => ∀ t ∈ p.targets, ∀ u ∈ q.targets,
        t.deployId ≠ u.deployId) →
      Unblocked cron tenant now draws fails s s' := by
  intro h
  have hassigned : Assigned clockCron "tenant-a" hour drawsFor (· == "plan-a") (twoPlans "broken" "0 * * * *")
      (postponed (· == "plan-a") (twoPlans "broken" "0 * * * *")) :=
    assigned_unparsed (by decide +kernel) (by decide +kernel)
  have hids : (dueList "tenant-a" hour (twoPlans "broken" "0 * * * *")).map (·.id) = ["plan-a", "plan-b"] := by
    decide +kernel
  have hmem : "plan-b" ∈ (dueList "tenant-a" hour (twoPlans "broken" "0 * * * *")).map (·.id) := by
    rw [hids]
    decide
  obtain ⟨q, hq, hid⟩ := List.mem_map.mp hmem
  have hsame := h _ _ _ _ _ _ _ hassigned (by decide +kernel) q hq (by rw [hid]; rfl)
  rw [hid] at hsame
  have hblocked : (handled "tenant-a" "plan-b" (run Stmt.exec (runDue clockCron "tenant-a" hour drawsFor)
      (twoPlans "broken" "0 * * * *")).2).2.2 = [some 3600] := by decide +kernel
  have hmoved : (handled "tenant-a" "plan-b" (run Stmt.exec (runDue clockCron "tenant-a" hour drawsFor)
      (postponed (· == "plan-a") (twoPlans "broken" "0 * * * *"))).2).2.2 = [some 7200] := by decide +kernel
  rw [hsame, hmoved] at hblocked
  exact absurd hblocked (by decide)

end AppBackup.Plans
