import AppBackup.Lib.Transition
import AppBackup.Persistence.Ops

/- The counters of a batch against its tasks. `refreshBatch` recomputes them, and
   every transaction on one task ends with it; `CancelTask`, `UpdatePlan` with
   `cancelQueued`, `PausePlanForScope` and `SetTaskStatus` do not call it. So the
   counters agree as long as these four change the group of no task a batch
   counts, and the first step that does leaves them wrong.

   What is proved:
     1. `agree_refreshed`, `agree_updateWhere`, `agree_moved` -- when a refresh, an update of
        tasks and a closing transaction keep the agreement;
     2. `agree_apply` -- one operation that leaves no counted task stale keeps it, and
        `disagree_next` -- any other ends it;
     3. `batch_counters` -- the run theorem, with both directions for the step. -/
namespace AppBackup.Persistence
open Table

/-! ## The groups -/

/-- The group of a task, as the sums of `refreshBatch` see it. -/
def groupOf (t : TaskRow) : Bool × Bool × Bool × Bool × Bool :=
  (isSucceeded t, isFailed t, isSkipped t, isRunning t, isQueued t)

theorem one_group (t : TaskRow) :
    (isSucceeded t).toNat + (isFailed t).toNat + (isSkipped t).toNat + (isRunning t).toNat +
      (isQueued t).toNat = 1 := by
  unfold isSucceeded isFailed isSkipped isRunning isQueued
  cases t.status <;> decide

theorem groups_partition (tasks : List TaskRow) (tenant batchId : String) :
    let c := batchCounts tasks tenant batchId
    c.total = c.succeeded + c.failed + c.skipped + c.running + c.queued := by
  unfold batchCounts
  generalize tasks.filter (inBatch tenant batchId) = own
  simp only
  induction own with
  | nil => rfl
  | cons t rest ih =>
    have hone := one_group t
    have hite : ∀ b : Bool, (if b = true then 1 else 0) = b.toNat := by decide
    simp only [List.length_cons, List.countP_cons, hite] at ih ⊢
    omega

/-! ## Agreement -/

def BatchRow.counts (b : BatchRow) : BatchCounts where
  total := b.totalTasks
  succeeded := b.succeededCount
  failed := b.failedCount
  skipped := b.skippedCount
  running := b.runningCount
  queued := b.queuedCount

/-- The task is counted by the batch. -/
def BatchRow.owns (b : BatchRow) (t : TaskRow) : Bool := inBatch b.tenantUid b.id t

/-- The counters, the status and `finished_at` of a batch are those of its tasks. -/
structure BatchRow.Agrees (tasks : List TaskRow) (b : BatchRow) : Prop where
  counts : b.counts = batchCounts tasks b.tenantUid b.id
  status : b.status = (batchCounts tasks b.tenantUid b.id).status
  finished : b.finishedAt ≠ none ↔
    ∀ t ∈ tasks, b.owns t = true → isQueued t = false ∧ isRunning t = false

/-- Every batch that owns a task agrees with its tasks. -/
def CountersAgree (s : Tables) : Prop :=
  ∀ b ∈ s.batches, (∃ t ∈ s.tasks, b.owns t = true) → b.Agrees s.tasks

theorem finished_iff {tasks : List TaskRow} {tenant batchId : String}
    (hown : ∃ t ∈ tasks, inBatch tenant batchId t = true) :
    (batchCounts tasks tenant batchId).finished = true ↔
      ∀ t ∈ tasks, inBatch tenant batchId t = true → isQueued t = false ∧ isRunning t = false := by
  obtain ⟨t₀, ht₀, ho₀⟩ := hown
  have hpos : (batchCounts tasks tenant batchId).total ≠ 0 := by
    apply Nat.pos_iff_ne_zero.mp
    exact List.length_pos_of_mem (List.mem_filter.mpr ⟨ht₀, ho₀⟩)
  unfold BatchCounts.finished
  simp only [Bool.or_eq_true, Bool.and_eq_true, beq_iff_eq, hpos, false_or]
  unfold batchCounts
  simp only [List.countP_eq_zero, List.mem_filter, Bool.not_eq_true, and_imp]
  constructor
  · rintro ⟨hq, hr⟩ t ht ho
    exact ⟨hq t ht ho, hr t ht ho⟩
  · intro h
    refine ⟨?_, ?_⟩
    · intro t ht ho
      exact (h t ht ho).1
    · intro t ht ho
      exact (h t ht ho).2

/-- Agreement reads nothing of the tasks but the groups of the batch's own. -/
theorem agrees_congr {tasks tasks' : List TaskRow} {b : BatchRow}
    (hg : (tasks'.filter (inBatch b.tenantUid b.id)).map groupOf =
      (tasks.filter (inBatch b.tenantUid b.id)).map groupOf)
    (h : b.Agrees tasks) : b.Agrees tasks' := by
  have hlen : (tasks'.filter (inBatch b.tenantUid b.id)).length =
      (tasks.filter (inBatch b.tenantUid b.id)).length := by
    simpa using congrArg List.length hg
  have hcount : ∀ g : Bool × Bool × Bool × Bool × Bool → Bool,
      (tasks'.filter (inBatch b.tenantUid b.id)).countP (g ∘ groupOf) =
        (tasks.filter (inBatch b.tenantUid b.id)).countP (g ∘ groupOf) := by
    intro g
    rw [← List.countP_map, ← List.countP_map, hg]
  have hc : batchCounts tasks' b.tenantUid b.id = batchCounts tasks b.tenantUid b.id := by
    simp only [batchCounts, BatchCounts.mk.injEq]
    refine ⟨hlen, ?_, ?_, ?_, ?_, ?_⟩
    · exact hcount (·.1)
    · exact hcount (·.2.1)
    · exact hcount (·.2.2.1)
    · exact hcount (·.2.2.2.1)
    · exact hcount (·.2.2.2.2)
  have hq := hcount fun g => g.2.2.2.1 || g.2.2.2.2
  refine ⟨h.counts.trans hc.symm, h.status.trans (congrArg _ hc.symm), h.finished.trans ?_⟩
  -- nothing waits or runs exactly when the two groups together count no task
  have hzero : ∀ tasks : List TaskRow,
      (∀ t ∈ tasks, b.owns t = true → isQueued t = false ∧ isRunning t = false) ↔
        (tasks.filter (inBatch b.tenantUid b.id)).countP
          ((fun g => g.2.2.2.1 || g.2.2.2.2) ∘ groupOf) = 0 := by
    intro tasks
    simp only [List.countP_eq_zero, List.mem_filter, Function.comp, groupOf, Bool.or_eq_true,
      not_or, Bool.not_eq_true, and_imp]
    constructor
    · intro hall t ht ho
      exact ⟨(hall t ht ho).2, (hall t ht ho).1⟩
    · intro hall t ht ho
      exact ⟨(hall t ht ho).2, (hall t ht ho).1⟩
  rw [hzero tasks, hzero tasks', hq]

/-! ## What keeps the agreement -/

/-- A refresh of the one batch whose tasks changed. -/
theorem agree_refreshed {s s' : Tables} {tenant batchId : String} {now : Time}
    (h : CountersAgree s) (hb : s'.batches = refreshed s'.tasks tenant batchId now s.batches)
    (hother : ∀ tenant' batchId', (tenant', batchId') ≠ (tenant, batchId) →
      s'.tasks.filter (inBatch tenant' batchId') = s.tasks.filter (inBatch tenant' batchId')) :
    CountersAgree s' := by
  intro b' hb' hown
  rw [hb] at hb'
  rcases mem_updateWhere_cases hb' with ⟨b, -, hin, rfl⟩ | ⟨hbs, hin⟩
  · simp only [batchIn, Bool.and_eq_true, beq_iff_eq] at hin
    obtain ⟨hten, hid⟩ := hin
    have hc : batchCounts s'.tasks tenant batchId = batchCounts s'.tasks b.tenantUid b.id := by
      rw [hten, hid]
    refine ⟨hc, congrArg BatchCounts.status hc, ?_⟩
    refine Iff.trans ?_ (finished_iff hown)
    show (setCounts _ now b).finishedAt ≠ none ↔
      (batchCounts s'.tasks b.tenantUid b.id).finished = true
    rw [← hc]
    unfold setCounts
    cases (batchCounts s'.tasks tenant batchId).finished <;> simp
  · have hne : (b'.tenantUid, b'.id) ≠ (tenant, batchId) := by
      intro he
      simp only [Prod.mk.injEq] at he
      simp [batchIn, he.1, he.2] at hin
    have hf := hother _ _ hne
    apply agrees_congr (congrArg (List.map groupOf) hf)
    apply h b' hbs
    obtain ⟨t, ht, ho⟩ := hown
    have hmem : t ∈ s.tasks.filter (inBatch b'.tenantUid b'.id) := by
      rw [← hf]
      exact List.mem_filter.mpr ⟨ht, ho⟩
    exact ⟨t, (List.mem_filter.mp hmem).1, ho⟩

/-- An update of tasks that moves none a batch owns to another group. -/
theorem agree_updateWhere {s s' : Tables} {p : TaskRow → Bool} {f : TaskRow → TaskRow}
    (h : CountersAgree s) (hb : s'.batches = s.batches) (ht : s'.tasks = updateWhere p f s.tasks)
    (hf : ∀ t, (f t).keys = t.keys)
    (hg : ∀ t ∈ s.tasks, p t = true →
      groupOf (f t) = groupOf t ∨ ∀ b ∈ s.batches, b.owns t = false) : CountersAgree s' := by
  intro b hbs hown
  rw [hb] at hbs
  have hin : ∀ t, inBatch b.tenantUid b.id (f t) = inBatch b.tenantUid b.id t := by
    intro t
    obtain ⟨-, hten, hbatch, -⟩ := TaskRow.keys_eq.mp (hf t)
    simp [inBatch, hten, hbatch]
  rw [ht] at hown ⊢
  have hgroups : ((updateWhere p f s.tasks).filter (inBatch b.tenantUid b.id)).map groupOf =
      (s.tasks.filter (inBatch b.tenantUid b.id)).map groupOf := by
    rw [filter_updateWhere _ hin]
    apply map_updateWhere_mem
    intro t htb hp
    obtain ⟨hts, ho⟩ := List.mem_filter.mp htb
    rcases hg t hts hp with hsame | hnone
    · exact hsame
    · exact absurd ho (by simpa [BatchRow.owns] using hnone b hbs)
  apply agrees_congr hgroups
  apply h b hbs
  obtain ⟨t', ht', ho'⟩ := hown
  obtain ⟨t, hts, rfl⟩ := mem_updateWhere.mp ht'
  refine ⟨t, hts, ?_⟩
  cases hp : p t with
  | true => simpa [hp, BatchRow.owns, hin] using ho'
  | false => simpa [hp] using ho'

/-- An update of tasks that moves one a batch owns out of a group it is counted in,
and none into it, with no refresh. -/
theorem disagree_updateWhere {s s' : Tables} {p g : TaskRow → Bool} {f : TaskRow → TaskRow}
    (h : CountersAgree s) (hb : s'.batches = s.batches) (ht : s'.tasks = updateWhere p f s.tasks)
    (hf : ∀ t, (f t).keys = t.keys) (count : BatchCounts → Nat)
    (hcount : ∀ tasks tenant batchId,
      count (batchCounts tasks tenant batchId) = (tasks.filter (inBatch tenant batchId)).countP g)
    (hout : ∀ t, p t = true → g (f t) = false) {t : TaskRow} (hts : t ∈ s.tasks) (hp : p t = true)
    (hgt : g t = true) {b : BatchRow} (hbs : b ∈ s.batches) (ho : b.owns t = true) :
    ¬CountersAgree s' := by
  intro h'
  have hin : ∀ t, inBatch b.tenantUid b.id (f t) = inBatch b.tenantUid b.id t := by
    intro t
    obtain ⟨-, hten, hbatch, -⟩ := TaskRow.keys_eq.mp (hf t)
    simp [inBatch, hten, hbatch]
  have hbefore := h b hbs ⟨t, hts, ho⟩
  have hafter := h' b (hb ▸ hbs) ⟨f t, ht ▸ mem_updateWhere_hit hts hp, (hin t).trans ho⟩
  have hcounts := congrArg count (hbefore.counts.symm.trans hafter.counts)
  rw [hcount, hcount, ht, filter_updateWhere _ hin] at hcounts
  have hown : t ∈ s.tasks.filter (inBatch b.tenantUid b.id) := List.mem_filter.mpr ⟨hts, ho⟩
  have hlt := countP_updateWhere_lt hout hown hp hgt
  omega

/-- Tasks of one batch changed, so those of another are as before. -/
theorem filter_other {tasks : List TaskRow} {p : TaskRow → Bool} {f : TaskRow → TaskRow}
    {tenant batchId tenant' batchId' : String} (hf : ∀ t, (f t).keys = t.keys)
    (hp : ∀ t ∈ tasks, p t = true → t.tenantUid = tenant ∧ t.batchId = batchId)
    (hne : (tenant', batchId') ≠ (tenant, batchId)) :
    (updateWhere p f tasks).filter (inBatch tenant' batchId') =
      tasks.filter (inBatch tenant' batchId') := by
  have hin : ∀ t, inBatch tenant' batchId' (f t) = inBatch tenant' batchId' t := by
    intro t
    obtain ⟨-, hten, hbatch, -⟩ := TaskRow.keys_eq.mp (hf t)
    simp [inBatch, hten, hbatch]
  rw [filter_updateWhere _ hin]
  apply updateWhere_miss
  intro t ht
  obtain ⟨hts, ho⟩ := List.mem_filter.mp ht
  simp only [inBatch, Bool.and_eq_true, beq_iff_eq] at ho
  by_contra hpt
  obtain ⟨hten, hbatch⟩ := hp t hts (by simpa using hpt)
  exact hne (Prod.ext (ho.1.symm.trans hten) (ho.2.symm.trans hbatch))

theorem agree_moved {s s' : Tables} {tenant id jobId batchId : String} {guard : TaskRow → Bool}
    {m : TaskMove} {now : Time} (h : CountersAgree s)
    (hs' : s' = Store.movedTables s tenant id jobId batchId guard m now)
    (hbatch : ∀ t ∈ s.tasks, t.id = id → t.batchId = batchId) : CountersAgree s' := by
  subst hs'
  apply agree_refreshed h rfl
  intro tenant' batchId' hne
  apply filter_other m.set_keys _ hne
  intro t ht hp
  obtain ⟨hten, hid, -⟩ := Store.taskIn_iff.mp hp
  exact ⟨hten, hbatch t ht hid⟩

theorem agree_closeTask {s s' : Store} {tenant id : String} {guard : TaskRow → Bool}
    {missing : StoreError} {m : TaskMove} {now : Time} (h : CountersAgree s.toTables)
    (hs' : s.closeTask tenant id guard missing m now = .ok s') : CountersAgree s'.toTables := by
  obtain ⟨t, ht, hp, htables⟩ := Store.closeTask_ok hs'
  apply agree_moved h htables
  intro t' ht' hid
  have hsame : t' = t := eq_of_key s.tasks_pk ht' ht (hid.trans (Store.taskIn_iff.mp hp).2.1.symm)
  rw [hsame]

/-- The loop refreshes the batch of every task it re-queues. -/
theorem agree_requeueExpiredTasks {s s' : Store} {tenant : String} {now : Time}
    (h : CountersAgree s.toTables) (hs' : s.requeueExpiredTasks tenant now = .ok s') :
    CountersAgree s'.toTables := by
  -- the rows the loop works on were read before it, and their keys stay
  let P : Store → Prop := fun s₁ =>
    CountersAgree s₁.toTables ∧ s₁.tasks.map TaskRow.keys = s.tasks.map TaskRow.keys
  suffices hP : P s' from hP.1
  apply foldlM_invariant hs' ⟨h, rfl⟩
  rintro s₁ s₂ item hitem ⟨h₁, hkeys⟩ hstep
  have htables := Store.runMove_ok hstep
  refine ⟨?_, ?_⟩
  · apply agree_moved h₁ htables
    intro t ht hid
    have hmem : t.keys ∈ s.tasks.map TaskRow.keys := hkeys ▸ List.mem_map_of_mem ht
    obtain ⟨t₀, ht₀, hk⟩ := List.mem_map.mp hmem
    obtain ⟨hid₀, -, hbatch, -⟩ := TaskRow.keys_eq.mp hk
    have hsame : t₀ = item := eq_of_key s.tasks_pk ht₀ (List.mem_filter.mp hitem).1 (hid₀.trans hid)
    rw [← hbatch, hsame]
  · rw [htables]
    exact (map_updateWhere _ (expiredMove now).set_keys).trans hkeys

/-! ## What breaks it -/

/-- The tasks whose group an operation changes without a refresh. -/
def Op.Stale (s : Store) : Op → TaskRow → Prop
  | .cancelTask tenant id _, t => t.tenantUid = tenant ∧ t.id = id ∧ t.status = .queued
  | .updatePlan tenant plan cancelQueued, t =>
    cancelQueued = true ∧ s.updatable tenant plan ∧ waitingTask tenant plan.id t = true
  | .pausePlanForScope tenant id _, t => waitingTask tenant id t = true
  | .setTaskStatus tenant id token status, t =>
    status ∈ notRunningGroup ∧ t.tenantUid = tenant ∧ t.id = id ∧ t.leaseToken = token ∧
      t.status ∈ leasedGroup
  | _, _ => False

/-- Every task the operation leaves stale is one no batch counts. -/
def Op.KeepsCounters (s : Store) (op : Op) : Prop :=
  ∀ t ∈ s.tasks, op.Stale s t → ∀ b ∈ s.batches, b.owns t = false

theorem groupOf_congr {t t' : TaskRow} (h : t'.status = t.status) : groupOf t' = groupOf t := by
  simp [groupOf, isSucceeded, isFailed, isSkipped, isRunning, isQueued, h]

theorem groupOf_running {t : TaskRow} {status : TaskStatus} (h : t.status ∈ leasedGroup)
    (hs : status ∉ notRunningGroup) : groupOf { t with status := status } = groupOf t := by
  have hrun : ∀ st : TaskStatus, st ∉ notRunningGroup → groupOf { t with status := st } =
      (false, false, false, true, false) := by
    intro st hst
    unfold groupOf isSucceeded isFailed isSkipped isRunning isQueued
    cases st <;> first | rfl | exact absurd (by decide) hst
  rw [hrun status hs]
  refine (hrun t.status ?_).symm
  revert h
  cases t.status <;> decide

theorem agree_updatePlan {s s' : Store} {tenant : String} {plan : BackupPlan} {cancelQueued : Bool}
    (h : CountersAgree s.toTables) (hk : (Op.updatePlan tenant plan cancelQueued).KeepsCounters s)
    (hs' : (Op.updatePlan tenant plan cancelQueued).apply s = .ok s') : CountersAgree s'.toTables := by
  have hup := (Store.updatePlan_isOk s tenant plan cancelQueued).mp ⟨s', hs'⟩
  obtain ⟨targets, ht⟩ := Store.updatePlan_ok hs'
  cases cancelQueued with
  | false =>
    rw [ht]
    exact h
  | true =>
    refine agree_updateWhere h (by rw [ht]) (by rw [ht, if_pos rfl]) ?_ ?_
    · intro t
      rfl
    · intro t hts hw
      exact .inr (hk t hts ⟨rfl, hup, hw⟩)

theorem agree_pausePlanForScope {s s' : Store} {tenant id : String} {reason : PlanPauseReason}
    (h : CountersAgree s.toTables) (hk : (Op.pausePlanForScope tenant id reason).KeepsCounters s)
    (hs' : (Op.pausePlanForScope tenant id reason).apply s = .ok s') : CountersAgree s'.toTables := by
  obtain ⟨plans, ht⟩ := Store.pausePlanForScope_ok hs'
  refine agree_updateWhere h (by rw [ht]) (by rw [ht]) ?_ ?_
  · intro t
    rfl
  · intro t hts hw
    exact .inr (hk t hts hw)

theorem agree_createBatch {s s' : Store} {batch : BackupBatch} (h : CountersAgree s.toTables)
    (hs' : (Op.createBatch batch).apply s = .ok s') : CountersAgree s'.toTables := by
  have ht := Store.createBatch_ok hs'
  intro b hb hown
  rw [ht] at hb hown ⊢
  rcases List.mem_append.mp hb with hb | hb
  · exact h b hb hown
  · -- tasks name a batch that is there, so the new one has none yet
    exfalso
    obtain rfl := List.mem_singleton.mp hb
    obtain ⟨t, hts, ho⟩ := hown
    have hid : t.batchId = (batchRow batch).id := by
      simp only [BatchRow.owns, inBatch, Bool.and_eq_true, beq_iff_eq] at ho
      exact ho.2
    have hpk := s'.batches_pk
    rw [ht] at hpk
    simp only [List.map_append, List.map_cons, List.map_nil] at hpk
    have hfresh := List.disjoint_of_nodup_append hpk (hid ▸ s.tasks_batch t hts)
    exact hfresh (List.mem_singleton.mpr rfl)

theorem agree_addTask {s s' : Store} {task : BackupTask} {now : Time} (h : CountersAgree s.toTables)
    (hs' : (Op.addTask task now).apply s = .ok s') : CountersAgree s'.toTables := by
  have ht := Store.addTask_ok hs'
  apply agree_refreshed h (by rw [ht])
  intro tenant' batchId' hne
  rw [ht]
  have hout : inBatch tenant' batchId' (taskRow task) = false := by
    by_contra hin
    simp only [inBatch, Bool.not_eq_false, Bool.and_eq_true, beq_iff_eq] at hin
    exact hne (Prod.ext hin.1.symm hin.2.symm)
  simp [List.filter_append, hout]

theorem agree_claimNextTask {s s' : Store} {tenant workerId token : String} {now expires : Time}
    (h : CountersAgree s.toTables) (hs' : (Op.claimNextTask tenant workerId token now expires).apply s = .ok s')
    : CountersAgree s'.toTables := by
  cases hc : s.claimNextTask tenant workerId token now expires with
  | error e => simp [Op.apply, hc, Except.map] at hs'
  | ok out =>
    obtain ⟨s₁, task⟩ := out
    simp only [Op.apply, hc, Except.map, Except.ok.injEq] at hs'
    subst hs'
    obtain ⟨t, hts, -, -, -, ht⟩ := Store.claimNextTask_ok hc
    apply agree_refreshed h (by rw [ht])
    intro tenant' batchId' hne
    rw [ht]
    refine filter_other (fun _ => rfl) ?_ hne
    intro t' hts' hp
    obtain ⟨hten, hid, -⟩ := Store.taskIn_iff.mp hp
    exact ⟨hten, by rw [eq_of_key s.tasks_pk hts' hts hid]⟩

theorem agree_setTaskStatus {s s' : Store} {tenant id token : String} {status : TaskStatus}
    (h : CountersAgree s.toTables) (hk : (Op.setTaskStatus tenant id token status).KeepsCounters s)
    (hs' : (Op.setTaskStatus tenant id token status).apply s = .ok s') : CountersAgree s'.toTables := by
  have ht := Store.setTaskStatus_ok hs'
  refine agree_updateWhere h (by rw [ht]) (by rw [ht]) ?_ ?_
  · intro t
    rfl
  · intro t hts hp
    obtain ⟨hten, hid, hg⟩ := Store.taskIn_iff.mp hp
    simp only [Bool.and_eq_true, beq_iff_eq, List.contains_iff_mem] at hg
    by_cases hrun : status ∈ notRunningGroup
    · exact .inr (hk t hts ⟨hrun, hten, hid, hg.1, hg.2⟩)
    · exact .inl (groupOf_running hg.2 hrun)

theorem agree_setTaskScopeValidation {s s' : Store} {tenant id token : String} {value : PlanPauseReason}
    (h : CountersAgree s.toTables) (hs' : (Op.setTaskScopeValidation tenant id token value).apply s = .ok s') :
    CountersAgree s'.toTables := by
  cases hs'
  refine agree_updateWhere h rfl rfl ?_ ?_
  · intro t
    rfl
  · intro t _ _
    exact .inl (groupOf_congr rfl)

theorem agree_heartbeatTask {s s' : Store} {tenant id token : String} {now expires : Time}
    (h : CountersAgree s.toTables) (hs' : (Op.heartbeatTask tenant id token now expires).apply s = .ok s') :
    CountersAgree s'.toTables := by
  cases hs'
  refine agree_updateWhere h rfl rfl ?_ ?_
  · intro t
    rfl
  · intro t _ _
    exact .inl (groupOf_congr rfl)

theorem agree_cancelTask {s s' : Store} {tenant id : String} {now : Time} (h : CountersAgree s.toTables)
    (hk : (Op.cancelTask tenant id now).KeepsCounters s) (hs' : (Op.cancelTask tenant id now).apply s = .ok s')
    : CountersAgree s'.toTables := by
  cases hc : s.cancelTask tenant id now with
  | error e => simp [Op.apply, hc, Except.map] at hs'
  | ok out =>
    obtain ⟨s₁, task⟩ := out
    simp only [Op.apply, hc, Except.map, Except.ok.injEq] at hs'
    subst hs'
    obtain ⟨t₀, -, -, -, ⟨-, rfl⟩ | ⟨-, rfl⟩⟩ := Store.cancelTask_ok hc
    · have ht := Store.cancelTaskJob_tables (s.cancelTaskRow tenant id now) tenant
        t₀.backupJobId now
      refine agree_updateWhere h (by rw [ht]; rfl) (by rw [ht]; rfl) ?_ ?_
      · intro t
        rfl
      · intro t hts hp
        obtain ⟨hten, hid, hq⟩ := Store.taskIn_iff.mp hp
        exact .inr (hk t hts ⟨hten, hid, by simpa using hq⟩)
    · exact h

/-- An operation that goes through and leaves no counted task stale keeps the
agreement. -/
theorem agree_apply {s s' : Store} {op : Op} (h : CountersAgree s.toTables)
    (hk : op.KeepsCounters s) (hs' : op.apply s = .ok s') : CountersAgree s'.toTables := by
  cases op with
  | createPlan plan =>
    obtain ⟨targets, ht⟩ := Store.createPlan_ok hs'
    rw [ht]
    exact h
  | updatePlan tenant plan cancelQueued => exact agree_updatePlan h hk hs'
  | setPlanEnabled tenant id enabled nextRun updated =>
    obtain ⟨plans, ht⟩ := Store.setPlanEnabled_ok hs'
    rw [ht]
    exact h
  | pausePlanForScope tenant id reason => exact agree_pausePlanForScope h hk hs'
  | advancePlan tenant id scheduledAt nextRun updated =>
    cases hs'
    exact h
  | createBatch batch => exact agree_createBatch h hs'
  | addTask task now => exact agree_addTask h hs'
  | claimNextTask tenant workerId token now expires => exact agree_claimNextTask h hs'
  | setTaskStatus tenant id token status => exact agree_setTaskStatus h hk hs'
  | setTaskScopeValidation tenant id token value => exact agree_setTaskScopeValidation h hs'
  | heartbeatTask tenant id token now expires => exact agree_heartbeatTask h hs'
  | completeTask tenant id token snapshotId now => exact agree_closeTask h hs'
  | retryTask tenant id token code availableAt now => exact agree_closeTask h hs'
  | finishTaskFailure tenant id token status code now => exact agree_closeTask h hs'
  | cancelTask tenant id now => exact agree_cancelTask h hk hs'
  | requeueExpiredTasks tenant now => exact agree_requeueExpiredTasks h hs'
  | resetTaskForManualRetry tenant id now => exact agree_closeTask h hs'
  | createBackupJob job =>
    rw [Store.createBackupJob_ok hs']
    exact h
  | startBackupJob tenant id started =>
    rw [(Store.moveJob_ok hs').2]
    exact h
  | failBackupJob tenant id code finished =>
    rw [(Store.moveJob_ok hs').2]
    exact h
  | commitSnapshot snapshot =>
    rw [(Store.commitSnapshot_ok hs').2]
    exact h

/-- An operation that leaves a counted task stale breaks the agreement. -/
theorem disagree_next {s : Store} {op : Op} (h : CountersAgree s.toTables)
    (hk : ¬op.KeepsCounters s) : ¬CountersAgree (op.next s).toTables := by
  unfold Op.KeepsCounters at hk
  push Not at hk
  obtain ⟨t, hts, hstale, b, hbs, ho⟩ := hk
  have ho : b.owns t = true := by simpa using ho
  -- a waiting task leaves the queued group, a running one the running group
  have hqueued : ∀ {p f s'}, s'.batches = s.batches → s'.tasks = updateWhere p f s.tasks →
      (∀ t, (f t).keys = t.keys) → (∀ t, p t = true → isQueued (f t) = false) → p t = true →
      t.status = .queued → ¬CountersAgree s' := by
    intro p f s' hb ht hf hout hp hq
    refine disagree_updateWhere h hb ht hf (·.queued) (fun _ _ _ => rfl) hout hts hp ?_ hbs ho
    simp [isQueued, queuedGroup, hq]
  unfold Op.next
  cases op with
  | cancelTask tenant id now =>
    obtain ⟨rfl, rfl, hq⟩ := hstale
    obtain ⟨task, hc⟩ := Store.cancelTask_queued now hts hq
    have ht := Store.cancelTaskJob_tables (s.cancelTaskRow t.tenantUid t.id now) t.tenantUid
      t.backupJobId now
    simp only [Op.apply, hc, Except.map]
    refine hqueued (f := Store.cancelledRow now) (by rw [ht]; rfl) (by rw [ht]; rfl) ?_ ?_ ?_ hq
    · intro t'
      rfl
    · intro t' _
      rfl
    · exact Store.taskIn_iff.mpr ⟨rfl, rfl, by simp [hq]⟩
  | updatePlan tenant plan cancelQueued =>
    obtain ⟨rfl, hup, hw⟩ := hstale
    obtain ⟨s', hs'⟩ := (Store.updatePlan_isOk s tenant plan true).mpr hup
    obtain ⟨targets, ht⟩ := Store.updatePlan_ok hs'
    simp only [Op.apply, hs']
    refine hqueued (by rw [ht]) (by rw [ht, if_pos rfl]) ?_ ?_ hw (waitingTask_iff.mp hw).2.2
    · intro t'
      rfl
    · intro t' _
      rfl
  | pausePlanForScope tenant id reason =>
    obtain ⟨s', hs'⟩ : ∃ s', s.pausePlanForScope tenant id reason = .ok s' :=
      Store.endWaiting_total _ _ _ _ _ _ _
    obtain ⟨plans, ht⟩ := Store.pausePlanForScope_ok hs'
    simp only [Op.apply, hs']
    refine hqueued (by rw [ht]) (by rw [ht]) ?_ ?_ hstale (waitingTask_iff.mp hstale).2.2
    · intro t'
      rfl
    · intro t' _
      rfl
  | setTaskStatus tenant id token status =>
    obtain ⟨hrun, hten, hid, htoken, hleased⟩ := hstale
    have hp : taskIn tenant id (fun t => t.leaseToken == token && leasedGroup.contains t.status) t =
        true :=
      Store.taskIn_iff.mpr ⟨hten, hid, by simp [htoken, hleased]⟩
    simp only [Op.apply, Store.setTaskStatus, Store.countP_taskIn hts hp]
    refine disagree_updateWhere h rfl rfl (fun _ => rfl) (·.running) (fun _ _ _ => rfl) ?_ hts hp ?_
      hbs ho
    · intro t' _
      simpa [isRunning] using hrun
    · revert hleased
      unfold isRunning
      cases t.status <;> decide
  | _ => exact hstale.elim

/-! ## Every run -/

/-- In a run whose steps leave no counted task stale, the counters agree in every
state; and from such a state a step keeps them exactly when it leaves none. -/
theorem batch_counters {s : Store}
    (h : Transition.Reach (fun s op => some (Op.next s op)) (fun s op => op.KeepsCounters s)
      (· = Store.empty) s) :
    (∀ b ∈ s.batches, (∃ t ∈ s.tasks, b.owns t = true) →
      b.Agrees s.tasks ∧ b.totalTasks =
        b.succeededCount + b.failedCount + b.skippedCount + b.runningCount + b.queuedCount) ∧
    ∀ op : Op, CountersAgree (op.next s).toTables ↔ op.KeepsCounters s := by
  have hagree : CountersAgree s.toTables := by
    refine Transition.Reach.invariant (I := fun s : Store => CountersAgree s.toTables) ?_ ?_ h
    · intro s hs b hb
      subst hs
      cases hb
    · intro s op s' hs hok hstep
      cases hstep
      rcases Op.next_cases s op with happly | hsame
      · exact agree_apply hs hok happly
      · rw [hsame]
        exact hs
  refine ⟨?_, ?_⟩
  · intro b hb hown
    have hb' := hagree b hb hown
    refine ⟨hb', ?_⟩
    have hpart := groups_partition s.tasks b.tenantUid b.id
    rw [← hb'.counts] at hpart
    exact hpart
  · intro op
    constructor
    · intro hnext
      by_contra hk
      exact disagree_next hagree hk hnext
    · intro hk
      rcases Op.next_cases s op with happly | hsame
      · exact agree_apply hagree hk happly
      · rw [hsame]
        exact hagree

theorem batch_counters_queued :
    (runOps Store.empty [.createBatch batchA, .addTask taskA 0]).batches.length = 1 ∧
    ∀ b ∈ (runOps Store.empty [.createBatch batchA, .addTask taskA 0]).batches,
      b.Agrees (runOps Store.empty [.createBatch batchA, .addTask taskA 0]).tasks := by
  have hreach : Transition.Reach (fun s op => some (Op.next s op)) (fun s op => op.KeepsCounters s)
      (· = Store.empty) (runOps Store.empty [.createBatch batchA, .addTask taskA 0]) := by
    refine .next (.next (.start rfl) (a := .createBatch batchA) ?_ rfl) (a := .addTask taskA 0) ?_ rfl
    · intro t _ hstale
      exact hstale.elim
    · intro t _ hstale
      exact hstale.elim
  refine ⟨by decide, ?_⟩
  intro b hb
  refine ((batch_counters hreach).1 b hb ?_).1
  refine ⟨taskRow taskA, List.mem_singleton.mpr rfl, ?_⟩
  have hall : (runOps Store.empty [.createBatch batchA, .addTask taskA 0]).batches.all
      (fun b => b.owns (taskRow taskA)) = true := by decide
  exact List.all_eq_true.mp hall b hb

/-- A cancelled waiting task leaves its batch with one waiting task and no end. -/
theorem cancel_leaves_batch_stale :
    ¬∀ ops : List Op, CountersAgree (runOps Store.empty ops).toTables := by
  intro h
  let s := runOps Store.empty
    [.createBatch batchA, .addTask taskA 0, .cancelTask "tenant-a" "task-a" (5 * second)]
  have hown : ∀ b ∈ s.batches, ∃ t ∈ s.tasks, b.owns t = true := by
    have : s.batches.all (fun b => s.tasks.any fun t => b.owns t) = true := by decide
    intro b hb
    exact List.any_eq_true.mp (List.all_eq_true.mp this b hb)
  have hstale : s.batches.any (fun b => decide (b.queuedCount = 1 ∧ b.finishedAt = none) &&
      decide ((batchCounts s.tasks b.tenantUid b.id).queued = 0)) = true := by decide
  obtain ⟨b, hb, hdiff⟩ := List.any_eq_true.mp hstale
  simp only [Bool.and_eq_true, decide_eq_true_eq] at hdiff
  have hcount := congrArg BatchCounts.queued (h _ b hb (hown b hb)).counts
  exact absurd (hdiff.1.1.symm.trans (hcount.trans hdiff.2)) (by decide)

end AppBackup.Persistence
