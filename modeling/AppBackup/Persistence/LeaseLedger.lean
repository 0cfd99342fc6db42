import AppBackup.Persistence.Ops

/- Leases and attempts. A task in progress is one with a lease: a token, a
   deadline and one running attempt; its attempts are numbered from one to
   `attempt_count`; and a token is on one task at most. A worker whose token is
   no longer its task's changes nothing.

   `HeartbeatTask` writes a deadline on a waiting task when it is called with the
   empty token, which the worker never does: its tokens come from the claim.

   What is proved:
     1. what closings, recoveries, claims and new tasks make of the ledger, each in a lemma of
        its own (`ledger_closeTask`, `ledger_requeueExpiredTasks`, `ledger_claimNextTask`,
        `ledger_addTask`);
     2. `ledger_apply` -- so one operation that is called as the worker calls it keeps it, and
        `ledger_runOps` a run of them;
     3. `stale_token_changes_nothing` -- an operation with another token changes no row. -/
namespace AppBackup.Persistence
open Table

/-! ## The ledger -/

/-- The task has a lease exactly while it is in progress, and one running attempt
with it; its attempts are numbered in the order they began. -/
structure TaskRow.Ledger (attempts : List AttemptRow) (t : TaskRow) : Prop where
  token : t.status.inProgress = true ↔ t.leaseToken ≠ ""
  deadline : t.status.inProgress = true ↔ t.leaseExpiresAt ≠ none
  running : attempts.countP (fun a => a.taskId == t.id && a.status == .running) =
    if t.status.inProgress then 1 else 0
  numbered : (attempts.filter (·.taskId == t.id)).map (·.attempt) = List.range' 1 t.attemptCount

/-- The ledger of every task; an attempt is its task's tenant's; and a token is one
handed out before, on one task. -/
structure Ledger (used : List String) (s : Tables) : Prop where
  rows : ∀ t ∈ s.tasks, t.Ledger s.attempts
  tenants : ∀ t ∈ s.tasks, ∀ a ∈ s.attempts, a.taskId = t.id → a.tenantUid = t.tenantUid
  handed : ∀ t ∈ s.tasks, t.leaseToken ≠ "" → t.leaseToken ∈ used
  single : ∀ t ∈ s.tasks, ∀ t' ∈ s.tasks, t.leaseToken ≠ "" → t.leaseToken = t'.leaseToken →
    t.id = t'.id

/-! ## Updates that keep a row's lease -/

/-- The update changes neither whether the task is in progress nor its lease, but
for the deadline a task in progress has. -/
structure KeepsLease (t t' : TaskRow) : Prop where
  keys : t'.keys = t.keys
  count : t'.attemptCount = t.attemptCount
  progress : t'.status.inProgress = t.status.inProgress
  token : t'.leaseToken = t.leaseToken
  deadline : t'.leaseExpiresAt ≠ none ↔ t.leaseExpiresAt ≠ none

theorem ledger_updateWhere {used : List String} {s s' : Tables} {p : TaskRow → Bool}
    {f : TaskRow → TaskRow} (h : Ledger used s) (ht : s'.tasks = updateWhere p f s.tasks)
    (ha : s'.attempts = s.attempts) (hf : ∀ t ∈ s.tasks, p t = true → KeepsLease t (f t)) :
    Ledger used s' := by
  -- every row after the update comes from one that agrees with it on the lease
  have hrow : ∀ t' ∈ s'.tasks, ∃ t ∈ s.tasks, KeepsLease t t' := by
    intro t' ht'
    rw [ht] at ht'
    rcases mem_updateWhere_cases ht' with ⟨t, hts, hp, rfl⟩ | ⟨hts, -⟩
    · exact ⟨t, hts, hf t hts hp⟩
    · exact ⟨t', hts, rfl, rfl, rfl, rfl, Iff.rfl⟩
  refine ⟨?_, ?_, ?_, ?_⟩
  · intro t' ht'
    obtain ⟨t, hts, hk⟩ := hrow t' ht'
    have hid : t'.id = t.id := (TaskRow.keys_eq.mp hk.keys).1
    have hl := h.rows t hts
    rw [ha]
    refine ⟨?_, ?_, ?_, ?_⟩
    · rw [hk.progress, hk.token]
      exact hl.token
    · rw [hk.progress, hk.deadline]
      exact hl.deadline
    · rw [hid, hk.progress]
      exact hl.running
    · rw [hid, hk.count]
      exact hl.numbered
  · intro t' ht' a hat hid'
    obtain ⟨t, hts, hk⟩ := hrow t' ht'
    obtain ⟨hid, hten, -⟩ := TaskRow.keys_eq.mp hk.keys
    rw [hten]
    exact h.tenants t hts a (ha ▸ hat) (hid'.trans hid)
  · intro t' ht' hne
    obtain ⟨t, hts, hk⟩ := hrow t' ht'
    rw [hk.token] at hne ⊢
    exact h.handed t hts hne
  · intro t₁' ht₁' t₂' ht₂' hne heq
    obtain ⟨t₁, hts₁, hk₁⟩ := hrow t₁' ht₁'
    obtain ⟨t₂, hts₂, hk₂⟩ := hrow t₂' ht₂'
    rw [hk₁.token] at hne heq
    rw [hk₂.token] at heq
    rw [(TaskRow.keys_eq.mp hk₁.keys).1, (TaskRow.keys_eq.mp hk₂.keys).1]
    exact h.single t₁ hts₁ t₂ hts₂ hne heq

/-! ## Moves that end a lease -/

/-- The move leaves a task without a lease. -/
def TaskMove.EndsLease (m : TaskMove) : Prop :=
  ∀ t, (m.set t).status.inProgress = false ∧ (m.set t).leaseToken = "" ∧
    (m.set t).leaseExpiresAt = none ∧ (m.set t).attemptCount = t.attemptCount

/-- The attempts of a task after a move keep their numbers and their tenant. -/
theorem TaskMove.attempts_filter (m : TaskMove) (tenant id : String) (now : Time)
    (rows : List AttemptRow) (taskId : String) :
    ((m.attempts tenant id now rows).filter (·.taskId == taskId)).map (·.attempt) =
      (rows.filter (·.taskId == taskId)).map (·.attempt) := by
  unfold TaskMove.attempts
  split
  · rfl
  · rw [filter_updateWhere]
    · apply map_updateWhere
      intro a
      rfl
    · intro a
      rfl

theorem TaskMove.mem_attempts {m : TaskMove} {tenant id : String} {now : Time}
    {rows : List AttemptRow} {a' : AttemptRow} (h : a' ∈ m.attempts tenant id now rows) :
    ∃ a ∈ rows, a'.keys = a.keys := by
  unfold TaskMove.attempts at h
  split at h
  · exact ⟨a', h, rfl⟩
  · obtain ⟨a, ha, rfl⟩ := mem_updateWhere.mp h
    refine ⟨a, ha, ?_⟩
    split <;> rfl

/-- A move ends the running attempts of its own task and no other's. -/
theorem TaskMove.countP_attempts (m : TaskMove) {tenant id : String} (now : Time)
    {rows : List AttemptRow} (hten : ∀ a ∈ rows, a.taskId = id → a.tenantUid = tenant)
    (taskId : String) :
    (m.attempts tenant id now rows).countP (fun a => a.taskId == taskId && a.status == .running) =
      if taskId = id ∧ m.endAttempt ≠ none then 0
      else rows.countP fun a => a.taskId == taskId && a.status == .running := by
  unfold TaskMove.attempts
  cases m.endAttempt with
  | none => simp
  | some ended =>
    simp only [ne_eq, reduceCtorEq, not_false_eq_true, and_true]
    rw [countP_updateWhere]
    by_cases hid : taskId = id
    · rw [if_pos hid, List.countP_eq_zero]
      intro a ha
      simp only [runningAttempt, AttemptRow.endedWith]
      by_cases hta : a.taskId = id
      · by_cases hst : a.status = .running
        · simp [hten a ha hta, hta, hst]
        · simp [hst]
      · simp [hta, hid]
    · rw [if_neg hid]
      apply List.countP_congr
      intro a _
      by_cases hta : a.taskId = id
      · have hne : ¬id = taskId := fun h => hid h.symm
        simp [runningAttempt, AttemptRow.endedWith, hta, hne]
      · simp [runningAttempt, hta]

theorem ledger_moved {used : List String} {s s' : Store} {tenant id jobId batchId : String}
    {guard : TaskRow → Bool} {m : TaskMove} {now : Time} (h : Ledger used s.toTables)
    (hs' : s'.toTables = Store.movedTables s.toTables tenant id jobId batchId guard m now)
    (hm : m.EndsLease) {t₀ : TaskRow} (ht₀ : t₀ ∈ s.tasks)
    (hp₀ : taskIn tenant id guard t₀ = true)
    (hend : m.endAttempt ≠ none ∨ t₀.status.inProgress = false) : Ledger used s'.toTables := by
  obtain ⟨hten₀, hid₀, -⟩ := Store.taskIn_iff.mp hp₀
  have htasks : s'.tasks = updateWhere (taskIn tenant id guard) m.set s.tasks := by rw [hs']; rfl
  have hattempts : s'.attempts = m.attempts tenant id now s.attempts := by rw [hs']; rfl
  have hten : ∀ a ∈ s.attempts, a.taskId = id → a.tenantUid = tenant := by
    intro a ha hta
    rw [h.tenants t₀ ht₀ a ha (hta.trans hid₀.symm), hten₀]
  -- the touched row is `t₀`; every other row has another id
  have hrow : ∀ t' ∈ s'.tasks, t' = m.set t₀ ∨ (t' ∈ s.tasks ∧ t'.id ≠ id) := by
    intro t' ht'
    rw [htasks] at ht'
    rcases mem_updateWhere_cases ht' with ⟨t, hts, hp, rfl⟩ | ⟨hts, hp⟩
    · have hsame : t = t₀ := eq_of_key s.tasks_pk hts ht₀
        ((Store.taskIn_iff.mp hp).2.1.trans hid₀.symm)
      exact .inl (congrArg m.set hsame)
    · refine .inr ⟨hts, ?_⟩
      intro hid
      rw [eq_of_key s.tasks_pk hts ht₀ (hid.trans hid₀.symm)] at hp
      exact absurd hp₀ (by simp [hp])
  obtain ⟨hprog, htok, hdead, hcount⟩ := hm t₀
  obtain ⟨hmid, hmten, -⟩ := TaskRow.keys_eq.mp (m.set_keys t₀)
  refine ⟨?_, ?_, ?_, ?_⟩
  · intro t' ht'
    rw [hattempts]
    rcases hrow t' ht' with rfl | ⟨hts, hne⟩
    · have hl := h.rows t₀ ht₀
      refine ⟨by simp [hprog, htok], by simp [hprog, hdead], ?_, ?_⟩
      · rw [m.countP_attempts now hten, hprog, hmid]
        by_cases he : m.endAttempt = none
        · have hq := hend.resolve_left (not_not.mpr he)
          rw [if_neg (fun hc => hc.2 he), hl.running, hq]
        · rw [if_pos ⟨hid₀, he⟩]
          rfl
      · rw [m.attempts_filter, hmid, hcount]
        exact hl.numbered
    · have hl := h.rows t' hts
      refine ⟨hl.token, hl.deadline, ?_, ?_⟩
      · rw [m.countP_attempts now hten, if_neg (fun hc => hne hc.1)]
        exact hl.running
      · rw [m.attempts_filter]
        exact hl.numbered
  · intro t' ht' a' ha' hta
    rw [hattempts] at ha'
    obtain ⟨a, ha, hk⟩ := TaskMove.mem_attempts ha'
    obtain ⟨-, haten, hatask, -⟩ := AttemptRow.keys_eq.mp hk
    rw [haten]
    rw [hatask] at hta
    rcases hrow t' ht' with rfl | ⟨hts, -⟩
    · rw [hmten]
      exact h.tenants t₀ ht₀ a ha (hta.trans hmid)
    · exact h.tenants t' hts a ha hta
  · intro t' ht' hne
    rcases hrow t' ht' with rfl | ⟨hts, -⟩
    · exact absurd htok hne
    · exact h.handed t' hts hne
  · intro t₁ ht₁ t₂ ht₂ hne heq
    rcases hrow t₁ ht₁ with rfl | ⟨hts₁, -⟩
    · exact absurd htok hne
    · rcases hrow t₂ ht₂ with rfl | ⟨hts₂, -⟩
      · exact absurd (heq.trans htok) hne
      · exact h.single t₁ hts₁ t₂ hts₂ hne heq

theorem ledger_closeTask {used : List String} {s s' : Store} {tenant id : String}
    {guard : TaskRow → Bool} {missing : StoreError} {m : TaskMove} {now : Time}
    (h : Ledger used s.toTables) (hs' : s.closeTask tenant id guard missing m now = .ok s')
    (hm : m.EndsLease)
    (hend : m.endAttempt ≠ none ∨ ∀ t, guard t = true → t.status.inProgress = false) :
    Ledger used s'.toTables := by
  obtain ⟨t, ht, hp, htables⟩ := Store.closeTask_ok hs'
  refine ledger_moved h htables hm ht hp ?_
  rcases hend with he | hg
  · exact .inl he
  · exact .inr (hg t (Store.taskIn_iff.mp hp).2.2)

/-- Each turn of the loop ends the lease of a task that is there. -/
theorem ledger_requeueExpiredTasks {used : List String} {s s' : Store} {tenant : String}
    {now : Time} (h : Ledger used s.toTables)
    (hs' : s.requeueExpiredTasks tenant now = .ok s') : Ledger used s'.toTables := by
  let P : Store → Prop := fun s₁ =>
    Ledger used s₁.toTables ∧ s₁.tasks.map TaskRow.keys = s.tasks.map TaskRow.keys
  suffices hP : P s' from hP.1
  apply foldlM_invariant hs' ⟨h, rfl⟩
  rintro s₁ s₂ item hitem ⟨h₁, hkeys⟩ hstep
  have htables := Store.runMove_ok hstep
  obtain ⟨hits, hexp⟩ := List.mem_filter.mp hitem
  have hmem : item.keys ∈ s₁.tasks.map TaskRow.keys := hkeys ▸ List.mem_map_of_mem hits
  obtain ⟨t₀, ht₀, hk⟩ := List.mem_map.mp hmem
  obtain ⟨hid, hten, -⟩ := TaskRow.keys_eq.mp hk
  have hitem_ten : item.tenantUid = tenant := by
    simp only [Store.expired, Bool.and_eq_true, beq_iff_eq] at hexp
    exact hexp.1.1
  refine ⟨?_, ?_⟩
  · refine ledger_moved h₁ htables ?_ ht₀ ?_ (.inl (by simp [expiredMove]))
    · intro t
      exact ⟨rfl, rfl, rfl, rfl⟩
    · exact Store.taskIn_iff.mpr ⟨hten.trans hitem_ten, hid, rfl⟩
  · rw [htables]
    exact (map_updateWhere _ (expiredMove now).set_keys).trans hkeys

/-! ## Claims and new tasks -/

/-- A claim of a waiting task with a token not handed out before. -/
theorem ledger_claimNextTask {used : List String} {s s' : Store} {tenant workerId token : String}
    {now expires : Time} {task : BackupTask} (h : Ledger used s.toTables) (hne : token ≠ "")
    (hfresh : token ∉ used)
    (hs' : s.claimNextTask tenant workerId token now expires = .ok (s', task)) :
    Ledger (used ++ [token]) s'.toTables := by
  obtain ⟨t₀, ht₀, hten₀, hq₀, -, htables⟩ := Store.claimNextTask_ok hs'
  have hattempts : s'.attempts = s.attempts ++ [Store.claimAttempt tenant workerId now t₀] := by
    rw [htables]
  -- each row is the claimed one, or is another as it was
  have hrow : ∀ t' ∈ s'.tasks, t' = Store.claimRow workerId token now expires t₀ ∨
      (t' ∈ s.tasks ∧ t'.id ≠ t₀.id) := by
    intro t' ht'
    rw [htables] at ht'
    rcases mem_updateWhere_cases ht' with ⟨t, hts, hp, rfl⟩ | ⟨hts, hp⟩
    · exact .inl (congrArg _ (eq_of_key s.tasks_pk hts ht₀ (Store.taskIn_iff.mp hp).2.1))
    · refine .inr ⟨hts, ?_⟩
      intro hid
      rw [eq_of_key s.tasks_pk hts ht₀ hid] at hp
      simp [taskIn, hten₀, hq₀] at hp
  have hl₀ := h.rows t₀ ht₀
  have hwaiting : t₀.status.inProgress = false := by rw [hq₀]; rfl
  -- its rows, the tenants of attempts, the tokens handed out, and that they are on one task each
  refine ⟨?_, ?_, ?_, ?_⟩
  · intro t' ht'
    rw [hattempts]
    rcases hrow t' ht' with rfl | ⟨hts, hid⟩
    · refine ⟨?_, ?_, ?_, ?_⟩
      · exact iff_of_true rfl hne
      · exact iff_of_true rfl (by simp [Store.claimRow])
      · have hnone := hl₀.running
        rw [hwaiting] at hnone
        rw [List.countP_append]
        show s.attempts.countP (fun a => a.taskId == t₀.id && a.status == .running) + _ = _
        rw [hnone]
        simp [Store.claimRow, Store.claimAttempt, TaskStatus.inProgress, TaskStatus.terminal]
      · have hnum := hl₀.numbered
        rw [List.filter_append, List.map_append]
        show (s.attempts.filter (·.taskId == t₀.id)).map (·.attempt) ++ _ = _
        rw [hnum]
        simp [Store.claimRow, Store.claimAttempt, List.range'_1_concat, Nat.add_comm]
    · have hl := h.rows t' hts
      have hother : (Store.claimAttempt tenant workerId now t₀).taskId ≠ t'.id := Ne.symm hid
      refine ⟨hl.token, hl.deadline, ?_, ?_⟩
      · rw [List.countP_append, hl.running]
        simp [hother]
      · rw [List.filter_append, List.map_append, hl.numbered]
        simp [hother]
  · intro t' ht' a ha hta
    rw [hattempts] at ha
    rcases List.mem_append.mp ha with ha | ha
    · rcases hrow t' ht' with rfl | ⟨hts, -⟩
      · exact h.tenants t₀ ht₀ a ha hta
      · exact h.tenants t' hts a ha hta
    · obtain rfl := List.mem_singleton.mp ha
      rcases hrow t' ht' with rfl | ⟨-, hid⟩
      · exact hten₀.symm
      · exact absurd hta.symm hid
  · intro t' ht' hne'
    rcases hrow t' ht' with rfl | ⟨hts, -⟩
    · exact List.mem_append_right _ (List.mem_singleton.mpr rfl)
    · exact List.mem_append_left _ (h.handed t' hts hne')
  · intro t₁ ht₁ t₂ ht₂ hne' heq
    rcases hrow t₁ ht₁ with rfl | ⟨hts₁, -⟩
    · rcases hrow t₂ ht₂ with rfl | ⟨hts₂, -⟩
      · rfl
      · -- the other task's token was handed out before
        have hmem := h.handed t₂ hts₂ (heq ▸ hne')
        rw [← heq] at hmem
        exact absurd hmem hfresh
    · rcases hrow t₂ ht₂ with rfl | ⟨hts₂, -⟩
      · have hmem := h.handed t₁ hts₁ hne'
        rw [heq] at hmem
        exact absurd hmem hfresh
      · exact h.single t₁ hts₁ t₂ hts₂ hne' heq

theorem ledger_addTask {used : List String} {s s' : Store} {task : BackupTask} {now : Time}
    (h : Ledger used s.toTables) (hstatus : task.status.inProgress = false)
    (hcount : task.attemptCount = 0) (hs' : s.addTask task now = .ok s') :
    Ledger used s'.toTables := by
  have htables := Store.addTask_ok hs'
  have htasks : s'.tasks = s.tasks ++ [taskRow task] := by rw [htables]
  have hattempts : s'.attempts = s.attempts := by rw [htables]
  -- attempts name a task that is there, so the new one has none
  have hnone : ∀ a ∈ s.attempts, a.taskId ≠ (taskRow task).id := by
    intro a ha hid
    have hpk := s'.tasks_pk
    rw [htasks, List.map_append] at hpk
    have hmem := s.attempts_task a ha
    rw [hid] at hmem
    exact List.disjoint_of_nodup_append hpk hmem (by simp)
  refine ⟨?_, ?_, ?_, ?_⟩
  · intro t ht
    rw [hattempts]
    rw [htasks] at ht
    rcases List.mem_append.mp ht with hts | ht
    · exact h.rows t hts
    · obtain rfl := List.mem_singleton.mp ht
      refine ⟨by simp [taskRow, hstatus], by simp [taskRow, hstatus], ?_, ?_⟩
      · have hst : (taskRow task).status.inProgress = false := hstatus
        rw [hst, List.countP_eq_zero.mpr]
        · rfl
        · intro a ha
          simp [hnone a ha]
      · have hempty : s.attempts.filter (·.taskId == (taskRow task).id) = [] := by
          apply List.filter_eq_nil_iff.mpr
          intro a ha
          simp [hnone a ha]
        have hzero : (taskRow task).attemptCount = 0 := hcount
        rw [hempty, hzero]
        rfl
  · intro t ht a ha hta
    rw [hattempts] at ha
    rw [htasks] at ht
    rcases List.mem_append.mp ht with hts | ht
    · exact h.tenants t hts a ha hta
    · obtain rfl := List.mem_singleton.mp ht
      exact absurd hta (hnone a ha)
  · intro t ht hne
    rw [htasks] at ht
    rcases List.mem_append.mp ht with hts | ht
    · exact h.handed t hts hne
    · obtain rfl := List.mem_singleton.mp ht
      exact absurd rfl hne
  · intro t₁ ht₁ t₂ ht₂ hne heq
    rw [htasks] at ht₁ ht₂
    rcases List.mem_append.mp ht₁ with hts₁ | ht₁
    · rcases List.mem_append.mp ht₂ with hts₂ | ht₂
      · exact h.single t₁ hts₁ t₂ hts₂ hne heq
      · obtain rfl := List.mem_singleton.mp ht₂
        exact absurd heq hne
    · obtain rfl := List.mem_singleton.mp ht₁
      exact absurd rfl hne

/-! ## One operation -/

/-- The tokens an operation hands out. -/
def Op.handed : Op → List String
  | .claimNextTask _ _ token _ _ => [token]
  | _ => []

/-- What the callers keep to: a claim has a token, a new task waits or is skipped
and has no attempt, `SetTaskStatus` keeps a task in progress and
`FinishTaskFailure` ends it. -/
def Op.WellCalled : Op → Prop
  | .claimNextTask _ _ token _ _ => token ≠ ""
  | .addTask task _ => (task.status = .queued ∨ task.status = .skipped) ∧ task.attemptCount = 0
  | .setTaskStatus _ _ _ status => status.inProgress = true
  | .finishTaskFailure _ _ _ status _ _ => status.terminal = true
  | _ => True

/-- A heartbeat comes with the token of a claim. -/
def Op.BeatsLease : Op → Prop
  | .heartbeatTask _ _ token _ _ => token ≠ ""
  | _ => True

theorem ledger_used {used used' : List String} {s : Tables} (h : Ledger used s)
    (hsub : ∀ token ∈ used, token ∈ used') : Ledger used' s :=
  ⟨h.rows, h.tenants, fun t ht hne => hsub _ (h.handed t ht hne), h.single⟩

theorem inProgress_of_leased {t : TaskRow} (h : leasedGroup.contains t.status = true) :
    t.status.inProgress = true := by
  revert h
  cases t.status <;> decide

/-- A task that is ended while it waits never had a lease. -/
theorem keepsLease_of_waiting {tenant planId code : String} {status : TaskStatus}
    {validation : Option PlanPauseReason} {at_ : Time} {t : TaskRow} (hw : waitingTask tenant planId t = true)
    (hst : status.inProgress = false) : KeepsLease t (endWaitingTask status code validation at_ t) := by
  refine ⟨rfl, rfl, ?_, rfl, Iff.rfl⟩
  have hq : t.status = .queued := by
    simp only [waitingTask, Bool.and_eq_true, beq_iff_eq] at hw
    exact hw.2
  rw [hq]
  exact hst

theorem ledger_updatePlan {used : List String} {s s' : Store} {tenant : String} {plan : BackupPlan}
    {cancelQueued : Bool} (h : Ledger used s.toTables)
    (hs' : (Op.updatePlan tenant plan cancelQueued).apply s = .ok s') : Ledger used s'.toTables := by
  obtain ⟨targets, ht⟩ := Store.updatePlan_ok hs'
  cases cancelQueued with
  | false =>
    rw [ht]
    exact ⟨h.rows, h.tenants, h.handed, h.single⟩
  | true =>
    refine ledger_updateWhere h (by rw [ht, if_pos rfl]) (by rw [ht]) ?_
    intro t _ hw
    exact keepsLease_of_waiting hw rfl

theorem ledger_setTaskStatus {used : List String} {s s' : Store} {tenant id token : String}
    {status : TaskStatus} (h : Ledger used s.toTables)
    (hcall : (Op.setTaskStatus tenant id token status).WellCalled)
    (hs' : (Op.setTaskStatus tenant id token status).apply s = .ok s') : Ledger used s'.toTables := by
  have ht := Store.setTaskStatus_ok hs'
  refine ledger_updateWhere h (by rw [ht]) (by rw [ht]) ?_
  intro t _ hp
  have hl := (Store.taskIn_iff.mp hp).2.2
  simp only [Bool.and_eq_true] at hl
  refine ⟨rfl, rfl, ?_, rfl, Iff.rfl⟩
  rw [inProgress_of_leased hl.2]
  exact hcall

theorem ledger_heartbeatTask {used : List String} {s s' : Store} {tenant id token : String} {now expires : Time}
    (h : Ledger used s.toTables) (hbeat : (Op.heartbeatTask tenant id token now expires).BeatsLease)
    (hs' : (Op.heartbeatTask tenant id token now expires).apply s = .ok s') : Ledger used s'.toTables := by
  cases hs'
  refine ledger_updateWhere h rfl rfl ?_
  intro t hts hp
  -- the row has the token, so it is in progress and has a deadline already
  have hg := (Store.taskIn_iff.mp hp).2.2
  simp only [Bool.and_eq_true, beq_iff_eq] at hg
  have hprog := (h.rows t hts).token.mpr (by rw [hg.1]; exact hbeat)
  refine ⟨rfl, rfl, rfl, rfl, ?_⟩
  exact iff_of_true (by simp) ((h.rows t hts).deadline.mp hprog)

theorem ledger_cancelTask {used : List String} {s s' : Store} {tenant id : String} {now : Time}
    (h : Ledger used s.toTables) (hs' : (Op.cancelTask tenant id now).apply s = .ok s') :
    Ledger used s'.toTables := by
  cases hc : s.cancelTask tenant id now with
  | error e => simp [Op.apply, hc, Except.map] at hs'
  | ok out =>
    obtain ⟨s₁, task⟩ := out
    simp only [Op.apply, hc, Except.map, Except.ok.injEq] at hs'
    subst hs'
    obtain ⟨t₀, -, -, -, ⟨-, rfl⟩ | ⟨-, rfl⟩⟩ := Store.cancelTask_ok hc
    · have ht := Store.cancelTaskJob_tables (s.cancelTaskRow tenant id now) tenant
        t₀.backupJobId now
      refine ledger_updateWhere h (by rw [ht]; rfl) (by rw [ht]; rfl) ?_
      intro t _ hp
      have hq : t.status = .queued := by simpa using (Store.taskIn_iff.mp hp).2.2
      refine ⟨rfl, rfl, ?_, rfl, Iff.rfl⟩
      rw [hq]
      rfl
    · exact h

theorem ledger_resetTaskForManualRetry {used : List String} {s s' : Store} {tenant id : String} {now : Time}
    (h : Ledger used s.toTables) (hs' : (Op.resetTaskForManualRetry tenant id now).apply s = .ok s') :
    Ledger used s'.toTables := by
  refine ledger_closeTask h hs' ?_ (.inr ?_)
  · intro t
    exact ⟨rfl, rfl, rfl, rfl⟩
  · intro t hg
    revert hg
    cases t.status <;> decide

theorem ledger_apply {used : List String} {s s' : Store} {op : Op} (h : Ledger used s.toTables)
    (hcall : op.WellCalled) (hbeat : op.BeatsLease) (hfresh : ∀ token ∈ op.handed, token ∉ used)
    (hs' : op.apply s = .ok s') : Ledger (used ++ op.handed) s'.toTables := by
  -- only a claim hands a token out
  have hkeep : ∀ {s' : Store}, Ledger used s'.toTables → Ledger (used ++ op.handed) s'.toTables :=
    fun h' => ledger_used h' fun _ hm => List.mem_append_left _ hm
  cases op with
  | createPlan plan =>
    obtain ⟨targets, ht⟩ := Store.createPlan_ok hs'
    apply hkeep
    rw [ht]
    exact ⟨h.rows, h.tenants, h.handed, h.single⟩
  | updatePlan tenant plan cancelQueued => exact hkeep (ledger_updatePlan h hs')
  | setPlanEnabled tenant id enabled nextRun updated =>
    obtain ⟨plans, ht⟩ := Store.setPlanEnabled_ok hs'
    apply hkeep
    rw [ht]
    exact ⟨h.rows, h.tenants, h.handed, h.single⟩
  | pausePlanForScope tenant id reason =>
    obtain ⟨plans, ht⟩ := Store.pausePlanForScope_ok hs'
    apply hkeep
    refine ledger_updateWhere h (by rw [ht]) (by rw [ht]) ?_
    intro t _ hw
    exact keepsLease_of_waiting hw rfl
  | advancePlan tenant id scheduledAt nextRun updated =>
    cases hs'
    exact hkeep ⟨h.rows, h.tenants, h.handed, h.single⟩
  | createBatch batch =>
    apply hkeep
    rw [Store.createBatch_ok hs']
    exact ⟨h.rows, h.tenants, h.handed, h.single⟩
  | addTask task now =>
    apply hkeep
    refine ledger_addTask h ?_ hcall.2 hs'
    rcases hcall.1 with hst | hst <;> rw [hst] <;> rfl
  | claimNextTask tenant workerId token now expires =>
    cases hc : s.claimNextTask tenant workerId token now expires with
    | error e => simp [Op.apply, hc, Except.map] at hs'
    | ok out =>
      obtain ⟨s₁, task⟩ := out
      simp only [Op.apply, hc, Except.map, Except.ok.injEq] at hs'
      subst hs'
      exact ledger_claimNextTask h hcall (hfresh token (List.mem_singleton.mpr rfl)) hc
  | setTaskStatus tenant id token status => exact hkeep (ledger_setTaskStatus h hcall hs')
  | setTaskScopeValidation tenant id token value =>
    cases hs'
    apply hkeep
    refine ledger_updateWhere h rfl rfl ?_
    intro t _ _
    exact ⟨rfl, rfl, rfl, rfl, Iff.rfl⟩
  | heartbeatTask tenant id token now expires => exact hkeep (ledger_heartbeatTask h hbeat hs')
  | completeTask tenant id token snapshotId now =>
    apply hkeep
    refine ledger_closeTask h hs' ?_ (.inl (by simp [completeMove]))
    intro t
    exact ⟨rfl, rfl, rfl, rfl⟩
  | retryTask tenant id token code availableAt now =>
    apply hkeep
    refine ledger_closeTask h hs' ?_ (.inl (by simp [retryMove]))
    intro t
    exact ⟨rfl, rfl, rfl, rfl⟩
  | finishTaskFailure tenant id token status code now =>
    apply hkeep
    refine ledger_closeTask h hs' ?_ (.inl (by simp [failureMove]))
    intro t
    have hterm : status.terminal = true := hcall
    exact ⟨by simp [failureMove, TaskStatus.inProgress, hterm], rfl, rfl, rfl⟩
  | cancelTask tenant id now => exact hkeep (ledger_cancelTask h hs')
  | requeueExpiredTasks tenant now =>
    apply hkeep
    exact ledger_requeueExpiredTasks h hs'
  | resetTaskForManualRetry tenant id now => exact hkeep (ledger_resetTaskForManualRetry h hs')
  | createBackupJob job =>
    apply hkeep
    rw [Store.createBackupJob_ok hs']
    exact ⟨h.rows, h.tenants, h.handed, h.single⟩
  | startBackupJob tenant id started =>
    apply hkeep
    rw [(Store.moveJob_ok hs').2]
    exact ⟨h.rows, h.tenants, h.handed, h.single⟩
  | failBackupJob tenant id code finished =>
    apply hkeep
    rw [(Store.moveJob_ok hs').2]
    exact ⟨h.rows, h.tenants, h.handed, h.single⟩
  | commitSnapshot snapshot =>
    apply hkeep
    rw [(Store.commitSnapshot_ok hs').2]
    exact ⟨h.rows, h.tenants, h.handed, h.single⟩

/-! ## Fencing -/

/-- The task and the token an operation of the worker comes with. -/
def Op.lease : Op → Option (String × String × String)
  | .setTaskStatus tenant id token _ => some (tenant, id, token)
  | .setTaskScopeValidation tenant id token _ => some (tenant, id, token)
  | .heartbeatTask tenant id token _ _ => some (tenant, id, token)
  | .completeTask tenant id token _ _ => some (tenant, id, token)
  | .retryTask tenant id token _ _ _ => some (tenant, id, token)
  | .finishTaskFailure tenant id token _ _ _ => some (tenant, id, token)
  | _ => none

/-- An operation of the worker with a token that is not its task's changes no row. -/
theorem stale_token_changes_nothing {s : Store} {op : Op} {tenant id token : String}
    (hop : op.lease = some (tenant, id, token))
    (hstale : ∀ t ∈ s.tasks, t.tenantUid = tenant → t.id = id → t.leaseToken ≠ token) :
    op.next s = s := by
  have hmiss : ∀ guard : TaskRow → Bool,
      (∀ t, guard t = true → t.leaseToken = token) → ∀ t ∈ s.tasks, taskIn tenant id guard t = false := by
    intro guard hguard t ht
    by_contra hp
    obtain ⟨hten, hid, hg⟩ := Store.taskIn_iff.mp (by simpa using hp)
    exact hstale t ht hten hid (hguard t hg)
  have hzero : ∀ guard : TaskRow → Bool,
      (∀ t, guard t = true → t.leaseToken = token) → s.tasks.countP (taskIn tenant id guard) ≠ 1 := by
    intro guard hguard hone
    obtain ⟨t, ht, hp⟩ := exists_of_countP_one hone
    simp [hmiss guard hguard t ht] at hp
  have htoken : ∀ t : TaskRow, (t.leaseToken == token) = true → t.leaseToken = token := by
    intro t ht
    simpa using ht
  have hboth : ∀ (q : TaskRow → Bool) (t : TaskRow), (t.leaseToken == token && q t) = true →
      t.leaseToken = token := by
    intro q t ht
    simp only [Bool.and_eq_true] at ht
    exact htoken t ht.1
  unfold Op.next
  cases op <;> simp only [Op.lease, reduceCtorEq, Option.some.injEq, Prod.mk.injEq] at hop
  case setTaskStatus =>
    obtain ⟨rfl, rfl, rfl⟩ := hop
    simp only [Op.apply, Store.setTaskStatus]
    rw [if_pos (hzero _ (hboth _))]
  case setTaskScopeValidation =>
    obtain ⟨rfl, rfl, rfl⟩ := hop
    exact Store.updateTasks_miss (hmiss _ htoken)
  case heartbeatTask =>
    obtain ⟨rfl, rfl, rfl⟩ := hop
    exact Store.updateTasks_miss (hmiss _ (hboth _))
  case completeTask =>
    obtain ⟨rfl, rfl, rfl⟩ := hop
    simp only [Op.apply, Store.completeTask, Store.closeTask]
    rw [if_pos (hzero _ htoken)]
  case retryTask =>
    obtain ⟨rfl, rfl, rfl⟩ := hop
    simp only [Op.apply, Store.retryTask, Store.closeTask]
    rw [if_pos (hzero _ htoken)]
  case finishTaskFailure =>
    obtain ⟨rfl, rfl, rfl⟩ := hop
    simp only [Op.apply, Store.finishTaskFailure, Store.closeTask]
    rw [if_pos (hzero _ htoken)]

/-! ## Every run -/

theorem ledger_runOps (ops : List Op) {used : List String} {s : Store} (h : Ledger used s.toTables)
    (hcalls : ∀ op ∈ ops, op.WellCalled ∧ op.BeatsLease)
    (hfresh : (used ++ ops.flatMap Op.handed).Nodup) :
    Ledger (used ++ ops.flatMap Op.handed) (runOps s ops).toTables := by
  induction ops generalizing used s with
  | nil => simpa [runOps] using h
  | cons op rest ih =>
    rw [List.flatMap_cons, ← List.append_assoc] at hfresh ⊢
    have hnew : ∀ token ∈ op.handed, token ∉ used := by
      intro token hm hu
      exact List.disjoint_of_nodup_append (List.nodup_append.mp hfresh).1 hu hm
    obtain ⟨hcall, hbeat⟩ := hcalls op (List.mem_cons_self ..)
    apply ih
    · rcases Op.next_cases s op with happly | hsame
      · exact ledger_apply h hcall hbeat hnew happly
      · rw [hsame]
        exact ledger_used h fun _ hm => List.mem_append_left _ hm
    · intro op' hop'
      exact hcalls op' (List.mem_cons_of_mem _ hop')
    · exact hfresh

theorem ledger_empty : Ledger [] Store.empty.toTables := by
  refine ⟨?_, ?_, ?_, ?_⟩ <;> intro t ht <;> cases ht

/-- In every state a run reaches, a task has a lease and one running attempt exactly
while it is in progress, its attempts are numbered from one, a token is on one
task, and the worker of another token changes nothing. -/
theorem lease_ledger (ops : List Op) (hcalls : ∀ op ∈ ops, op.WellCalled)
    (hbeats : ∀ op ∈ ops, op.BeatsLease) (hfresh : (ops.flatMap Op.handed).Nodup) :
    (∀ t ∈ (runOps Store.empty ops).tasks, t.Ledger (runOps Store.empty ops).attempts) ∧
    (∀ t ∈ (runOps Store.empty ops).tasks, ∀ t' ∈ (runOps Store.empty ops).tasks,
      t.leaseToken ≠ "" → t.leaseToken = t'.leaseToken → t = t') ∧
    ∀ (op : Op) (tenant id token : String), op.lease = some (tenant, id, token) → token ≠ "" →
      (∀ t ∈ (runOps Store.empty ops).tasks, t.tenantUid = tenant → t.id = id →
        t.leaseToken ≠ token) →
      op.next (runOps Store.empty ops) = runOps Store.empty ops := by
  have hledger := ledger_runOps ops ledger_empty (fun op hop => ⟨hcalls op hop, hbeats op hop⟩)
    (by simpa using hfresh)
  refine ⟨hledger.rows, ?_, ?_⟩
  · intro t ht t' ht' hne heq
    exact eq_of_key (runOps Store.empty ops).tasks_pk ht ht' (hledger.single t ht t' ht' hne heq)
  · intro op tenant id token hop _ hstale
    exact stale_token_changes_nothing hop hstale

/-- The claim of the queue's own test. -/
def claimA : List Op :=
  [.createBatch batchA, .addTask taskA 0, .claimNextTask "tenant-a" "worker-a" "lease-a" 0 second]

theorem lease_ledger_claimed :
    (runOps Store.empty claimA).tasks.length = 1 ∧
    ∀ t ∈ (runOps Store.empty claimA).tasks, t.Ledger (runOps Store.empty claimA).attempts := by
  refine ⟨by decide, (lease_ledger claimA ?_ ?_ (by decide)).1⟩
  · intro op hop
    simp only [claimA, List.mem_cons, List.not_mem_nil, or_false] at hop
    rcases hop with rfl | rfl | rfl
    · exact trivial
    · exact ⟨.inl rfl, rfl⟩
    · exact (by decide : "lease-a" ≠ "")
  · intro op hop
    simp only [claimA, List.mem_cons, List.not_mem_nil, or_false] at hop
    rcases hop with rfl | rfl | rfl <;> exact trivial

/-- A heartbeat with the empty token gives a waiting task a deadline. -/
theorem empty_token_heartbeat_breaks_ledger :
    ¬∀ ops : List Op, (∀ op ∈ ops, op.WellCalled) → (ops.flatMap Op.handed).Nodup →
      ∀ t ∈ (runOps Store.empty ops).tasks,
        (t.status.inProgress = true ↔ t.leaseExpiresAt ≠ none) := by
  intro h
  have hrow := h [.createBatch batchA, .addTask taskA 0, .heartbeatTask "tenant-a" "task-a" "" 0 second]
    ?_ (by decide)
  · have hbad : (runOps Store.empty [.createBatch batchA, .addTask taskA 0,
        .heartbeatTask "tenant-a" "task-a" "" 0 second]).tasks.any
        (fun t => !t.status.inProgress && t.leaseExpiresAt.isSome) = true := by decide
    obtain ⟨t, ht, hb⟩ := List.any_eq_true.mp hbad
    simp only [Bool.and_eq_true, Bool.not_eq_true'] at hb
    have hprog := (hrow t ht).mpr (by intro hn; rw [hn] at hb; exact absurd hb.2 (by decide))
    rw [hb.1] at hprog
    exact absurd hprog (by decide)
  · intro op hop
    simp only [List.mem_cons, List.not_mem_nil, or_false] at hop
    rcases hop with rfl | rfl | rfl
    · exact trivial
    · exact ⟨.inl rfl, rfl⟩
    · exact trivial

end AppBackup.Persistence
