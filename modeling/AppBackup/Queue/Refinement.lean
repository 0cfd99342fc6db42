import AppBackup.Queue.Known

/- Every step of the world is a `Life.Step` of every life (`simulates`), and `Cause`
   says which steps of the world the kinds come from that end or reopen a life: the task
   that is added, the commit and the closing of an execution, an interrupted execution,
   the three steps of a cancellation, the two retries and the crash. So what holds of
   every run of lives holds of every job in every run of the world.

   The proof goes the way a step is made: `moves_` lemmas are about the moves in memory and the
   single writes of a thread, `acts_own` and `acts_other` about a statement of `execute` as the
   life of its own job and of any other sees it, and `simulates` goes through the cases of
   `Steps`. -/
namespace AppBackup.Queue
open Persistence Persistence.Store Table

/-- What the kind of a step of life `id` says of the step of the world. -/
def Cause (w : World) (a : Action) (id : String) : Kind → Prop
  | .add => ∃ k now task, a = .enqueueTask k now ∧ w.enqueues k = .adding task ∧
      task.backupJobId = id
  | .commit i => ∃ archive, a = .execute i (.commit archive)
  | .close i | .refused i => a = .execute i .close
  | .interrupt ctx => ∃ k taskId, a = .cancelCall k ∧ w.cancels k = .calling taskId ctx
  | .cancelRow k => a = .cancelRow k
  | .cancelJob k => a = .cancelJob k
  | .hangUp k => a = .hangUp k
  | .reset => ∃ taskId now, a = .manualRetry taskId now ∧ Owned w.store w.tenant taskId id
  | .requeue => ∃ uid now,
      (a = .boot uid now ∨ ∃ i, a = .recover i now ∧ w.workers i = .recovering uid) ∧
      ∃ t ∈ w.store.tasks, t.backupJobId = id ∧ expired uid now t = true
  | .crash => a = .crash
  | _ => True

/-- Some step of the life, for the reason given. -/
def Moves (w : World) (a : Action) (w' : World) (id : String) : Prop :=
  ∃ k, Cause w a id k ∧ Life.Step (w.life id) k (w'.life id)

theorem moves_quiet {w w' : World} {a : Action} {id : String} (h : w'.life id = w.life id) :
    Moves w a w' id := by
  refine ⟨.quiet, trivial, ?_⟩
  rw [h]
  exact .quiet _

/-! ## The life of a changed world -/

section
variable {w : World} {id : String}

theorem life_setWorker (i : Nat) (worker : Worker) :
    (w.setWorker i worker).life id = { w.life id with
      holder := Function.update (w.life id).holder i (worker.holds id) } := by
  have hholder : (fun n => (Function.update w.workers i worker n).holds id) =
      Function.update (w.life id).holder i (worker.holds id) := by
    funext n
    by_cases hn : n = i
    · rw [hn, Function.update_self, Function.update_self]
    · rw [Function.update_of_ne hn, Function.update_of_ne hn]
      rfl
  show Life.mk _ _ _ _ _ = _
  exact congrArg (fun holder => { w.life id with holder := holder }) hholder

theorem life_setCancel (k : Nat) (call : CancelCall) :
    (w.setCancel k call).life id = { w.life id with
      sweep := Function.update (w.life id).sweep k (call.sweeps id) } := by
  have hsweep : (fun n => (Function.update w.cancels k call n).sweeps id) =
      Function.update (w.life id).sweep k (call.sweeps id) := by
    funext n
    by_cases hn : n = k
    · rw [hn, Function.update_self, Function.update_self]
    · rw [Function.update_of_ne hn, Function.update_of_ne hn]
      rfl
  show Life.mk _ _ _ _ _ = _
  exact congrArg (fun sweep => { w.life id with sweep := sweep }) hsweep

theorem life_setWorker_same {i : Nat} {worker : Worker}
    (h : worker.holds id = (w.workers i).holds id) : (w.setWorker i worker).life id = w.life id := by
  rw [life_setWorker]
  show { w.life id with holder := Function.update (w.life id).holder i (worker.holds id) } = w.life id
  rw [h]
  show { w.life id with holder := Function.update (w.life id).holder i ((w.life id).holder i) } = _
  rw [Function.update_eq_self]

theorem life_setCancel_same {k : Nat} {call : CancelCall}
    (h : call.sweeps id = (w.cancels k).sweeps id) : (w.setCancel k call).life id = w.life id := by
  rw [life_setCancel, h]
  show { w.life id with sweep := Function.update (w.life id).sweep k ((w.life id).sweep k) } = _
  rw [Function.update_eq_self]

theorem life_onStore {s : Store} {job : Option JobLife} {task : Option TaskLife}
    {snapshots : List String} (ht : taskLife s id = task) (hj : jobLife s id = job)
    (hs : snapshotIds s id = snapshots) :
    (w.onStore s).life id =
      { w.life id with job := job, task := task, snapshots := snapshots } := by
  subst ht hj hs
  rfl

theorem life_onStore_same {s : Store} (h : SameRows w.store s id) :
    (w.onStore s).life id = w.life id := by
  rw [life_onStore h.task h.job h.snapshots]
  rfl

theorem life_afterAct {i : Nat} {x : Execution} (s : Store) (stage : Stage)
    (tickers : List (String × String × String)) (hown : x.task.backupJobId = id) :
    (w.afterAct i x s stage tickers).life id = Life.setStage { w.life id with
      job := jobLife s id, task := taskLife s id, snapshots := snapshotIds s id } i x stage := by
  have hholds : (Worker.busy { x with stage := stage }).holds id = some { x with stage := stage } :=
    if_pos hown
  show ((w.onStore s).setWorker i _).life id = _
  rw [life_setWorker, hholds]
  rfl

theorem life_afterAct_other {i : Nat} {x : Execution} (s : Store) (stage : Stage)
    (tickers : List (String × String × String)) (hi : w.workers i = .busy x)
    (hother : x.task.backupJobId ≠ id) :
    (w.afterAct i x s stage tickers).life id = (w.onStore s).life id := by
  show ((w.onStore s).setWorker i _).life id = _
  apply life_setWorker_same
  show (if x.task.backupJobId = id then some _ else none) = (w.workers i).holds id
  rw [hi]
  show _ = (if x.task.backupJobId = id then some x else none)
  rw [if_neg hother, if_neg hother]

theorem holder_busy {i : Nat} {x : Execution} (hi : w.workers i = .busy x)
    (hown : x.task.backupJobId = id) : (w.life id).holder i = some x := by
  show (w.workers i).holds id = some x
  rw [hi]
  exact if_pos hown

end

/-! ## Plan edits -/

/-- The waiting rows of a life are ended, or the life does not see the edit. -/
theorem pausePlan_rows {s : Store} (hp : Placed s) (tenant planId : String) (reason : PlanPauseReason)
    (id : String) :
    SameRows s ((Op.pausePlanForScope tenant planId reason).next s) id ∨
      (taskLife ((Op.pausePlanForScope tenant planId reason).next s) id =
          (taskLife s id).map (·.ended .skipped) ∧
        jobLife ((Op.pausePlanForScope tenant planId reason).next s) id =
          (jobLife s id).map (·.moved (· == .queued) .failed) ∧
        snapshotIds ((Op.pausePlanForScope tenant planId reason).next s) id = snapshotIds s id) := by
  rcases Op.next_cases s (.pausePlanForScope tenant planId reason) with h | h
  · obtain ⟨plans, htables⟩ := pausePlanForScope_ok h
    generalize (Op.pausePlanForScope tenant planId reason).next s = s' at htables ⊢
    have hsnaps : snapshotIds s' id = snapshotIds s id := snapshotIds_congr (by rw [htables]) id
    have htasks := congrArg Tables.tasks htables
    have hjobs := congrArg Tables.jobs htables
    rcases endWaiting_rows hp htasks hjobs id with ⟨ht, hj⟩ | ⟨ht, hj⟩
    · exact .inl ⟨ht, hj, hsnaps⟩
    · exact .inr ⟨ht, hj, hsnaps⟩
  · rw [h]
    exact .inl (SameRows.refl s id)

theorem updatePlan_rows {s : Store} (hp : Placed s) (tenant : String) (plan : BackupPlan)
    (cancelQueued : Bool) (id : String) :
    SameRows s ((Op.updatePlan tenant plan cancelQueued).next s) id ∨
      (taskLife ((Op.updatePlan tenant plan cancelQueued).next s) id =
          (taskLife s id).map (·.ended .cancelled) ∧
        jobLife ((Op.updatePlan tenant plan cancelQueued).next s) id =
          (jobLife s id).map (·.moved (· == .queued) .failed) ∧
        snapshotIds ((Op.updatePlan tenant plan cancelQueued).next s) id = snapshotIds s id) := by
  rcases Op.next_cases s (.updatePlan tenant plan cancelQueued) with h | h
  · obtain ⟨targets, htables⟩ := updatePlan_ok h
    cases cancelQueued with
    | false => exact .inl (sameRows_congr (by rw [htables]; rfl) (by rw [htables]; rfl) (by rw [htables]) id)
    | true =>
      simp only [if_true] at htables
      generalize (Op.updatePlan tenant plan true).next s = s' at htables ⊢
      have hsnaps : snapshotIds s' id = snapshotIds s id := snapshotIds_congr (by rw [htables]) id
      have htasks := congrArg Tables.tasks htables
      have hjobs := congrArg Tables.jobs htables
      rcases endWaiting_rows hp htasks hjobs id with ⟨ht, hj⟩ | ⟨ht, hj⟩
      · exact .inl ⟨ht, hj, hsnaps⟩
      · exact .inr ⟨ht, hj, hsnaps⟩
  · rw [h]
    exact .inl (SameRows.refl s id)

theorem moves_superseded {w : World} {a : Action} {s : Store} {id : String} {status : TaskStatus}
    (hst : status = .cancelled ∨ status = .skipped)
    (h : SameRows w.store s id ∨ (taskLife s id = (taskLife w.store id).map (·.ended status) ∧
      jobLife s id = (jobLife w.store id).map (·.moved (· == .queued) .failed) ∧
      snapshotIds s id = snapshotIds w.store id)) : Moves w a (w.onStore s) id := by
  rcases h with hsame | ⟨ht, hj, hs⟩
  · exact moves_quiet (life_onStore_same hsame)
  · refine ⟨.supersede, trivial, ?_⟩
    rw [life_onStore ht hj hs]
    exact .supersede hst

/-! ## The statements of `execute` -/

theorem jobLife_of_backupJob {s : Store} {tenant id : String} {job : BackupJob}
    (h : s.backupJob tenant id = .ok job) : ∃ j, jobLife s id = some j ∧ j.snapshotId = job.snapshotId := by
  unfold Store.backupJob at h
  split at h
  · next r hr =>
    cases h
    have hid := (jobIn_iff.mp (List.find?_some hr)).1
    refine ⟨jobRowLife r, ?_, rfl⟩
    rw [← hid]
    exact jobLife_of_mem (List.mem_of_find?_eq_some hr)
  · cases h

theorem jobLife_of_backupJob_error {s : Store} {tenant id : String} {e : StoreError}
    (hten : ∀ j ∈ s.jobs, j.id = id → j.tenantUid = tenant) (h : s.backupJob tenant id = .error e) :
    jobLife s id = none := by
  unfold Store.backupJob at h
  split at h
  · cases h
  · next hr =>
    rw [jobLife_none]
    intro hmem
    obtain ⟨j, hj, hid⟩ := List.mem_map.mp hmem
    exact List.find?_eq_none.mp hr j hj (jobIn_iff.mpr ⟨hid, hten j hj hid, rfl⟩)

theorem setTaskScopeValidation_rows (s : Store) (tenant taskId token : String)
    (value : PlanPauseReason) (id : String) :
    SameRows s ((Op.setTaskScopeValidation tenant taskId token value).next s) id := by
  have htables : ((Op.setTaskScopeValidation tenant taskId token value).next s).toTables =
      { s.toTables with
        tasks := updateWhere (taskIn tenant taskId (·.leaseToken == token))
          (fun t => { t with scopeValidation := some value }) s.tasks } := rfl
  exact sameRows_update htables (fun _ => rfl) (fun _ => rfl) id

theorem heartbeatTask_rows (s : Store) (tenant taskId token : String) (now expires : Time)
    (id : String) : SameRows s (s.heartbeatTask tenant taskId token now expires) id := by
  have htables : (s.heartbeatTask tenant taskId token now expires).toTables = { s.toTables with
      tasks := updateWhere
        (taskIn tenant taskId fun t => t.leaseToken == token && !noHeartbeat.contains t.status)
        (fun t => { t with heartbeatAt := some (unix now), leaseExpiresAt := some (unix expires) })
        s.tasks } := rfl
  exact sameRows_update htables (fun _ => rfl) (fun _ => rfl) id

theorem acts_other {x : Execution} {s s' : Store} {tenant id : String} {a : ExecAct} {stage : Stage}
    (hp : Placed s) (hown : Owned s x.uid x.task.id x.task.backupJobId)
    (hten : ∀ j ∈ s.jobs, j.id = x.task.backupJobId → j.tenantUid = tenant)
    (hjob : ∀ job, x.stage.job = some job → job.id = x.task.backupJobId)
    (ha : x.Acts s tenant a s' stage) (hother : x.task.backupJobId ≠ id) :
    SameRows s s' id ∨ (taskLife s' id = (taskLife s id).map (·.ended .skipped) ∧
      jobLife s' id = (jobLife s id).map (·.moved (· == .queued) .failed) ∧
      snapshotIds s' id = snapshotIds s id) := by
  cases ha with
  | precheck hx hd => exact .inl ((precheck_rewrites hd hown).other hother)
  | started hx hd hs => exact .inl ((startBackupJob_rewrites hten hs).1.other hother)
  | committed hx hd hs =>
    rename_i job archive
    have hid : job.id = x.task.backupJobId := hjob job (by rw [hx]; rfl)
    obtain ⟨-, htask, -, hjobs, -, -, hsnaps⟩ := commitSnapshot_rows (by
      intro j hj he
      exact hten j hj (he.trans hid)) hs
    have hne : job.id ≠ id := fun he => hother (hid.symm.trans he)
    exact .inl ⟨htask id, hjobs id hne, hsnaps id hne⟩
  | failed hx finished => exact .inl ((failBackupJob_rewrites _ finished hten).other hother)
  | validated hx => exact .inl (setTaskScopeValidation_rows s _ _ _ _ id)
  | paused hx => exact pausePlan_rows hp _ _ _ id
  | closed hx =>
    rename_i c
    rcases Op.next_cases s (x.closingOp c) with h | h
    · exact .inl ((closing_rewrites hown hp h).1.other hother)
    · rw [h]
      exact .inl (SameRows.refl s id)
  | _ => exact .inl (SameRows.refl s id)

/-- What a call's statement does to its own life. -/
theorem acts_own {w : World} {i : Nat} {x : Execution} {s : Store} {a : ExecAct} {stage : Stage}
    {id : String} (tickers : List (String × String × String)) (hp : Placed w.store)
    (hi : w.workers i = .busy x) (hown : Owned w.store x.uid x.task.id x.task.backupJobId)
    (hten : ∀ j ∈ w.store.jobs, j.id = x.task.backupJobId → j.tenantUid = w.tenant)
    (hjob : ∀ job, x.stage.job = some job → job.id = x.task.backupJobId)
    (ha : x.Acts w.store w.tenant a s stage) (hid : x.task.backupJobId = id) :
    Moves w (.execute i a) (w.afterAct i x s stage tickers) id := by
  subst hid
  have hholder : (w.life x.task.backupJobId).holder i = some x := holder_busy hi rfl
  unfold Moves
  rw [life_afterAct s stage tickers rfl]
  cases ha with
  | precheckDone hx hd =>
    refine ⟨.advance i, trivial, ?_⟩
    -- a call that is done writes nothing, and its precheck leaves the task as it is
    have hstep := Life.Step.precheck hholder hx
    have hsame : (w.life x.task.backupJobId).task.map (·.prechecked x) =
        (w.life x.task.backupJobId).task := by
      have hid : (fun t : TaskLife => t.prechecked x) = fun t => t := by
        funext t
        unfold TaskLife.prechecked
        rw [if_neg]
        intro h
        rw [hd] at h
        cases h.1
      rw [hid, Option.map_id']
    rw [hsame] at hstep
    exact hstep
  | precheck hx hd =>
    refine ⟨.advance i, trivial, ?_⟩
    have hrows := precheck_rewrites hd hown
    rw [hrows.ownTask, hrows.ownJob, hrows.snapshots, Option.map_id']
    exact .precheck hholder hx
  | unread hx hd => exact ⟨.advance i, trivial, .advance hholder (.unread hx hd)⟩
  | read hx hd hj => exact ⟨.advance i, trivial, .advance hholder (.read hx hd _)⟩
  | unstarted hx hd => exact ⟨.advance i, trivial, .advance hholder (.unstarted hx hd)⟩
  | started hx hd hs =>
    refine ⟨.start i, trivial, ?_⟩
    obtain ⟨hrows, j, hj, hq⟩ := startBackupJob_rewrites hten hs
    rw [hrows.ownTask, hrows.ownJob, hrows.snapshots, Option.map_id', hj, Option.map_some]
    have hmoved : j.moved (· == .queued) .running = { j with status := .running } := by
      simp [JobLife.moved, hq]
    rw [hmoved]
    exact .start hholder hx hd hj hq
  | broken hx err => exact ⟨.advance i, trivial, .advance hholder (.broken hx err)⟩
  | committed hx hd hs =>
    refine ⟨.commit i, ⟨_, rfl⟩, ?_⟩
    -- the snapshot is for the job the call has read, which is the one of its task
    rename_i job archive
    have hid : job.id = x.task.backupJobId := hjob job (by rw [hx]; rfl)
    obtain ⟨⟨j, hj, hr⟩, htask, hjob', -, hnone, hsnaps, -⟩ := commitSnapshot_rows (by
      intro j hj he
      exact hten j hj (he.trans hid)) hs
    have hkey : (builtSnapshot w.tenant job archive).jobId = x.task.backupJobId := hid
    rw [hkey] at hj hjob' hnone hsnaps
    rw [htask, hjob', hsnaps]
    exact .commit hholder hx hd hj hr hnone
  | failed hx finished =>
    refine ⟨.advance i, trivial, ?_⟩
    rename_i err
    have hrows := failBackupJob_rewrites err.code finished hten
    rw [hrows.ownTask, hrows.ownJob, hrows.snapshots, Option.map_id']
    exact .fail hholder hx
  | settled hx now => exact ⟨.advance i, trivial, .advance hholder (.settled hx now)⟩
  | lost hx hj => exact ⟨.advance i, trivial, .lost hholder hx (jobLife_of_backupJob_error hten hj)⟩
  | looked hx hj =>
    refine ⟨.advance i, trivial, ?_⟩
    obtain ⟨j, hlife, hsnap⟩ := jobLife_of_backupJob hj
    rw [← hsnap]
    exact .look hholder hx hlife
  | validated hx =>
    refine ⟨.advance i, trivial, ?_⟩
    rename_i err now
    have hrows := setTaskScopeValidation_rows w.store x.uid x.task.id x.token (x.scopeReason err now)
      x.task.backupJobId
    rw [hrows.task, hrows.job, hrows.snapshots]
    exact .advance hholder (.validated hx)
  | paused hx =>
    refine ⟨.advance i, trivial, ?_⟩
    rename_i err now
    -- the pause ends waiting tasks of the plan, and the own task only where it waits
    rcases pausePlan_rows hp w.tenant x.task.planId (x.scopeReason err now) x.task.backupJobId with
      hrows | ⟨ht, hj, hs⟩
    · rw [hrows.task, hrows.job, hrows.snapshots]
      exact .pauseOther hholder hx
    · rw [ht, hj, hs]
      exact .pauseOwn hholder hx
  | closed hx =>
    rename_i c
    cases hc : (x.closingOp c).apply w.store with
    | ok s' =>
      refine ⟨.close i, rfl, ?_⟩
      have hnext : (x.closingOp c).next w.store = s' := by
        unfold Op.next
        rw [hc]
      obtain ⟨hrows, t, ht, htok⟩ := closing_rewrites hown hp hc
      rw [hnext, hrows.ownTask, hrows.ownJob, hrows.snapshots, ht, Option.map_some, if_pos htok]
      exact .close hholder hx ht htok
    | error e =>
      refine ⟨.refused i, rfl, ?_⟩
      have hnext : (x.closingOp c).next w.store = w.store := by
        unfold Op.next
        rw [hc]
      rw [hnext]
      exact .refused hholder hx (closing_refused hown hc)

/-! ## Every step -/

theorem simulates_act {w : World} {i : Nat} {x : Execution} {s : Store} {a : ExecAct} {stage : Stage}
    (tickers : List (String × String × String)) (h : Known w) (hi : w.workers i = .busy x)
    (ha : x.Acts w.store w.tenant a s stage) (id : String) :
    Moves w (.execute i a) (w.afterAct i x s stage tickers) id := by
  obtain ⟨-, huid, ⟨t, ht, htid, htten, htjob, -⟩, hjob⟩ := h.workerAt hi
  have hown : Owned w.store w.tenant x.task.id x.task.backupJobId := ⟨t, ht, htid, htten, htjob⟩
  have hten := hown.jobTenant h.placed
  rw [← huid] at hown
  by_cases hid : x.task.backupJobId = id
  · exact acts_own tickers h.placed hi hown hten hjob ha hid
  · have hrows := acts_other h.placed hown hten hjob ha hid
    unfold Moves
    rw [life_afterAct_other s stage tickers hi hid]
    exact moves_superseded (.inr rfl) hrows

/-- A recovery takes the expired leases of the user, and leaves the other lives. -/
theorem moves_requeue {w : World} {a : Action} {uid : String} {now : Time} {s : Store} {id : String}
    (h : Known w) (hs : w.store.requeueExpiredTasks uid now = .ok s)
    (ha : a = .boot uid now ∨ ∃ i, a = .recover i now ∧ w.workers i = .recovering uid) :
    Moves w a (w.onStore s) id := by
  obtain ⟨-, hsnaps, hall⟩ := requeueExpiredTasks_rows h.placed hs
  rcases hall id with ⟨t, ht, hjob, hexp, hlife, htask, hjob'⟩ | ⟨-, htask, hjob⟩
  · refine ⟨.requeue, ⟨uid, now, ha, t, ht, hjob, hexp⟩, ?_⟩
    have hstatus : noRecovery.contains (taskRowLife t).status = false := by
      simp only [expired, Bool.and_eq_true, Bool.not_eq_true'] at hexp
      exact hexp.1.2
    have hstep := Life.Step.requeue (l := w.life id) hlife hstatus
    have hw : (w.onStore s).life id = { w.life id with
        task := some (taskRowLife t).waiting
        job := (w.life id).job.map (·.moved (· == .running) .queued) } :=
      life_onStore htask hjob' (hsnaps id)
    rw [hw]
    exact hstep
  · exact moves_quiet (life_onStore_same ⟨htask, hjob, hsnaps id⟩)

theorem moves_busy {w : World} {a : Action} {i : Nat} {x x' : Execution} {id : String} {k : Kind}
    (hi : w.workers i = .busy x) (hsame : x'.task = x.task) (hc : x.task.backupJobId = id → Cause w a id k)
    (hstep : x.task.backupJobId = id → Life.Step (w.life id) k { w.life id with
      holder := Function.update (w.life id).holder i (some x') }) :
    Moves w a (w.setWorker i (.busy x')) id := by
  by_cases hid : x.task.backupJobId = id
  · refine ⟨k, hc hid, ?_⟩
    have hholds : (Worker.busy x').holds id = some x' := by
      show (if x'.task.backupJobId = id then some x' else none) = some x'
      rw [hsame, if_pos hid]
    rw [life_setWorker, hholds]
    exact hstep hid
  · apply moves_quiet
    apply life_setWorker_same
    show (if x'.task.backupJobId = id then some x' else none) = (w.workers i).holds id
    rw [hi, hsame, if_neg hid]
    exact (if_neg hid).symm

theorem moves_leave {w : World} {i : Nat} {x : Execution} {id : String} (hi : w.workers i = .busy x)
    (hx : x.stage = .leaving) :
    Moves w (.execute i .leave)
      ({ w with cancelByID := Function.update w.cancelByID x.task.id none }.setWorker i .idle) id := by
  by_cases hid : x.task.backupJobId = id
  · refine ⟨.leave i, trivial, ?_⟩
    rw [life_setWorker]
    exact .leave (l := w.life id) (holder_busy hi hid) hx
  · apply moves_quiet
    apply life_setWorker_same
    show none = (w.workers i).holds id
    rw [hi]
    exact (if_neg hid).symm

theorem holds_interrupted (id : String) (ctx : Nat) (worker : Worker) :
    (worker.interrupted ctx).holds id = (worker.holds id).map (·.interrupted ctx) := by
  cases worker with
  | busy x =>
    show (if x.task.backupJobId = id then some (x.interrupted ctx) else none) =
      (if x.task.backupJobId = id then some x else none).map _
    split <;> rfl
  | _ => rfl

/-- The function of a context is called for whatever call runs under it. -/
theorem moves_cancelCall {w : World} {k : Nat} {taskId : String} {ctx : Nat} {id : String}
    (hk : w.cancels k = .calling taskId ctx) :
    Moves w (.cancelCall k)
      ({ w with workers := fun i => (w.workers i).interrupted ctx }.setCancel k .idle) id := by
  refine ⟨.interrupt ctx, ⟨k, taskId, rfl, hk⟩, ?_⟩
  have hlife : World.life { w with workers := fun i => (w.workers i).interrupted ctx } id =
      { w.life id with holder := fun i => ((w.life id).holder i).map (·.interrupted ctx) } := by
    have hholder : (fun i => ((w.workers i).interrupted ctx).holds id) =
        fun i => ((w.workers i).holds id).map (·.interrupted ctx) := by
      funext i
      exact holds_interrupted id ctx (w.workers i)
    exact congrArg (fun holder => { w.life id with holder := holder }) hholder
  rw [life_setCancel_same, hlife]
  · exact .interrupt ctx
  · show false = (w.cancels k).sweeps id
    rw [hk]
    rfl

theorem moves_claimed {w : World} {a : Action} {i : Nat} {uid workerId token : String} {now : Time}
    {s : Store} {task : BackupTask} {hex : Option String} {id : String}
    (hi : w.workers i = .claiming uid) (hx : randomID "lease" hex = .ok token)
    (hs : w.store.claimNextTask uid workerId token now (now + w.lease) = .ok (s, task)) :
    Moves w a ((w.onStore s).begin i token task) id := by
  have hnamed : token ≠ "" := by
    obtain ⟨y, -, rfl⟩ := randomID_ok hx
    intro he
    have hl := congrArg String.toList he
    simp at hl
  obtain ⟨t, ht, -, hq, rfl, -, hrows⟩ := claimNextTask_rewrites hs
  have hfree : (w.workers i).holds id = none := by rw [hi]; rfl
  show Moves w a ({ w.onStore s with nextCtx := w.nextCtx + 1 }.setWorker i (.busy _)) id
  by_cases hid : t.backupJobId = id
  · subst hid
    refine ⟨.claim i, trivial, ?_⟩
    rw [life_setWorker]
    have hlife : taskLife w.store t.backupJobId = some (taskRowLife t) := taskLife_of_mem ht
    have htask : taskLife s t.backupJobId =
        some { taskRowLife t with status := .leased, token := token } := by
      rw [hrows.ownTask, hlife, Option.map_some]
      exact congrArg some (if_pos hq)
    have hrest : World.life { w.onStore s with nextCtx := w.nextCtx + 1 } t.backupJobId =
        { w.life t.backupJobId with
          task := some { taskRowLife t with status := .leased, token := token } } :=
      life_onStore htask (hrows.ownJob.trans Option.map_id') (hrows.snapshots _)
    have hholds : ∀ x : Execution, x.task.backupJobId = t.backupJobId →
        (Worker.busy x).holds t.backupJobId = some x := fun x hx => if_pos hx
    rw [hrest, hholds _ rfl]
    have hstep : ∀ x : Execution, x.token = token → x.stage = .entered → x.done = none →
        Life.Step (w.life t.backupJobId) (.claim i) { w.life t.backupJobId with
          task := some { taskRowLife t with status := .leased, token := token }
          holder := Function.update (w.life t.backupJobId).holder i (some x) } := by
      intro x htok hentered hd
      subst htok
      exact .claim hlife hq hfree hentered hd hnamed
    exact hstep _ rfl rfl rfl
  · apply moves_quiet
    rw [life_setWorker_same]
    · exact life_onStore_same (hrows.other hid)
    · show (if t.backupJobId = id then some _ else none) = (w.workers i).holds id
      rw [if_neg hid, hfree]

theorem moves_cancelRow {w : World} {k : Nat} {taskId jobId : String} {now : Time} {id : String}
    (h : Known w) (hk : w.cancels k = .updating taskId jobId now) :
    Moves w (.cancelRow k)
      ((w.onStore (w.store.cancelTaskRow w.tenant taskId now)).setCancel k (.failing taskId jobId now))
      id := by
  have hrows := cancelTaskRow_rewrites now (h.cancelAt hk).2
  by_cases hid : jobId = id
  · subst hid
    refine ⟨.cancelRow k, rfl, ?_⟩
    have hsweep : (CancelCall.failing taskId jobId now).sweeps jobId = true := beq_self_eq_true jobId
    have hrest : (w.onStore (w.store.cancelTaskRow w.tenant taskId now)).life jobId =
        { w.life jobId with task := (w.life jobId).task.map (·.ended .cancelled) } :=
      life_onStore hrows.ownTask (hrows.ownJob.trans Option.map_id') (hrows.snapshots _)
    rw [life_setCancel, hsweep, hrest]
    exact .cancelRow k
  · apply moves_quiet
    rw [life_setCancel_same]
    · exact life_onStore_same (hrows.other hid)
    · show (jobId == id) = (w.cancels k).sweeps id
      rw [hk]
      exact beq_false_of_ne hid

theorem moves_cancelJob {w : World} {k : Nat} {taskId jobId : String} {now : Time} {id : String}
    (h : Known w) (hk : w.cancels k = .failing taskId jobId now) :
    Moves w (.cancelJob k)
      ((w.onStore (w.store.cancelTaskJob w.tenant jobId now)).setCancel k (.looking taskId)) id := by
  have hrows := cancelTaskJob_rewrites now ((h.cancelAt hk).2.jobTenant h.placed)
  by_cases hid : jobId = id
  · subst hid
    refine ⟨.cancelJob k, rfl, ?_⟩
    have hsweep : (w.life jobId).sweep k = true := by
      show (w.cancels k).sweeps jobId = true
      rw [hk]
      exact beq_self_eq_true jobId
    have hrest : (w.onStore (w.store.cancelTaskJob w.tenant jobId now)).life jobId =
        { w.life jobId with job := (w.life jobId).job.map (·.moved (· == .queued) .failed) } :=
      life_onStore (hrows.ownTask.trans Option.map_id') hrows.ownJob (hrows.snapshots _)
    rw [life_setCancel, hrest]
    exact .cancelJob hsweep
  · apply moves_quiet
    rw [life_setCancel_same]
    · exact life_onStore_same (hrows.other hid)
    · show false = (w.cancels k).sweeps id
      rw [hk]
      exact (beq_false_of_ne hid).symm

theorem moves_manualRetry {w : World} {taskId : String} {now : Time} {id : String} (h : Known w) :
    Moves w (.manualRetry taskId now)
      (w.onStore ((Op.resetTaskForManualRetry w.tenant taskId now).next w.store)) id := by
  rcases Op.next_cases w.store (.resetTaskForManualRetry w.tenant taskId now) with hok | hno
  · obtain ⟨t, ht, htid, hten, hres, hrows⟩ := manualRetry_rewrites h.placed hok
    by_cases hid : t.backupJobId = id
    · subst hid
      refine ⟨.reset, ⟨taskId, now, rfl, t, ht, htid, hten, rfl⟩, ?_⟩
      have hlife : taskLife w.store t.backupJobId = some (taskRowLife t) := taskLife_of_mem ht
      have hrest : (w.onStore ((Op.resetTaskForManualRetry w.tenant taskId now).next w.store)).life
          t.backupJobId = { w.life t.backupJobId with
            task := some (taskRowLife t).waiting
            job := (w.life t.backupJobId).job.map (·.moved (· == .failed) .queued) } := by
        refine life_onStore ?_ hrows.ownJob (hrows.snapshots _)
        rw [hrows.ownTask, hlife, Option.map_some]
        exact congrArg some (if_pos hres)
      rw [hrest]
      exact .reset (l := w.life t.backupJobId) hlife hres
    · exact moves_quiet (life_onStore_same (hrows.other hid))
  · rw [hno]
    exact moves_quiet rfl

theorem moves_enqueueJob {w : World} {a : Action} {k : Nat} {call : EnqueueCall}
    {deployId subject planId batchId taskId triggerType : String} {shared : Bool} {role : Role}
    {scheduledAt : Time} {scope : BackupScope} {draw : Draw} {job : BackupJob} {s : Store}
    {id : String} (h : Known w)
    (hc : createJob w.store w.tenant deployId shared subject role planId batchId taskId triggerType
      scheduledAt scope draw = .ok (job, s)) :
    Moves w a ((w.onStore s).setEnqueue k call) id := by
  obtain ⟨i, x, -, -, -, hjob, hcreate⟩ := createJob_ok hc
  obtain ⟨hnone, hsome, hothers, htask, hsnaps⟩ := createBackupJob_rows hcreate
  show Moves w a (w.onStore s) id
  by_cases hid : job.id = id
  · subst hid
    refine ⟨.create, trivial, ?_⟩
    have hnew := jobLife_none.mp hnone
    have hfree : taskLife w.store job.id = none := by
      rw [taskLife_none]
      have hname : job.id = "backup" ++ "-" ++ x := by rw [hjob]; rfl
      rw [hname] at hnew ⊢
      exact h.placed.unowned hnew
    have hnosnap : snapshotIds w.store job.id = [] := by
      unfold snapshotIds
      rw [List.map_eq_nil_iff, List.filter_eq_nil_iff]
      intro row hrow hk
      rw [beq_iff_eq] at hk
      exact hnew (hk ▸ w.store.snapshots_job row hrow)
    have hrest : (w.onStore s).life job.id = { w.life job.id with job := some ⟨.queued, ""⟩ } :=
      life_onStore (htask _) hsome (hsnaps _)
    rw [hrest]
    exact .create hnone hfree hnosnap
  · exact moves_quiet (life_onStore_same ⟨htask id, hothers id hid, hsnaps id⟩)

theorem Known.unheld {w : World} {id : String} (h : Known w) (hfree : taskLife w.store id = none) :
    (w.life id).Unheld := by
  have hnot := taskLife_none.mp hfree
  refine ⟨?_, ?_⟩
  · intro i
    show (w.workers i).holds id = none
    cases hi : w.workers i with
    | busy x =>
      obtain ⟨-, -, ⟨t, ht, -, -, hjob, -⟩, -⟩ := h.workerAt hi
      refine if_neg ?_
      intro hid
      exact hnot (List.mem_map.mpr ⟨t, ht, hjob.trans hid⟩)
    | _ => rfl
  · intro k
    show (w.cancels k).sweeps id = false
    cases hk : w.cancels k with
    | failing taskId jobId now =>
      obtain ⟨-, t, ht, -, -, hjob⟩ := h.cancelAt hk
      refine beq_false_of_ne ?_
      intro hid
      exact hnot (List.mem_map.mpr ⟨t, ht, hjob.trans hid⟩)
    | _ => rfl

theorem life_newTask {w : World} {task : BackupTask} {now : Time} {s : Store}
    (hadd : w.store.addTask task now = .ok s) :
    taskLife w.store task.backupJobId = none ∧
    (w.onStore s).life task.backupJobId =
      { w.life task.backupJobId with task := some ⟨task.status, "", ""⟩ } ∧
    ∀ id, task.backupJobId ≠ id → (w.onStore s).life id = w.life id := by
  obtain ⟨hfree, hsome, hothers, hjob, hsnaps⟩ := addTask_rows hadd
  refine ⟨hfree, ?_, ?_⟩
  · exact life_onStore hsome (hjob _) (hsnaps _)
  · intro id hid
    exact life_onStore_same ⟨hothers id hid, hjob id, hsnaps id⟩

theorem moves_added {w : World} {k : Nat} {task : BackupTask} {now : Time} {s : Store} {id : String}
    (h : Known w) (hk : w.enqueues k = .adding task) (hadd : w.store.addTask task now = .ok s) :
    Moves w (.enqueueTask k now) ((w.onStore s).setEnqueue k .idle) id := by
  obtain ⟨hfree, hown, hothers⟩ := life_newTask hadd
  obtain ⟨-, -, hq, ⟨⟨j, hj, hjid, -⟩, -⟩, -⟩ := h.enqueueAt hk
  show Moves w _ (w.onStore s) id
  by_cases hid : task.backupJobId = id
  · subst hid
    refine ⟨.add, ⟨k, now, task, rfl, hk, rfl⟩, ?_⟩
    rw [hown, hq]
    have hjob : jobLife w.store task.backupJobId = some (jobRowLife j) := by
      rw [← hjid]
      exact jobLife_of_mem hj
    exact .add hjob hfree (h.unheld hfree)
  · exact moves_quiet (hothers id hid)

theorem moves_skipTask {w : World} {a : Action} {batch : BackupBatch}
    {instance_ : ApplicationInstance} {code : String} {scope : BackupScope}
    {validation : Option PlanPauseReason} {draw : Draw} {s : Store} {id : String} (h : Known w)
    (hs : recordSkipped w.store w.tenant batch instance_ code scope validation draw = .ok s) :
    Moves w a (w.onStore s) id := by
  obtain ⟨taskId, -, hadd⟩ := recordSkipped_ok hs
  obtain ⟨hfree, hown, hothers⟩ := life_newTask hadd
  by_cases hid : "skipped-" ++ taskId = id
  · subst hid
    refine ⟨.skip, trivial, ?_⟩
    have hnojob : jobLife w.store ("skipped-" ++ taskId) = none := by
      rw [jobLife_none]
      intro hmem
      obtain ⟨j, hj, hjid⟩ := List.mem_map.mp hmem
      obtain ⟨x, hx⟩ := h.placed.named j hj
      exact skipped_ne_backup taskId x (hjid.symm.trans hx)
    have hrest : (w.onStore s).life ("skipped-" ++ taskId) =
        { w.life ("skipped-" ++ taskId) with task := some ⟨.skipped, "", ""⟩ } := hown
    rw [hrest]
    exact .skip hnojob hfree (h.unheld hfree)
  · exact moves_quiet (hothers id hid)

theorem moves_undoJob {w : World} {a : Action} {k : Nat} {jobId : String} {now : Time} {id : String}
    (h : Known w) (hk : w.enqueues k = .undoing jobId) :
    Moves w a ((w.onStore ((Op.failBackupJob w.tenant jobId "QUEUE_PERSIST_FAILED" now).next
      w.store)).setEnqueue k .idle) id := by
  obtain ⟨-, ⟨j, hj, hjid, hten⟩, hfree⟩ := h.enqueueAt hk
  have hjten : ∀ j' ∈ w.store.jobs, j'.id = jobId → j'.tenantUid = w.tenant := by
    intro j' hj' he
    rw [eq_of_key w.store.jobs_pk hj' hj (he.trans hjid.symm), hten]
  have hrows := failBackupJob_rewrites "QUEUE_PERSIST_FAILED" now hjten
  show Moves w a (w.onStore ((Op.failBackupJob w.tenant jobId "QUEUE_PERSIST_FAILED" now).next w.store)) id
  by_cases hid : jobId = id
  · subst hid
    refine ⟨.undo, trivial, ?_⟩
    have hrest : (w.onStore ((Op.failBackupJob w.tenant jobId "QUEUE_PERSIST_FAILED" now).next
        w.store)).life jobId = { w.life jobId with
          job := (w.life jobId).job.map (·.moved (·.active) .failed) } :=
      life_onStore (hrows.ownTask.trans Option.map_id') hrows.ownJob (hrows.snapshots _)
    rw [hrest]
    exact .undo (taskLife_none.mpr hfree)
  · exact moves_quiet (life_onStore_same (hrows.other hid))

theorem simulates {w w' : World} {a : Action} (h : Known w) (hs : w.Steps a w') (id : String) :
    Moves w a w' id := by
  cases hs with
  | bind => exact moves_quiet rfl
  | boot hu ht hs => exact moves_requeue h hs (.inl rfl)
  | crash => exact ⟨.crash, rfl, .crash _⟩
  | unready => exact moves_quiet rfl
  | ready hi => exact moves_quiet (life_setWorker_same (by rw [hi]; rfl))
  | stale hi => exact moves_quiet (life_setWorker_same (by rw [hi]; rfl))
  | unrecovered hi => exact moves_quiet (life_setWorker_same (by rw [hi]; rfl))
  -- the worker that recovers holds no task, so only the rows move
  | recovered hi hs =>
    rename_i i uid now s
    have hsame : ((w.onStore s).setWorker i (.marking uid)).life id = (w.onStore s).life id := by
      apply life_setWorker_same
      show none = (w.workers i).holds id
      rw [hi]
      rfl
    unfold Moves
    rw [hsame]
    exact moves_requeue h hs (.inr ⟨i, rfl, hi⟩)
  | mark hi => exact moves_quiet (life_setWorker_same (w := { w with requeued := _ }) (by rw [hi]; rfl))
  | unclaimed hi => exact moves_quiet (life_setWorker_same (by rw [hi]; rfl))
  | claimed hi hx hs => exact moves_claimed hi hx hs
  | register hi hx =>
    exact moves_busy (w := { w with cancelByID := _ }) (k := .advance _) hi rfl (fun _ => trivial)
      (fun hid => .advance (holder_busy hi hid) (.register hx))
  | timeout hi hx =>
    exact moves_busy (k := .advance _) hi rfl (fun _ => trivial)
      (fun hid => .timeout (holder_busy hi hid))
  | leave hi hx => exact moves_leave hi hx
  | act tickers hi ha => exact simulates_act tickers h hi ha id
  | heartbeat uid taskId token => exact moves_quiet (life_onStore_same (heartbeatTask_rows _ _ _ _ _ _ id))
  | cancel hk => exact moves_quiet (life_setCancel_same (by rw [hk]; rfl))
  | cancelRefused hk => exact moves_quiet (life_setCancel_same (by rw [hk]; rfl))
  | cancelWaiting hk => exact moves_quiet (life_setCancel_same (by rw [hk]; rfl))
  | cancelLeased hk => exact moves_quiet (life_setCancel_same (by rw [hk]; rfl))
  | cancelRow hk => exact moves_cancelRow h hk
  | cancelJob hk => exact moves_cancelJob h hk
  | cancelMissed hk => exact moves_quiet (life_setCancel_same (by rw [hk]; rfl))
  | cancelFound hk => exact moves_quiet (life_setCancel_same (by rw [hk]; rfl))
  | cancelCall hk => exact moves_cancelCall hk
  | hangUp =>
    refine ⟨.hangUp _, rfl, ?_⟩
    rw [life_setCancel]
    exact .hangUp _
  | manualRetry => exact moves_manualRetry h
  -- plans and batches are no part of a life
  | createPlan =>
    rename_i plan
    apply moves_quiet
    apply life_onStore_same
    rcases Op.next_cases w.store (.createPlan plan) with hok | hno
    · obtain ⟨targets, htables⟩ := createPlan_ok hok
      exact sameRows_congr (by rw [htables]) (by rw [htables]) (by rw [htables]) id
    · rw [hno]
      exact SameRows.refl _ id
  | updatePlan => exact moves_superseded (.inl rfl) (updatePlan_rows h.placed _ _ _ id)
  | pausePlan => exact moves_superseded (.inr rfl) (pausePlan_rows h.placed _ _ _ id)
  | createBatch =>
    rename_i batch
    apply moves_quiet
    apply life_onStore_same
    rcases Op.next_cases w.store (.createBatch batch) with hok | hno
    · have htables := createBatch_ok hok
      exact sameRows_congr (by rw [htables]) (by rw [htables]) (by rw [htables]) id
    · rw [hno]
      exact SameRows.refl _ id
  | enqueueJob hk hc => exact moves_enqueueJob h hc
  | unadded => exact moves_quiet rfl
  | added hk hs => exact moves_added h hk hs
  | enqueueFails => exact moves_quiet rfl
  | undoJob hk => exact moves_undoJob h hk
  | keepJob => exact moves_quiet rfl
  | skipTask hs => exact moves_skipTask h hs
  | library => exact moves_quiet rfl

end AppBackup.Queue
