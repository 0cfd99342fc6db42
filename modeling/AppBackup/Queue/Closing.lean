import AppBackup.Queue.Runs

/- The store call `execute` ends with. It drops the call's error, and one call can be
   refused while its worker has the lease: `RetryTask` puts the failed job back into the
   active index of its instance, where another job may have come (`Blocked`). The
   transaction rolls back and the task stays leased.

   What is proved:
     1. `closing_isOk` -- a closing by the call that has the lease goes through unless it is a
        retry that is blocked;
     2. `returns_after_closing` -- a call returns after its closing, whatever it did before;
     3. `final_transition_lands` -- in every run that keeps leases, the task has left the
        leased statuses by then exactly where the closing was not blocked. -/
namespace AppBackup.Queue
open Persistence Persistence.Store Table Transition

/-! ## When a closing is refused -/

/-- The job has failed, and its instance has a job that waits or runs. -/
def Blocked (s : Store) (jobId : String) : Prop :=
  ∃ j ∈ s.jobs, j.id = jobId ∧ j.status = .failed ∧
    ∃ j' ∈ s.jobs, j'.status.active = true ∧ j'.tenantUid = j.tenantUid ∧ j'.deployId = j.deployId

instance (s : Store) (jobId : String) : Decidable (Blocked s jobId) :=
  inferInstanceAs (Decidable (∃ j ∈ s.jobs, _))

/-- The call is about to close its task as one to retry, and its job is blocked. -/
def Execution.RetryBlocked (x : Execution) (s : Store) : Prop :=
  (∃ code availableAt now, x.stage = .closing (.retry code availableAt now)) ∧
    Blocked s x.task.backupJobId

/-- A failed job can be queued again unless the slot of its instance is taken. -/
theorem requeueFailed_isOk {s : Store} {tenant jobId : String}
    (hten : ∀ j ∈ s.jobs, j.id = jobId → j.tenantUid = tenant) :
    (∃ s', s.updateJobs (jobIn tenant jobId (· == .failed)) (.requeued false) (fun _ => rfl) = .ok s') ↔
      ¬Blocked s jobId := by
  have hin : ∀ j ∈ s.jobs, jobIn tenant jobId (· == .failed) j = true ↔
      j.id = jobId ∧ j.status = .failed := by
    intro j hj
    rw [jobIn_iff, beq_iff_eq]
    constructor
    · intro h
      exact ⟨h.1, h.2.2⟩
    · intro h
      exact ⟨h.1, hten j hj h.1, h.2⟩
  constructor
  · intro ⟨s', hs'⟩ ⟨j, hj, hid, hfailed, j', hj', hact, hten', hdep⟩
    have hjobs : s'.jobs =
        updateWhere (jobIn tenant jobId (· == .failed)) (.requeued false) s.jobs := by
      rw [updateJobs_ok hs']
    have hhit : j.requeued false ∈ s'.jobs := by
      rw [hjobs]
      exact mem_updateWhere_hit hj ((hin j hj).mpr ⟨hid, hfailed⟩)
    have hother : j' ∈ s'.jobs := by
      rw [hjobs]
      apply mem_updateWhere_miss hj'
      by_contra hp
      have hst := ((hin j' hj').mp (by simpa using hp)).2
      rw [hst] at hact
      cases hact
    have hsame : j.requeued false = j' :=
      eq_of_indexKey s'.jobs_active hhit hother rfl hact (Prod.ext hten'.symm hdep.symm)
    have hids : j'.id = j.id := (congrArg JobRow.id hsame).symm
    rw [eq_of_key s.jobs_pk hj' hj hids, hfailed] at hact
    cases hact
  · intro hfree
    unfold Store.updateJobs
    rw [dif_pos]
    · exact ⟨_, rfl⟩
    · refine indexKeys_updateWhere_one s.jobs_pk ?_ (fun _ => rfl) s.jobs_active ?_
      · intro r r' hr hr'
        rw [(jobIn_iff.mp hr).1, (jobIn_iff.mp hr').1]
      · intro r hr hp _ r' hr' _ hact hkey
        obtain ⟨hid, hfailed⟩ := (hin r hr).mp hp
        exact hfree ⟨r, hr, hid, hfailed, r', hr', hact, congrArg Prod.fst hkey, congrArg Prod.snd hkey⟩

/-- A closing by the worker that has the lease is refused only as a retry of a blocked
job. -/
theorem closing_isOk {x : Execution} {s : Store} {t : TaskRow} {c : Closing} (hp : Placed s)
    (ht : t ∈ s.tasks) (hten : t.tenantUid = x.uid) (hjob : t.backupJobId = x.task.backupJobId)
    (hid : t.id = x.task.id) (htok : t.leaseToken = x.token) (hx : x.stage = .closing c) :
    (∃ s', (x.closingOp c).apply s = .ok s') ↔ ¬x.RetryBlocked s := by
  have hin : taskIn x.uid x.task.id (·.leaseToken == x.token) t = true :=
    taskIn_iff.mpr ⟨hten, hid, by simp [htok]⟩
  have hown : Owned s x.uid x.task.id x.task.backupJobId := ⟨t, ht, hid, hten, hjob⟩
  have htables : ∀ m : TaskMove,
      ((s.updateTasks (taskIn x.uid x.task.id (·.leaseToken == x.token)) m.set m.set_keys).moveAttempts
        x.uid x.task.id m c.now).jobs = s.jobs := by
    intro m
    have h := moveAttempts_tables
      (s.updateTasks (taskIn x.uid x.task.id (·.leaseToken == x.token)) m.set m.set_keys) x.uid
      x.task.id m c.now
    rw [h]
    rfl
  rw [closingOp_apply, closeTask_isOk .notFound c.move c.now ht hin]
  cases c with
  | retry code availableAt now =>
    have hblocked : x.RetryBlocked s ↔ Blocked s x.task.backupJobId := by
      constructor
      · intro h
        exact h.2
      · intro h
        exact ⟨⟨code, availableAt, now, hx⟩, h⟩
    rw [hblocked, hjob]
    unfold Store.moveTaskJob
    refine (requeueFailed_isOk ?_).trans ?_
    · rw [htables]
      exact hown.jobTenant hp
    · unfold Blocked
      rw [htables]
  | complete snapshotId now =>
    refine iff_of_true ⟨_, rfl⟩ ?_
    intro ⟨⟨_, _, _, hretry⟩, _⟩
    rw [hx] at hretry
    cases hretry
  | finish status code now =>
    refine iff_of_true ⟨_, rfl⟩ ?_
    intro ⟨⟨_, _, _, hretry⟩, _⟩
    rw [hx] at hretry
    cases hretry

/-! ## Where `execute` returns -/

theorem afterReturn_live (x : Execution) (now : Time) (err : Option GoError) :
    (x.afterReturn now err).live = true := by
  unfold Execution.afterReturn
  split
  · rfl
  · split
    · rfl
    · split <;> rfl

/-- A statement of `execute` after which it returns is its closing, or a lookup that
finds no job. -/
theorem acts_leaving {x : Execution} {s s' : Store} {tenant : String} {a : ExecAct} {stage : Stage}
    (h : x.Acts s tenant a s' stage) (hl : stage = .leaving) :
    (∃ c, a = .close ∧ x.stage = .closing c ∧ s' = (x.closingOp c).next s) ∨
      ∃ e, s.backupJob tenant x.task.backupJobId = .error e := by
  cases h with
  | closed hx => exact .inl ⟨_, rfl, hx, rfl⟩
  | lost hx hj => exact .inr ⟨_, hj⟩
  | settled hx now =>
    rename_i err
    have hlive := afterReturn_live x now err
    rw [hl] at hlive
    cases hlive
  | _ => cases hl

theorem setWorker_busy {w : World} {i n : Nat} {worker : Worker} {y : Execution}
    (h : (w.setWorker n worker).workers i = .busy y) :
    (i = n ∧ worker = .busy y) ∨ (i ≠ n ∧ w.workers i = .busy y) := by
  change Function.update w.workers n worker i = .busy y at h
  by_cases hn : i = n
  · rw [hn, Function.update_self] at h
    exact .inl ⟨hn, h⟩
  · rw [Function.update_of_ne hn] at h
    exact .inr ⟨hn, h⟩

/-- In a run `execute` returns only after its closing store call. -/
theorem returns_after_closing {ok : World → Action → Prop} {w w' : World} {a : Action} {i : Nat}
    {x y : Execution} (h : Run ok w) (hs : w.Steps a w') (hi : w.workers i = .busy x)
    (hlive : x.stage.live = true) (hi' : w'.workers i = .busy y) (hy : y.stage = .leaving) :
    ∃ c, a = .execute i .close ∧ x.stage = .closing c ∧
      w'.store = (x.closingOp c).next w.store := by
  have hsame : ∀ z : Execution, w.workers i = .busy z → z.stage ≠ .leaving := by
    intro z hz hleave
    rw [hi] at hz
    cases hz
    rw [hleave] at hlive
    cases hlive
  -- a step of another thread leaves the call where it was
  have hother : ∀ {n : Nat} {worker : Worker}, (∀ z, worker = .busy z → z.stage ≠ .leaving) →
      (w.setWorker n worker).workers i = .busy y → False := by
    intro n worker hw hz
    rcases setWorker_busy hz with ⟨-, hb⟩ | ⟨-, hb⟩
    · exact hw y hb hy
    · exact hsame y hb hy
  cases hs with
  | crash => cases hi'
  | act tickers hn ha =>
    rename_i n x₀ act s stage
    rcases setWorker_busy (w := w.onStore s) hi' with ⟨rfl, hb⟩ | ⟨-, hb⟩
    · rw [hi] at hn
      cases hn
      cases hb
      rcases acts_leaving ha hy with ⟨c, rfl, hx, rfl⟩ | ⟨e, he⟩
      · exact ⟨c, rfl, hx, rfl⟩
      · obtain ⟨-, -, ⟨t, ht, htid, hten, htjob, -⟩, -⟩ := h.known.workerAt hi
        have hown : Owned w.store w.tenant x.task.id x.task.backupJobId := ⟨t, ht, htid, hten, htjob⟩
        have hnone := jobLife_of_backupJob_error (hown.jobTenant h.known.placed) he
        exact absurd hnone ((h.rooted x.task.backupJobId).held i x (holder_busy hi rfl)).1
    · exact absurd hy (hsame y hb)
  | cancelCall hk =>
    rename_i k id ctx
    change (w.workers i).interrupted ctx = .busy y at hi'
    rw [hi] at hi'
    cases hi'
    exact absurd hy (hsame x hi)
  | ready | stale | unrecovered | recovered | mark | unclaimed | leave =>
    exact (hother (fun z hz => by cases hz) hi').elim
  | claimed =>
    refine (hother ?_ hi').elim
    intro z hz
    cases hz
    simp
  | register =>
    refine (hother ?_ hi').elim
    intro z hz
    cases hz
    simp
  | timeout hn hx =>
    rename_i n x₀
    refine (hother ?_ hi').elim
    intro z hz hleave
    cases hz
    change x₀.stage = .leaving at hleave
    rw [hleave] at hx
    exact hx
  | _ => exact absurd hy (hsame y hi')

/-- The statuses a task has when its worker is done with it. -/
def settledGroup : List TaskStatus := [.succeeded, .queued, .failed, .timedOut, .cancelled]

/-- When `execute` returns with its lease kept all along, its task has left the leased
statuses, unless the closing was a retry and the slot of the instance was taken while
its job was failed. -/
theorem final_transition_lands {w w' : World} {a : Action} {i : Nat} {x y : Execution}
    (h : Run LeasesKept w) (hs : w.step a = some w') (hi : w.workers i = .busy x)
    (hlive : x.stage.live = true) (hi' : w'.workers i = .busy y) (hy : y.stage = .leaving) :
    (∃ t ∈ w'.store.tasks, t.id = x.task.id ∧ t.tenantUid = x.uid ∧
      settledGroup.contains t.status = true) ↔ ¬x.RetryBlocked w.store := by
  obtain ⟨c, -, hx, hstore⟩ := returns_after_closing h (World.step_sound hs) hi hlive hi' hy
  obtain ⟨-, huid, -⟩ := h.known.workerAt hi
  obtain ⟨t, ht, hten, hjob, hprog, -, hid, htok⟩ := h.hasLease (fun _ _ hok => hok) hi hlive
  have hisOk := closing_isOk h.known.placed ht (hten.trans huid.symm) hjob hid.symm htok.symm hx
  rw [← hisOk, hstore]
  constructor
  · intro ⟨t', ht', hid', _, hsettled⟩
    by_contra hno
    have hsame : (x.closingOp c).next w.store = w.store := by
      rcases Op.next_cases w.store (x.closingOp c) with hok | hsame
      · exact absurd ⟨_, hok⟩ hno
      · exact hsame
    rw [hsame] at ht'
    have hrow : t' = t := eq_of_key w.store.tasks_pk ht' ht (hid'.trans hid)
    rw [hrow] at hsettled
    revert hprog hsettled
    cases t.status <;> decide
  · intro ⟨s', hs'⟩
    have hnext : (x.closingOp c).next w.store = s' := by
      unfold Op.next
      rw [hs']
    rw [hnext]
    have hplain := (h.rooted x.task.backupJobId).plain i x (holder_busy hi rfl)
    rw [closingOp_apply] at hs'
    obtain ⟨t₀, ht₀, hin, htables⟩ := closeTask_ok hs'
    obtain ⟨hten₀, hid₀, -⟩ := taskIn_iff.mp hin
    obtain ⟨hk₁, hk₂, -⟩ := TaskRow.keys_eq.mp (c.move.set_keys t₀)
    refine ⟨c.move.set t₀, ?_, hk₁.trans hid₀, hk₂.trans hten₀, ?_⟩
    · rw [htables]
      exact mem_updateWhere_hit ht₀ hin
    · rw [hx] at hplain
      cases c with
      | complete => rfl
      | retry => rfl
      | finish status =>
        rcases hplain with rfl | rfl | rfl <;> rfl

/-- The first attempt fails while the archive is written. -/
def failingWrite : List Action :=
  enqueuing ++ claiming 0 "1" 0 ++ starting 0 0 ++
    [.execute 0 (.abort (.backup "STORAGE_WRITE_FAILED" (.plain "disk full"))),
      .execute 0 (.failJob 0)]

/-- A manual backup of the same instance. -/
def enqueuingManual (k : Nat) : List Action :=
  [.createBatch (manualBatch "tenant-a" "batch-0b" 0),
    .enqueueJob k (manualBatch "tenant-a" "batch-0b" 0) instanceA termsA (drawsA.enqueue 1),
    .enqueueTask k 0]

/-- The attempt is about to be closed as one to retry. -/
def retrying : World := final World.step opened (failingWrite ++ [.execute 0 (.settle 0)])

theorem final_transition_lands_retrying :
    ∃ t ∈ (retrying.after (.execute 0 .close)).store.tasks, t.id = "task-00" ∧
      t.tenantUid = "tenant-a" ∧ settledGroup.contains t.status = true := by
  have hrun : Run LeasesKept retrying := reach_final noneLeased_kept _ ⟨_, rfl⟩ (by decide)
  have hs := World.step_after (w := retrying) (a := .execute 0 .close) (by decide)
  have hfree : ¬Blocked retrying.store "backup-00" := by decide
  exact (final_transition_lands (i := 0) hrun hs rfl rfl rfl rfl).mpr (fun hb => hfree hb.2)

/-- The manual backup comes between `FailBackupJob` and `RetryTask`. -/
def overtaken : World :=
  final World.step opened (failingWrite ++ enqueuingManual 1 ++ [.execute 0 (.settle 0)])

/-- The retry is refused, and `execute` returns with the task leased. -/
theorem refused_retry_keeps_lease :
    ¬∀ (w w' : World) (a : Action) (i : Nat) (x y : Execution), Run LeasesKept w →
      w.step a = some w' → w.workers i = .busy x → x.stage.live = true → w'.workers i = .busy y →
      y.stage = .leaving → ∃ t ∈ w'.store.tasks, t.id = x.task.id ∧ t.tenantUid = x.uid ∧
        settledGroup.contains t.status = true := by
  intro hall
  have hrun : Run LeasesKept overtaken := reach_final noneLeased_kept _ ⟨_, rfl⟩ (by decide)
  have hs := World.step_after (w := overtaken) (a := .execute 0 .close) (by decide)
  obtain ⟨t, ht, hid, -, hsettled⟩ := hall _ _ _ 0 _ _ hrun hs rfl rfl rfl rfl
  have hleased : ∀ t ∈ (overtaken.after (.execute 0 .close)).store.tasks, t.id = "task-00" →
      settledGroup.contains t.status = false := by decide +kernel
  rw [hleased t ht hid] at hsettled
  cases hsettled

end AppBackup.Queue
