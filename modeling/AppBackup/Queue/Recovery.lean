import AppBackup.Queue.Closing

/- Which leases are recovered. A process runs `RequeueExpiredTasks` when it first works for a
   user and never again (`requeued`), so a lease that had not expired by then is kept by no
   worker and taken by none. Where that recovery finds every lease without a worker expired,
   and no worker gives up a lease it has, each task in progress has its worker ever after.

   What is proved:
     1. `Attended.step` -- a lease that a call has is a call's still, but for a crash and a
        closing that is refused;
     2. `unattended_step` -- one that no worker has stays as it is but for a recovery;
     3. `Recovered.step` -- after the recovery of a user no lease without a worker comes up, so
        a worker that is about to claim leaves no expired one behind
        (`expired_leases_recovered`);
     4. `unattended_lease_stays` -- until then nothing else takes it. -/
namespace AppBackup.Queue
open Persistence Persistence.Store Table Transition

/-! ## A life whose task is executed -/

namespace Life

variable {l l' : Life} {k : Kind}

/-- A task in progress is executed under its lease. -/
def Attended (l : Life) : Prop :=
  ∀ t, l.task = some t → t.status.inProgress = true →
    ∃ i x, l.holder i = some x ∧ x.stage.live = true ∧ x.token = t.token

/-- The call that has the lease stays among `holder`. -/
def KeepsCall (l : Life) (holder : Nat → Option Execution) : Prop :=
  ∀ t, l.task = some t → ∀ i x, l.holder i = some x → x.stage.live = true → x.token = t.token →
    ∃ j y, holder j = some y ∧ y.stage.live = true ∧ y.token = x.token

theorem keepsCall_self : l.KeepsCall l.holder := fun _ _ i x hi hlive _ => ⟨i, x, hi, hlive, rfl⟩

theorem keepsCall_update {n : Nat} {z z' : Execution} (hn : l.holder n = some z)
    (hlive : z.stage.live = true → z'.stage.live = true) (htoken : z'.token = z.token) :
    l.KeepsCall (Function.update l.holder n (some z')) := by
  intro t _ i x hi hxlive _
  by_cases hin : i = n
  · subst hin
    rw [hn] at hi
    obtain rfl := Option.some.inj hi
    exact ⟨i, z', Function.update_self .., hlive hxlive, htoken⟩
  · exact ⟨i, x, (Function.update_of_ne hin ..).trans hi, hxlive, rfl⟩

theorem keepsCall_without {n : Nat} {call : Option Execution}
    (hn : ∀ t x, l.task = some t → l.holder n = some x → x.stage.live = true → x.token ≠ t.token) :
    l.KeepsCall (Function.update l.holder n call) := by
  intro t ht i x hi hlive htoken
  have hin : i ≠ n := by
    intro he
    subst he
    exact hn t x ht hi hlive htoken
  exact ⟨i, x, (Function.update_of_ne hin ..).trans hi, hlive, rfl⟩

theorem Attended.of_kept (h : Attended l)
    (ht : ∀ t', l'.task = some t' → t'.status.inProgress = true →
      ∃ t, l.task = some t ∧ t.status.inProgress = true ∧ t'.token = t.token)
    (hh : l.KeepsCall l'.holder) : Attended l' := by
  intro t' ht' hp'
  obtain ⟨t, htask, hp, htoken⟩ := ht t' ht' hp'
  obtain ⟨i, x, hi, hlive, hx⟩ := h t htask hp
  obtain ⟨j, y, hj, hylive, hy⟩ := hh t htask i x hi hlive hx
  exact ⟨j, y, hj, hylive, hy.trans (hx.trans htoken.symm)⟩

theorem inProgress_of_ended {t : TaskLife} {status : TaskStatus} (hst : status = .cancelled ∨ status = .skipped)
    (h : (t.ended status).status.inProgress = true) :
    t.status.inProgress = true ∧ (t.ended status).token = t.token := by
  unfold TaskLife.ended at h ⊢
  split at h
  · obtain rfl | rfl := hst <;> cases h
  · next hq =>
    rw [if_neg hq]
    exact ⟨h, rfl⟩

theorem inProgress_of_prechecked {t : TaskLife} {x : Execution} (h : (t.prechecked x).status.inProgress = true) :
    t.status.inProgress = true ∧ (t.prechecked x).token = t.token := by
  unfold TaskLife.prechecked at h ⊢
  split at h
  · next hleased =>
    rw [if_pos hleased]
    refine ⟨?_, rfl⟩
    have hgroup := hleased.2.2
    revert hgroup
    cases t.status <;> decide
  · next hleased =>
    rw [if_neg hleased]
    exact ⟨h, rfl⟩

theorem moves_live {x : Execution} {stage : Stage} (h : x.Moves stage) : stage.live = true := by
  cases h with
  | settled _ now => exact afterReturn_live x now _
  | _ => rfl

theorem closed_inProgress {c : Closing} (hp : (Stage.closing c).plain) (t : TaskLife) :
    (t.closed c).status.inProgress = false := by
  cases c with
  | complete => rfl
  | retry => rfl
  | finish status =>
    obtain rfl | rfl | rfl := hp <;> rfl

theorem Attended.step (hr : Rooted l) (h : Attended l) (hs : Step l k l') (hcrash : k ≠ .crash)
    (hrefused : ∀ i, k = .refused i → ∀ x t, l.holder i = some x → l.task = some t → t.token ≠ x.token) :
    Attended l' := by
  have hrow : ∀ t', l.task = some t' → t'.status.inProgress = true →
      ∃ t, l.task = some t ∧ t.status.inProgress = true ∧ t'.token = t.token :=
    fun t ht hp => ⟨t, ht, hp, rfl⟩
  have hmap : ∀ f : TaskLife → TaskLife, (∀ t, (f t).status.inProgress = true →
      t.status.inProgress = true ∧ (f t).token = t.token) →
      ∀ t', l.task.map f = some t' → t'.status.inProgress = true →
        ∃ t, l.task = some t ∧ t.status.inProgress = true ∧ t'.token = t.token := by
    intro f hf t' ht' hp'
    obtain ⟨t, ht, rfl⟩ := Option.map_eq_some_iff.mp ht'
    exact ⟨t, ht, hf t hp'⟩
  cases hs with
  | quiet | create | cancelJob | hangUp | undo => exact h.of_kept hrow keepsCall_self
  | add | skip =>
    intro t ht hp
    cases ht
    cases hp
  -- the task that is claimed is attended by its worker
  | claim ht hq hi hx hd htok =>
    intro t' ht' _
    cases ht'
    exact ⟨_, _, Function.update_self .., by rw [hx]; rfl, rfl⟩
  | advance hi hm => exact h.of_kept hrow (keepsCall_update hi (fun _ => moves_live hm) rfl)
  | precheck hi hx =>
      exact h.of_kept (hmap _ fun _ => inProgress_of_prechecked)
        (keepsCall_update hi (fun _ => rfl) rfl)
  | start hi | commit hi | fail hi | look hi | pauseOther hi =>
      exact h.of_kept hrow (keepsCall_update hi (fun _ => rfl) rfl)
  | lost hi hx hj => exact absurd hj (hr.held _ _ hi).1
  | pauseOwn hi =>
      exact h.of_kept (hmap _ fun _ => inProgress_of_ended (.inr rfl))
        (keepsCall_update hi (fun _ => rfl) rfl)
  -- a closing leaves the task in progress no more
  | close hi hx ht htok =>
    intro t' ht' hp'
    cases ht'
    rw [closed_inProgress (hx ▸ hr.plain _ _ hi)] at hp'
    cases hp'
  | refused hi =>
    refine h.of_kept hrow (keepsCall_without ?_)
    intro t x ht hx _
    exact (hrefused _ rfl x t hx ht).symm
  | leave hi hx =>
    refine h.of_kept hrow (keepsCall_without ?_)
    intro t x _ hi' hlive
    rw [hi] at hi'
    obtain rfl := Option.some.inj hi'
    rw [hx] at hlive
    cases hlive
  | timeout hi => exact h.of_kept hrow (keepsCall_update hi (fun hlive => hlive) rfl)
  | interrupt ctx =>
    refine h.of_kept hrow fun t ht i x hx hlive htoken => ?_
    exact ⟨i, x.interrupted ctx, by simp [hx], hlive, rfl⟩
  | cancelRow k => exact h.of_kept (hmap _ fun _ => inProgress_of_ended (.inl rfl)) keepsCall_self
  | supersede hst => exact h.of_kept (hmap _ fun _ => inProgress_of_ended hst) keepsCall_self
  | reset | requeue =>
    intro t' ht' hp'
    cases ht'
    cases hp'
  | crash => exact absurd rfl hcrash

/-- A lease no call has is left as it is by whatever is not a recovery. -/
theorem unattended_step {t : TaskLife} (ht : l.task = some t) (hp : t.status.inProgress = true)
    (hfree : ∀ i x, l.holder i = some x → x.token ≠ t.token) (hs : Step l k l') (hk : k ≠ .requeue) :
    l'.task = some t ∧ ∀ i x, l'.holder i = some x → x.token ≠ t.token := by
  have hwaits : ∀ status, l.task.map (·.ended status) = some t := by
    intro status
    rw [ht, Option.map_some, TaskLife.ended, if_neg]
    intro hq
    rw [hq] at hp
    cases hp
  have hgoes : ∀ {n x z}, l.holder n = some x → z.token = x.token →
      ∀ i y, Function.update l.holder n (some z) i = some y → y.token ≠ t.token := by
    intro n x z hn htoken i y hy
    obtain ⟨-, rfl⟩ | ⟨-, hi⟩ := holder_update hy
    · rw [htoken]
      exact hfree n x hn
    · exact hfree i y hi
  cases hs with
  | quiet | create | cancelJob | hangUp | undo => exact ⟨ht, hfree⟩
  | add _ hnone | skip _ hnone =>
    rw [hnone] at ht
    cases ht
  | claim ht' hq =>
    rw [ht] at ht'
    obtain rfl := Option.some.inj ht'
    rw [hq] at hp
    cases hp
  | advance hi hm => exact ⟨ht, hgoes hi rfl⟩
  | precheck hi hx =>
    refine ⟨?_, hgoes hi rfl⟩
    show l.task.map _ = some t
    rw [ht, Option.map_some, TaskLife.prechecked, if_neg]
    exact fun h => hfree _ _ hi h.2.1.symm
  | start hi | commit hi | fail hi | look hi | lost hi | pauseOther hi | refused hi => exact ⟨ht, hgoes hi rfl⟩
  | pauseOwn hi => exact ⟨hwaits _, hgoes hi rfl⟩
  | close hi hx ht' htoken =>
    rw [ht] at ht'
    obtain rfl := Option.some.inj ht'
    exact absurd htoken.symm (hfree _ _ hi)
  | leave hi hx => exact ⟨ht, fun i y hy => hfree i y (holder_removed hy).2⟩
  | timeout hi => exact ⟨ht, hgoes hi rfl⟩
  | interrupt ctx =>
    refine ⟨ht, fun i y hy => ?_⟩
    obtain ⟨x, hx, rfl⟩ := Option.map_eq_some_iff.mp hy
    exact hfree i x hx
  | cancelRow k => exact ⟨hwaits _, hfree⟩
  | supersede hst => exact ⟨hwaits _, hfree⟩
  | reset ht' hr =>
    rw [ht] at ht'
    obtain rfl := Option.some.inj ht'
    exfalso
    revert hp hr
    cases t.status <;> decide
  | requeue => exact absurd rfl hk
  | crash => exact ⟨ht, fun i y hy => by cases hy⟩

end Life

/-! ## Workers and their tasks -/

section
variable {w w' : World} {a : Action} {id : String} {t : TaskRow}

/-- A worker executes the task under the lease the row has. -/
def World.Executes (w : World) (t : TaskRow) : Prop := ∃ i x, w.workers i = .busy x ∧ x.HasLease t

theorem attended_iff (h : Known w) : (w.life id).Attended ↔
    ∀ t ∈ w.store.tasks, t.backupJobId = id → t.status.inProgress = true → w.Executes t := by
  refine ⟨?_, ?_⟩
  · intro hatt t ht hjob hp
    subst hjob
    obtain ⟨i, x, hi, hlive, htoken⟩ := hatt (taskRowLife t) (taskLife_of_mem ht) hp
    obtain ⟨hbusy, hjob⟩ := holder_some.mp hi
    exact ⟨i, x, hbusy, hlive, (h.taskId hbusy ht).mpr hjob, htoken⟩
  · intro hall l hl hp
    obtain ⟨t, ht, hjob, rfl⟩ := taskLife_some hl
    obtain ⟨i, x, hbusy, hlive, hid, htoken⟩ := hall t ht hjob hp
    refine ⟨i, x, holder_some.mpr ⟨hbusy, ?_⟩, hlive, htoken⟩
    exact ((h.taskId hbusy ht).mp hid).trans hjob

/-- A refused closing of a call that has the lease is a retry whose job is blocked. -/
theorem refused_blocked {ok : World → Action → Prop} (h : Run ok w) {i : Nat} {x : Execution} {l : TaskLife}
    (hs : w.step (.execute i .close) = some w') (hlife : (w.life id).Step (.refused i) (w'.life id))
    (hi : (w.life id).holder i = some x) (ht : (w.life id).task = some l) (htoken : l.token = x.token) :
    x.RetryBlocked w.store := by
  obtain ⟨hbusy, hjob⟩ := holder_some.mp hi
  generalize hl' : w'.life id = l' at hlife
  cases hlife with
  | refused hi' hx hr =>
    rw [hi] at hi'
    obtain rfl := Option.some.inj hi'
    have hafter : (w'.life id).holder i = some { x with stage := .leaving } := by
      rw [hl']
      exact Function.update_self ..
    obtain ⟨c, -, hclosing, hstore⟩ := returns_after_closing h (World.step_sound hs) hbusy (by rw [hx]; rfl)
      (holder_some.mp hafter).1 rfl
    obtain ⟨-, huid, ⟨t, htask, hid, hten, htjob, -⟩, -⟩ := h.known.workerAt hbusy
    have hrow : l = taskRowLife t := by
      have hlife : (w.life id).task = some (taskRowLife t) := by
        rw [← hjob, ← htjob]
        exact taskLife_of_mem htask
      rw [hlife] at ht
      exact (Option.some.inj ht).symm
    by_contra hfree
    obtain ⟨s', hs'⟩ := (closing_isOk h.known.placed htask (hten.trans huid.symm) htjob hid
      (by rw [hrow] at htoken; exact htoken) hclosing).mpr hfree
    have hown : Owned w.store x.uid x.task.id x.task.backupJobId := ⟨t, htask, hid, hten.trans huid.symm, htjob⟩
    have htask' : (w'.life id).task = some (l.closed c) := by
      show taskLife w'.store id = _
      rw [hstore, Op.next_of_ok hs', ← hjob, (closing_rewrites hown h.known.placed hs').1.ownTask, hjob]
      show (w.life id).task.map _ = _
      rw [ht, Option.map_some, if_pos htoken]
    -- the row is as it was, with the token of the call
    have hsame : l.closed c = l := by
      rw [hl'] at htask'
      exact Option.some.inj (htask'.symm.trans ht)
    have hnone : (l.closed c).token = "" := by cases c <;> rfl
    rw [hsame, htoken] at hnone
    exact (h.leased id).held i x hi hnone

/-- No row goes, and none changes its tenant or its job. -/
theorem steps_extends (hs : w.Steps a w') : Extends w.store w'.store := by
  have hsame : Extends w.store w.store := (SameKeys.refl w.store).extends_
  have hnext : ∀ op, addsRow op = false → Extends w.store (op.next w.store) :=
    fun op hop => (sameKeys_next w.store hop).extends_
  cases hs with
  | boot hu ht hs => exact (sameKeys_requeue hs).extends_
  | recovered hi hs => exact (sameKeys_requeue hs).extends_
  | claimed hi hx hs =>
    obtain ⟨-, -, -, -, -, hkeys, -⟩ := claimNextTask_rewrites hs
    exact hkeys.extends_
  | act tickers hi ha => exact (acts_sameKeys ha).extends_
  | heartbeat uid id token => exact hnext (.heartbeatTask uid id token _ _) rfl
  | cancelRow hk =>
    rename_i k id jobId now
    have hkeys : SameKeys w.store (w.store.cancelTaskRow w.tenant id now) := sameKeys_of_tasks rfl rfl fun _ => rfl
    exact hkeys.extends_
  | cancelJob hk =>
    rename_i k id jobId now
    have ht := cancelTaskJob_tables w.store w.tenant jobId now
    have hjobs : (w.store.cancelTaskJob w.tenant jobId now).jobs =
        updateWhere (jobIn w.tenant jobId (· == .queued)) (cancelledJob now) w.store.jobs := by
      rw [ht]
    exact (sameKeys_of_jobs (by rw [ht]) hjobs fun _ => rfl).extends_
  | manualRetry => exact hnext _ rfl
  | createPlan => exact hnext _ rfl
  | updatePlan => exact hnext _ rfl
  | pausePlan => exact hnext _ rfl
  | createBatch => exact hnext _ rfl
  | enqueueJob hk hc =>
    obtain ⟨-, -, -, -, -, -, hcreate⟩ := createJob_ok hc
    exact extends_newJob (createBackupJob_ok hcreate)
  | added hk hs => exact extends_newTask hs
  | undoJob => exact hnext _ rfl
  | skipTask hs =>
    obtain ⟨_, -, hadd⟩ := recordSkipped_ok hs
    exact extends_newTask hadd
  | library => exact SameKeys.extends_ ⟨rfl, rfl⟩
  | _ => exact hsame

theorem Extends.row {s s' : Store} (h : Extends s s') {t t' : TaskRow} (ht : t ∈ s.tasks) (ht' : t' ∈ s'.tasks)
    (hjob : t'.backupJobId = t.backupJobId) : t'.id = t.id ∧ t'.tenantUid = t.tenantUid := by
  obtain ⟨t₀, ht₀, hkeys⟩ := h.tasks t ht
  obtain ⟨hid, hten, -, -, hjob₀, -⟩ := TaskRow.keys_eq.mp hkeys
  obtain rfl : t' = t₀ := eq_of_key s'.tasks_job ht' ht₀ (hjob.trans hjob₀.symm)
  exact ⟨hid, hten⟩

theorem idle_of_noRecovery {status : TaskStatus} (h : noRecovery.contains status = true) :
    status.inProgress = false := by
  revert h
  cases status <;> decide

theorem inProgress_of_open {status : TaskStatus} (h : noRecovery.contains status = false)
    (hwritten : status ≠ .succeededWithWarnings) : status.inProgress = true := by
  revert h hwritten
  cases status <;> decide

/-! ## Recovered users -/

/-- The recovery of the step finds every lease of the user expired under which no worker executes the task. -/
def FindsExpired (w : World) (a : Action) : Prop :=
  ∀ uid now, Recovers w a uid now → ∀ t ∈ w.store.tasks, t.tenantUid = uid → t.status.inProgress = true →
    ¬w.Executes t → expired uid now t = true

/-- A worker that closes a task under its lease is not refused. -/
def ClosesTask (w : World) (a : Action) : Prop :=
  ∀ i x, a = .execute i .close → w.workers i = .busy x → ∀ t ∈ w.store.tasks, x.HasLease t →
  ¬x.RetryBlocked w.store

/-- Each task of the user in progress is executed. -/
def World.Swept (w : World) : Prop :=
  ∀ t ∈ w.store.tasks, t.tenantUid = w.tenant → t.status.inProgress = true → w.Executes t

/-- A worker has run the recovery for the user. -/
def World.Ready (w : World) : Prop :=
  w.tenant ∈ w.requeued ∨ ∃ i, w.workers i = .marking w.tenant ∨ w.workers i = .claiming w.tenant

/-- A task that was executed still is, whatever the step, or is in progress no more. -/
theorem swept_step {ok : World → Action → Prop} (h : Run ok w) (hs : w.step a = some w') (hcrash : a ≠ .crash)
    (hclose : ClosesTask w a) (htenant : w'.tenant = w.tenant) (hswept : w.Swept) : w'.Swept := by
  have hsteps := World.step_sound hs
  have hknown := h.known.step hsteps
  intro t' ht' hten' hp'
  obtain ⟨k, hcause, hlife⟩ := simulates h.known hsteps t'.backupJobId
  have hatt : (w.life t'.backupJobId).Attended := by
    refine (attended_iff h.known).mpr fun t ht hjob hp => hswept t ht ?_ hp
    rw [← htenant, ← hten', ((steps_extends hsteps).row ht ht' hjob.symm).2]
  refine (attended_iff hknown).mp (hatt.step (h.rooted _) hlife ?_ ?_) t' ht' rfl hp'
  · rintro rfl
    exact hcrash hcause
  · rintro i rfl x l hi hl htoken
    have hclosing : a = .execute i .close := hcause
    subst hclosing
    have hblocked := refused_blocked h hs hlife hi hl htoken
    obtain ⟨t, ht, hjob, rfl⟩ := taskLife_some hl
    obtain ⟨hbusy, hx⟩ := holder_some.mp hi
    refine hclose i x rfl hbusy t ht ⟨?_, (h.known.taskId hbusy ht).mpr (hx.trans hjob.symm), htoken.symm⟩ hblocked
    obtain ⟨⟨_, _, _, hstage⟩, -⟩ := hblocked
    rw [hstage]
    rfl

/-- The recovery leaves in progress what a worker executes. -/
theorem swept_requeue (h : Known w) {uid : String} {now : Time} {s : Store}
    (hs : w.store.requeueExpiredTasks uid now = .ok s) (hstore : w'.store = s) (htenant : w'.tenant = uid)
    (hworkers : ∀ i x, w.workers i = .busy x → w'.workers i = .busy x)
    (hfinds : ∀ t ∈ w.store.tasks, t.tenantUid = uid → t.status.inProgress = true → ¬w.Executes t →
      expired uid now t = true) : w'.Swept := by
  subst hstore
  intro t' ht' hten' hp'
  obtain ⟨hkeys, -, hall⟩ := requeueExpiredTasks_rows h.placed hs
  have hlife' := taskLife_of_mem ht'
  obtain ⟨t, -, -, -, -, hmoved, -⟩ | ⟨hkept, hsame, -⟩ := hall t'.backupJobId
  · rw [hmoved] at hlife'
    have hstatus : t'.status = .queued := (congrArg TaskLife.status (Option.some.inj hlife')).symm
    rw [hstatus] at hp'
    cases hp'
  · rw [hsame] at hlife'
    obtain ⟨t, ht, hjob, hrow⟩ := taskLife_some hlife'
    have hstatus : t'.status = t.status := (congrArg TaskLife.status hrow).symm
    have htoken : t'.leaseToken = t.leaseToken := (congrArg TaskLife.token hrow).symm
    obtain ⟨hid, hten⟩ := hkeys.extends_.row ht ht' hjob.symm
    have hexecutes : w.Executes t := by
      by_contra hnone
      have hexpired := hfinds t ht (by rw [← hten, hten', htenant]) (by rw [← hstatus]; exact hp') hnone
      rw [hkept t ht hjob] at hexpired
      cases hexpired
    obtain ⟨i, x, hbusy, hlive, hx, hlease⟩ := hexecutes
    exact ⟨i, x, hworkers i x hbusy, hlive, hx.trans hid.symm, hlease.trans htoken.symm⟩

/-- The steps of a run in which no lease is left behind. -/
def RecoversLeases (w : World) (a : Action) : Prop := FindsExpired w a ∧ ClosesTask w a

/-- The process has recovered no user but its own, and once it has, each task in progress is executed. -/
structure World.Recovered (w : World) : Prop where
  own : ∀ uid ∈ w.requeued, uid = w.tenant ∧ uid ≠ ""
  swept : w.Ready → w.Swept

/-- A worker that comes neither to mark nor to claim makes the process no readier. -/
theorem ready_of_worker {i : Nat} {worker : Worker} (hrequeued : w'.requeued = w.requeued)
    (htenant : w'.tenant = w.tenant) (hworkers : w'.workers = Function.update w.workers i worker)
    (hworker : ∀ uid, worker ≠ .marking uid ∧ worker ≠ .claiming uid) (h : w'.Ready) : w.Ready := by
  unfold World.Ready at h
  rw [hrequeued, htenant, hworkers] at h
  obtain hmem | ⟨n, hn⟩ := h
  · exact .inl hmem
  · by_cases he : n = i
    · subst he
      rw [Function.update_self] at hn
      obtain hn | hn := hn
      · exact absurd hn (hworker _).1
      · exact absurd hn (hworker _).2
    · rw [Function.update_of_ne he] at hn
      exact .inr ⟨n, hn⟩

theorem Recovered.step {ok : World → Action → Prop} (h : Run ok w) (hr : w.Recovered) (hs : w.step a = some w')
    (hok : RecoversLeases w a) : w'.Recovered := by
  -- the step binds no user, recovers none and does not end the process
  have hkept : a ≠ .crash → w'.tenant = w.tenant → w'.requeued = w.requeued → (w'.Ready → w.Ready) →
      w'.Recovered := by
    intro hcrash htenant hrequeued hready
    refine ⟨?_, fun hready' => swept_step h hs hcrash hok.2 htenant (hr.swept (hready hready'))⟩
    rw [htenant, hrequeued]
    exact hr.own
  cases World.step_sound hs with
  | bind hu ht =>
    obtain ⟨hidle, -⟩ := h.known.idle ht
    refine ⟨fun uid huid => ?_, fun hready => ?_⟩
    · obtain ⟨he, hne⟩ := hr.own uid huid
      exact absurd (he.trans ht) hne
    · obtain hmem | ⟨i, hi⟩ := hready
      · obtain ⟨he, hne⟩ := hr.own _ hmem
        exact absurd (he.trans ht) hne
      · rw [show _ = _ from hidle i] at hi
        obtain hi | hi := hi <;> cases hi
  | boot hu ht hrequeue =>
    rename_i uid now s
    obtain ⟨hidle, -⟩ := h.known.idle ht
    refine ⟨fun user huser => ?_, fun _ => ?_⟩
    · obtain rfl := List.mem_singleton.mp huser
      exact ⟨rfl, hu⟩
    · exact swept_requeue h.known hrequeue rfl rfl (fun _ _ hi => hi) (hok.1 uid now (.inl rfl))
  | crash =>
    refine ⟨fun _ huid => absurd huid List.not_mem_nil, fun hready => ?_⟩
    obtain hmem | ⟨i, hi | hi⟩ := hready
    · exact absurd hmem List.not_mem_nil
    · cases hi
    · cases hi
  | ready hi ht hready =>
    refine hkept nofun rfl rfl fun _ => .inl ?_
    exact List.contains_iff_mem.mp hready
  | recovered hi hrequeue =>
    rename_i i uid now s
    obtain ⟨hne, rfl⟩ := h.known.workerAt hi
    refine ⟨hr.own, fun _ => swept_requeue h.known hrequeue rfl rfl ?_ (hok.1 _ now (.inr ⟨i, rfl, hi⟩))⟩
    intro n x hn
    have hni : n ≠ i := by
      intro he
      rw [he, hi] at hn
      cases hn
    exact (Function.update_of_ne hni ..).trans hn
  | mark hi =>
    rename_i i uid
    obtain ⟨hne, rfl⟩ := h.known.workerAt hi
    refine ⟨fun user huser => ?_, fun _ => ?_⟩
    · obtain rfl | huser := List.mem_cons.mp huser
      · exact ⟨rfl, hne⟩
      · exact hr.own user huser
    · exact swept_step h hs nofun hok.2 rfl (hr.swept (.inr ⟨i, .inl hi⟩))
  | stale | unrecovered | unclaimed | leave =>
    exact hkept nofun rfl rfl (ready_of_worker rfl rfl rfl fun _ => ⟨nofun, nofun⟩)
  | claimed | register | timeout | act =>
    exact hkept nofun rfl rfl (ready_of_worker rfl rfl rfl fun _ => ⟨nofun, nofun⟩)
  | cancelCall hk =>
    refine hkept nofun rfl rfl fun hready => ?_
    obtain hmem | ⟨i, hi⟩ := hready
    · exact .inl hmem
    · refine .inr ⟨i, ?_⟩
      change (w.workers i).interrupted _ = _ ∨ (w.workers i).interrupted _ = _ at hi
      cases hw : w.workers i with
      | busy x => rw [hw] at hi; obtain hi | hi := hi <;> cases hi
      | _ => rw [hw] at hi; exact hi
  | _ => exact hkept nofun rfl rfl fun hready => hready

theorem Run.recovered (h : Run RecoversLeases w) : w.Recovered := by
  induction h with
  | start h =>
    obtain ⟨lease, rfl⟩ := h
    refine ⟨fun _ huid => absurd huid List.not_mem_nil, fun hready => ?_⟩
    obtain hmem | ⟨i, hi | hi⟩ := hready
    · exact absurd hmem List.not_mem_nil
    · cases hi
    · cases hi
  | next hr hok hs ih => exact Recovered.step hr ih hs hok

end

/-! ## No lease stays behind -/

/-- Where every recovery finds the leases without a worker expired and no worker is refused its closing, a
worker that is about to claim leaves no expired lease behind: each is that of a task that is being executed. -/
theorem expired_leases_recovered {w : World} (h : Run RecoversLeases w) {i : Nat} {uid : String}
    (hi : w.workers i = .claiming uid) (now : Time) :
    ∀ t ∈ w.store.tasks, expired uid now t = true → w.Executes t := by
  intro t ht hexpired
  obtain ⟨-, rfl⟩ := h.known.workerAt hi
  simp only [expired, Bool.and_eq_true, beq_iff_eq, Bool.not_eq_true'] at hexpired
  refine h.recovered.swept (.inr ⟨i, .inr hi⟩) t ht hexpired.1.1 ?_
  have hwritten := (h.rooted t.backupJobId).status (taskRowLife t) (taskLife_of_mem ht)
  change t.status ≠ .succeededWithWarnings at hwritten
  exact inProgress_of_open hexpired.1.2 hwritten

/-- A recovery leaves no task of its user in progress, and no worker closes a task. -/
def recoversAll (w : World) : Action → Bool
  | .boot uid now => w.store.tasks.all fun t => noRecovery.contains t.status || expired uid now t
  | .recover i now =>
    match w.workers i with
    | .recovering uid => w.store.tasks.all fun t => noRecovery.contains t.status || expired uid now t
    | _ => true
  | .execute _ .close => false
  | _ => true

theorem recoversAll_ok (w : World) (a : Action) (h : recoversAll w a = true) : RecoversLeases w a := by
  refine ⟨?_, ?_⟩
  · intro uid now ha t ht _ hp _
    have hall : w.store.tasks.all (fun t => noRecovery.contains t.status || expired uid now t) = true := by
      obtain rfl | ⟨i, rfl, hi⟩ := ha
      · exact h
      · simp only [recoversAll, hi] at h
        exact h
    obtain hidle | hexpired := Bool.or_eq_true_iff.mp (List.all_eq_true.mp hall t ht)
    · rw [idle_of_noRecovery hidle] at hp
      cases hp
    · exact hexpired
  · rintro i x rfl
    cases h

/-- The process dies with the task claimed, the next one recovers it after its deadline and a worker claims it
again; much later another worker is about to claim. -/
def overdue : World :=
  final World.step opened (enqueuing ++ claiming 0 "1" 0 ++ [.crash, .bind "tenant-a"] ++
    claiming 0 "2" (120 * second) ++ [.loop 1])

theorem expired_leases_recovered_overdue :
    ∃ t ∈ overdue.store.tasks, expired "tenant-a" (1000 * second) t = true ∧ overdue.Executes t := by
  have hrun : Run RecoversLeases overdue := reach_final recoversAll_ok _ ⟨_, rfl⟩ (by decide)
  obtain ⟨t, ht, hexpired⟩ : ∃ t ∈ overdue.store.tasks, expired "tenant-a" (1000 * second) t = true := by
    decide +kernel
  exact ⟨t, ht, hexpired, expired_leases_recovered hrun (i := 1) rfl _ t ht hexpired⟩

/-! ## A lease nobody recovers -/

/-- No recovery of the step finds the lease of the task expired. -/
def SparesLease (t : TaskRow) (w : World) (a : Action) : Prop :=
  ∀ uid now, Recovers w a uid now → ∀ t' ∈ w.store.tasks, t'.backupJobId = t.backupJobId →
  expired uid now t' = false

/-- A task in progress under a lease that no worker has stays so, whatever users and workers do and however often
the process dies, until a recovery finds its lease expired. -/
theorem unattended_lease_stays {ok : World → Action → Prop} {w w' : World} {t : TaskRow} (h : Run ok w)
    (ht : t ∈ w.store.tasks) (hp : t.status.inProgress = true)
    (hfree : ∀ i x, w.workers i = .busy x → x.task.id = t.id → x.token ≠ t.leaseToken)
    (hreach : Reach World.step (SparesLease t) (· = w) w') :
    (∃ t' ∈ w'.store.tasks, t'.id = t.id ∧ t'.tenantUid = t.tenantUid ∧ t'.status = t.status ∧
      t'.leaseToken = t.leaseToken) ∧
    ∀ i x, w'.workers i = .busy x → x.task.id = t.id → x.token ≠ t.leaseToken := by
  have hinv : Run (fun _ _ => True) w' ∧ (w'.life t.backupJobId).task = some (taskRowLife t) ∧
      (∀ i x, (w'.life t.backupJobId).holder i = some x → x.token ≠ t.leaseToken) ∧
      ∃ t' ∈ w'.store.tasks, t'.backupJobId = t.backupJobId ∧ t'.id = t.id ∧ t'.tenantUid = t.tenantUid := by
    induction hreach with
    | start he =>
      subst he
      refine ⟨h.mono_using fun _ _ _ _ => trivial, taskLife_of_mem ht, fun i x hi => ?_, t, ht, rfl, rfl, rfl⟩
      obtain ⟨hbusy, hjob⟩ := holder_some.mp hi
      exact hfree i x hbusy ((h.known.taskId hbusy ht).mpr hjob)
    | next hr hok hs ih =>
      obtain ⟨hrun, hlife, hcalls, t₀, ht₀, hjob₀, hid₀, hten₀⟩ := ih
      have hsteps := World.step_sound hs
      obtain ⟨k, hcause, hstep⟩ := simulates hrun.known hsteps t.backupJobId
      obtain ⟨hlife', hcalls'⟩ := Life.unattended_step hlife hp hcalls hstep (by
        rintro rfl
        obtain ⟨uid, now, ha, t', ht', hjob', hexpired⟩ := hcause
        rw [hok uid now ha t' ht' hjob'] at hexpired
        cases hexpired)
      obtain ⟨t', ht', hjob', -⟩ := taskLife_some hlife'
      obtain ⟨hid', hten'⟩ := (steps_extends hsteps).row ht₀ ht' (hjob'.trans hjob₀.symm)
      exact ⟨.next hrun trivial hs, hlife', hcalls', t', ht', hjob', hid'.trans hid₀, hten'.trans hten₀⟩
  obtain ⟨hrun, hlife, hcalls, t', ht', hjob', hid', hten'⟩ := hinv
  have hrow : taskRowLife t' = taskRowLife t := by
    refine Option.some.inj ((taskLife_of_mem ht').symm.trans ?_)
    rw [hjob']
    exact hlife
  refine ⟨⟨t', ht', hid', hten', congrArg TaskLife.status hrow, congrArg TaskLife.token hrow⟩, ?_⟩
  intro i x hbusy hx
  refine hcalls i x (holder_some.mpr ⟨hbusy, ?_⟩)
  exact ((hrun.known.taskId hbusy ht').mp (hx.trans hid'.symm)).trans hjob'

/-- A recovery finds no lease expired. -/
def sparesAll (w : World) : Action → Bool
  | .boot uid now => w.store.tasks.all fun t => !expired uid now t
  | .recover i now =>
    match w.workers i with
    | .recovering uid => w.store.tasks.all fun t => !expired uid now t
    | _ => true
  | _ => true

theorem sparesAll_ok (t : TaskRow) (w : World) (a : Action) (h : sparesAll w a = true) : SparesLease t w a := by
  intro uid now ha t' ht' _
  have hall : w.store.tasks.all (fun t => !expired uid now t) = true := by
    obtain rfl | ⟨i, rfl, hi⟩ := ha
    · exact h
    · simp only [sparesAll, hi] at h
      exact h
  exact Bool.not_eq_true' _ ▸ List.all_eq_true.mp hall t' ht'

/-- The process dies with the task claimed, and the next one serves the user. -/
def stranded : World :=
  final World.step opened (enqueuing ++ claiming 0 "1" 0 ++ [.crash, .bind "tenant-a"])

/-- A worker recovers before the lease is over and claims, and the user cancels the task. -/
def waiting : World :=
  final World.step stranded (claiming 0 "2" (10 * second) ++
    [.cancel 0 "task-00", .cancelRead 0 (11 * second), .cancelLook 0])

theorem unattended_lease_stays_stranded :
    ∃ t ∈ stranded.store.tasks, t.status.inProgress = true ∧
      ∃ t' ∈ waiting.store.tasks, t'.status = t.status ∧ t'.leaseToken = t.leaseToken := by
  have hrun : Run (fun _ _ => True) stranded :=
    @reach_final _ _ _ _ _ (fun _ _ => true) (fun _ _ _ => trivial) _ _ ⟨_, rfl⟩ (by decide)
  obtain ⟨t, ht, hp⟩ : ∃ t ∈ stranded.store.tasks, t.status.inProgress = true := by decide +kernel
  have hreach : Reach World.step (SparesLease t) (· = stranded) waiting :=
    reach_final (sparesAll_ok t) _ rfl (by decide +kernel)
  obtain ⟨⟨t', ht', -, -, hstatus, htoken⟩, -⟩ :=
    unattended_lease_stays hrun ht hp (fun i x hi => by cases hi) hreach
  exact ⟨t, ht, hp, t', ht', hstatus, htoken⟩

end AppBackup.Queue
