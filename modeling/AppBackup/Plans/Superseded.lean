import AppBackup.Lib.Transition
import AppBackup.Persistence.Frames
import AppBackup.Queue.Calls

/- Is superseded or paused work started? `UpdatePlan` and `PausePlanForScope` end what
   waits at that moment, once; later an enqueue from an older copy of the plan, a retry, a
   recovery or a manual retry may bring work of the old scope back into the queue, where
   `ClaimNextTask` takes it. Statements come in any order, whoever makes them; in every
   run in which none of them brings such work back, none is claimed.

   What is proved:
     1. a waiting task after an operation was added by it, or is a row from before it, that
        waited or is put back (`comesFrom_apply`);
     2. `queueCurrent_write` -- where the queue has no superseded or paused work, it has none
        after an operation that does not bring such work back;
     3. `superseded_never_claimed` -- hence in every such run what is claimed is current.

   `retry_claims_superseded` is a run with a retry that does bring such work back. -/
namespace AppBackup.Plans
open Persistence Queue Table Transition

/-! ## What was superseded and paused -/

/-- The deployments a plan names, with their scopes. -/
def targetScopes (targets : List PlanTarget) : List (String × BackupScope) :=
  targets.map fun target => (target.deployId, target.scope)

def storedScopes (s : Store) (tenant planId : String) : List (String × BackupScope) :=
  (s.targets.filter fun t => t.planId == planId && t.tenantUid == tenant).map fun t =>
    (t.deployId, t.scope)

/-- An update of the plan would change a scope, whatever its caller believes. -/
def changesScopes (s : Store) (tenant : String) (plan : BackupPlan) : Bool :=
  !((storedScopes s tenant plan.id).all fun x => (targetScopes plan.targets).contains x) ||
    !((targetScopes plan.targets).all fun x => (storedScopes s tenant plan.id).contains x)

/-- The database, and for each tenant and plan the scopes of the last update that changed
them, and whether the plan was paused for its scope and neither updated nor resumed
since. -/
structure Scoped where
  store : Store
  scopes : String → String → Option (List (String × BackupScope))
  paused : String → String → Bool

namespace Scoped

def empty : Scoped := ⟨Store.empty, fun _ _ => none, fun _ _ => false⟩

/-- The task's plan is not paused, and its scope is not an older one. -/
def current (w : Scoped) (t : TaskRow) : Bool :=
  !w.paused t.tenantUid t.planId &&
    (w.scopes t.tenantUid t.planId).all fun scopes => scopes.contains (t.deployId, t.scope)

/-- What an operation that commits makes of the scopes that are in force. -/
def scopesAfter (w : Scoped) : Op → String → String → Option (List (String × BackupScope))
  | .updatePlan tenant plan _ => fun t i =>
    if t = tenant ∧ i = plan.id ∧ changesScopes w.store tenant plan = true then
      some (targetScopes plan.targets)
    else w.scopes t i
  | _ => w.scopes

/-- What it makes of the pauses. -/
def pausedAfter (w : Scoped) : Op → String → String → Bool
  | .updatePlan tenant plan _ => fun t i => if t = tenant ∧ i = plan.id then false else w.paused t i
  | .setPlanEnabled tenant id true _ _ => fun t i => if t = tenant ∧ i = id then false else w.paused t i
  | .pausePlanForScope tenant id _ => fun t i => if t = tenant ∧ i = id then true else w.paused t i
  | _ => w.paused

def write (w : Scoped) (op : Op) : Scoped :=
  match op.apply w.store with
  | .ok s => ⟨s, w.scopesAfter op, w.pausedAfter op⟩
  | .error _ => w

end Scoped

/-- A statement of some call, or a sync of the application library. -/
inductive Event where
  | call (c : Stmt)
  | library (applications : List ApplicationRow) (instances : List InstanceRow)

def Scoped.step (w : Scoped) : Event → Option Scoped
  | .call (.write op _) => some (w.write op)
  | .call c => some { w with store := (c.exec w.store).2 }
  | .library applications instances =>
    some { w with store := { w.store with applications := applications, instances := instances } }

/-! ## What brings work into the queue, and what ends it there -/

/-- The rows an operation puts back into the queue. -/
def requeues (op : Op) (t : TaskRow) : Bool :=
  match op with
  | .retryTask tenant id token .. => taskIn tenant id (·.leaseToken == token) t
  | .resetTaskForManualRetry tenant id _ => taskIn tenant id (fun t => resettable.contains t.status) t
  | .requeueExpiredTasks tenant now => Store.expired tenant now t
  | .setTaskStatus tenant id token status =>
    status == .queued && taskIn tenant id (·.leaseToken == token) t
  | .finishTaskFailure tenant id token status .. =>
    status == .queued && taskIn tenant id (·.leaseToken == token) t
  | _ => false

/-- The waiting rows an operation ends. -/
def ends (op : Op) (t : TaskRow) : Bool :=
  match op with
  | .updatePlan tenant plan true => waitingTask tenant plan.id t
  | .pausePlanForScope tenant id _ => waitingTask tenant id t
  | _ => false

/-- The operation leaves no work in the queue that is superseded or paused: what it adds or
puts back is current, and an update that leaves the waiting work alone changes no scope of
it. -/
def KeepsCurrent (w : Scoped) (op : Op) : Prop :=
  (∀ t ∈ w.store.tasks, requeues op t = true → w.current t = true) ∧
    match op with
    | .addTask task _ => task.status = .queued → w.current (taskRow task) = true
    | .updatePlan tenant plan false => changesScopes w.store tenant plan = true →
      ∀ t ∈ w.store.tasks, waitingTask tenant plan.id t = true →
        (t.deployId, t.scope) ∈ targetScopes plan.targets
    | _ => True

/-- Every write of a step keeps the queue current. -/
def Scoped.KeepsCurrent (w : Scoped) : Event → Prop
  | .call (.write op _) => Plans.KeepsCurrent w op
  | _ => True

/-- The same task, as far as its plan and scope go. -/
def SameWork (t t' : TaskRow) : Prop := t.keys = t'.keys ∧ t.scope = t'.scope

theorem SameWork.current {w : Scoped} {t t' : TaskRow} (h : SameWork t t') :
    w.current t' = w.current t := by
  obtain ⟨-, ht, -, hp, -, hd⟩ := TaskRow.keys_eq.mp h.1
  unfold Scoped.current
  rw [ht, hp, hd, h.2]

/-- Where a waiting task comes from: the operation added it, put it back, or found it
waiting and let it wait. -/
def ComesFrom (s : Store) (op : Op) (t' : TaskRow) : Prop :=
  (∃ task now, op = .addTask task now ∧ t' = taskRow task) ∨
    ∃ t ∈ s.tasks, SameWork t t' ∧
      (requeues op t = true ∨ (t.status = .queued ∧ ends op t = false))

theorem comesFrom_update {s : Store} {op : Op} {p : TaskRow → Bool} {f : TaskRow → TaskRow}
    {t' : TaskRow} (ht' : t' ∈ updateWhere p f s.tasks) (hq : t'.status = .queued)
    (hf : ∀ t, SameWork t (f t))
    (hhit : ∀ t ∈ s.tasks, p t = true → (f t).status = .queued →
      requeues op t = true ∨ (t.status = .queued ∧ ends op t = false))
    (hmiss : ∀ t ∈ s.tasks, p t = false → t.status = .queued → ends op t = false) :
    ComesFrom s op t' := by
  obtain ⟨t, ht, hp, rfl⟩ | ⟨ht, hp⟩ := mem_updateWhere_cases ht'
  · exact .inr ⟨t, ht, hf t, hhit t ht hp hq⟩
  · exact .inr ⟨t', ht, ⟨rfl, rfl⟩, .inr ⟨hq, hmiss t' ht hp hq⟩⟩

theorem comesFrom_same {s : Store} {op : Op} {t' : TaskRow} (ht' : t' ∈ s.tasks)
    (hq : t'.status = .queued) (h : ends op t' = false) : ComesFrom s op t' :=
  .inr ⟨t', ht', ⟨rfl, rfl⟩, .inr ⟨hq, h⟩⟩

/-- A closing transaction brings back the row it closes, at most. -/
theorem comesFrom_close {s s' : Store} {op : Op} {tenant id : String} {guard : TaskRow → Bool}
    {missing : StoreError} {m : TaskMove} {now : Time}
    (h : s.closeTask tenant id guard missing m now = .ok s') (hm : ∀ t, SameWork t (m.set t))
    (hends : ∀ t, ends op t = false)
    (hreq : ∀ t, taskIn tenant id guard t = true → (m.set t).status = .queued →
      requeues op t = true) {t' : TaskRow} (ht' : t' ∈ s'.tasks) (hq : t'.status = .queued) :
    ComesFrom s op t' := by
  obtain ⟨t, -, -, htables⟩ := Store.closeTask_ok h
  have htasks : s'.tasks = updateWhere (taskIn tenant id guard) m.set s.tasks := by rw [htables]; rfl
  rw [htasks] at ht'
  refine comesFrom_update ht' hq hm ?_ ?_
  · intro t _ hp hst
    exact .inl (hreq t hp hst)
  · intro t _ _ _
    exact hends t

theorem comesFrom_requeueExpired {s s' : Store} {tenant : String} {now : Time}
    (h : s.requeueExpiredTasks tenant now = .ok s') {t' : TaskRow} (ht' : t' ∈ s'.tasks)
    (hq : t'.status = .queued) : ComesFrom s (.requeueExpiredTasks tenant now) t' := by
  have hinv : ∀ t' ∈ s'.tasks, ∃ t ∈ s.tasks, SameWork t t' ∧
      (t'.status = .queued → Store.expired tenant now t = true ∨ t.status = .queued) := by
    refine foldlM_invariant (P := fun s₁ : Store => ∀ t' ∈ s₁.tasks, ∃ t ∈ s.tasks, SameWork t t' ∧
      (t'.status = .queued → Store.expired tenant now t = true ∨ t.status = .queued)) h ?_ ?_
    · intro t ht
      exact ⟨t, ht, ⟨rfl, rfl⟩, .inr⟩
    · intro s₁ s₂ item hitem ih hs₂ t₂ ht₂
      obtain ⟨hmem, hexp⟩ := List.mem_filter.mp hitem
      have htasks : s₂.tasks = updateWhere (taskIn tenant item.id fun _ => true) (expiredMove now).set
          s₁.tasks := by rw [Store.runMove_ok hs₂]; rfl
      rw [htasks] at ht₂
      obtain ⟨t₁, ht₁, hp, rfl⟩ | ⟨ht₁, -⟩ := mem_updateWhere_cases ht₂
      · obtain ⟨t, ht, hsame, -⟩ := ih t₁ ht₁
        -- the row of that id is the one the statement read
        have hid : t.id = item.id :=
          (TaskRow.keys_eq.mp hsame.1).1.trans (Store.taskIn_iff.mp hp).2.1
        obtain rfl : t = item := eq_of_key s.tasks_pk ht hmem hid
        exact ⟨t, ht, hsame, fun _ => .inl hexp⟩
      · exact ih t₂ ht₁
  obtain ⟨t, ht, hsame, hst⟩ := hinv t' ht'
  refine .inr ⟨t, ht, hsame, ?_⟩
  obtain hexp | hwait := hst hq
  · exact .inl hexp
  · exact .inr ⟨hwait, rfl⟩

theorem endWaiting_comesFrom {s s' : Store} {op : Op} {tenant code : String} (planId : String)
    {status : TaskStatus} {validation : Option PlanPauseReason} {at_ : Time}
    (htasks : s'.tasks = updateWhere (waitingTask tenant planId)
      (endWaitingTask status code validation at_) s.tasks) (hst : status ≠ .queued)
    (hends : ∀ t, ends op t = waitingTask tenant planId t) {t' : TaskRow} (ht' : t' ∈ s'.tasks)
    (hq : t'.status = .queued) : ComesFrom s op t' := by
  rw [htasks] at ht'
  refine comesFrom_update ht' hq (fun t => ⟨rfl, rfl⟩) ?_ ?_
  · intro t _ _ h
    exact absurd h hst
  · intro t _ hp _
    rw [hends]
    exact hp

/-- Where the waiting tasks of a database come from, by the operation it has just been
through. -/
theorem comesFrom_apply {s s' : Store} {op : Op} (h : op.apply s = .ok s') {t' : TaskRow}
    (ht' : t' ∈ s'.tasks) (hq : t'.status = .queued) : ComesFrom s op t' := by
  cases op with
  | createPlan plan =>
    obtain ⟨targets, ht⟩ := Store.createPlan_ok h
    rw [ht] at ht'
    exact comesFrom_same ht' hq rfl
  -- an update, or a pause, that ends waiting work leaves the rest of it as it was
  | updatePlan tenant plan cancelQueued =>
    obtain ⟨targets, ht⟩ := Store.updatePlan_ok h
    cases cancelQueued with
    | true =>
      refine endWaiting_comesFrom plan.id (by rw [ht]; rfl) ?_ (fun _ => rfl) ht' hq
      decide
    | false =>
      rw [ht] at ht'
      exact comesFrom_same ht' hq rfl
  | setPlanEnabled tenant id enabled nextRun updated =>
    obtain ⟨plans, ht⟩ := Store.setPlanEnabled_ok h
    rw [ht] at ht'
    exact comesFrom_same ht' hq rfl
  | pausePlanForScope tenant id reason =>
    obtain ⟨plans, ht⟩ := Store.pausePlanForScope_ok h
    refine endWaiting_comesFrom id (by rw [ht]) ?_ (fun _ => rfl) ht' hq
    decide
  | advancePlan tenant id scheduledAt nextRun updated =>
    cases h
    exact comesFrom_same ht' hq rfl
  | createBatch batch =>
    rw [Store.createBatch_ok h] at ht'
    exact comesFrom_same ht' hq rfl
  | addTask task now =>
    rw [Store.addTask_ok h] at ht'
    obtain ht' | ht' := List.mem_append.mp ht'
    · exact comesFrom_same ht' hq rfl
    · exact .inl ⟨task, now, rfl, List.mem_singleton.mp ht'⟩
  | claimNextTask tenant workerId token now expires =>
    obtain ⟨⟨after, task⟩, hmade, rfl⟩ := ok_of_map h
    obtain ⟨t, -, -, -, -, ht⟩ := Store.claimNextTask_ok hmade
    rw [ht] at ht'
    refine comesFrom_update ht' hq (fun t => ⟨rfl, rfl⟩) ?_ fun _ _ _ _ => rfl
    intro t _ _ hst
    cases hst
  -- this and the closings may put a task back: then it was the one they name
  | setTaskStatus tenant id token status =>
    rw [Store.setTaskStatus_ok h] at ht'
    refine comesFrom_update ht' hq (fun t => ⟨rfl, rfl⟩) ?_ fun _ _ _ _ => rfl
    intro t _ hp hst
    obtain ⟨hten, hid, hg⟩ := Store.taskIn_iff.mp hp
    refine .inl ?_
    have htok : (t.leaseToken == token) = true := (Bool.and_eq_true_iff.mp hg).1
    have hst : status = .queued := hst
    simp only [requeues, hst, beq_self_eq_true, Bool.true_and]
    exact Store.taskIn_iff.mpr ⟨hten, hid, htok⟩
  | setTaskScopeValidation tenant id token value =>
    cases h
    refine comesFrom_update ht' hq (fun t => ⟨rfl, rfl⟩) ?_ fun _ _ _ _ => rfl
    intro t _ _ hst
    exact .inr ⟨hst, rfl⟩
  | heartbeatTask tenant id token now expires =>
    cases h
    refine comesFrom_update ht' hq (fun t => ⟨rfl, rfl⟩) ?_ fun _ _ _ _ => rfl
    intro t _ _ hst
    exact .inr ⟨hst, rfl⟩
  | completeTask tenant id token snapshotId now =>
    refine comesFrom_close h (fun t => ⟨rfl, rfl⟩) (fun _ => rfl) ?_ ht' hq
    intro t _ hst
    cases hst
  | retryTask tenant id token code availableAt now =>
    refine comesFrom_close h (fun t => ⟨rfl, rfl⟩) (fun _ => rfl) ?_ ht' hq
    intro t hp _
    exact hp
  | finishTaskFailure tenant id token status code now =>
    refine comesFrom_close h (fun t => ⟨rfl, rfl⟩) (fun _ => rfl) ?_ ht' hq
    intro t hp hst
    have hst : status = .queued := hst
    simp only [requeues, hst, beq_self_eq_true, Bool.true_and]
    exact hp
  | cancelTask tenant id now =>
    obtain ⟨⟨after, task⟩, hmade, rfl⟩ := ok_of_map h
    obtain ⟨t, -, -, -, hs⟩ := Store.cancelTask_ok hmade
    obtain ⟨-, hs⟩ | ⟨-, hs⟩ := hs
    · rw [hs, Store.cancelTaskJob_tables] at ht'
      refine comesFrom_update ht' hq (fun t => ⟨rfl, rfl⟩) ?_ fun _ _ _ _ => rfl
      intro t _ _ hst
      cases hst
    · rw [hs] at ht'
      exact comesFrom_same ht' hq rfl
  | requeueExpiredTasks tenant now => exact comesFrom_requeueExpired h ht' hq
  | resetTaskForManualRetry tenant id now =>
    refine comesFrom_close h (fun t => ⟨rfl, rfl⟩) (fun _ => rfl) ?_ ht' hq
    intro t hp _
    exact hp
  | createBackupJob job =>
    rw [Store.createBackupJob_ok h] at ht'
    exact comesFrom_same ht' hq rfl
  | startBackupJob tenant id started =>
    rw [(Store.moveJob_ok h).2] at ht'
    exact comesFrom_same ht' hq rfl
  | failBackupJob tenant id code finished =>
    rw [(Store.moveJob_ok h).2] at ht'
    exact comesFrom_same ht' hq rfl
  | commitSnapshot snapshot =>
    rw [(Store.commitSnapshot_ok h).2] at ht'
    exact comesFrom_same ht' hq rfl

/-! ## What waits is current -/

/-- No waiting task is of an older scope or of a paused plan. -/
def QueueCurrent (w : Scoped) : Prop := ∀ t ∈ w.store.tasks, t.status = .queued → w.current t = true

theorem current_iff {w : Scoped} {t : TaskRow} :
    w.current t = true ↔ w.paused t.tenantUid t.planId = false ∧
      ∀ scopes, w.scopes t.tenantUid t.planId = some scopes → (t.deployId, t.scope) ∈ scopes := by
  unfold Scoped.current
  rw [Bool.and_eq_true, Bool.not_eq_true', Option.all_eq_true]
  simp

/-- A task that was current is so after the operation, unless the operation supersedes or
pauses it. -/
theorem current_after {w : Scoped} {s' : Store} {op : Op} {t : TaskRow} (hcur : w.current t = true)
    (hends : ends op t = false) (hst : t.status = .queued) (ht : t ∈ w.store.tasks)
    (hkeep : KeepsCurrent w op) :
    Scoped.current ⟨s', w.scopesAfter op, w.pausedAfter op⟩ t = true := by
  obtain ⟨hpaused, hscopes⟩ := current_iff.mp hcur
  refine current_iff.mpr ⟨?_, ?_⟩
  · show w.pausedAfter op t.tenantUid t.planId = false
    unfold Scoped.pausedAfter
    split
    · split
      · rfl
      · exact hpaused
    · split
      · rfl
      · exact hpaused
    · next tenant id reason =>
      rw [if_neg, hpaused]
      intro ⟨hten, hid⟩
      have hwait : waitingTask tenant id t = true := waitingTask_iff.mpr ⟨hten, hid, hst⟩
      rw [show ends (.pausePlanForScope tenant id reason) t = waitingTask tenant id t from rfl,
        hwait] at hends
      cases hends
    · exact hpaused
  · show ∀ scopes, w.scopesAfter op t.tenantUid t.planId = some scopes → (t.deployId, t.scope) ∈ scopes
    intro scopes
    unfold Scoped.scopesAfter
    split
    · next tenant plan cancelQueued =>
      by_cases hc : t.tenantUid = tenant ∧ t.planId = plan.id ∧ changesScopes w.store tenant plan = true
      · rw [if_pos hc]
        intro hs
        cases hs
        have hwait : waitingTask tenant plan.id t = true := waitingTask_iff.mpr ⟨hc.1, hc.2.1, hst⟩
        cases cancelQueued with
        | true =>
          -- a flagged update has ended it
          rw [show ends (.updatePlan tenant plan true) t = waitingTask tenant plan.id t from rfl,
            hwait] at hends
          cases hends
        | false => exact hkeep.2 hc.2.2 t ht hwait
      · rw [if_neg hc]
        exact hscopes scopes
    · exact hscopes scopes

theorem current_requeued {w : Scoped} {s' : Store} {op : Op} {t : TaskRow} (hcur : w.current t = true)
    (h : (∃ task now, op = .addTask task now) ∨ requeues op t = true) :
    Scoped.current ⟨s', w.scopesAfter op, w.pausedAfter op⟩ t = true := by
  have hsame : w.scopesAfter op = w.scopes ∧ w.pausedAfter op = w.paused := by
    obtain ⟨task, now, rfl⟩ | hreq := h
    · exact ⟨rfl, rfl⟩
    · cases op <;> first | exact ⟨rfl, rfl⟩ | cases hreq
  rw [hsame.1, hsame.2]
  exact hcur

theorem queueCurrent_write {w : Scoped} {op : Op} (h : QueueCurrent w) (hkeep : KeepsCurrent w op) :
    QueueCurrent (w.write op) := by
  unfold Scoped.write
  cases hs : op.apply w.store with
  | error e => exact h
  | ok s' =>
    intro t' ht' hq
    obtain ⟨task, now, rfl, rfl⟩ | ⟨t, ht, hsame, hreq | ⟨hst, hends⟩⟩ := comesFrom_apply hs ht' hq
    · exact current_requeued (hkeep.2 hq) (.inl ⟨task, now, rfl⟩)
    · rw [hsame.current]
      exact current_requeued (hkeep.1 t ht hreq) (.inr hreq)
    · rw [hsame.current]
      exact current_after (h t ht hst) hends hst ht hkeep

/-- A statement that brings no superseded or paused work back keeps the queue current. -/
theorem queueCurrent_step {w w' : Scoped} {e : Event} (h : QueueCurrent w) (hkeep : w.KeepsCurrent e)
    (hs : w.step e = some w') : QueueCurrent w' := by
  cases e with
  | call c =>
    cases c with
    | write op basis =>
      cases hs
      exact queueCurrent_write h hkeep
    | deletePlan tenant id =>
      cases hs
      have htasks : (Stmt.commit w.store (w.store.deletePlan tenant id)).2.tasks = w.store.tasks := by
        unfold Store.deletePlan
        split <;> rfl
      intro t ht
      exact h t (htasks ▸ ht)
    | _ => cases hs; exact h
  | library applications instances =>
    cases hs
    exact h

/-- In every run in which no statement brings superseded or paused work into the queue,
what is claimed is neither: its plan is not paused, and its scope is among those of the
last update that changed them. -/
theorem superseded_never_claimed {w : Scoped}
    (h : Reach Scoped.step Scoped.KeepsCurrent (· = Scoped.empty) w) {tenant workerId token : String}
    {now expires : Time} {s' : Store} {task : BackupTask}
    (hclaim : w.store.claimNextTask tenant workerId token now expires = .ok (s', task)) :
    ∃ t ∈ w.store.tasks, t.status = .queued ∧ task = Store.claimedTask now expires t ∧
      w.paused t.tenantUid t.planId = false ∧
      ∀ scopes, w.scopes t.tenantUid t.planId = some scopes → (t.deployId, t.scope) ∈ scopes := by
  have hcur : QueueCurrent w := by
    refine h.invariant (I := QueueCurrent) ?_ ?_
    · intro w hw t ht
      rw [hw] at ht
      cases ht
    · intro w e w' hI hkeep hs
      exact queueCurrent_step hI hkeep hs
  obtain ⟨t, ht, -, hst, htask, -⟩ := Store.claimNextTask_ok hclaim
  exact ⟨t, ht, hst, htask, current_iff.mp (hcur t ht hst)⟩

/-! ## A plan whose scope is changed, or which is paused -/

def notesOnly : BackupScope := ⟨"CUSTOM", ["notes"], [], 2, "1 个目录，0 个文件"⟩

/-- The plan of `batchA`, with a scope for its one target. -/
def planA (scope : BackupScope) : BackupPlan where
  id := "plan-a"
  tenantUid := "tenant-a"
  name := "Plan"
  targetKind := "EXPLICIT"
  targets := [⟨"deploy-a", false, scope⟩]
  sharedRiskAccepted := false
  scheduleType := "MANUAL"
  executionTime := "02:00"
  cronExpression := ""
  timezone := "UTC"
  enabled := false
  catchUp := true
  maxCatchUpSeconds := 3600
  retry := ⟨1, 60⟩
  retention := ⟨1, 0, 0, 0, 24⟩
  createdBySubject := "subject-a"
  createdAt := 0
  updatedAt := 0
  lastScheduledAt := none
  nextRunAt := none
  pauseReason := none

def gone : PlanPauseReason := ⟨"BACKUP_SCOPE_PATH_MISSING", "deploy-a", "notes", "directory", 0, 1⟩

def writes (ops : List Op) : List Event := ops.map fun op => .call (.write op none)

def Scoped.after (events : List Event) : Scoped := final Scoped.step Scoped.empty events

/-- A plan, and one task of it enqueued with a full scope. -/
def enqueued : List Op :=
  [.createPlan (planA .full), .createBatch batchA, .createBackupJob jobA, .addTask taskA 0]

/-- That task is claimed and its backup fails. -/
def failedOnce : List Op :=
  enqueued ++ [.claimNextTask "tenant-a" "worker-1" "lease-1" 0 90000000000,
    .startBackupJob "tenant-a" "backup-a" 0, .failBackupJob "tenant-a" "backup-a" "BACKUP_FAILED" 0]

/-- The scope is changed while the task waits, and a task of the new scope is enqueued. -/
def rescoped : List Op :=
  enqueued ++ [.updatePlan "tenant-a" (planA notesOnly) true,
    .createBatch { batchA with
      id := "batch-b"
      scheduledAt := 60 * second },
    .createBackupJob { jobA with
      id := "backup-b" },
    .addTask { taskA with
      id := "task-b"
      batchId := "batch-b"
      backupJobId := "backup-b"
      scope := notesOnly } 0]

/-- No waiting task is brought back, and each update ends the waiting ones. -/
def checkCurrent (w : Scoped) : Event → Bool
  | .call (.write op _) =>
    (w.store.tasks.all fun t => !requeues op t) &&
      match op with
      | .addTask task _ => w.current (taskRow task)
      | .updatePlan _ _ cancelQueued => cancelQueued
      | _ => true
  | _ => true

theorem keepsCurrent_of_check (w : Scoped) (e : Event) (h : checkCurrent w e = true) :
    w.KeepsCurrent e := by
  cases e with
  | library applications instances => trivial
  | call c =>
    cases c with
    | write op basis =>
      obtain ⟨hreq, hop⟩ := Bool.and_eq_true_iff.mp h
      refine ⟨fun t ht hr => ?_, ?_⟩
      · have hno := List.all_eq_true.mp hreq t ht
        rw [hr] at hno
        cases hno
      · cases op with
        | addTask task now => exact fun _ => hop
        | updatePlan tenant plan cancelQueued =>
          have hc : cancelQueued = true := hop
          subst hc
          trivial
        | _ => trivial
    | _ => trivial

/-- After the change it is the task of the new scope that is claimed. -/
theorem superseded_never_claimed_rescoped :
    ∃ s' task, (Scoped.after (writes rescoped)).store.claimNextTask "tenant-a" "worker-1" "lease-1" 0
        90000000000 = .ok (s', task) ∧ task.scope = notesOnly ∧
      ∃ t ∈ (Scoped.after (writes rescoped)).store.tasks, t.status = .queued ∧
        task = Store.claimedTask 0 90000000000 t ∧
        (Scoped.after (writes rescoped)).paused t.tenantUid t.planId = false ∧
        ∀ scopes, (Scoped.after (writes rescoped)).scopes t.tenantUid t.planId = some scopes →
          (t.deployId, t.scope) ∈ scopes := by
  have hrun : (runActions (checked checkCurrent Scoped.step) Scoped.empty
      (writes rescoped)).isSome = true := by decide +kernel
  have hscope : ((Scoped.after (writes rescoped)).store.claimNextTask "tenant-a" "worker-1" "lease-1" 0
      90000000000).toOption.map (fun made => made.2.scope) = some notesOnly := by decide +kernel
  cases hc : (Scoped.after (writes rescoped)).store.claimNextTask "tenant-a" "worker-1" "lease-1" 0
      90000000000 with
  | error e => rw [hc] at hscope; cases hscope
  | ok made =>
    obtain ⟨s', task⟩ := made
    rw [hc] at hscope
    exact ⟨s', task, rfl, Option.some.inj hscope,
      superseded_never_claimed (reach_final keepsCurrent_of_check _ rfl hrun) hc⟩

/-- A failed task of the old scope goes back into the queue after the change, and is claimed
there. -/
theorem retry_claims_superseded : ¬∀ w, Reach Scoped.step (fun _ _ => True) (· = Scoped.empty) w →
    ∀ tenant workerId token now expires s' task,
      w.store.claimNextTask tenant workerId token now expires = .ok (s', task) →
      ∃ t ∈ w.store.tasks, t.status = .queued ∧ task = Store.claimedTask now expires t ∧
        w.paused t.tenantUid t.planId = false ∧
        ∀ scopes, w.scopes t.tenantUid t.planId = some scopes → (t.deployId, t.scope) ∈ scopes := by
  intro h
  have hall : ∀ ops, (runActions (checked (fun _ _ => true) Scoped.step) Scoped.empty
      (writes ops)).isSome = true →
      ((Scoped.after (writes ops)).store.claimNextTask "tenant-a" "worker-2" "lease-2" 0
        90000000000).toOption.isSome = true →
      ((Scoped.after (writes ops)).store.tasks.any (Scoped.after (writes ops)).current) = true := by
    intro ops hrun hsome
    have hreach : Reach Scoped.step (fun _ _ => True) (· = Scoped.empty) (Scoped.after (writes ops)) :=
      reach_final (fun _ _ _ => trivial) _ rfl hrun
    cases hc : (Scoped.after (writes ops)).store.claimNextTask "tenant-a" "worker-2" "lease-2" 0
        90000000000 with
    | error e => rw [hc] at hsome; cases hsome
    | ok made =>
      obtain ⟨t, ht, -, -, hcur⟩ := h _ hreach _ _ _ _ _ made.1 made.2 hc
      exact List.any_eq_true.mpr ⟨t, ht, current_iff.mpr hcur⟩
  have hrescoped := hall (failedOnce ++ [.updatePlan "tenant-a" (planA notesOnly) true,
    .retryTask "tenant-a" "task-a" "lease-1" "BACKUP_FAILED" 0 0]) (by decide +kernel) (by decide +kernel)
  revert hrescoped
  decide +kernel

/-- The same where the plan is paused in between. -/
example :
    let w := Scoped.after (writes (failedOnce ++ [.pausePlanForScope "tenant-a" "plan-a" gone,
      .retryTask "tenant-a" "task-a" "lease-1" "BACKUP_FAILED" 0 0]))
    w.paused "tenant-a" "plan-a" = true ∧
      (w.store.claimNextTask "tenant-a" "worker-2" "lease-2" 0 90000000000).toOption.isSome = true := by
  decide +kernel

end AppBackup.Plans
