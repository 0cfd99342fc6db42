import AppBackup.Lib.Transition
import AppBackup.Persistence.Frames
import AppBackup.Queue.Expansion
import AppBackup.Queue.Outline
import AppBackup.Queue.Rows
import Mathlib.Data.List.Pairwise

/- Which tasks the batch of a plan has, over every run of the process: calls of `RunPlan` next
   to each other, each stopped at any of its statements or run to its end, and between any two
   statements those of every other caller of the database and synchronisations of the library.

   What is proved: the tasks of a batch that a call returned are those the call that made it
   added. So the batch is the plan's expansion when, and only when, the call that made it had
   found an instance of every target and was not cut short before the last of them; a later
   call for the same occurrence adds nothing (`run_plan_expanded_iff`).

   Assumed of the other callers, step by step: `StartManual` adds tasks to its own batch only,
   which names itself as its plan; and who skips a task gives a reason. `RunPlan` is called with
   plans whose id is not one of these. -/
namespace AppBackup.Queue
open Persistence Persistence.Store Table Threads Threads.Thread Threads.Journal Transition

/-! ## Runs -/

/-- What others do to the database: their statements, or a sync of the application library. -/
inductive Elsewhere where
  | statement (c : Stmt)
  | library (applications : List ApplicationRow) (instances : List InstanceRow)

def Elsewhere.apply (s : Store) : Elsewhere → Store
  | statement c => (Stmt.exec c s).2
  | library applications instances => { s with applications := applications, instances := instances }

/-- The database, and every call of `RunPlan` there was. -/
abbrev PlanRuns : Type := Journal Store PlanRun Stmt Stmt.Answer (Except GoError BackupBatch) Note

abbrev PlanRuns.step (w : PlanRuns) (m : Journal.Move PlanRun Elsewhere) : Option PlanRuns :=
  Journal.step Stmt.exec note PlanRun.program Elsewhere.apply w m

/-- A skipped task gets a reason. -/
def Reasons : Op → Prop
  | .addTask task _ => task.status = .skipped → task.errorCode ≠ ""
  | .setTaskStatus _ _ _ status => status ≠ .skipped
  | .finishTaskFailure _ _ _ status code _ => status = .skipped → code ≠ ""
  | _ => True

/-- The batch is one `StartManual` makes. -/
def manual (b : BatchRow) : Prop := b.planId = "manual-" ++ b.id

/-- The task is not added to the batch of a plan. -/
def Apart (s : Store) : Op → Prop
  | .addTask task _ => ∀ b ∈ s.batches, b.id = task.batchId → manual b
  | _ => True

/-- What the callers keep to. -/
def Regular (w : PlanRuns) : Journal.Move PlanRun Elsewhere → Prop
  | .start q => ∀ id, q.plan.id ≠ "manual-" ++ id
  | .outside (.statement (.write op _)) => Reasons op ∧ Apart w.state op
  | _ => True

/-- Before the first task. -/
def PlanRuns.Fresh (w : PlanRuns) : Prop := w.state.tasks = [] ∧ w.sessions = []

/-! ## What statements leave -/

/-- Every skipped task has a reason. -/
def Reasoned (tasks : List TaskRow) : Prop := ∀ t ∈ tasks, t.status = .skipped → t.errorCode ≠ ""

theorem reasoned_updateWhere {tasks : List TaskRow} {p : TaskRow → Bool} {f : TaskRow → TaskRow}
    (hf : ∀ t, (t.status = .skipped → t.errorCode ≠ "") → (f t).status = .skipped → (f t).errorCode ≠ "")
    (h : Reasoned tasks) : Reasoned (updateWhere p f tasks) := by
  intro t' ht'
  obtain ⟨t, ht, rfl⟩ := mem_updateWhere.mp ht'
  split
  · exact hf t (h t ht)
  · exact h t ht

theorem reasoned_closeTask {s s' : Store} {tenant id : String} {guard : TaskRow → Bool} {missing : StoreError}
    {m : TaskMove} {now : Time} (hm : ∀ t, (m.set t).status = .skipped → (m.set t).errorCode ≠ "")
    (h : s.closeTask tenant id guard missing m now = .ok s') (hs : Reasoned s.tasks) : Reasoned s'.tasks := by
  obtain ⟨t, -, -, htables⟩ := closeTask_ok h
  rw [htables]
  exact reasoned_updateWhere (fun t _ => hm t) hs

theorem reasoned_requeue {s s' : Store} {tenant : String} {now : Time}
    (h : s.requeueExpiredTasks tenant now = .ok s') (hs : Reasoned s.tasks) : Reasoned s'.tasks := by
  refine foldlM_invariant (P := fun s : Store => Reasoned s.tasks) h hs ?_
  intro s₁ s₂ item _ hs₁ hone
  rw [runMove_ok hone]
  refine reasoned_updateWhere (fun t _ hskipped => ?_) hs₁
  cases hskipped

/-- An operation that skips with a reason leaves a reason on every skipped task. -/
theorem reasoned_apply {s s' : Store} {op : Op} (h : op.apply s = .ok s') (hop : Reasons op)
    (hs : Reasoned s.tasks) : Reasoned s'.tasks := by
  cases op with
  | createPlan plan =>
    obtain ⟨targets, ht⟩ := createPlan_ok h
    rw [ht]
    exact hs
  | updatePlan tenant plan cancelQueued =>
    obtain ⟨targets, ht⟩ := updatePlan_ok h
    rw [ht]
    cases cancelQueued with
    | false => exact hs
    | true => exact reasoned_updateWhere (fun t _ hskipped => nomatch hskipped) hs
  | setPlanEnabled =>
    obtain ⟨plans, ht⟩ := setPlanEnabled_ok h
    rw [ht]
    exact hs
  | pausePlanForScope tenant id reason =>
    obtain ⟨plans, ht⟩ := pausePlanForScope_ok h
    rw [ht]
    refine reasoned_updateWhere (fun t _ _ => ?_) hs
    show "PLAN_PAUSED_SCOPE_INVALID" ≠ ""
    decide
  | advancePlan =>
    cases h
    exact hs
  | createBatch batch =>
    rw [createBatch_ok h]
    exact hs
  | addTask task now =>
    rw [addTask_ok h]
    intro t ht
    obtain ht | ht := List.mem_append.mp ht
    · exact hs t ht
    · obtain rfl := List.mem_singleton.mp ht
      exact hop
  | claimNextTask tenant workerId token now expires =>
    obtain ⟨⟨after, task⟩, hmade, rfl⟩ := ok_of_map h
    obtain ⟨t, -, -, -, -, ht⟩ := claimNextTask_ok hmade
    rw [ht]
    exact reasoned_updateWhere (fun t _ hskipped => nomatch hskipped) hs
  | setTaskStatus tenant id token status =>
    rw [setTaskStatus_ok h]
    exact reasoned_updateWhere (fun t _ hskipped => absurd hskipped hop) hs
  | setTaskScopeValidation =>
    cases h
    exact reasoned_updateWhere (fun t ht => ht) hs
  | heartbeatTask =>
    cases h
    exact reasoned_updateWhere (fun t ht => ht) hs
  | completeTask =>
    refine reasoned_closeTask ?_ h hs
    intro t hskipped
    cases hskipped
  | retryTask =>
    refine reasoned_closeTask ?_ h hs
    intro t hskipped
    cases hskipped
  | finishTaskFailure =>
    refine reasoned_closeTask ?_ h hs
    intro t
    exact hop
  | cancelTask tenant id now =>
    obtain ⟨⟨after, task⟩, hmade, rfl⟩ := ok_of_map h
    obtain ⟨t, -, -, -, ⟨-, rfl⟩ | ⟨-, rfl⟩⟩ := cancelTask_ok hmade
    · rw [cancelTaskJob_tables]
      exact reasoned_updateWhere (fun t _ hskipped => nomatch hskipped) hs
    · exact hs
  | requeueExpiredTasks => exact reasoned_requeue h hs
  | resetTaskForManualRetry =>
    refine reasoned_closeTask ?_ h hs
    intro t hskipped
    cases hskipped
  | createBackupJob job =>
    rw [createBackupJob_ok h]
    exact hs
  | startBackupJob =>
    rw [(moveJob_ok h).2]
    exact hs
  | failBackupJob =>
    rw [(moveJob_ok h).2]
    exact hs
  | commitSnapshot =>
    rw [(commitSnapshot_ok h).2]
    exact hs

/-- Only `AddTask` adds a task. -/
def addsTask : Op → Bool
  | .addTask _ _ => true
  | _ => false

theorem taskKeys_apply {s s' : Store} {op : Op} (h : op.apply s = .ok s') (hop : addsTask op = false) :
    s'.tasks.map TaskRow.keys = s.tasks.map TaskRow.keys := by
  by_cases hrow : addsRow op = false
  · exact (sameKeys_apply op h hrow).tasks
  · cases op with
    | createBackupJob job => rw [createBackupJob_ok h]
    | addTask task now => cases hop
    | _ => exact absurd rfl hrow

/-- The columns of a batch that a listing is read by. -/
def planKeys (s : Store) : List (String × String × String) := s.batches.map fun b => (b.id, b.tenantUid, b.planId)

theorem planKeys_eq (s : Store) : planKeys s = (s.batches.map BatchRow.keys).map fun k => (k.1, k.2.1, k.2.2.1) := by
  rw [List.map_map]
  rfl

theorem planKeys_apply {s s' : Store} {op : Op} (h : op.apply s = .ok s') : planKeys s ⊆ planKeys s' := by
  rw [planKeys_eq, planKeys_eq, (Op.apply_frame h).2]
  cases op with
  | createBatch batch =>
    rw [Op.batchKeysAfter, List.map_append]
    exact List.subset_append_left _ _
  | _ => exact List.Subset.refl _

/-- A batch that was created was not there, and is now. -/
theorem planKeys_createBatch {s s' : Store} {batch : BackupBatch} (h : s.createBatch batch = .ok s') :
    (batch.id, batch.tenantUid, batch.planId) ∈ planKeys s' ∧ batch.id ∉ (planKeys s).map (·.1) := by
  have hbatches : s'.batches = s.batches ++ [batchRow batch] := congrArg Tables.batches (createBatch_ok h)
  refine ⟨?_, ?_⟩
  · unfold planKeys
    rw [hbatches, List.map_append]
    exact List.mem_append_right _ (List.mem_singleton.mpr rfl)
  · intro hold
    have hpk := s'.batches_pk
    rw [hbatches, List.map_append] at hpk
    have hid : batch.id ∈ s.batches.map (·.id) := by
      simpa [planKeys] using hold
    exact List.disjoint_of_nodup_append hpk hid (List.mem_singleton.mpr rfl)

/-! ## The rows of a run -/

/-- The tasks and batches of the database, accounted for by the notes of the calls: a batch
that was made or listed is there; a task is one of `StartManual`'s, or was added by the call
that made its batch; and what was added is there. -/
structure Accounted (s : Store) (log : List (PlanRun × List Note)) : Prop where
  reasoned : Reasoned s.tasks
  plans : ∀ r ∈ log, ∀ id, r.1.plan.id ≠ "manual-" ++ id
  listed : ∀ r ∈ log, ∀ batches, Note.listed batches ∈ r.2 → batches ⊆ planKeys s
  made : ∀ r ∈ log, Note.made ∈ r.2 → (r.1.batchId, r.1.tenant, r.1.plan.id) ∈ planKeys s
  distinct : log.Pairwise fun r r' => Note.made ∈ r.2 → Note.made ∈ r'.2 → r.1.batchId ≠ r'.1.batchId
  tasks : ∀ t ∈ s.tasks, (∃ tenant, (t.batchId, tenant, "manual-" ++ t.batchId) ∈ planKeys s) ∨
    ∃ r ∈ log, Note.made ∈ r.2 ∧ r.1.batchId = t.batchId ∧ r.1.tenant = t.tenantUid ∧
    t.deployId ∈ Note.adds r.2
  added : ∀ r ∈ log, ∀ d ∈ Note.adds r.2,
    ∃ t ∈ s.tasks, t.batchId = r.1.batchId ∧ t.tenantUid = r.1.tenant ∧ t.deployId = d

namespace Accounted
variable {s s' : Store} {log before after : List (PlanRun × List Note)} {q : PlanRun} {notes more : List Note}

theorem start (h : Accounted s log) (hq : ∀ id, q.plan.id ≠ "manual-" ++ id) : Accounted s (log ++ [(q, [])]) := by
  have hmem : ∀ r ∈ log ++ [(q, [])], r ∈ log ∨ r = (q, []) := fun r hr =>
    (List.mem_append.mp hr).imp_right List.mem_singleton.mp
  refine ⟨h.reasoned, ?_, ?_, ?_, ?_, ?_, ?_⟩
  · intro r hr
    obtain hr | rfl := hmem r hr
    · exact h.plans r hr
    · exact hq
  · intro r hr batches hlisted
    obtain hr | rfl := hmem r hr
    · exact h.listed r hr batches hlisted
    · cases hlisted
  · intro r hr hmade
    obtain hr | rfl := hmem r hr
    · exact h.made r hr hmade
    · cases hmade
  · refine List.pairwise_append.mpr ⟨h.distinct, List.pairwise_singleton _ _, ?_⟩
    intro r _ r' hr' _ hmade'
    obtain rfl := List.mem_singleton.mp hr'
    cases hmade'
  · intro t ht
    refine (h.tasks t ht).imp_right ?_
    rintro ⟨r, hr, hrest⟩
    exact ⟨r, List.mem_append_left _ hr, hrest⟩
  · intro r hr d hd
    obtain hr | rfl := hmem r hr
    · exact h.added r hr d hd
    · cases hd

/-- What others do: batches stay, and the tasks they add are of `StartManual`. -/
theorem elsewhere (h : Accounted s log) (hkeys : planKeys s ⊆ planKeys s') (hreason : Reasoned s'.tasks)
    (hnew : ∀ t' ∈ s'.tasks, (∃ t ∈ s.tasks, t.keys = t'.keys) ∨
      ∃ tenant, (t'.batchId, tenant, "manual-" ++ t'.batchId) ∈ planKeys s')
    (hold : ∀ t ∈ s.tasks, ∃ t' ∈ s'.tasks, t'.keys = t.keys) : Accounted s' log := by
  refine ⟨hreason, h.plans, ?_, ?_, h.distinct, ?_, ?_⟩
  · intro r hr batches hlisted
    exact fun key hkey => hkeys (h.listed r hr batches hlisted hkey)
  · intro r hr hmade
    exact hkeys (h.made r hr hmade)
  · intro t' ht'
    obtain ⟨t, ht, hk⟩ | hmanual := hnew t' ht'
    · obtain ⟨-, hten, hbatch, -, -, hdeploy⟩ := TaskRow.keys_eq.mp hk
      rw [← hten, ← hbatch, ← hdeploy]
      refine (h.tasks t ht).imp_left ?_
      rintro ⟨tenant, hmem⟩
      exact ⟨tenant, hkeys hmem⟩
    · exact .inl hmanual
  · intro r hr d hd
    obtain ⟨t, ht, hbatch, hten, hdeploy⟩ := h.added r hr d hd
    obtain ⟨t', ht', hk⟩ := hold t ht
    obtain ⟨-, hten', hbatch', -, -, hdeploy'⟩ := TaskRow.keys_eq.mp hk
    exact ⟨t', ht', hbatch'.trans hbatch, hten'.trans hten, hdeploy'.trans hdeploy⟩

/-- A statement of a call, with what it notes. -/
theorem next (h : Accounted s (before ++ (q, notes) :: after)) (hkeys : planKeys s ⊆ planKeys s')
    (hreason : Reasoned s'.tasks) (hlisted : ∀ batches, Note.listed batches ∈ more → batches ⊆ planKeys s')
    (hmade : Note.made ∈ more →
      (q.batchId, q.tenant, q.plan.id) ∈ planKeys s' ∧ q.batchId ∉ (planKeys s).map (·.1))
    (hnew : ∀ t' ∈ s'.tasks, (∃ t ∈ s.tasks, t.keys = t'.keys) ∨
      (Note.made ∈ notes ∧ q.batchId = t'.batchId ∧ q.tenant = t'.tenantUid ∧ t'.deployId ∈ Note.adds more))
    (hold : ∀ t ∈ s.tasks, ∃ t' ∈ s'.tasks, t'.keys = t.keys)
    (hadds : ∀ d ∈ Note.adds more,
      ∃ t' ∈ s'.tasks, t'.batchId = q.batchId ∧ t'.tenantUid = q.tenant ∧ t'.deployId = d) :
    Accounted s' (before ++ (q, notes ++ more) :: after) := by
  -- a call is the one that made the statement, or was there before as it is
  have hmem : ∀ r ∈ before ++ (q, notes ++ more) :: after,
      r = (q, notes ++ more) ∨ ((r ∈ before ∨ r ∈ after) ∧ r ∈ before ++ (q, notes) :: after) := by
    intro r hr
    obtain hr | hr := List.mem_append.mp hr
    · exact .inr ⟨.inl hr, List.mem_append_left _ hr⟩
    · obtain rfl | hr := List.mem_cons.mp hr
      · exact .inl rfl
      · exact .inr ⟨.inr hr, List.mem_append_right _ (List.mem_cons_of_mem _ hr)⟩
  have hself : (q, notes) ∈ before ++ (q, notes) :: after := List.mem_append_right _ (List.mem_cons_self ..)
  have hself' : (q, notes ++ more) ∈ before ++ (q, notes ++ more) :: after :=
    List.mem_append_right _ (List.mem_cons_self ..)
  -- a batch made before is not the one that is made now
  have hother : ∀ r ∈ before ++ (q, notes) :: after, Note.made ∈ r.2 → Note.made ∈ more →
      r.1.batchId ≠ q.batchId := by
    intro r hr hrmade hmore he
    apply (hmade hmore).2
    rw [← he]
    exact List.mem_map_of_mem (h.made r hr hrmade)
  refine ⟨hreason, ?_, ?_, ?_, ?_, ?_, ?_⟩
  · intro r hr
    obtain rfl | ⟨-, hr⟩ := hmem r hr
    · exact h.plans (q, notes) hself
    · exact h.plans r hr
  · intro r hr batches hb
    obtain rfl | ⟨-, hr⟩ := hmem r hr
    · obtain hb | hb := List.mem_append.mp hb
      · exact fun key hkey => hkeys (h.listed (q, notes) hself batches hb hkey)
      · exact hlisted batches hb
    · exact fun key hkey => hkeys (h.listed r hr batches hb hkey)
  · intro r hr hrmade
    obtain rfl | ⟨-, hr⟩ := hmem r hr
    · obtain hrmade | hrmade := List.mem_append.mp hrmade
      · exact hkeys (h.made (q, notes) hself hrmade)
      · exact (hmade hrmade).1
    · exact hkeys (h.made r hr hrmade)
  · obtain ⟨hbefore, hafter, hacross⟩ := List.pairwise_append.mp h.distinct
    obtain ⟨hq, hafter⟩ := List.pairwise_cons.mp hafter
    refine List.pairwise_append.mpr ⟨hbefore, List.pairwise_cons.mpr ⟨?_, hafter⟩, ?_⟩
    · intro r hr hqmade hrmade
      obtain hqmade | hqmade := List.mem_append.mp hqmade
      · exact hq r hr hqmade hrmade
      · exact (hother r (List.mem_append_right _ (List.mem_cons_of_mem _ hr)) hrmade hqmade).symm
    · intro r hr r' hr' hrmade hrmade'
      obtain rfl | hr' := List.mem_cons.mp hr'
      · obtain hqmade | hqmade := List.mem_append.mp hrmade'
        · exact hacross r hr (q, notes) (List.mem_cons_self ..) hrmade hqmade
        · exact hother r (List.mem_append_left _ hr) hrmade hqmade
      · exact hacross r hr r' (List.mem_cons_of_mem _ hr') hrmade hrmade'
  · intro t' ht'
    obtain ⟨t, ht, hk⟩ | ⟨hqmade, hbatch, hten, hdeploy⟩ := hnew t' ht'
    · obtain ⟨-, hten, hbatch, -, -, hdeploy⟩ := TaskRow.keys_eq.mp hk
      rw [← hten, ← hbatch, ← hdeploy]
      obtain ⟨tenant, hmanual⟩ | ⟨r, hr, hrmade, hrest⟩ := h.tasks t ht
      · exact .inl ⟨tenant, hkeys hmanual⟩
      · refine .inr ?_
        obtain hr | hr := List.mem_append.mp hr
        · exact ⟨r, List.mem_append_left _ hr, hrmade, hrest⟩
        · obtain rfl | hr := List.mem_cons.mp hr
          · refine ⟨_, hself', List.mem_append_left _ hrmade, hrest.1, hrest.2.1, ?_⟩
            rw [Note.adds_append]
            exact List.mem_append_left _ hrest.2.2
          · exact ⟨r, List.mem_append_right _ (List.mem_cons_of_mem _ hr), hrmade, hrest⟩
    · refine .inr ⟨_, hself', List.mem_append_left _ hqmade, hbatch, hten, ?_⟩
      rw [Note.adds_append]
      exact List.mem_append_right _ hdeploy
  · intro r hr d hd
    have hkept : ∀ r ∈ before ++ (q, notes) :: after, d ∈ Note.adds r.2 →
        ∃ t' ∈ s'.tasks, t'.batchId = r.1.batchId ∧ t'.tenantUid = r.1.tenant ∧ t'.deployId = d := by
      intro r hr hd
      obtain ⟨t, ht, hbatch, hten, hdeploy⟩ := h.added r hr d hd
      obtain ⟨t', ht', hk⟩ := hold t ht
      obtain ⟨-, hten', hbatch', -, -, hdeploy'⟩ := TaskRow.keys_eq.mp hk
      exact ⟨t', ht', hbatch'.trans hbatch, hten'.trans hten, hdeploy'.trans hdeploy⟩
    obtain rfl | ⟨-, hr⟩ := hmem r hr
    · rw [Note.adds_append] at hd
      obtain hd | hd := List.mem_append.mp hd
      · exact hkept (q, notes) hself hd
      · exact hadds d hd
    · exact hkept r hr hd

end Accounted

/-! ## A step -/

theorem exec_write (op : Op) (basis : Option BackupPlan) (s : Store) :
    (∃ s', op.apply s = .ok s' ∧ Stmt.exec (.write op basis) s = (Except.ok (), s')) ∨
      ∃ e, Stmt.exec (.write op basis) s = (Except.error e, s) := by
  show (∃ s', op.apply s = .ok s' ∧ Stmt.commit s (op.apply s) = (.ok (), s')) ∨
    ∃ e, Stmt.commit s (op.apply s) = (.error e, s)
  cases op.apply s with
  | ok s' => exact .inl ⟨s', rfl, rfl⟩
  | error e => exact .inr ⟨e, rfl⟩

theorem note_error (op : Op) (basis : Option BackupPlan) (e : StoreError) :
    note (.write op basis) (Except.error e) = [] := by
  cases op <;> rfl

/-- What a call of `RunPlan` does: it creates its own batch, fills it and reads. -/
def OfRun (q : PlanRun) : Stmt → Prop
  | .write (.createBatch batch) _ =>
    batch.id = q.batchId ∧ batch.tenantUid = q.tenant ∧ batch.planId = q.plan.id
  | .recentBatches .. | .batch .. => True
  | c => Calls.Fills q.tenant q.plan.id q.batchId c

theorem ofRun_of_fills {q : PlanRun} {c : Stmt} (h : Calls.Fills q.tenant q.plan.id q.batchId c) : OfRun q c := by
  cases c with
  | write op basis =>
    cases op with
    | createBatch batch => exact h.elim
    | _ => exact h
  | recentBatches tenant limit => trivial
  | batch tenant id => trivial
  | _ => exact h

theorem program_ofRun (q : PlanRun) : Every (OfRun q) q.program := by
  unfold PlanRun.program Calls.runPlan
  refine every_resultBind fun batchId hid => ?_
  obtain ⟨hex, hdraw, rfl⟩ := randomID_ok hid
  have hbatchId : "batch" ++ "-" ++ hex = q.batchId := by
    rw [PlanRun.batchId, hdraw]
    rfl
  refine every_bindE (every_attempt (Calls.every_write ⟨hbatchId, rfl, rfl⟩)) fun r => ?_
  split
  · refine every_bindE ((Calls.expandPlan_fills rfl q.draws).mono fun c hc => ?_) fun _ => ?_
    · apply ofRun_of_fills
      rw [← hbatchId]
      exact hc
    · exact every_bindE (every_query trivial) fun _ => Calls.every_ofStore _
  · unfold Calls.existingBatch
    refine every_bindE (every_query trivial) fun batches => ?_
    split
    · exact every_pure _
    · exact every_pure _
  · exact every_pure _

section Step
variable {s s' : Store} {log before after : List (PlanRun × List Note)} {q : PlanRun} {notes : List Note}

theorem keys_kept {s s' : Store} (hkeys : s'.tasks.map TaskRow.keys = s.tasks.map TaskRow.keys) :
    (∀ t' ∈ s'.tasks, ∃ t ∈ s.tasks, t.keys = t'.keys) ∧
    ∀ t ∈ s.tasks, ∃ t' ∈ s'.tasks, t'.keys = t.keys :=
  ⟨fun _ ht' => exists_of_keys hkeys ht', fun _ ht => exists_of_keys hkeys.symm ht⟩

theorem Accounted.sameRows (h : Accounted s log) (hbatches : s'.batches = s.batches) (htasks : s'.tasks = s.tasks) :
    Accounted s' log := by
  have hkeys : planKeys s' = planKeys s := by
    unfold planKeys
    rw [hbatches]
  refine h.elsewhere (hkeys ▸ List.Subset.refl _) (htasks ▸ h.reasoned) ?_ ?_
  · intro t ht
    exact .inl ⟨t, htasks ▸ ht, rfl⟩
  · intro t ht
    exact ⟨t, htasks ▸ ht, rfl⟩

/-- A task that others add is of a batch of `StartManual`. -/
theorem Accounted.addTask (h : Accounted s log) {task : BackupTask} {now : Time} (hs : s.addTask task now = .ok s')
    (hreason : Reasons (.addTask task now)) (hapart : Apart s (.addTask task now)) : Accounted s' log := by
  have happly : (Op.addTask task now).apply s = .ok s' := hs
  have hkeys := planKeys_apply happly
  have htasks : s'.tasks = s.tasks ++ [taskRow task] := congrArg Tables.tasks (addTask_ok hs)
  refine h.elsewhere hkeys (reasoned_apply happly hreason h.reasoned) ?_ ?_
  · intro t ht
    rw [htasks] at ht
    obtain ht | ht := List.mem_append.mp ht
    · exact .inl ⟨t, ht, rfl⟩
    · obtain rfl := List.mem_singleton.mp ht
      -- the foreign key names a batch, and every batch of that name is `StartManual`'s
      have hbatch := s'.tasks_batch (taskRow task) (htasks ▸ List.mem_append_right _ ht)
      have hids : s'.batches.map (·.id) = s.batches.map (·.id) := by
        have hframe := congrArg (List.map (·.1)) (Op.apply_frame happly).2
        simpa [BatchRow.keys, Function.comp_def, Op.batchKeysAfter] using hframe
      rw [hids] at hbatch
      obtain ⟨b, hb, hid⟩ := List.mem_map.mp hbatch
      have hmanual : b.planId = "manual-" ++ b.id := hapart b hb hid
      refine .inr ⟨b.tenantUid, hkeys (List.mem_map.mpr ⟨b, hb, ?_⟩)⟩
      rw [hmanual, hid]
  · intro t ht
    exact ⟨t, htasks ▸ List.mem_append_left _ ht, rfl⟩

theorem accounted_elsewhere (h : Accounted s log) {e : Elsewhere} {w : PlanRuns} (hs : w.state = s)
    (hregular : Regular w (.outside e)) : Accounted (e.apply s) log := by
  subst hs
  cases e with
  | library applications instances => exact h.sameRows rfl rfl
  | statement c =>
    cases c with
    | write op basis =>
      obtain ⟨hreason, hapart⟩ : Reasons op ∧ Apart w.state op := hregular
      obtain ⟨s', hs', he⟩ | ⟨e, he⟩ := exec_write op basis w.state
      · rw [Elsewhere.apply, he]
        cases htask : addsTask op with
        | true =>
          cases op with
          | addTask task now => exact h.addTask hs' hreason hapart
          | _ => cases htask
        | false =>
          obtain ⟨hnew, hold⟩ := keys_kept (taskKeys_apply hs' htask)
          exact h.elsewhere (planKeys_apply hs') (reasoned_apply hs' hreason h.reasoned)
            (fun t' ht' => .inl (hnew t' ht')) hold
      · rw [Elsewhere.apply, he]
        exact h
    | deletePlan tenant id =>
      show Accounted (Stmt.commit w.state (w.state.deletePlan tenant id)).2 log
      unfold Store.deletePlan
      split
      · exact h
      · exact h.sameRows rfl rfl
    | _ => exact h

/-- A statement that notes nothing about batches and tasks, and leaves them. -/
theorem Accounted.look (h : Accounted s (before ++ (q, notes) :: after)) {more : List Note}
    (hmade : Note.made ∉ more) (hlisted : ∀ batches, Note.listed batches ∉ more) (hadds : Note.adds more = []) :
    Accounted s (before ++ (q, notes ++ more) :: after) := by
  refine h.next (List.Subset.refl _) h.reasoned ?_ ?_ ?_ ?_ ?_
  · intro batches hb
    exact absurd hb (hlisted batches)
  · intro hm
    exact absurd hm hmade
  · intro t ht
    exact .inl ⟨t, ht, rfl⟩
  · intro t ht
    exact ⟨t, ht, rfl⟩
  · intro d hd
    rw [hadds] at hd
    cases hd

theorem Accounted.write (h : Accounted s (before ++ (q, notes) :: after)) {op : Op} (hs : op.apply s = .ok s')
    (htask : addsTask op = false) (hreason : Reasons op) :
    Accounted s' (before ++ (q, notes ++ []) :: after) := by
  obtain ⟨hnew, hold⟩ := keys_kept (taskKeys_apply hs htask)
  refine h.next (planKeys_apply hs) (reasoned_apply hs hreason h.reasoned) ?_ ?_ ?_ hold ?_
  · intro batches hb
    cases hb
  · intro hm
    cases hm
  · intro t' ht'
    exact .inl (hnew t' ht')
  · intro d hd
    cases hd

theorem Accounted.make (h : Accounted s (before ++ (q, notes) :: after)) {batch : BackupBatch}
    (hs : s.createBatch batch = .ok s') (hid : batch.id = q.batchId) (hten : batch.tenantUid = q.tenant)
    (hplan : batch.planId = q.plan.id) : Accounted s' (before ++ (q, notes ++ [.made]) :: after) := by
  have happly : (Op.createBatch batch).apply s = .ok s' := hs
  obtain ⟨hnew, hold⟩ := keys_kept (taskKeys_apply happly rfl)
  refine h.next (planKeys_apply happly) (reasoned_apply happly trivial h.reasoned) ?_ ?_ ?_ hold ?_
  · intro batches hb
    cases List.mem_singleton.mp hb
  · intro _
    rw [← hid, ← hten, ← hplan]
    exact planKeys_createBatch hs
  · intro t' ht'
    exact .inl (hnew t' ht')
  · intro d hd
    cases hd

theorem Accounted.add (h : Accounted s (before ++ (q, notes) :: after)) {task : BackupTask} {now : Time}
    (hs : s.addTask task now = .ok s') (hreason : Reasons (.addTask task now)) (hmade : Note.made ∈ notes)
    (hbatch : task.batchId = q.batchId) (hten : task.tenantUid = q.tenant) :
    Accounted s' (before ++ (q, notes ++ [.added task.deployId]) :: after) := by
  have happly : (Op.addTask task now).apply s = .ok s' := hs
  have htasks : s'.tasks = s.tasks ++ [taskRow task] := congrArg Tables.tasks (addTask_ok hs)
  refine h.next (planKeys_apply happly) (reasoned_apply happly hreason h.reasoned) ?_ ?_ ?_ ?_ ?_
  · intro batches hb
    cases List.mem_singleton.mp hb
  · intro hm
    cases List.mem_singleton.mp hm
  · intro t ht
    rw [htasks] at ht
    obtain ht | ht := List.mem_append.mp ht
    · exact .inl ⟨t, ht, rfl⟩
    · obtain rfl := List.mem_singleton.mp ht
      exact .inr ⟨hmade, hbatch.symm, hten.symm, List.mem_singleton.mpr rfl⟩
  · intro t ht
    exact ⟨t, htasks ▸ List.mem_append_left _ ht, rfl⟩
  · intro d hd
    obtain rfl := List.mem_singleton.mp hd
    exact ⟨taskRow task, htasks ▸ List.mem_append_right _ (List.mem_singleton.mpr rfl), hbatch, hten, rfl⟩

theorem Accounted.list (h : Accounted s (before ++ (q, notes) :: after)) (tenant : String) (limit : Nat) :
    Accounted s (before ++
      (q, notes ++ [.listed ((s.recentBatches tenant limit).map fun b => (b.id, b.tenantUid, b.planId))]) ::
      after) := by
  refine h.next (List.Subset.refl _) h.reasoned ?_ ?_ ?_ ?_ ?_
  · intro batches hb key hkey
    obtain rfl := Note.listed.inj (List.mem_singleton.mp hb)
    obtain ⟨b, hb, rfl⟩ := List.mem_map.mp hkey
    obtain ⟨row, hrow, rfl, -⟩ := recentBatches_tenant hb
    exact List.mem_map.mpr ⟨row, hrow, rfl⟩
  · intro hm
    cases List.mem_singleton.mp hm
  · intro t ht
    exact .inl ⟨t, ht, rfl⟩
  · intro t ht
    exact ⟨t, ht, rfl⟩
  · intro d hd
    cases hd

/-- What a call does next is accounted for by what it notes. -/
theorem accounted_next (h : Accounted s (before ++ (q, notes) :: after)) {c : Stmt} (hc : OfRun q c)
    (horder : Orderly q (notes ++ note c (Stmt.exec c s).1)) :
    Accounted (Stmt.exec c s).2 (before ++ (q, notes ++ note c (Stmt.exec c s).1) :: after) := by
  cases c with
  | write op basis =>
    obtain ⟨s', hs', he⟩ | ⟨e, he⟩ := exec_write op basis s
    · rw [he] at horder ⊢
      cases op with
      | createBatch batch =>
        obtain ⟨hid, hten, hplan⟩ := hc
        exact h.make hs' hid hten hplan
      | addTask task now =>
        obtain ⟨-, hbatch, hten, hreason⟩ := hc
        -- tasks are added once the batch is made
        have hmade : Note.made ∈ notes := by
          by_contra hnot
          have hnone := horder.unmade fun hm => by
            obtain hm | hm := List.mem_append.mp hm
            · exact hnot hm
            · cases List.mem_singleton.mp hm
          rw [Note.adds_append] at hnone
          exact absurd hnone (List.append_ne_nil_of_right_ne_nil _ (List.cons_ne_nil _ _))
        exact h.add hs' hreason hmade hbatch hten
      | createBackupJob job => exact h.write hs' rfl trivial
      | failBackupJob tenant id code finished => exact h.write hs' rfl trivial
      | pausePlanForScope tenant id reason => exact h.write hs' rfl trivial
      | _ => exact hc.elim
    · rw [he, note_error]
      exact h.look List.not_mem_nil (fun _ => List.not_mem_nil) rfl
  | instance_ tenant deployId =>
    show Accounted s (before ++ (q, notes ++ note (.instance_ tenant deployId) (s.instance tenant deployId)) :: after)
    cases s.instance tenant deployId with
    | ok item => exact h.look (by simp [note]) (by simp [note]) rfl
    | error e => exact h.look (by simp [note]) (by simp [note]) rfl
  | recentBatches tenant limit => exact h.list tenant limit
  | batch tenant id => exact h.look List.not_mem_nil (fun _ => List.not_mem_nil) rfl
  | _ => exact hc.elim

end Step

/-! ## Every run -/

def PlanRuns.log (w : PlanRuns) : List (PlanRun × List Note) := w.sessions.map fun r => (r.request, r.notes)

/-- The invariant of a run: every call keeps to its statements and to its outline, and the rows
are accounted for. -/
structure PlanRuns.Steady (w : PlanRuns) : Prop where
  statements : ∀ r ∈ w.sessions, KeepsTo OfRun r
  outlined : ∀ r ∈ w.sessions, Outlined Stmt.exec note Orderly (fun q => Or (fun _ _ => True) (Returned q)) r
  accounted : Accounted w.state w.log

theorem PlanRuns.Fresh.steady {w : PlanRuns} (h : w.Fresh) : w.Steady := by
  obtain ⟨htasks, hsessions⟩ := h
  have hnone : ∀ {P : Logged PlanRun Stmt Stmt.Answer (Except GoError BackupBatch) Note → Prop},
      ∀ r ∈ w.sessions, P r := by
    intro P r hr
    rw [hsessions] at hr
    cases hr
  have hlog : ∀ {P : PlanRun × List Note → Prop}, ∀ r ∈ w.log, P r := by
    intro P r hr
    rw [PlanRuns.log, hsessions] at hr
    cases hr
  refine ⟨hnone, hnone, ?_, hlog, hlog, hlog, ?_, ?_, hlog⟩
  · intro t ht
    rw [htasks] at ht
    cases ht
  · rw [PlanRuns.log, hsessions]
    exact .nil
  · intro t ht
    rw [htasks] at ht
    cases ht

theorem PlanRuns.Steady.step {w w' : PlanRuns} {m : Journal.Move PlanRun Elsewhere} (h : w.Steady)
    (hregular : Regular w m) (hstep : w.step m = some w') : w'.Steady := by
  have hstatements := sessions_every program_ofRun hstep h.statements
  have houtlined := sessions_outlined (fun q => orderly_of_none rfl rfl) traced_runPlan hstep h.outlined
  refine ⟨hstatements, houtlined, ?_⟩
  obtain ⟨q, rfl, rfl⟩ | ⟨i, before, after, q, notes, c, k, rfl, hsessions, rfl⟩ |
    ⟨i, before, after, q, notes, rest, rfl, hsessions, rfl⟩ | ⟨e, rfl, rfl⟩ := step_cases hstep
  · unfold PlanRuns.log
    rw [List.map_append]
    exact h.accounted.start hregular
  · have haccounted := h.accounted
    unfold PlanRuns.log at haccounted ⊢
    rw [hsessions, List.map_append, List.map_cons] at haccounted
    have hc := every_call.mp (h.statements ⟨q, notes, some (.call c k)⟩ (by simp [hsessions]) _ rfl)
    have horder := (houtlined _ (List.mem_append_right _ (List.mem_cons_self ..))).keeps
    rw [List.map_append, List.map_cons]
    exact accounted_next haccounted hc.1 horder
  · have haccounted := h.accounted
    unfold PlanRuns.log at haccounted ⊢
    rw [hsessions, List.map_append, List.map_cons] at haccounted
    rw [List.map_append, List.map_cons]
    exact haccounted
  · exact accounted_elsewhere h.accounted rfl hregular

theorem steady_of_reach {w : PlanRuns} (h : Reach PlanRuns.step Regular PlanRuns.Fresh w) : w.Steady :=
  h.invariant (fun _ hfresh => hfresh.steady) fun _ _ _ hsteady hregular hstep => hsteady.step hregular hstep

/-! ## The batch a call returns -/

/-- The call made the batch. -/
def Makes (r : Logged PlanRun Stmt Stmt.Answer (Except GoError BackupBatch) Note) (batchId : String) : Prop :=
  Note.made ∈ r.notes ∧ r.request.batchId = batchId

theorem planKeys_inj {s : Store} {k k' : String × String × String} (hk : k ∈ planKeys s) (hk' : k' ∈ planKeys s)
    (h : k.1 = k'.1) : k = k' := by
  obtain ⟨b, hb, rfl⟩ := List.mem_map.mp hk
  obtain ⟨b', hb', rfl⟩ := List.mem_map.mp hk'
  obtain rfl : b = b' := eq_of_key s.batches_pk hb hb' h
  rfl

/-- A batch is the plan's expansion when its tasks are for the plan's targets. -/
theorem expanded_iff {s : Store} {tenant batchId : String} {plan : BackupPlan} (hreason : Reasoned s.tasks) :
    Expanded s tenant batchId plan ↔
      ∀ d, d ∈ plan.targets.map (·.deployId) ↔ d ∈ (ownTasks s tenant batchId).map (·.deployId) := by
  refine ⟨?_, ?_⟩
  · intro h d
    refine ⟨?_, ?_⟩
    · intro hd
      obtain ⟨target, htarget, rfl⟩ := List.mem_map.mp hd
      obtain ⟨t, ht, hdeploy⟩ := exists_of_countP_one (h.each target htarget)
      exact List.mem_map.mpr ⟨t, ht, by simpa using hdeploy⟩
    · intro hd
      obtain ⟨t, ht, rfl⟩ := List.mem_map.mp hd
      obtain ⟨target, htarget, hdeploy⟩ := h.only t ht
      exact List.mem_map.mpr ⟨target, htarget, hdeploy⟩
  · intro h
    refine ⟨?_, ?_, ?_⟩
    · intro target htarget
      obtain ⟨t, ht, hdeploy⟩ := List.mem_map.mp ((h target.deployId).mp (List.mem_map_of_mem htarget))
      rw [← hdeploy]
      exact ownTasks_deploy_count ht
    · intro t ht
      exact List.mem_map.mp ((h t.deployId).mpr (List.mem_map_of_mem ht))
    · intro t ht
      exact hreason t (List.mem_filter.mp ht).1

section Returned
variable {w : PlanRuns} {c m : Logged PlanRun Stmt Stmt.Answer (Except GoError BackupBatch) Note} {b : BackupBatch}

theorem PlanRuns.mem_log {r : Logged PlanRun Stmt Stmt.Answer (Except GoError BackupBatch) Note}
    (h : r ∈ w.sessions) : (r.request, r.notes) ∈ w.log := List.mem_map.mpr ⟨r, h, rfl⟩

theorem PlanRuns.Steady.returned (h : w.Steady) (hc : c ∈ w.sessions) (hreturned : c.result = some (.ok b)) :
    (b.id, c.request.tenant, c.request.plan.id) ∈ planKeys w.state := by
  have hresult : Returned c.request b c.notes := (h.outlined c hc).returned hreturned
  obtain ⟨hmade, hid, -⟩ | ⟨-, batches, hlisted, hmem⟩ := hresult
  · rw [hid]
    exact h.accounted.made _ (PlanRuns.mem_log hc) hmade
  · exact h.accounted.listed _ (PlanRuns.mem_log hc) batches hlisted hmem

/-- The tasks of a batch that a call returned are those added by the call that made it. -/
theorem PlanRuns.Steady.own_tasks (h : w.Steady) (hc : c ∈ w.sessions) (hreturned : c.result = some (.ok b))
    (d : String) : d ∈ (ownTasks w.state c.request.tenant b.id).map (·.deployId) ↔
      ∃ m ∈ w.sessions, Makes m b.id ∧ d ∈ Note.adds m.notes := by
  have hkey := h.returned hc hreturned
  refine ⟨?_, ?_⟩
  · intro hd
    obtain ⟨t, ht, rfl⟩ := List.mem_map.mp hd
    obtain ⟨hmem, hin⟩ := List.mem_filter.mp ht
    simp only [inBatch, Bool.and_eq_true, beq_iff_eq] at hin
    obtain ⟨tenant, hmanual⟩ | ⟨r, hr, hmade, hbatch, -, hadds⟩ := h.accounted.tasks t hmem
    · rw [hin.2] at hmanual
      have hplan := congrArg (·.2.2) (planKeys_inj hkey hmanual rfl)
      exact absurd hplan (h.accounted.plans _ (PlanRuns.mem_log hc) _)
    · obtain ⟨m, hm, rfl⟩ := List.mem_map.mp hr
      exact ⟨m, hm, ⟨hmade, hbatch.trans hin.2⟩, hadds⟩
  · rintro ⟨m, hm, ⟨hmade, hid⟩, hadds⟩
    have hmkey := h.accounted.made _ (PlanRuns.mem_log hm) hmade
    have hten : m.request.tenant = c.request.tenant := congrArg (·.2.1) (planKeys_inj hmkey hkey hid)
    obtain ⟨t, ht, hbatch, htten, rfl⟩ := h.accounted.added _ (PlanRuns.mem_log hm) d hadds
    refine List.mem_map.mpr ⟨t, List.mem_filter.mpr ⟨ht, ?_⟩, rfl⟩
    simp only [inBatch, Bool.and_eq_true, beq_iff_eq]
    exact ⟨htten.trans hten, hbatch.trans hid⟩

theorem PlanRuns.Steady.maker_unique (h : w.Steady) {batchId : String}
    {m' : Logged PlanRun Stmt Stmt.Answer (Except GoError BackupBatch) Note} (hm : m ∈ w.sessions)
    (hm' : m' ∈ w.sessions) (hmakes : Makes m batchId) (hmakes' : Makes m' batchId) : m.notes = m'.notes := by
  by_contra hne
  have hsymm : Std.Symm fun r r' : PlanRun × List Note =>
      Note.made ∈ r.2 → Note.made ∈ r'.2 → r.1.batchId ≠ r'.1.batchId :=
    ⟨fun _ _ hr hmade' hmade => (hr hmade hmade').symm⟩
  have hpair := h.accounted.distinct.forall (PlanRuns.mem_log hm) (PlanRuns.mem_log hm')
    fun he => hne (congrArg (·.2) he)
  exact hpair hmakes.1 hmakes'.1 (hmakes.2.trans hmakes'.2.symm)

end Returned

def firstRun : PlanRun :=
  ⟨"tenant-a", planOf [targetA, targetB], "scheduled", 0, drawsA⟩

/-- The same occurrence again, with another batch id at hand. -/
def secondRun : PlanRun :=
  ⟨"tenant-a", planOf [targetA, targetB], "scheduled", 0, { drawsA with batchId := some "0b" }⟩

/-- The first call is lost once it has added both tasks, before it reads its batch; the second
finds the occurrence taken. -/
def replay : List (Journal.Move PlanRun Elsewhere) :=
  .start firstRun :: List.replicate 9 (.next 0) ++ [.stop 0, .start secondRun, .next 1, .next 1]

def checkRegular (_ : PlanRuns) : Journal.Move PlanRun Elsewhere → Bool
  | .start q => q.plan.id == "plan-a"
  | .outside _ => false
  | _ => true

theorem regular_of_check (w : PlanRuns) (m : Journal.Move PlanRun Elsewhere) (h : checkRegular w m = true) :
    Regular w m := by
  cases m with
  | start q =>
    intro id he
    have hplan : q.plan.id = "plan-a" := by simpa [checkRegular] using h
    have hfirst := congrArg (fun text : String => text.toList.head?) (hplan.symm.trans he)
    simp at hfirst
  | outside e => cases h
  | _ => trivial

def twoTargets : PlanRuns := ⟨planned ["deploy-a", "deploy-b"] [targetA, targetB], []⟩

end AppBackup.Queue
