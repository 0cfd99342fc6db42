import AppBackup.Persistence.Ops

/- What an operation that goes through leaves of the plans and of the batches. Only the
   five operations on a plan write a plan row, and only `CreateBatch` adds a batch: a
   refresh writes no key column. -/
namespace AppBackup.Persistence
open Table

namespace Op

/-- The plan rows after an operation. -/
def plansAfter (rows : List PlanRow) : Op → List PlanRow
  | createPlan plan => rows ++ [planRow plan]
  | updatePlan tenant plan _ => updateWhere (planIn tenant plan.id) (updatedPlanRow plan) rows
  | setPlanEnabled tenant id enabled nextRun updated =>
    updateWhere (planIn tenant id)
      (fun r => { r with
        enabled := enabled, nextRunAt := nullableUnix nextRun, updatedAt := unix updated }) rows
  | pausePlanForScope tenant id reason =>
    updateWhere (planIn tenant id)
      (fun r => { r with
        enabled := false, nextRunAt := none, pauseReason := some reason
        updatedAt := unix reason.detectedAt }) rows
  | advancePlan tenant id scheduledAt nextRun updated =>
    updateWhere (planIn tenant id)
      (fun r => { r with
        lastScheduledAt := some (unix scheduledAt), nextRunAt := nullableUnix nextRun
        updatedAt := unix updated }) rows
  | _ => rows

/-- The keys of the batches after an operation. -/
def batchKeysAfter (keys : List (String × String × String × Int)) :
    Op → List (String × String × String × Int)
  | createBatch batch => keys ++ [(batchRow batch).keys]
  | _ => keys

end Op

/-- The plans are as before, and the batches still have their keys. -/
def SamePlans (t t' : Tables) : Prop :=
  t'.plans = t.plans ∧ t'.batches.map BatchRow.keys = t.batches.map BatchRow.keys

theorem SamePlans.rfl {t : Tables} : SamePlans t t := ⟨Eq.refl _, Eq.refl _⟩

theorem ok_of_map {ε α β : Type} {x : Except ε α} {f : α → β} {b : β} (h : x.map f = .ok b) :
    ∃ a, x = .ok a ∧ f a = b := by
  cases x with
  | error e => cases h
  | ok a => cases h; exact ⟨a, Eq.refl _, Eq.refl _⟩

namespace Store

theorem closeTask_samePlans {s s' : Store} {tenant id : String} {guard : TaskRow → Bool}
    {missing : StoreError} {m : TaskMove} {now : Time}
    (h : s.closeTask tenant id guard missing m now = .ok s') : SamePlans s.toTables s'.toTables := by
  obtain ⟨t, -, -, ht⟩ := closeTask_ok h
  rw [ht]
  exact ⟨rfl, refreshed_keys _ _ _ _ _⟩

theorem requeueExpiredTasks_samePlans {s s' : Store} {tenant : String} {now : Time}
    (h : s.requeueExpiredTasks tenant now = .ok s') : SamePlans s.toTables s'.toTables := by
  refine foldlM_invariant (P := fun s₁ : Store => SamePlans s.toTables s₁.toTables) h SamePlans.rfl ?_
  intro s₁ s₂ item _ ih hs₂
  have ht := runMove_ok hs₂
  rw [ht]
  exact ⟨ih.1, (refreshed_keys _ _ _ _ _).trans ih.2⟩

theorem moveJob_samePlans {s s' : Store} {tenant id : String} {guard : JobStatus → Bool}
    {set : JobRow → JobRow} {hset : ∀ j, (set j).keys = j.keys}
    (h : s.moveJob tenant id guard set hset = .ok s') : SamePlans s.toTables s'.toTables := by
  rw [(moveJob_ok h).2]
  exact SamePlans.rfl

end Store

open Store

/-- What an operation that goes through leaves of the plans and the batches. -/
theorem Op.apply_frame {s s' : Store} {op : Op} (h : op.apply s = .ok s') :
    s'.plans = op.plansAfter s.plans ∧
      s'.batches.map BatchRow.keys = op.batchKeysAfter (s.batches.map BatchRow.keys) := by
  cases op with
  | createPlan plan =>
    obtain ⟨targets, ht⟩ := createPlan_ok h
    rw [ht]
    exact ⟨rfl, rfl⟩
  | updatePlan tenant plan cancelQueued =>
    obtain ⟨targets, ht⟩ := updatePlan_ok h
    rw [ht]
    exact ⟨rfl, rfl⟩
  | setPlanEnabled tenant id enabled nextRun updated =>
    have h : s.setPlanEnabled tenant id enabled nextRun updated = .ok s' := h
    unfold Store.setPlanEnabled at h
    split at h
    · cases h
    · cases h
      exact ⟨rfl, rfl⟩
  | pausePlanForScope tenant id reason =>
    have h : s.pausePlanForScope tenant id reason = .ok s' := h
    have ht := endWaiting_ok h
    rw [ht]
    exact ⟨rfl, rfl⟩
  | advancePlan tenant id scheduledAt nextRun updated =>
    cases h
    exact ⟨rfl, rfl⟩
  | createBatch batch =>
    rw [createBatch_ok h]
    exact ⟨rfl, by simp [batchKeysAfter]⟩
  | addTask task now =>
    have hb := addTask_batches h
    rw [addTask_ok h] at hb ⊢
    exact ⟨rfl, hb⟩
  | claimNextTask tenant workerId token now expires =>
    obtain ⟨⟨after, task⟩, hmade, rfl⟩ := ok_of_map h
    obtain ⟨t, -, -, -, -, ht⟩ := claimNextTask_ok hmade
    rw [ht]
    exact ⟨rfl, refreshed_keys _ _ _ _ _⟩
  | setTaskStatus tenant id token status =>
    rw [setTaskStatus_ok h]
    exact ⟨rfl, rfl⟩
  | setTaskScopeValidation tenant id token value =>
    cases h
    exact ⟨rfl, rfl⟩
  | heartbeatTask tenant id token now expires =>
    cases h
    exact ⟨rfl, rfl⟩
  | completeTask tenant id token snapshotId now => exact closeTask_samePlans h
  | retryTask tenant id token code availableAt now => exact closeTask_samePlans h
  | finishTaskFailure tenant id token status code now => exact closeTask_samePlans h
  | cancelTask tenant id now =>
    obtain ⟨⟨after, task⟩, hmade, rfl⟩ := ok_of_map h
    obtain ⟨t, -, -, -, hs⟩ := cancelTask_ok hmade
    obtain ⟨-, hs⟩ | ⟨-, hs⟩ := hs
    · rw [hs, cancelTaskJob_tables]
      exact ⟨rfl, rfl⟩
    · rw [hs]
      exact ⟨rfl, rfl⟩
  | requeueExpiredTasks tenant now => exact requeueExpiredTasks_samePlans h
  | resetTaskForManualRetry tenant id now => exact closeTask_samePlans h
  | createBackupJob job =>
    rw [createBackupJob_ok h]
    exact ⟨rfl, rfl⟩
  | startBackupJob tenant id started => exact moveJob_samePlans h
  | failBackupJob tenant id code finished => exact moveJob_samePlans h
  | commitSnapshot snapshot =>
    rw [(commitSnapshot_ok h).2]
    exact ⟨rfl, rfl⟩

/-- The operations that write the targets of a plan. -/
def Op.savesTargets : Op → Bool
  | .createPlan _ | .updatePlan .. => true
  | _ => false

/-- Any other operation leaves the targets of every plan. -/
theorem Op.apply_targets {s s' : Store} {op : Op} (h : op.apply s = .ok s') (hop : op.savesTargets = false) :
    s'.targets = s.targets := by
  have hclose : ∀ {tenant id guard missing m now}, s.closeTask tenant id guard missing m now = .ok s' →
      s'.targets = s.targets := by
    intro tenant id guard missing m now h
    obtain ⟨t, -, -, ht⟩ := closeTask_ok h
    rw [ht]
    rfl
  cases op with
  | createPlan plan => cases hop
  | updatePlan tenant plan cancelQueued => cases hop
  | setPlanEnabled tenant id enabled nextRun updated =>
    obtain ⟨plans, ht⟩ := setPlanEnabled_ok h
    rw [ht]
  | pausePlanForScope tenant id reason =>
    obtain ⟨plans, ht⟩ := pausePlanForScope_ok h
    rw [ht]
  | advancePlan tenant id scheduledAt nextRun updated =>
    cases h
    rfl
  | createBatch batch => rw [createBatch_ok h]
  | addTask task now => rw [addTask_ok h]
  | claimNextTask tenant workerId token now expires =>
    obtain ⟨⟨after, task⟩, hmade, rfl⟩ := ok_of_map h
    obtain ⟨t, -, -, -, -, ht⟩ := claimNextTask_ok hmade
    rw [ht]
  | setTaskStatus tenant id token status => rw [setTaskStatus_ok h]
  | setTaskScopeValidation tenant id token value =>
    cases h
    rfl
  | heartbeatTask tenant id token now expires =>
    cases h
    rfl
  | completeTask tenant id token snapshotId now => exact hclose h
  | retryTask tenant id token code availableAt now => exact hclose h
  | finishTaskFailure tenant id token status code now => exact hclose h
  | cancelTask tenant id now =>
    obtain ⟨⟨after, task⟩, hmade, rfl⟩ := ok_of_map h
    obtain ⟨t, -, -, -, hs⟩ := cancelTask_ok hmade
    obtain ⟨-, hs⟩ | ⟨-, hs⟩ := hs
    · rw [hs, cancelTaskJob_tables]
      rfl
    · rw [hs]
  | requeueExpiredTasks tenant now =>
    refine foldlM_invariant (P := fun s₁ : Store => s₁.targets = s.targets) h rfl ?_
    intro s₁ s₂ item _ ih hs₂
    rw [runMove_ok hs₂]
    exact ih
  | resetTaskForManualRetry tenant id now => exact hclose h
  | createBackupJob job => rw [createBackupJob_ok h]
  | startBackupJob tenant id started => rw [(moveJob_ok h).2]
  | failBackupJob tenant id code finished => rw [(moveJob_ok h).2]
  | commitSnapshot snapshot => rw [(commitSnapshot_ok h).2]

end AppBackup.Persistence
