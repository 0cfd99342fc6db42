import AppBackup.Persistence.Frames

/- Operations that write batches, tasks and jobs read no plan row: on two databases that
   differ in the plan rows alone they are refused with the same error, or leave databases
   that again differ in the plan rows alone. -/
namespace AppBackup.Persistence
open Table

/-- `s'` has the rows of `s` but for the plan rows, which are `rows`. -/
def WithPlans (rows : List PlanRow) (s s' : Store) : Prop := s'.toTables = { s.toTables with plans := rows }

/-- Both refused with one error, or both went through. -/
def Beside (rows : List PlanRow) : Except StoreError Store → Except StoreError Store → Prop
  | .ok s, .ok s' => WithPlans rows s s'
  | .error e, .error e' => e = e'
  | _, _ => False

variable {rows : List PlanRow} {s s' : Store}

theorem Beside.bind {f : StoreError → StoreError} {g : Store → Except StoreError Store}
    (hg : ∀ {s s' : Store}, WithPlans rows s s' → Beside rows (g s) (g s')) (x x' : Except StoreError Store) :
    Beside rows x x' →
      Beside rows (match x with | .error e => .error (f e) | .ok s => g s)
        (match x' with | .error e => .error (f e) | .ok s => g s) := by
  intro hx
  cases x with
  | error e =>
    cases x' with
    | error e' => exact congrArg f hx
    | ok s' => exact hx.elim
  | ok s =>
    cases x' with
    | error e' => exact hx.elim
    | ok s' => exact hg hx

theorem Beside.mapError {x x' : Except StoreError Store} (h : Beside rows x x') (f : StoreError → StoreError) :
    Beside rows (x.mapError f) (x'.mapError f) := by
  cases x with
  | error e =>
    cases x' with
    | error e' => exact congrArg f h
    | ok s' => exact h.elim
  | ok s =>
    cases x' with
    | error e' => exact h.elim
    | ok s' => exact h

namespace WithPlans

theorem insertBatch (h : WithPlans rows s s') (b : BatchRow) :
    Beside rows (s.insertBatch b) (s'.insertBatch b) := by
  obtain ⟨t⟩ := s
  obtain ⟨t'⟩ := s'
  obtain rfl : t' = { t with plans := rows } := h
  unfold Store.insertBatch
  simp only
  split
  · rfl
  · rfl

theorem insertTask (h : WithPlans rows s s') (task : TaskRow) :
    Beside rows (s.insertTask task) (s'.insertTask task) := by
  obtain ⟨t⟩ := s
  obtain ⟨t'⟩ := s'
  obtain rfl : t' = { t with plans := rows } := h
  unfold Store.insertTask
  simp only
  split
  · split
    · rfl
    · rfl
  · rfl

theorem insertJob (h : WithPlans rows s s') (j : JobRow) : Beside rows (s.insertJob j) (s'.insertJob j) := by
  obtain ⟨t⟩ := s
  obtain ⟨t'⟩ := s'
  obtain rfl : t' = { t with plans := rows } := h
  unfold Store.insertJob
  simp only
  split
  · rfl
  · rfl

theorem updateJobs (h : WithPlans rows s s') (p : JobRow → Bool) (f : JobRow → JobRow)
    (hf : ∀ j, (f j).keys = j.keys) : Beside rows (s.updateJobs p f hf) (s'.updateJobs p f hf) := by
  obtain ⟨t⟩ := s
  obtain ⟨t'⟩ := s'
  obtain rfl : t' = { t with plans := rows } := h
  unfold Store.updateJobs
  simp only
  split
  · rfl
  · rfl

theorem updateTasks (h : WithPlans rows s s') (p : TaskRow → Bool) (f : TaskRow → TaskRow)
    (hf : ∀ t, (f t).keys = t.keys) : WithPlans rows (s.updateTasks p f hf) (s'.updateTasks p f hf) := by
  unfold WithPlans
  rw [Store.updateTasks_tables, Store.updateTasks_tables, h]

theorem refreshBatch (h : WithPlans rows s s') (tenant id : String) (now : Time) :
    Beside rows (s.refreshBatch tenant id now) (s'.refreshBatch tenant id now) := by
  obtain ⟨t⟩ := s
  obtain ⟨t'⟩ := s'
  obtain rfl : t' = { t with plans := rows } := h
  unfold Store.refreshBatch
  simp only
  split
  · rfl
  · rfl

theorem createBatch (h : WithPlans rows s s') (batch : BackupBatch) :
    Beside rows (s.createBatch batch) (s'.createBatch batch) := by
  unfold Store.createBatch
  split
  · rfl
  · exact (h.insertBatch (batchRow batch)).mapError _

theorem addTask (h : WithPlans rows s s') (task : BackupTask) (now : Time) :
    Beside rows (s.addTask task now) (s'.addTask task now) := by
  unfold Store.addTask
  split
  · rfl
  · exact Beside.bind (fun h₁ => h₁.refreshBatch _ _ _) _ _ (h.insertTask (taskRow task))

theorem sameJobs (h : WithPlans rows s s') : s'.jobs = s.jobs := by
  show s'.toTables.jobs = _
  rw [h]

theorem createBackupJob (h : WithPlans rows s s') (job : BackupJob) :
    Beside rows (s.createBackupJob job) (s'.createBackupJob job) := by
  unfold Store.createBackupJob
  rw [h.sameJobs]
  split
  · rfl
  · split
    · rfl
    · exact h.insertJob (jobRow job)

theorem failBackupJob (h : WithPlans rows s s') (tenant id code : String) (finished : Time) :
    Beside rows (s.failBackupJob tenant id code finished) (s'.failBackupJob tenant id code finished) := by
  unfold Store.failBackupJob Store.moveJob
  rw [h.sameJobs]
  refine @Beside.bind rows (fun e => e) _ ?_ _ _ (h.updateJobs ..)
  intro s₁ s₁' h₁
  split
  · exact h₁
  · rfl

theorem endWaiting (h : WithPlans rows s s') (tenant planId : String) (status : TaskStatus) (code : String)
    (validation : Option PlanPauseReason) (at_ : Time) :
    Beside rows (s.endWaiting tenant planId status code validation at_)
      (s'.endWaiting tenant planId status code validation at_) :=
  (h.updateTasks ..).updateJobs ..

theorem updatePlans (h : WithPlans rows s s') (p : PlanRow → Bool) (f : PlanRow → PlanRow)
    (hf : ∀ r, (f r).id = r.id) :
    WithPlans (updateWhere p f rows) (s.updatePlans p f hf) (s'.updatePlans p f hf) := by
  unfold WithPlans
  rw [Store.updatePlans_tables, Store.updatePlans_tables, h]

end WithPlans

end AppBackup.Persistence
