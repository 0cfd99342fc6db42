import AppBackup.Queue.Runs

/- At most one execution of an instance, and at most one snapshot of a job, while the
   leases are kept. Nothing in memory says so: a call past `StartBackupJob` has its job
   RUNNING (`Held`), the partial index admits one such job of an instance, and the lease
   admits one live call of a job.

   `one_execution_per_instance` reads the three off a state that a run reaches; that a job gets
   no second snapshot is a fact about each step (`step_snapshots`). -/
namespace AppBackup.Queue
open Persistence Persistence.Store Table Transition

section
variable {ok : World → Action → Prop} {w : World}

/-- A call that is past `StartBackupJob` has its job RUNNING. -/
theorem Run.runningJob (hok : ∀ w a, ok w a → LeasesKept w a) (h : Run ok w) {i : Nat} {x : Execution}
    (hi : w.workers i = .busy x) (hd : x.stage.during = true) :
    ∃ j ∈ w.store.jobs, j.id = x.task.backupJobId ∧ j.status = .running ∧
      j.tenantUid = x.uid ∧ j.deployId = x.task.deployId := by
  obtain ⟨-, huid, ⟨t, ht, -, hten, hjob, hdep⟩, -⟩ := h.known.workerAt hi
  have hlive : x.stage.live = true := by
    cases hst : x.stage <;> simp [hst, Stage.during, Stage.live] at hd ⊢
  obtain ⟨id, hid⟩ :=
    ((h.base hok x.task.backupJobId).held i x (holder_busy hi rfl) hlive).running.mp hd
  obtain ⟨j, hj, hjid, hlife⟩ := jobLife_some hid
  obtain ⟨htenant, hdeploy, -⟩ := h.known.placed.agree t ht j hj (hjid.trans hjob.symm)
  refine ⟨j, hj, hjid, congrArg JobLife.status hlife, ?_, hdeploy.trans hdep⟩
  rw [htenant, hten, huid]

/-- The partial index: one active job of an instance. -/
theorem active_unique {s : Store} {j j' : JobRow} (hj : j ∈ s.jobs) (hj' : j' ∈ s.jobs)
    (ha : j.status.active = true) (ha' : j'.status.active = true) (hten : j.tenantUid = j'.tenantUid)
    (hdep : j.deployId = j'.deployId) : j = j' :=
  eq_of_indexKey s.jobs_active hj hj' ha ha' (Prod.ext hten hdep)

end

theorem step_snapshots {l l' : Life} {k : Kind} (hs : Life.Step l k l') (hsome : l.snapshots ≠ []) :
    l'.snapshots = l.snapshots := by
  cases hs with
  | commit hi hx hd hj hr hnone => exact absurd hnone hsome
  | _ => rfl

/-- At every moment at most one live `ExecuteJob` call of a tenant and instance is past
its `StartBackupJob` with its job not moved on; and no job is given a second
snapshot. -/
theorem one_execution_per_instance {w : World} (h : Run LeasesKept w) :
    (∀ i i' x x', w.workers i = .busy x → w.workers i' = .busy x' → x.stage.during = true →
      x'.stage.during = true → x.uid = x'.uid → x.task.deployId = x'.task.deployId → i = i') ∧
    ∀ jobId, (snapshotIds w.store jobId).length ≤ 1 ∧
      ∀ a w', w.step a = some w' → snapshotIds w.store jobId ≠ [] →
        snapshotIds w'.store jobId = snapshotIds w.store jobId := by
  refine ⟨?_, ?_⟩
  · intro i i' x x' hi hi' hd hd' huid hdep
    obtain ⟨j, hj, hjid, hrun, hten, hdeploy⟩ := h.runningJob (fun _ _ hok => hok) hi hd
    obtain ⟨j', hj', hjid', hrun', hten', hdeploy'⟩ := h.runningJob (fun _ _ hok => hok) hi' hd'
    have hsame : j = j' := by
      refine active_unique hj hj' (by rw [hrun]; rfl) (by rw [hrun']; rfl) ?_ ?_
      · rw [hten, hten', huid]
      · rw [hdeploy, hdeploy', hdep]
    have htask : x'.task.backupJobId = x.task.backupJobId := by
      rw [← hjid', ← hjid, hsame]
    have hlive : ∀ st : Stage, st.during = true → st.live = true := by
      intro st hst
      cases st <;> simp [Stage.during, Stage.live] at hst ⊢
    exact (h.base (fun _ _ hok => hok) x.task.backupJobId).single i i' x x' (holder_busy hi rfl)
      (holder_busy hi' htask) (hlive _ hd) (hlive _ hd')
  · intro jobId
    refine ⟨?_, ?_⟩
    · by_cases hnone : snapshotIds w.store jobId = []
      · rw [hnone]
        exact Nat.zero_le 1
      · have hrec := h.recorded jobId
        obtain ⟨id, hid⟩ := hrec.done hnone
        have hone : snapshotIds w.store jobId = [id] := hrec.named id hid
        rw [hone]
        exact Nat.le_refl 1
    · intro a w' hs hsome
      obtain ⟨k, -, hstep⟩ := simulates h.known (World.step_sound hs) jobId
      exact step_snapshots hstep hsome

/-- The instance with its job RUNNING. -/
def running : World := final World.step opened (enqueuing ++ claiming 0 "1" 0 ++ starting 0 0)

theorem one_execution_running :
    ((running.workers 0).holds "backup-00").any (·.stage.during) = true ∧
    ∀ i x, running.workers i = .busy x → x.stage.during = true → x.uid = "tenant-a" →
      x.task.deployId = "deploy-a" → i = 0 := by
  have hrun : Run LeasesKept running :=
    reach_final noneLeased_kept _ ⟨_, rfl⟩ (by decide)
  refine ⟨by decide, ?_⟩
  intro i x hi hd huid hdep
  exact (one_execution_per_instance hrun).1 i 0 x _ hi rfl hd (by decide) huid hdep

end AppBackup.Queue
