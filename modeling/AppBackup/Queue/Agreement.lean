import AppBackup.Queue.Runs

/- The task and its job are moved by different transactions: `CommitSnapshot` ends the job,
   the closing of `execute` the task. `Reported` is the invariant of a life that says when the
   two agree: a job which succeeded is shown by its task, at once or as soon as the call that
   committed it closes. It is kept by every step but the few its condition names, where a
   crash, a cancel or a timeout falls between the transactions.

   What is proved:
     1. `Reported.step` -- one step keeps it, unless a call commits without the lease of its
        task, or a recovery takes a task whose job has succeeded (`Reports`);
     2. `Run.reported` -- so every run of the world does whose steps all are `Reporting`;
     3. `committed_snapshot_reported` reads this off for the rows of a tenant.

   `committed_snapshot_fails` is the run in which a crash falls between the two transactions. -/
namespace AppBackup.Queue
open Persistence Persistence.Store Table Transition

namespace Life

/-! ## A job that succeeded is reported -/

structure Reported (l : Life) : Prop where
  task : ∀ id, l.job = some ⟨.succeeded, id⟩ → ∃ t, l.task = some t ∧
    (t.status.inProgress = true ∨ (t.status = .succeeded ∧ t.snapshotId = id))
  held : l.Done → ∀ i x t, l.holder i = some x → x.stage.live = true → l.task = some t →
    x.token = t.token → x.stage.committed = true

/-- A recovery takes no task whose job has succeeded, and a job is committed by the one
call that has the lease of its task. -/
structure Reports (l : Life) (k : Kind) : Prop where
  requeue : k = .requeue → ¬l.Done
  commit : ∀ i, k = .commit i → ∀ x job j, l.holder i = some x → x.stage = .running job →
    x.done = none → l.job = some j → j.status = .running →
    (∃ t, l.task = some t ∧ x.token = t.token) ∧
      ∀ n y, l.holder n = some y → y.stage.live = true → y.token = x.token → n = i

theorem Reported.of_not {l : Life} (h : ¬l.Done) : Reported l := by
  refine ⟨?_, ?_⟩
  · intro id hid
    exact absurd ⟨id, hid⟩ h
  · intro hd
    exact absurd hd h

/-- A task that shows the job still does. -/
def TaskKept (task task' : Option TaskLife) : Prop :=
  ∀ t, task = some t → t.status.inProgress = true ∨ t.status = .succeeded →
    ∃ t', task' = some t' ∧ t'.snapshotId = t.snapshotId ∧ t'.token = t.token ∧
      (t.status.inProgress = true → t'.status.inProgress = true) ∧
      (t.status = .succeeded → t'.status = .succeeded)

/-- No call becomes live, and none that has committed is behind that again. -/
def CallsKept (holder holder' : Nat → Option Execution) : Prop :=
  ∀ n y, holder' n = some y → y.stage.live = true → ∃ x, holder n = some x ∧
    x.stage.live = true ∧ y.token = x.token ∧
    (x.stage.committed = true → y.stage.committed = true)

theorem Reported.of_kept {l l' : Life} (h : Reported l)
    (hjob : ∀ id, l'.job = some ⟨.succeeded, id⟩ → l.job = some ⟨.succeeded, id⟩)
    (htask : TaskKept l.task l'.task) (hheld : CallsKept l.holder l'.holder) : Reported l' := by
  have hshown : ∀ id, l'.job = some ⟨.succeeded, id⟩ → ∃ t t', l.task = some t ∧
      l'.task = some t' ∧ t'.token = t.token ∧
      (t'.status.inProgress = true ∨ (t'.status = .succeeded ∧ t'.snapshotId = id)) := by
    intro id hid
    obtain ⟨t, ht, hst⟩ := h.task id (hjob id hid)
    obtain ⟨t', ht', hsnap, htok, hp, hs⟩ := htask t ht (hst.imp_right (·.1))
    refine ⟨t, t', ht, ht', htok, ?_⟩
    rcases hst with hprog | ⟨hsucc, hid'⟩
    · exact .inl (hp hprog)
    · exact .inr ⟨hs hsucc, hsnap.trans hid'⟩
  refine ⟨?_, ?_⟩
  · intro id hid
    obtain ⟨-, t', -, ht', -, hst⟩ := hshown id hid
    exact ⟨t', ht', hst⟩
  · intro ⟨id, hid⟩ n y t' hy hlive ht' htok
    obtain ⟨t, t'', ht, ht'', hsame, -⟩ := hshown id hid
    rw [ht'] at ht''
    cases ht''
    obtain ⟨x, hx, hxl, hxtok, hcom⟩ := hheld n y hy hlive
    exact hcom (h.held ⟨id, hjob id hid⟩ n x t hx hxl ht (hxtok.symm.trans (htok.trans hsame)))

theorem taskKept_refl (task : Option TaskLife) : TaskKept task task := by
  intro t ht _
  exact ⟨t, ht, rfl, rfl, id, id⟩

theorem taskKept_ended (task : Option TaskLife) (status : TaskStatus) :
    TaskKept task (task.map (·.ended status)) := by
  intro t ht hst
  have hne : t.status ≠ .queued := by
    intro hq
    rw [hq] at hst
    rcases hst with h | h <;> cases h
  refine ⟨t, ?_, rfl, rfl, id, id⟩
  rw [ht, Option.map_some]
  unfold TaskLife.ended
  rw [if_neg hne]

theorem taskKept_prechecked (task : Option TaskLife) (x : Execution) :
    TaskKept task (task.map (·.prechecked x)) := by
  intro t ht _
  refine ⟨t.prechecked x, by rw [ht, Option.map_some], ?_⟩
  unfold TaskLife.prechecked
  by_cases hc : x.done = none ∧ t.token = x.token ∧ leasedGroup.contains t.status = true
  · rw [if_pos hc]
    refine ⟨rfl, rfl, fun _ => rfl, ?_⟩
    intro hs
    rw [hs] at hc
    exact absurd hc.2.2 (by decide)
  · rw [if_neg hc]
    exact ⟨rfl, rfl, id, id⟩

theorem callsKept_refl (holder : Nat → Option Execution) : CallsKept holder holder := by
  intro n y hy hlive
  exact ⟨y, hy, hlive, rfl, id⟩

theorem callsKept_stage {l : Life} {i : Nat} {x : Execution} {stage : Stage}
    (hi : l.holder i = some x) (hlive : stage.live = true → x.stage.live = true)
    (hcom : stage.live = true → x.stage.committed = true → stage.committed = true) :
    CallsKept l.holder (Function.update l.holder i (some { x with stage := stage })) := by
  intro n y hy hy'
  rcases holder_update hy with ⟨rfl, rfl⟩ | ⟨-, hn⟩
  · exact ⟨x, hi, hlive hy', rfl, hcom hy'⟩
  · exact ⟨y, hn, hy', rfl, id⟩

theorem moves_committed {x : Execution} {stage : Stage} (hm : x.Moves stage) :
    x.stage.live = true ∧ (x.stage.committed = true → stage.committed = true) := by
  cases hm with
  | settled hx now =>
    rename_i err
    rw [hx]
    refine ⟨rfl, ?_⟩
    intro hc
    cases err with
    | none => rfl
    | some err => cases hc
  | register hx | unread hx | read hx | unstarted hx | broken hx | validated hx =>
    rw [hx]
    exact ⟨rfl, fun hc => by cases hc⟩

theorem Reported.claim {l : Life} {t : TaskLife} {i : Nat} {x : Execution} (h : Reported l)
    (ht : l.task = some t) (hq : t.status = .queued) :
    Reported { l with
      task := some { t with status := .leased, token := x.token }
      holder := Function.update l.holder i (some x) } := by
  -- a waiting task does not show its job
  apply Reported.of_not
  rintro ⟨id, hid⟩
  obtain ⟨t', ht', hst⟩ := h.task id hid
  rw [ht] at ht'
  cases ht'
  rw [hq] at hst
  rcases hst with hp | ⟨hp, -⟩ <;> cases hp

theorem Reported.precheck {l : Life} {i : Nat} {x : Execution} (h : Reported l) (hi : l.holder i = some x)
    (hx : x.stage = .registered) :
    Reported (Life.setStage { l with task := l.task.map (·.prechecked x) } i x .reading) := by
  refine h.of_kept (fun _ => id) (taskKept_prechecked _ _) (callsKept_stage hi ?_ ?_)
  · intro _
    rw [hx]
    rfl
  · intro _ hc
    rw [hx] at hc
    cases hc

theorem Reported.commit {l : Life} {i : Nat} {x : Execution} {job : BackupJob} {j : JobLife} {id : String}
    (hl : Leased l) (hok : Reports l (.commit i)) (hi : l.holder i = some x) (hx : x.stage = .running job)
    (hd : x.done = none) (hj : l.job = some j) (hrun : j.status = .running) :
    Reported (Life.setStage { l with job := some ⟨.succeeded, id⟩, snapshots := [id] } i x (.returned none)) := by
  obtain ⟨⟨t, ht, htok⟩, hone⟩ := hok.commit i rfl x job j hi hx hd hj hrun
  refine ⟨?_, ?_⟩
  · intro _ _
    exact ⟨t, ht, .inl (hl.inProgress hi ht htok)⟩
  · intro _ n y t' hy hlive ht' htok'
    rcases holder_update hy with ⟨-, rfl⟩ | ⟨hne, hn⟩
    · rfl
    · have hsame : t' = t := Option.some.inj (ht'.symm.trans ht)
      subst hsame
      exact absurd (hone n y hn hlive (htok'.trans htok.symm)) hne

theorem Reported.fail {l : Life} {i : Nat} {x : Execution} {err : GoError} (h : Reported l)
    (hi : l.holder i = some x) (hx : x.stage = .failing err) :
    Reported (Life.setStage { l with job := l.job.map (·.moved (·.active) .failed) } i x (.returned (some err))) := by
  have hrow := taskKept_refl l.task
  refine h.of_kept ?_ hrow (callsKept_stage hi ?_ ?_)
  · intro id
    exact (succeeded_moved rfl (by decide)).mp
  · intro _
    rw [hx]
    rfl
  · intro _ hc
    rw [hx] at hc
    cases hc

theorem Reported.pauseOther {l : Life} {i : Nat} {x : Execution} {err : GoError} {now : Time} (h : Reported l)
    (hi : l.holder i = some x) (hx : x.stage = .pausing err now) :
    Reported (l.setStage i x (.closing (x.failureClosing err now))) := by
  have hrow := taskKept_refl l.task
  refine h.of_kept (fun _ => id) hrow (callsKept_stage hi ?_ ?_)
  · intro _
    rw [hx]
    rfl
  · intro _ hc
    rw [hx] at hc
    cases hc

theorem Reported.pauseOwn {l : Life} {i : Nat} {x : Execution} {err : GoError} {now : Time} (h : Reported l)
    (hi : l.holder i = some x) (hx : x.stage = .pausing err now) :
    Reported ((l.superseded .skipped).setStage i x (.closing (x.failureClosing err now))) := by
  refine h.of_kept ?_ (taskKept_ended _ _) (callsKept_stage hi ?_ ?_)
  · intro id
    exact (succeeded_moved rfl (by decide)).mp
  · intro _
    rw [hx]
    rfl
  · intro _ hc
    rw [hx] at hc
    cases hc

theorem Reported.close {l : Life} {i : Nat} {x : Execution} {c : Closing} {t : TaskLife} (h : Reported l)
    (hrec : Recorded l) (hl : Leased l) (hi : l.holder i = some x) (hx : x.stage = .closing c)
    (ht : l.task = some t) (htok : t.token = x.token) :
    Reported (Life.setStage { l with task := some (t.closed c), job := l.job.map (·.closed c) } i x .leaving) := by
  have hlive : x.stage.live = true := by rw [hx]; rfl
  refine ⟨?_, ?_⟩
  · intro id hid
    have hid₀ := (succeeded_closed c).mp hid
    have hcom := h.held ⟨id, hid₀⟩ i x t hi hlive ht htok.symm
    obtain ⟨id₁, hid₁, hall⟩ := hrec.committed i x hi hcom
    rw [hid₀] at hid₁
    cases hid₁
    -- a call that has committed closes its task as complete
    cases c with
    | complete snapshotId now => exact ⟨_, rfl, .inr ⟨rfl, hall snapshotId now hx⟩⟩
    | retry =>
      rw [hx] at hcom
      cases hcom
    | finish =>
      rw [hx] at hcom
      cases hcom
  · intro _ n y t' hy hylive ht' hytok
    cases ht'
    rcases holder_update hy with ⟨-, rfl⟩ | ⟨-, hn⟩
    · cases hylive
    · have hnone : (t.closed c).token = "" := by cases c <;> rfl
      exact absurd (hytok.trans hnone) (hl.held n y hn)

theorem Reported.reset {l : Life} {t : TaskLife} (h : Reported l) (ht : l.task = some t)
    (hres : resettable.contains t.status = true) :
    Reported { l with task := some t.waiting, job := l.job.map (·.moved (· == .failed) .queued) } := by
  apply Reported.of_not
  rintro ⟨id, hid⟩
  obtain ⟨t', ht', hst⟩ := h.task id ((succeeded_moved rfl (by decide)).mp hid)
  rw [ht] at ht'
  cases ht'
  revert hres hst
  cases t.status <;> simp [resettable, TaskStatus.inProgress, TaskStatus.terminal]

theorem Reported.step {l l' : Life} {k : Kind} (hrec : Recorded l) (hl : Leased l) (h : Reported l)
    (hs : Step l k l') (hok : Reports l k) : Reported l' := by
  have hrow := taskKept_refl l.task
  have hcall := callsKept_refl l.holder
  cases hs with
  | quiet => exact h
  -- where a job has not succeeded there is nothing to report
  | create =>
    apply Reported.of_not
    rintro ⟨id, hid⟩
    cases hid
  | add hj ht hu =>
    apply Reported.of_not
    rintro ⟨id, hid⟩
    obtain ⟨t, ht', -⟩ := h.task id hid
    rw [ht] at ht'
    cases ht'
  | skip hj ht hu =>
    apply Reported.of_not
    rintro ⟨id, hid⟩
    rw [hj] at hid
    cases hid
  | claim ht hq => exact h.claim ht hq
  | advance hi hm =>
    obtain ⟨hlive, hcom⟩ := moves_committed hm
    exact h.of_kept (fun _ => id) hrow (callsKept_stage hi (fun _ => hlive) (fun _ => hcom))
  | precheck hi hx => exact h.precheck hi hx
  | start =>
    apply Reported.of_not
    rintro ⟨id, hid⟩
    cases hid
  | commit hi hx hd hj hrun hsn => exact Reported.commit hl hok hi hx hd hj hrun
  | fail hi hx => exact h.fail hi hx
  | look hi hx hj =>
    refine h.of_kept (fun _ => id) hrow (callsKept_stage hi ?_ (fun _ _ => rfl))
    intro _
    rw [hx]
    rfl
  -- the call is live no more, so nothing is asked of it
  | lost hi hx hj =>
    exact h.of_kept (fun _ => id) hrow
      (callsKept_stage hi (fun hlive => by cases hlive) (fun hlive => by cases hlive))
  | pauseOther hi hx => exact h.pauseOther hi hx
  | pauseOwn hi hx => exact h.pauseOwn hi hx
  | close hi hx ht htok => exact h.close hrec hl hi hx ht htok
  | refused hi hx hr =>
    exact h.of_kept (fun _ => id) hrow
      (callsKept_stage hi (fun hlive => by cases hlive) (fun hlive => by cases hlive))
  | leave hi hx =>
    refine h.of_kept (fun _ => id) hrow ?_
    intro n y hy hy'
    exact hcall n y (holder_removed hy).2 hy'
  | timeout hi =>
    refine h.of_kept (fun _ => id) hrow ?_
    intro n y hy hy'
    rcases holder_update hy with ⟨rfl, rfl⟩ | ⟨-, hn⟩
    · exact ⟨_, hi, hy', rfl, id⟩
    · exact hcall n y hn hy'
  | interrupt ctx =>
    refine h.of_kept (fun _ => id) hrow ?_
    intro n y hy hy'
    obtain ⟨x, hx, rfl⟩ := Option.map_eq_some_iff.mp hy
    exact ⟨x, hx, hy', rfl, id⟩
  | cancelRow k => exact h.of_kept (fun _ => id) (taskKept_ended _ _) hcall
  | hangUp k => exact h.of_kept (fun _ => id) hrow hcall
  | cancelJob | undo =>
    refine h.of_kept ?_ hrow hcall
    intro id
    exact (succeeded_moved rfl (by decide)).mp
  | supersede hst =>
    refine h.of_kept ?_ (taskKept_ended _ _) hcall
    intro id
    exact (succeeded_moved rfl (by decide)).mp
  | reset ht hres => exact h.reset ht hres
  -- the condition: the recovery finds no job that has succeeded
  | requeue ht hres =>
    apply Reported.of_not
    rintro ⟨id, hid⟩
    exact hok.requeue rfl ⟨id, (succeeded_moved rfl (by decide)).mp hid⟩
  | crash =>
    refine h.of_kept (fun _ => id) hrow ?_
    intro n y hy
    cases hy

end Life

/-! ## Runs -/

/-- No recovery takes a task whose job has succeeded. -/
def NoneDone (w : World) (a : Action) : Prop :=
  ∀ uid now, Recovers w a uid now → ∀ t ∈ w.store.tasks, expired uid now t = true →
    ∀ j ∈ w.store.jobs, j.id = t.backupJobId → j.status ≠ .succeeded

/-- Besides, a commit that goes through is by the one call that has the lease of its
task. -/
structure Reporting (w : World) (a : Action) : Prop where
  recovery : NoneDone w a
  commit : ∀ i archive x job, a = .execute i (.commit archive) → w.workers i = .busy x →
    x.stage = .running job → x.done = none →
    (∃ j ∈ w.store.jobs, j.id = x.task.backupJobId ∧ j.status = .running) →
    (∃ t ∈ w.store.tasks, x.HasLease t) ∧
      ∀ n y, w.workers n = .busy y → y.stage.live = true → y.task.id = x.task.id →
        y.token = x.token → n = i

section
variable {ok : World → Action → Prop} {w : World}

theorem Reporting.life {a : Action} {id : String} {k : Kind} (h : Known w) (hok : Reporting w a)
    (hc : Cause w a id k) : Life.Reports (w.life id) k := by
  refine ⟨?_, ?_⟩
  · intro hk
    subst hk
    obtain ⟨uid, now, ha, t, ht, hjob, hexp⟩ := hc
    intro ⟨snapshotId, hdone⟩
    obtain ⟨j, hj, hjid, hlife⟩ := jobLife_some hdone
    exact hok.recovery uid now ha t ht hexp j hj (hjid.trans hjob.symm)
      (congrArg JobLife.status hlife)
  · intro i hk x job j hi hx hd hj hrun
    subst hk
    obtain ⟨archive, ha⟩ := hc
    obtain ⟨hbusy, hid⟩ := holder_some.mp hi
    obtain ⟨row, hrow, hrowid, hlife⟩ := jobLife_some hj
    have hrunning : row.status = .running := (congrArg JobLife.status hlife).trans hrun
    obtain ⟨⟨t, ht, -, htid, htok⟩, hone⟩ :=
      hok.commit i archive x job ha hbusy hx hd ⟨row, hrow, hrowid.trans hid.symm, hrunning⟩
    have htjob := (h.taskId hbusy ht).mp htid
    refine ⟨⟨taskRowLife t, ?_, htok⟩, ?_⟩
    · rw [← hid, htjob]
      exact taskLife_of_mem ht
    · intro n y hy hlive hytok
      obtain ⟨hybusy, hyid⟩ := holder_some.mp hy
      have hytask := (h.taskId hybusy ht).mpr (hyid.trans (hid.symm.trans htjob))
      exact hone n y hybusy hlive (hytask.trans htid.symm) hytok

theorem reported_empty : Life.empty.Reported := by
  apply Life.Reported.of_not
  intro ⟨id, hid⟩
  cases hid

theorem Run.reported (hok : ∀ w a, ok w a → Reporting w a) (h : Run ok w) (id : String) :
    (w.life id).Reported := by
  refine h.lives reported_empty ?_ id
  intro w a id k l' hr ha hrep hc hs
  exact hrep.step (hr.recorded id) (hr.leased id) hs ((hok w a ha).life hr.known hc)

theorem Run.snapshot (h : Run ok w) {sn : SnapshotRow} (hsn : sn ∈ w.store.snapshots) :
    (w.life sn.jobId).job = some ⟨.succeeded, sn.id⟩ := by
  have hmem : sn.id ∈ (w.life sn.jobId).snapshots :=
    List.mem_map.mpr ⟨sn, List.mem_filter.mpr ⟨hsn, beq_self_eq_true _⟩, rfl⟩
  have hrec := h.recorded sn.jobId
  obtain ⟨id, hid⟩ := hrec.done (List.ne_nil_of_mem hmem)
  rw [hrec.named id hid, List.mem_singleton] at hmem
  rw [hid, hmem]

end

/-- In every run that meets the condition, a task that has ended and has a snapshot for its
job has succeeded with that snapshot. -/
theorem committed_snapshot_reported {w : World} (h : Run Reporting w) {t : TaskRow}
    (ht : t ∈ w.store.tasks) (hterm : t.status.terminal = true) {sn : SnapshotRow}
    (hsn : sn ∈ w.store.snapshots) (hjob : sn.jobId = t.backupJobId) :
    t.status = .succeeded ∧ t.snapshotId = sn.id := by
  have hdone := h.snapshot hsn
  rw [hjob] at hdone
  obtain ⟨l, hl, hst⟩ := (h.reported (fun _ _ hok => hok) t.backupJobId).task sn.id hdone
  have hlife : (w.life t.backupJobId).task = some (taskRowLife t) := taskLife_of_mem ht
  rw [hlife] at hl
  cases hl
  rcases hst with hprog | hshown
  · rw [TaskStatus.inProgress_iff] at hprog
    change t.status ≠ .queued ∧ t.status.terminal = false at hprog
    rw [hterm] at hprog
    cases hprog.2
  · exact hshown

/-- While leases are kept every commit is by the call that has the lease. -/
theorem reporting_of_leasesKept {w : World}
    (h : Run (fun w a => LeasesKept w a ∧ NoneDone w a) w) : Run Reporting w := by
  refine h.mono_using ?_
  intro w a hreach ⟨hkept, hnone⟩
  have hr : Run (fun w a => LeasesKept w a ∧ NoneDone w a) w := hreach
  refine ⟨hnone, ?_⟩
  intro i archive x job _ hi hx _ _
  have hlive : x.stage.live = true := by rw [hx]; rfl
  obtain ⟨t, ht, -, hjob, -, hlease⟩ := hr.hasLease (fun _ _ hok => hok.1) hi hlive
  refine ⟨⟨t, ht, hlease⟩, ?_⟩
  intro n y hn hy hid _
  have hsame := (hr.known.taskId hn ht).mp (hid.trans hlease.2.1)
  exact (hr.base (fun _ _ hok => hok.1) x.task.backupJobId).single n i y x
    (holder_busy hn (hsame.trans hjob)) (holder_busy hi rfl) hy hlive

theorem noneLeased_done (w : World) (a : Action) (h : noneLeased w a = true) :
    LeasesKept w a ∧ NoneDone w a := by
  refine ⟨noneLeased_kept w a h, ?_⟩
  intro uid now ha t ht hexp
  have hnone := noneLeased_expired h ha ht
  rw [hexp] at hnone
  cases hnone

/-- The task is done, and its job and snapshot with it. -/
def completed : World :=
  final World.step opened (enqueuing ++ claiming 0 "1" 0 ++ starting 0 0 ++
    [.execute 0 (.commit archiveA), .execute 0 (.settle 0), .execute 0 .lookup, .execute 0 .close])

theorem committed_snapshot_reported_completed :
    ∃ t ∈ completed.store.tasks, ∃ sn ∈ completed.store.snapshots,
      t.status = .succeeded ∧ t.snapshotId = sn.id := by
  have hrun : Run Reporting completed :=
    reporting_of_leasesKept (reach_final noneLeased_done _ ⟨_, rfl⟩ (by decide))
  obtain ⟨t, ht, hterm, sn, hsn, hjob⟩ : ∃ t ∈ completed.store.tasks, t.status.terminal = true ∧
      ∃ sn ∈ completed.store.snapshots, sn.jobId = t.backupJobId := by decide +kernel
  exact ⟨t, ht, sn, hsn, committed_snapshot_reported hrun ht hterm hsn hjob⟩

/-- The process dies between `CommitSnapshot` and `CompleteTask`; the next one recovers
the lease and executes the task again. -/
def reexecuted : World :=
  final World.step opened (enqueuing ++ claiming 0 "1" 0 ++ starting 0 0 ++
    [.execute 0 (.commit archiveA), .crash, .bind "tenant-a"] ++ claiming 0 "2" (120 * second) ++
    [.execute 0 .register, .execute 0 .precheck, .execute 0 .readJob,
      .execute 0 (.startJob (120 * second)), .execute 0 (.settle (120 * second)), .execute 0 .close])

/-- Its task has failed, and the snapshot is there. -/
theorem committed_snapshot_fails :
    ¬∀ w : World, Run (fun _ _ => True) w → ∀ t ∈ w.store.tasks, t.status.terminal = true →
      ∀ sn ∈ w.store.snapshots, sn.jobId = t.backupJobId →
        t.status = .succeeded ∧ t.snapshotId = sn.id := by
  intro hall
  have hrun : Run (fun _ _ => True) reexecuted :=
    reach_final anyStep_ok _ ⟨_, rfl⟩ (by decide)
  obtain ⟨t, ht, hfailed, sn, hsn, hjob⟩ : ∃ t ∈ reexecuted.store.tasks, t.status = .failed ∧
      ∃ sn ∈ reexecuted.store.snapshots, sn.jobId = t.backupJobId := by decide +kernel
  have hst := (hall reexecuted hrun t ht (by rw [hfailed]; rfl) sn hsn hjob).1
  rw [hfailed] at hst
  cases hst

end AppBackup.Queue
