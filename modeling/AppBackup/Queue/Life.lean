import AppBackup.Queue.World

/- The life of one backup job: its row, the task that owns it, the snapshots
   committed for it, the calls of `execute` that work on the task, and the calls of
   `Cancel` that have cancelled the task and not yet its job. `Step` says all that
   can happen to one life in one step of the world; `Queue/Refinement.lean` shows
   that nothing else does. An invariant of a life is proved over `Step`, once for
   each kind of step. -/
namespace AppBackup.Queue
open Persistence

/-! ## What a stage says -/

namespace Stage

/-- Before the closing store call, and not returned. -/
def live : Stage → Bool
  | leaving => false
  | _ => true

/-- Before `StartBackupJob`. -/
def early : Stage → Bool
  | entered | registered | reading | starting _ => true
  | _ => false

/-- Past `StartBackupJob`, before the job is moved on. -/
def during : Stage → Bool
  | running _ | failing _ => true
  | _ => false

/-- Past `CommitSnapshot`. -/
def committed : Stage → Bool
  | returned none | looking _ | closing (.complete _ _) => true
  | _ => false

/-- A task is closed as failed with one of three statuses. -/
def plain : Stage → Prop
  | closing (.finish status _ _) => status = .cancelled ∨ status = .failed ∨ status = .timedOut
  | _ => True

end Stage

/-- The stages `execute` goes through without a write to its rows. -/
inductive Execution.Moves (x : Execution) : Stage → Prop where
  | register (h : x.stage = .entered) : Moves x .registered
  | unread (h : x.stage = .reading) {err : GoError}
      (hd : ∀ e, x.done = some e → err = e.error) : Moves x (.returned (some err))
  | read (h : x.stage = .reading) (hd : x.done = none) (job : BackupJob) : Moves x (.starting job)
  | unstarted {job : BackupJob} (h : x.stage = .starting job) {err : GoError}
      (hd : ∀ e, x.done = some e → err = e.error) : Moves x (.returned (some err))
  | broken {job : BackupJob} (h : x.stage = .running job) (err : GoError) : Moves x (.failing err)
  | settled {err : Option GoError} (h : x.stage = .returned err) (now : Time) :
      Moves x (x.afterReturn now err)
  | validated {err : GoError} {now : Time} (h : x.stage = .validating err now) :
      Moves x (.pausing err now)

/-! ## Lives -/

structure JobLife where
  status : JobStatus
  snapshotId : String
  deriving DecidableEq

structure TaskLife where
  status : TaskStatus
  token : String
  snapshotId : String
  deriving DecidableEq

structure Life where
  job : Option JobLife
  task : Option TaskLife
  snapshots : List String
  holder : Nat → Option Execution
  sweep : Nat → Bool

namespace JobLife

/-- A guarded update of the job's status. -/
def moved (guard : JobStatus → Bool) (status : JobStatus) (j : JobLife) : JobLife :=
  if guard j.status then { j with status := status } else j

/-- What a closing does to the job. -/
def closed : Closing → JobLife → JobLife
  | .retry _ _ _, j => j.moved (· == .failed) .queued
  | _, j => j

end JobLife

namespace TaskLife

/-- A waiting task is ended. -/
def ended (status : TaskStatus) (t : TaskLife) : TaskLife :=
  if t.status = .queued then { t with status := status } else t

/-- `SetTaskStatus(ctx, …, "PRECHECKING")`. -/
def prechecked (x : Execution) (t : TaskLife) : TaskLife :=
  if x.done = none ∧ t.token = x.token ∧ leasedGroup.contains t.status = true then
    { t with status := .prechecking }
  else t

/-- What a closing does to the task. -/
def closed : Closing → TaskLife → TaskLife
  | .complete snapshotId _, _ => ⟨.succeeded, "", snapshotId⟩
  | .retry _ _ _, t => ⟨.queued, "", t.snapshotId⟩
  | .finish status _ _, t => ⟨status, "", t.snapshotId⟩

/-- The task waits again, without a lease. -/
def waiting (t : TaskLife) : TaskLife := ⟨.queued, "", t.snapshotId⟩

end TaskLife

/-- What happened to a life, and in which thread. -/
inductive Kind where
  | quiet | create | add | skip
  | claim (i : Nat)
  | advance (i : Nat)
  | start (i : Nat)
  | commit (i : Nat)
  | close (i : Nat)
  | refused (i : Nat)
  | leave (i : Nat)
  | interrupt (ctx : Nat)
  | cancelRow (k : Nat)
  | cancelJob (k : Nat)
  | hangUp (k : Nat)
  | supersede | undo | reset | requeue | crash

namespace Life

/-- No call works on the task. -/
def Unheld (l : Life) : Prop := (∀ i, l.holder i = none) ∧ ∀ k, l.sweep k = false

/-- The stage of one call changes. -/
def setStage (l : Life) (i : Nat) (x : Execution) (stage : Stage) : Life :=
  { l with holder := Function.update l.holder i (some { x with stage := stage }) }

/-- The waiting work of the life is ended. -/
def superseded (l : Life) (status : TaskStatus) : Life :=
  { l with
    task := l.task.map (·.ended status)
    job := l.job.map (·.moved (· == .queued) .failed) }

/-- One step of the world, as one life sees it. -/
inductive Step : Life → Kind → Life → Prop where
  | quiet (l : Life) : Step l .quiet l
  | create {l : Life} (hj : l.job = none) (ht : l.task = none) (hs : l.snapshots = []) :
      Step l .create { l with job := some ⟨.queued, ""⟩ }
  | add {l : Life} {j : JobLife} (hj : l.job = some j) (ht : l.task = none) (hu : l.Unheld) :
      Step l .add { l with task := some ⟨.queued, "", ""⟩ }
  | skip {l : Life} (hj : l.job = none) (ht : l.task = none) (hu : l.Unheld) :
      Step l .skip { l with task := some ⟨.skipped, "", ""⟩ }
  | claim {l : Life} {t : TaskLife} {i : Nat} {x : Execution} (ht : l.task = some t)
      (hq : t.status = .queued) (hi : l.holder i = none) (hx : x.stage = .entered)
      (hd : x.done = none) (htok : x.token ≠ "") :
      Step l (.claim i) { l with
        task := some { t with status := .leased, token := x.token }
        holder := Function.update l.holder i (some x) }
  | advance {l : Life} {i : Nat} {x : Execution} {stage : Stage} (hi : l.holder i = some x)
      (hm : x.Moves stage) : Step l (.advance i) (l.setStage i x stage)
  | precheck {l : Life} {i : Nat} {x : Execution} (hi : l.holder i = some x)
      (hx : x.stage = .registered) :
      Step l (.advance i) (setStage { l with task := l.task.map (·.prechecked x) } i x .reading)
  | start {l : Life} {i : Nat} {x : Execution} {job job' : BackupJob} {j : JobLife}
      (hi : l.holder i = some x) (hx : x.stage = .starting job) (hd : x.done = none)
      (hj : l.job = some j) (hq : j.status = .queued) :
      Step l (.start i)
        (setStage { l with job := some { j with status := .running } } i x (.running job'))
  | commit {l : Life} {i : Nat} {x : Execution} {job : BackupJob} {j : JobLife} {id : String}
      (hi : l.holder i = some x) (hx : x.stage = .running job) (hd : x.done = none)
      (hj : l.job = some j) (hr : j.status = .running) (hs : l.snapshots = []) :
      Step l (.commit i)
        (setStage { l with job := some ⟨.succeeded, id⟩, snapshots := [id] } i x (.returned none))
  | fail {l : Life} {i : Nat} {x : Execution} {err : GoError} (hi : l.holder i = some x)
      (hx : x.stage = .failing err) :
      Step l (.advance i)
        (setStage { l with job := l.job.map (·.moved (·.active) .failed) } i x (.returned (some err)))
  | look {l : Life} {i : Nat} {x : Execution} {j : JobLife} {now : Time}
      (hi : l.holder i = some x) (hx : x.stage = .looking now) (hj : l.job = some j) :
      Step l (.advance i) (l.setStage i x (.closing (.complete j.snapshotId now)))
  | lost {l : Life} {i : Nat} {x : Execution} {now : Time} (hi : l.holder i = some x)
      (hx : x.stage = .looking now) (hj : l.job = none) :
      Step l (.advance i) (l.setStage i x .leaving)
  | pauseOther {l : Life} {i : Nat} {x : Execution} {err : GoError} {now : Time}
      (hi : l.holder i = some x) (hx : x.stage = .pausing err now) :
      Step l (.advance i) (l.setStage i x (.closing (x.failureClosing err now)))
  | pauseOwn {l : Life} {i : Nat} {x : Execution} {err : GoError} {now : Time}
      (hi : l.holder i = some x) (hx : x.stage = .pausing err now) :
      Step l (.advance i)
        ((l.superseded .skipped).setStage i x (.closing (x.failureClosing err now)))
  | close {l : Life} {i : Nat} {x : Execution} {c : Closing} {t : TaskLife}
      (hi : l.holder i = some x) (hx : x.stage = .closing c) (ht : l.task = some t)
      (htok : t.token = x.token) :
      Step l (.close i)
        (setStage { l with task := some (t.closed c), job := l.job.map (·.closed c) } i x .leaving)
  | refused {l : Life} {i : Nat} {x : Execution} {c : Closing} (hi : l.holder i = some x)
      (hx : x.stage = .closing c)
      (hr : (∃ code availableAt now, c = .retry code availableAt now) ∨
        ∀ t, l.task = some t → t.token ≠ x.token) :
      Step l (.refused i) (l.setStage i x .leaving)
  | leave {l : Life} {i : Nat} {x : Execution} (hi : l.holder i = some x)
      (hx : x.stage = .leaving) : Step l (.leave i) { l with holder := Function.update l.holder i none }
  | timeout {l : Life} {i : Nat} {x : Execution} (hi : l.holder i = some x) :
      Step l (.advance i) { l with holder := Function.update l.holder i (some x.timedOut) }
  | interrupt {l : Life} (ctx : Nat) :
      Step l (.interrupt ctx) { l with holder := fun i => (l.holder i).map (·.interrupted ctx) }
  | cancelRow {l : Life} (k : Nat) :
      Step l (.cancelRow k) { l with
        task := l.task.map (·.ended .cancelled)
        sweep := Function.update l.sweep k true }
  | cancelJob {l : Life} {k : Nat} (hk : l.sweep k = true) :
      Step l (.cancelJob k) { l with
        job := l.job.map (·.moved (· == .queued) .failed)
        sweep := Function.update l.sweep k false }
  | hangUp {l : Life} (k : Nat) :
      Step l (.hangUp k) { l with sweep := Function.update l.sweep k false }
  | supersede {l : Life} {status : TaskStatus} (hst : status = .cancelled ∨ status = .skipped) :
      Step l .supersede (l.superseded status)
  | undo {l : Life} (ht : l.task = none) :
      Step l .undo { l with job := l.job.map (·.moved (·.active) .failed) }
  | reset {l : Life} {t : TaskLife} (ht : l.task = some t)
      (hr : resettable.contains t.status = true) :
      Step l .reset { l with
        task := some t.waiting
        job := l.job.map (·.moved (· == .failed) .queued) }
  | requeue {l : Life} {t : TaskLife} (ht : l.task = some t)
      (hr : noRecovery.contains t.status = false) :
      Step l .requeue { l with
        task := some t.waiting
        job := l.job.map (·.moved (· == .running) .queued) }
  | crash (l : Life) : Step l .crash { l with holder := fun _ => none, sweep := fun _ => false }

/-! ## Which calls a step leaves -/

theorem holder_update {l : Life} {i n : Nat} {x y : Execution}
    (h : Function.update l.holder i (some x) n = some y) :
    (n = i ∧ y = x) ∨ (n ≠ i ∧ l.holder n = some y) := by
  by_cases hn : n = i
  · subst hn
    rw [Function.update_self] at h
    cases h
    exact .inl ⟨rfl, rfl⟩
  · rw [Function.update_of_ne hn] at h
    exact .inr ⟨hn, h⟩

theorem holder_removed {l : Life} {i n : Nat} {y : Execution}
    (h : Function.update l.holder i none n = some y) : n ≠ i ∧ l.holder n = some y := by
  by_cases hn : n = i
  · subst hn
    rw [Function.update_self] at h
    cases h
  · rw [Function.update_of_ne hn] at h
    exact ⟨hn, h⟩

/-! ## What holds in every run -/

/-- A task that is not skipped has its job, and only such a task is worked on; the
statuses are those the queue writes. -/
structure Rooted (l : Life) : Prop where
  task : ∀ t, l.task = some t → l.job = none → t.status = .skipped
  held : ∀ i x, l.holder i = some x → l.job ≠ none ∧ l.task ≠ none
  status : ∀ t, l.task = some t → t.status ≠ .succeededWithWarnings
  plain : ∀ i x, l.holder i = some x → x.stage.plain

theorem failureClosing_plain (x : Execution) (err : GoError) (now : Time) :
    (Stage.closing (x.failureClosing err now)).plain := by
  unfold Execution.failureClosing
  simp only
  split
  · exact trivial
  · unfold Stage.plain
    simp only
    split
    · exact .inr (.inr rfl)
    · exact .inr (.inl rfl)

theorem afterReturn_plain (x : Execution) (now : Time) (err : Option GoError) :
    (x.afterReturn now err).plain := by
  unfold Execution.afterReturn
  split
  · exact trivial
  · split
    · exact .inl rfl
    · split
      · exact trivial
      · exact failureClosing_plain x _ now

theorem moves_plain {x : Execution} {stage : Stage} (h : x.Moves stage) : stage.plain := by
  cases h with
  | settled _ now => exact afterReturn_plain x now _
  | _ => exact trivial

/-- The status is kept, or the task was not skipped and gets one the queue writes. -/
def MovesStatus (t t' : TaskLife) : Prop :=
  t'.status = t.status ∨ (t.status ≠ .skipped ∧ t'.status ≠ .succeededWithWarnings)

theorem ended_status {status : TaskStatus} (hst : status = .cancelled ∨ status = .skipped)
    (t : TaskLife) : MovesStatus t (t.ended status) := by
  unfold MovesStatus TaskLife.ended
  by_cases hq : t.status = .queued
  · rw [if_pos hq, hq]
    rcases hst with rfl | rfl <;> simp
  · rw [if_neg hq]
    exact .inl rfl

theorem prechecked_status (x : Execution) (t : TaskLife) : MovesStatus t (t.prechecked x) := by
  unfold MovesStatus TaskLife.prechecked
  split
  · next h =>
    refine .inr ⟨?_, by simp⟩
    intro hs
    rw [hs] at h
    exact absurd h.2.2 (by decide)
  · exact .inl rfl

theorem closed_status {c : Closing} (hp : (Stage.closing c).plain) (t : TaskLife) :
    (t.closed c).status ≠ .succeededWithWarnings := by
  cases c with
  | complete => simp [TaskLife.closed]
  | retry => simp [TaskLife.closed]
  | finish status =>
    rcases hp with rfl | rfl | rfl <;> simp [TaskLife.closed]

/-- What a step may do and keep a life rooted: its rows stay, a skipped task stays
skipped, and no call comes to it that was not there. -/
theorem Rooted.of_rows {l l' : Life} (h : Rooted l) (hjob : l'.job = none → l.job = none)
    (htask : l'.task = none → l.task = none)
    (hrow : ∀ t', l'.task = some t' → (l.job = none → t'.status = .skipped) ∧
      t'.status ≠ .succeededWithWarnings)
    (hheld : ∀ n y, l'.holder n = some y → y.stage.plain ∧ ∃ x₀, l.holder n = some x₀) :
    Rooted l' := by
  refine ⟨?_, ?_, ?_, ?_⟩
  · intro t' ht' hj
    exact (hrow t' ht').1 (hjob hj)
  · intro n y hy
    obtain ⟨-, x₀, hx₀⟩ := hheld n y hy
    obtain ⟨hj, ht⟩ := h.held n x₀ hx₀
    exact ⟨fun hn => hj (hjob hn), fun hn => ht (htask hn)⟩
  · intro t' ht'
    exact (hrow t' ht').2
  · intro n y hy
    exact (hheld n y hy).1

theorem Rooted.held_setStage {l : Life} {i : Nat} {x : Execution} {stage : Stage} (h : Rooted l)
    (hi : l.holder i = some x) (hp : stage.plain) (n : Nat) (y : Execution)
    (hy : (l.setStage i x stage).holder n = some y) :
    y.stage.plain ∧ ∃ x₀, l.holder n = some x₀ := by
  rcases holder_update hy with ⟨rfl, rfl⟩ | ⟨-, hn⟩
  · exact ⟨hp, x, hi⟩
  · exact ⟨h.plain n y hn, y, hn⟩

theorem Rooted.setStage {l : Life} {i : Nat} {x : Execution} {stage : Stage} (h : Rooted l)
    (hi : l.holder i = some x) (hp : stage.plain) : Rooted (l.setStage i x stage) :=
  h.of_rows id id (fun t ht => ⟨h.task t ht, h.status t ht⟩) (h.held_setStage hi hp)

theorem Rooted.task_map {l : Life} (h : Rooted l) {f : TaskLife → TaskLife}
    (hf : ∀ t, MovesStatus t (f t)) (t' : TaskLife) (ht' : l.task.map f = some t') :
    (l.job = none → t'.status = .skipped) ∧ t'.status ≠ .succeededWithWarnings := by
  obtain ⟨t, ht, rfl⟩ := Option.map_eq_some_iff.mp ht'
  rcases hf t with hs | ⟨hns, hw⟩
  · rw [hs]
    exact ⟨h.task t ht, h.status t ht⟩
  · exact ⟨fun hj => absurd (h.task t ht hj) hns, hw⟩

theorem Rooted.superseded {l : Life} {status : TaskStatus} (h : Rooted l)
    (hst : status = .cancelled ∨ status = .skipped) : Rooted (l.superseded status) := by
  refine h.of_rows Option.map_eq_none_iff.mp Option.map_eq_none_iff.mp (h.task_map (ended_status hst)) ?_
  intro n y hy
  exact ⟨h.plain n y hy, y, hy⟩

theorem Rooted.calls {l : Life} (h : Rooted l) (n : Nat) (y : Execution) (hy : l.holder n = some y) :
    y.stage.plain ∧ ∃ x₀, l.holder n = some x₀ :=
  ⟨h.plain n y hy, y, hy⟩

theorem Rooted.rows {l : Life} (h : Rooted l) (t : TaskLife) (ht : l.task = some t) :
    (l.job = none → t.status = .skipped) ∧ t.status ≠ .succeededWithWarnings :=
  ⟨h.task t ht, h.status t ht⟩

theorem Rooted.add {l : Life} {j : JobLife} (h : Rooted l) (hj : l.job = some j) (hu : l.Unheld) :
    Rooted { l with task := some ⟨.queued, "", ""⟩ } := by
  refine ⟨?_, ?_, ?_, h.plain⟩
  · intro t _ hj'
    exact absurd (hj.symm.trans hj') (by simp)
  · intro i x hx
    exact absurd ((hu.1 i).symm.trans hx) (by simp)
  · intro t ht'
    cases ht'
    simp

theorem Rooted.skip {l : Life} (h : Rooted l) (hu : l.Unheld) :
    Rooted { l with task := some ⟨.skipped, "", ""⟩ } := by
  refine ⟨?_, ?_, ?_, h.plain⟩
  · intro t ht' _
    cases ht'
    rfl
  · intro i x hx
    exact absurd ((hu.1 i).symm.trans hx) (by simp)
  · intro t ht'
    cases ht'
    simp

theorem Rooted.claim {l : Life} {t : TaskLife} {i : Nat} {x : Execution} (h : Rooted l) (ht : l.task = some t)
    (hq : t.status = .queued) (hx : x.stage = .entered) :
    Rooted { l with
      task := some { t with status := .leased, token := x.token }
      holder := Function.update l.holder i (some x) } := by
  have hjob : l.job ≠ none := by
    intro hj
    have hskip := h.task t ht hj
    rw [hq] at hskip
    cases hskip
  refine ⟨?_, ?_, ?_, ?_⟩
  · intro t' _ hj
    exact absurd hj hjob
  · intro n y _
    exact ⟨hjob, by simp⟩
  · intro t' ht'
    cases ht'
    simp
  · intro n y hy
    rcases holder_update hy with ⟨-, rfl⟩ | ⟨-, hn⟩
    · rw [hx]
      exact trivial
    · exact h.plain n y hn

theorem Rooted.close {l : Life} {i : Nat} {x : Execution} {c : Closing} {t : TaskLife} (h : Rooted l)
    (hi : l.holder i = some x) (hx : x.stage = .closing c) :
    Rooted (Life.setStage { l with task := some (t.closed c), job := l.job.map (·.closed c) } i x .leaving) := by
  have hp : (Stage.closing c).plain := hx ▸ h.plain i x hi
  refine h.of_rows Option.map_eq_none_iff.mp (fun hn => by cases hn) ?_ (h.held_setStage hi trivial)
  intro t' ht'
  cases ht'
  exact ⟨fun hj => absurd hj (h.held i x hi).1, closed_status hp t⟩

theorem Rooted.timeout {l : Life} {i : Nat} {x : Execution} (h : Rooted l) (hi : l.holder i = some x) :
    Rooted { l with holder := Function.update l.holder i (some x.timedOut) } := by
  refine h.of_rows id id h.rows ?_
  intro n y hy
  rcases holder_update hy with ⟨rfl, rfl⟩ | ⟨-, hn⟩
  · have hp := h.plain _ _ hi
    exact ⟨hp, _, hi⟩
  · exact h.calls n y hn

theorem Rooted.waits {l : Life} {t : TaskLife} (h : Rooted l) (ht : l.task = some t) (hns : t.status ≠ .skipped)
    (f : JobLife → JobLife) : Rooted { l with task := some t.waiting, job := l.job.map f } := by
  refine h.of_rows Option.map_eq_none_iff.mp (fun hn => by cases hn) ?_ h.calls
  intro t' ht'
  cases ht'
  exact ⟨fun hj => absurd (h.task t ht hj) hns, by simp [TaskLife.waiting]⟩

theorem Rooted.step {l l' : Life} {k : Kind} (h : Rooted l) (hs : Step l k l') : Rooted l' := by
  cases hs with
  | quiet => exact h
  | create hj ht hsn =>
    refine ⟨?_, ?_, h.status, h.plain⟩
    · intro t _ hj'
      cases hj'
    · intro i x hx
      exact absurd hj (h.held i x hx).1
  | add hj ht hu => exact h.add hj hu
  | skip hj ht hu => exact h.skip hu
  | claim ht hq hi hx hd htok => exact h.claim ht hq hx
  | advance hi hm => exact h.setStage hi (moves_plain hm)
  | precheck hi hx =>
    exact h.of_rows id Option.map_eq_none_iff.mp (h.task_map (prechecked_status _))
      (h.held_setStage hi trivial)
  | start hi hx hd hj hq =>
    exact h.of_rows (fun hn => by cases hn) id h.rows (h.held_setStage hi trivial)
  | commit hi hx hd hj hr hsn =>
    exact h.of_rows (fun hn => by cases hn) id h.rows (h.held_setStage hi trivial)
  | fail hi hx =>
    exact h.of_rows Option.map_eq_none_iff.mp id h.rows (h.held_setStage hi trivial)
  | look hi hx hj => exact h.setStage hi trivial
  | lost hi hx hj => exact h.setStage hi trivial
  | pauseOther hi hx => exact h.setStage hi (failureClosing_plain _ _ _)
  | pauseOwn hi hx =>
    exact (h.superseded (.inr rfl)).setStage hi (failureClosing_plain _ _ _)
  | close hi hx ht htok => exact h.close hi hx
  | refused hi hx hr => exact h.setStage hi trivial
  | leave hi hx =>
    refine h.of_rows id id h.rows ?_
    intro n y hy
    exact h.calls n y (holder_removed hy).2
  | timeout hi => exact h.timeout hi
  | interrupt ctx =>
    refine h.of_rows id id h.rows ?_
    intro n y hy
    obtain ⟨x, hx, rfl⟩ := Option.map_eq_some_iff.mp hy
    exact ⟨h.plain n x hx, x, hx⟩
  | cancelRow k =>
    exact h.of_rows id Option.map_eq_none_iff.mp (h.task_map (ended_status (.inl rfl))) h.calls
  | cancelJob hk => exact h.of_rows Option.map_eq_none_iff.mp id h.rows h.calls
  | hangUp k => exact h.of_rows id id h.rows h.calls
  | supersede hst => exact h.superseded hst
  | undo ht => exact h.of_rows Option.map_eq_none_iff.mp id h.rows h.calls
  | reset ht hr =>
    refine h.waits ht (fun hskip => ?_) _
    rw [hskip] at hr
    exact absurd hr (by decide)
  | requeue ht hr =>
    refine h.waits ht (fun hskip => ?_) _
    rw [hskip] at hr
    exact absurd hr (by decide)
  | crash =>
    refine h.of_rows id id h.rows ?_
    intro n y hy
    cases hy

end Life

end AppBackup.Queue
