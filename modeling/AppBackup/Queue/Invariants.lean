import AppBackup.Queue.Life

/- What is kept by every step of a life: a job that succeeded has one snapshot
   (`Recorded`), and only a task in progress has a token (`Leased`). While no recovery
   takes the lease of a live call, `Base` holds too: one call at most is live, its task is
   in progress under its token, and its job is where its stage says.

   Each invariant is a structure with a lemma for each kind of step that can touch it, named
   after the step, and one `step` lemma that puts them together:
     1. `Recorded.step`, `Leased.step` -- unconditional;
     2. `Base.step` -- where the step takes no live call's lease (`LeaseKept`). -/
namespace AppBackup.Queue
open Persistence

namespace Life

/-! ## The rows a guarded update leaves -/

/-- An update of the job that is not for a job that succeeded. -/
theorem job_moved {job : Option JobLife} {guard : JobStatus → Bool} {status status' : JobStatus}
    {id : String} (hne : status' ≠ status)
    (h : job.map (·.moved guard status) = some ⟨status', id⟩) :
    job = some ⟨status', id⟩ ∧ guard status' = false := by
  obtain ⟨j, hj, hm⟩ := Option.map_eq_some_iff.mp h
  unfold JobLife.moved at hm
  split at hm
  · cases hm
    exact absurd rfl hne
  · next hg =>
    subst hm
    exact ⟨hj, by simpa using hg⟩

theorem job_closed {job : Option JobLife} {c : Closing} {status' : JobStatus} {id : String}
    (hne : status' ≠ .queued) (h : job.map (·.closed c) = some ⟨status', id⟩) :
    job = some ⟨status', id⟩ := by
  cases c with
  | retry => exact (@job_moved job (· == .failed) _ _ _ hne h).1
  | complete => simpa [JobLife.closed] using h
  | finish => simpa [JobLife.closed] using h

theorem job_kept {job : Option JobLife} {guard : JobStatus → Bool} {status status' : JobStatus}
    {id : String} (hj : job = some ⟨status', id⟩) (hg : guard status' = false) :
    job.map (·.moved guard status) = some ⟨status', id⟩ := by
  rw [hj]
  simp [JobLife.moved, hg]

theorem succeeded_moved {job : Option JobLife} {guard : JobStatus → Bool} {status : JobStatus}
    {id : String} (hg : guard .succeeded = false) (hs : status ≠ .succeeded) :
    job.map (·.moved guard status) = some ⟨.succeeded, id⟩ ↔ job = some ⟨.succeeded, id⟩ := by
  constructor
  · intro h
    exact (job_moved hs.symm h).1
  · intro h
    exact job_kept h hg

theorem succeeded_closed {job : Option JobLife} {id : String} (c : Closing) :
    job.map (·.closed c) = some ⟨.succeeded, id⟩ ↔ job = some ⟨.succeeded, id⟩ := by
  cases c with
  | retry => exact @succeeded_moved job (· == .failed) .queued id rfl (by decide)
  | complete => simp [JobLife.closed]
  | finish => simp [JobLife.closed]

/-! ## Snapshots -/

/-- The job has its snapshot. -/
def Done (l : Life) : Prop := ∃ id, l.job = some ⟨.succeeded, id⟩

/-- A job has a snapshot exactly when it has succeeded, and names it; a call past
`CommitSnapshot` closes its task with that one. -/
structure Recorded (l : Life) : Prop where
  named : ∀ id, l.job = some ⟨.succeeded, id⟩ → l.snapshots = [id]
  done : l.snapshots ≠ [] → l.Done
  committed : ∀ i x, l.holder i = some x → x.stage.committed = true → ∃ id,
    l.job = some ⟨.succeeded, id⟩ ∧ ∀ id' now, x.stage = .closing (.complete id' now) → id' = id

/-- The job has succeeded when it had, and no call passes `CommitSnapshot`. -/
theorem Recorded.of_kept {l l' : Life} (h : Recorded l)
    (hjob : ∀ id, l'.job = some ⟨.succeeded, id⟩ ↔ l.job = some ⟨.succeeded, id⟩)
    (hs : l'.snapshots = l.snapshots)
    (hheld : ∀ n y, l'.holder n = some y → y.stage.committed = true → ∃ x,
      l.holder n = some x ∧ x.stage.committed = true ∧
        ∀ id now, y.stage = .closing (.complete id now) →
          x.stage = y.stage ∨ ∃ j, l.job = some j ∧ j.snapshotId = id) : Recorded l' := by
  refine ⟨?_, ?_, ?_⟩
  · intro id hid
    rw [hs]
    exact h.named id ((hjob id).mp hid)
  · intro hn
    rw [hs] at hn
    obtain ⟨id, hid⟩ := h.done hn
    exact ⟨id, (hjob id).mpr hid⟩
  · intro n y hy hc
    obtain ⟨x, hx, hxc, hclose⟩ := hheld n y hy hc
    obtain ⟨id, hid, hall⟩ := h.committed n x hx hxc
    refine ⟨id, (hjob id).mpr hid, ?_⟩
    intro id' now hy'
    rcases hclose id' now hy' with hsame | ⟨j, hj, hj'⟩
    · exact hall id' now (hsame.trans hy')
    · rw [hid] at hj
      cases hj
      exact hj'.symm

theorem Recorded.of_stage {l l' : Life} {i : Nat} {x : Execution} {stage : Stage} (h : Recorded l)
    (hi : l.holder i = some x) (hh : l'.holder = Function.update l.holder i (some { x with stage := stage }))
    (hjob : ∀ id, l'.job = some ⟨.succeeded, id⟩ ↔ l.job = some ⟨.succeeded, id⟩)
    (hs : l'.snapshots = l.snapshots)
    (hc : stage.committed = true → x.stage.committed = true ∧
      ∀ id now, stage = .closing (.complete id now) → ∃ j, l.job = some j ∧ j.snapshotId = id) :
    Recorded l' := by
  refine h.of_kept hjob hs ?_
  intro n y hy hy'
  rw [hh] at hy
  rcases holder_update hy with ⟨rfl, rfl⟩ | ⟨-, hn⟩
  · obtain ⟨hxc, hclose⟩ := hc hy'
    exact ⟨x, hi, hxc, fun id now he => .inr (hclose id now he)⟩
  · exact ⟨y, hn, hy', fun _ _ _ => .inl rfl⟩

theorem failureClosing_quiet (x : Execution) (err : GoError) (now : Time) :
    (Stage.closing (x.failureClosing err now)).during = false ∧
      (Stage.closing (x.failureClosing err now)).committed = false := by
  unfold Execution.failureClosing
  simp only
  split <;> exact ⟨rfl, rfl⟩

theorem afterReturn_quiet (x : Execution) (now : Time) (err : Option GoError) :
    (x.afterReturn now err).during = false ∧
      ((x.afterReturn now err).committed = true → err = none ∧ x.afterReturn now err = .looking now) := by
  cases err with
  | none => exact ⟨rfl, fun _ => ⟨rfl, rfl⟩⟩
  | some err =>
    unfold Execution.afterReturn
    simp only
    split
    · exact ⟨rfl, fun hc => by cases hc⟩
    · split
      · exact ⟨rfl, fun hc => by cases hc⟩
      · obtain ⟨hd, hc⟩ := failureClosing_quiet x err now
        refine ⟨hd, fun hc' => ?_⟩
        rw [hc] at hc'
        cases hc'

/-- A stage after a statement without a write has committed only if it had. -/
theorem moves_quiet_stage {x : Execution} {stage : Stage} (hm : x.Moves stage)
    (hc : stage.committed = true) : x.stage.committed = true ∧
      ∀ id now, stage ≠ .closing (.complete id now) := by
  cases hm with
  | settled hx now =>
    rename_i err
    obtain ⟨rfl, hlook⟩ := (afterReturn_quiet x now err).2 hc
    refine ⟨by rw [hx]; rfl, ?_⟩
    intro id now' he
    rw [hlook] at he
    cases he
  | register | unread | read | unstarted | broken | validated => cases hc

theorem Recorded.step {l l' : Life} {k : Kind} (h : Recorded l) (hs : Step l k l') :
    Recorded l' := by
  have hkeep : ∀ n y, l.holder n = some y → y.stage.committed = true → ∃ x,
      l.holder n = some x ∧ x.stage.committed = true ∧
        ∀ id now, y.stage = .closing (.complete id now) →
          x.stage = y.stage ∨ ∃ j, l.job = some j ∧ j.snapshotId = id := by
    intro n y hy hc
    exact ⟨y, hy, hc, fun _ _ _ => .inl rfl⟩
  have hsame : ∀ id, l.job = some ⟨.succeeded, id⟩ ↔ l.job = some ⟨.succeeded, id⟩ := fun _ => Iff.rfl
  cases hs with
  | quiet | add | skip | cancelRow | hangUp => exact h.of_kept hsame rfl hkeep
  | create hj ht hsn =>
    refine h.of_kept ?_ rfl hkeep
    intro id
    rw [hj]
    exact iff_of_false (by simp) (by simp)
  | claim ht hq hi hx hd htok =>
    refine h.of_kept hsame rfl ?_
    intro n y hy hc
    rcases holder_update hy with ⟨-, rfl⟩ | ⟨-, hn⟩
    · rw [hx] at hc
      cases hc
    · exact hkeep n y hn hc
  | advance hi hm =>
    refine h.of_stage hi rfl hsame rfl ?_
    intro hc
    obtain ⟨hxc, hno⟩ := moves_quiet_stage hm hc
    exact ⟨hxc, fun id now he => absurd he (hno id now)⟩
  | precheck hi hx => exact h.of_stage hi rfl hsame rfl (fun hc => by cases hc)
  -- a job that is started had not succeeded, nor has it now
  | start hi hx hd hj hq =>
    refine h.of_stage hi rfl ?_ rfl (fun hc => by cases hc)
    intro id
    refine iff_of_false ?_ ?_
    · intro hid
      cases hid
    · intro hid
      rw [hj] at hid
      cases hid
      cases hq
  | commit hi hx hd hj hrun hsn =>
    rename_i i x job j id
    refine ⟨?_, fun _ => ⟨id, rfl⟩, ?_⟩
    · intro id' hid'
      cases hid'
      rfl
    · intro n y hy hc
      refine ⟨id, rfl, ?_⟩
      intro id' now he
      rcases holder_update hy with ⟨-, rfl⟩ | ⟨-, hn⟩
      · cases he
      · -- another call past its commit would have the job done already
        obtain ⟨id₀, hid₀, -⟩ := h.committed n y hn hc
        rw [hj] at hid₀
        cases hid₀
        cases hrun
  | fail hi hx =>
    exact h.of_stage hi rfl (fun _ => succeeded_moved rfl (by decide)) rfl (fun hc => by cases hc)
  -- the snapshot that a call reads off the job is the one it will report
  | look hi hx hj =>
    rename_i i x j now
    refine h.of_stage hi rfl hsame rfl ?_
    intro _
    refine ⟨by rw [hx]; rfl, ?_⟩
    intro id now' he
    cases he
    exact ⟨j, hj, rfl⟩
  | lost hi hx hj => exact h.of_stage hi rfl hsame rfl (fun hc => by cases hc)
  | pauseOther hi hx =>
    refine h.of_stage hi rfl hsame rfl ?_
    intro hc
    rw [(failureClosing_quiet _ _ _).2] at hc
    cases hc
  | pauseOwn hi hx =>
    refine h.of_stage hi rfl (fun _ => succeeded_moved rfl (by decide)) rfl ?_
    intro hc
    rw [(failureClosing_quiet _ _ _).2] at hc
    cases hc
  | close hi hx ht htok =>
    exact h.of_stage hi rfl (fun _ => succeeded_closed _) rfl (fun hc => by cases hc)
  | refused hi hx hr => exact h.of_stage hi rfl hsame rfl (fun hc => by cases hc)
  | leave hi hx =>
    refine h.of_kept hsame rfl ?_
    intro n y hy hc
    exact hkeep n y (holder_removed hy).2 hc
  | timeout hi =>
    refine h.of_kept hsame rfl ?_
    intro n y hy hc
    rcases holder_update hy with ⟨rfl, rfl⟩ | ⟨-, hn⟩
    · exact ⟨_, hi, hc, fun _ _ _ => .inl rfl⟩
    · exact hkeep n y hn hc
  | interrupt ctx =>
    refine h.of_kept hsame rfl ?_
    intro n y hy hc
    obtain ⟨x, hx, rfl⟩ := Option.map_eq_some_iff.mp hy
    exact ⟨x, hx, hc, fun _ _ _ => .inl rfl⟩
  | cancelJob | supersede => exact h.of_kept (fun _ => succeeded_moved rfl (by decide)) rfl hkeep
  | undo ht => exact h.of_kept (fun _ => succeeded_moved rfl (by decide)) rfl hkeep
  | reset ht hr => exact h.of_kept (fun _ => succeeded_moved rfl (by decide)) rfl hkeep
  | requeue ht hr => exact h.of_kept (fun _ => succeeded_moved rfl (by decide)) rfl hkeep
  | crash =>
    refine h.of_kept hsame rfl ?_
    intro n y hy
    cases hy

/-! ## Tokens -/

/-- A task that is not in progress has no token, and a call has one. -/
structure Leased (l : Life) : Prop where
  idle : ∀ t, l.task = some t → t.status.inProgress = false → t.token = ""
  held : ∀ i x, l.holder i = some x → x.token ≠ ""

theorem Leased.of_kept {l l' : Life} (h : Leased l)
    (ht : ∀ t', l'.task = some t' → t'.status.inProgress = false →
      t'.token = "" ∨ ∃ t, l.task = some t ∧ t.status.inProgress = false ∧ t'.token = t.token)
    (hh : ∀ n y, l'.holder n = some y → ∃ x, l.holder n = some x ∧ y.token = x.token) : Leased l' := by
  refine ⟨?_, ?_⟩
  · intro t' ht' hp
    rcases ht t' ht' hp with hnone | ⟨t, htask, hidle, htok⟩
    · exact hnone
    · rw [htok]
      exact h.idle t htask hidle
  · intro n y hy
    obtain ⟨x, hx, htok⟩ := hh n y hy
    rw [htok]
    exact h.held n x hx

theorem ended_inProgress {t : TaskLife} {status : TaskStatus}
    (h : (t.ended status).status.inProgress = false) :
    t.status.inProgress = false ∧ (t.ended status).token = t.token := by
  revert h
  unfold TaskLife.ended
  by_cases hq : t.status = .queued
  · rw [if_pos hq, hq]
    intro _
    exact ⟨rfl, rfl⟩
  · rw [if_neg hq]
    intro h
    exact ⟨h, rfl⟩

theorem prechecked_inProgress {t : TaskLife} {x : Execution}
    (h : (t.prechecked x).status.inProgress = false) :
    t.status.inProgress = false ∧ (t.prechecked x).token = t.token := by
  revert h
  unfold TaskLife.prechecked
  split
  · intro h
    cases h
  · intro h
    exact ⟨h, rfl⟩

theorem Leased.step {l l' : Life} {k : Kind} (h : Leased l) (hs : Step l k l') : Leased l' := by
  have hrow : ∀ t', l.task = some t' → t'.status.inProgress = false →
      t'.token = "" ∨ ∃ t, l.task = some t ∧ t.status.inProgress = false ∧ t'.token = t.token := by
    intro t ht hp
    exact .inr ⟨t, ht, hp, rfl⟩
  have hmap : ∀ f : TaskLife → TaskLife, (∀ t, (f t).status.inProgress = false →
      t.status.inProgress = false ∧ (f t).token = t.token) →
      ∀ t', l.task.map f = some t' → t'.status.inProgress = false →
        t'.token = "" ∨ ∃ t, l.task = some t ∧ t.status.inProgress = false ∧ t'.token = t.token := by
    intro f hf t' ht' hp
    obtain ⟨t, ht, rfl⟩ := Option.map_eq_some_iff.mp ht'
    exact .inr ⟨t, ht, hf t hp⟩
  have hcall : ∀ n y, l.holder n = some y → ∃ x, l.holder n = some x ∧ y.token = x.token := by
    intro n y hy
    exact ⟨y, hy, rfl⟩
  have hstage : ∀ {i x stage}, l.holder i = some x → ∀ n y,
      Function.update l.holder i (some { x with stage := stage }) n = some y →
        ∃ x₀, l.holder n = some x₀ ∧ y.token = x₀.token := by
    intro i x stage hi n y hy
    rcases holder_update hy with ⟨rfl, rfl⟩ | ⟨-, hn⟩
    · exact ⟨x, hi, rfl⟩
    · exact hcall n y hn
  cases hs with
  | quiet | create | cancelJob | hangUp | undo => exact h.of_kept hrow hcall
  | advance hi | start hi | commit hi | fail hi | look hi | lost hi | pauseOther hi | refused hi =>
    exact h.of_kept hrow (hstage hi)
  | precheck hi hx => exact h.of_kept (hmap _ (fun _ => prechecked_inProgress)) (hstage hi)
  | pauseOwn hi hx => exact h.of_kept (hmap _ (fun _ => ended_inProgress)) (hstage hi)
  | cancelRow k => exact h.of_kept (hmap _ (fun _ => ended_inProgress)) hcall
  | supersede hst => exact h.of_kept (hmap _ (fun _ => ended_inProgress)) hcall
  | add hj ht hu | skip hj ht hu =>
    refine h.of_kept ?_ hcall
    intro t' ht' _
    cases ht'
    exact .inl rfl
  -- the one step that hands out a token; it is not empty
  | claim ht hq hi hx hd htok =>
    refine ⟨?_, ?_⟩
    · intro t' ht' hp
      cases ht'
      cases hp
    · intro n y hy
      rcases holder_update hy with ⟨-, rfl⟩ | ⟨-, hn⟩
      · exact htok
      · exact h.held n y hn
  -- what ends a lease clears the token
  | close hi hx ht htok =>
    rename_i i x c t
    refine h.of_kept ?_ (hstage hi)
    intro t' ht' _
    cases ht'
    cases c <;> exact .inl rfl
  | reset ht hr | requeue ht hr =>
    refine h.of_kept ?_ hcall
    intro t' ht' _
    cases ht'
    exact .inl rfl
  | leave hi hx =>
    refine h.of_kept hrow ?_
    intro n y hy
    exact hcall n y (holder_removed hy).2
  | timeout hi =>
    refine h.of_kept hrow ?_
    intro n y hy
    rcases holder_update hy with ⟨rfl, rfl⟩ | ⟨-, hn⟩
    · exact ⟨_, hi, rfl⟩
    · exact hcall n y hn
  | interrupt ctx =>
    refine h.of_kept hrow ?_
    intro n y hy
    obtain ⟨x, hx, rfl⟩ := Option.map_eq_some_iff.mp hy
    exact ⟨x, hx, rfl⟩
  | crash =>
    refine h.of_kept hrow ?_
    intro n y hy
    cases hy

theorem Leased.inProgress {l : Life} (h : Leased l) {i : Nat} {x : Execution} {t : TaskLife}
    (hi : l.holder i = some x) (ht : l.task = some t) (htok : x.token = t.token) :
    t.status.inProgress = true := by
  by_contra hp
  exact h.held i x hi (htok.trans (h.idle t ht (by simpa using hp)))

/-! ## What holds while leases are kept -/

/-- A live call has its task's lease, and the job runs when its stage says so. -/
structure Held (l : Life) (x : Execution) : Prop where
  task : ∃ t, l.task = some t ∧ t.status.inProgress = true ∧ t.token = x.token
  running : x.stage.during = true ↔ ∃ id, l.job = some ⟨.running, id⟩

structure Base (l : Life) : Prop where
  held : ∀ i x, l.holder i = some x → x.stage.live = true → Held l x
  single : ∀ i i' x x', l.holder i = some x → l.holder i' = some x' → x.stage.live = true →
    x'.stage.live = true → i = i'
  running : ∀ id, l.job = some ⟨.running, id⟩ → ∃ t, l.task = some t ∧ t.status.inProgress = true

/-- `RequeueExpiredTasks` takes no lease from a live call. -/
def LeaseKept (l : Life) (k : Kind) : Prop :=
  k = .requeue → ∀ i x t, l.holder i = some x → x.stage.live = true → l.task = some t →
    x.token ≠ t.token

/-! ### Steps by shape -/

theorem Base.of_holder {l l' : Life} (h : Base l) (ht : l'.task = l.task) (hj : l'.job = l.job)
    (hh : ∀ n y, l'.holder n = some y → y.stage.live = true →
      Held l y ∧ ∃ x₀, l.holder n = some x₀ ∧ x₀.stage.live = true) : Base l' := by
  refine ⟨?_, ?_, ?_⟩
  · intro n y hy hlive
    obtain ⟨⟨htask, hrun⟩, -⟩ := hh n y hy hlive
    exact ⟨ht ▸ htask, hj ▸ hrun⟩
  · intro n n' y y' hy hy' hlive hlive'
    obtain ⟨-, x, hx, hxl⟩ := hh n y hy hlive
    obtain ⟨-, x', hx', hxl'⟩ := hh n' y' hy' hlive'
    exact h.single n n' x x' hx hx' hxl hxl'
  · rw [ht, hj]
    exact h.running

theorem Base.withSweep {l : Life} (h : Base l) (sweep : Nat → Bool) :
    Base { l with sweep := sweep } := by
  refine h.of_holder rfl rfl ?_
  intro n y hy hlive
  exact ⟨h.held n y hy hlive, y, hy, hlive⟩

theorem Base.setStage {l : Life} {i : Nat} {x : Execution} {stage : Stage} (h : Base l)
    (hi : l.holder i = some x) (hx : x.stage.live = true) (hd : stage.during = x.stage.during) :
    Base (l.setStage i x stage) := by
  refine h.of_holder rfl rfl ?_
  intro n y hy hlive
  rcases holder_update hy with ⟨rfl, rfl⟩ | ⟨-, hn⟩
  · have hheld := h.held _ x hi hx
    refine ⟨⟨hheld.task, ?_⟩, x, hi, hx⟩
    exact hd ▸ hheld.running
  · exact ⟨h.held n y hn hlive, y, hn, hlive⟩

theorem Base.of_one {l : Life} (i : Nat)
    (hone : ∀ n y, l.holder n = some y → y.stage.live = true → n = i ∧ Held l y)
    (hrun : ∀ id, l.job = some ⟨.running, id⟩ → ∃ t, l.task = some t ∧ t.status.inProgress = true) :
    Base l := by
  refine ⟨?_, ?_, hrun⟩
  · intro n y hy hlive
    exact (hone n y hy hlive).2
  · intro n n' y y' hy hy' hlive hlive'
    rw [(hone n y hy hlive).1, (hone n' y' hy' hlive').1]

/-- The call that is live moves on and takes the rows with it. -/
theorem Base.of_mover {l l' : Life} {i : Nat} {x x' : Execution} (h : Base l)
    (hi : l.holder i = some x) (hx : x.stage.live = true)
    (hh : l'.holder = Function.update l.holder i (some x'))
    (hheld : x'.stage.live = true → Held l' x')
    (hrun : ∀ id, l'.job = some ⟨.running, id⟩ → ∃ t, l'.task = some t ∧ t.status.inProgress = true) :
    Base l' := by
  refine Base.of_one i ?_ hrun
  intro n y hy hlive
  rw [hh] at hy
  rcases holder_update hy with ⟨rfl, rfl⟩ | ⟨hne, hn⟩
  · exact ⟨rfl, hheld hlive⟩
  · exact absurd (h.single n i y x hn hi hlive hx) hne

theorem Base.free {l : Life} (h : Base l) {t : TaskLife} (ht : l.task = some t)
    (hp : t.status.inProgress = false) (n : Nat) (y : Execution) (hy : l.holder n = some y) :
    y.stage.live = false := by
  by_contra hlive
  obtain ⟨t', ht', hp', -⟩ := (h.held n y hy (by simpa using hlive)).task
  rw [ht] at ht'
  cases ht'
  rw [hp] at hp'
  cases hp'

/-- A waiting job that fails is no live call's concern. -/
theorem Base.jobFails {l : Life} (h : Base l) :
    Base { l with job := l.job.map (·.moved (· == .queued) .failed) } := by
  refine ⟨?_, h.single, ?_⟩
  · intro n y hy hlive
    have hheld := h.held n y hy hlive
    refine ⟨hheld.task, ?_⟩
    rw [hheld.running]
    constructor
    · intro ⟨id, hid⟩
      exact ⟨id, job_kept hid rfl⟩
    · intro ⟨id, hid⟩
      exact ⟨id, (job_moved (by decide) hid).1⟩
  · intro id hid
    exact h.running id (job_moved (by decide) hid).1

theorem ended_kept {t : TaskLife} (status : TaskStatus) (hp : t.status.inProgress = true) :
    t.ended status = t := by
  unfold TaskLife.ended
  rw [if_neg]
  intro hq
  rw [hq] at hp
  cases hp

/-- So is a waiting task that is ended. -/
theorem Base.taskEnds {l : Life} (h : Base l) (status : TaskStatus) :
    Base { l with task := l.task.map (·.ended status) } := by
  have hkept : ∀ t, l.task = some t → t.status.inProgress = true →
      l.task.map (·.ended status) = some t := by
    intro t ht hp
    rw [ht, Option.map_some, ended_kept status hp]
  refine ⟨?_, h.single, ?_⟩
  · intro n y hy hlive
    have hheld := h.held n y hy hlive
    obtain ⟨t, ht, hp, htok⟩ := hheld.task
    exact ⟨⟨t, hkept t ht hp, hp, htok⟩, hheld.running⟩
  · intro id hid
    obtain ⟨t, ht, hp⟩ := h.running id hid
    exact ⟨t, hkept t ht hp, hp⟩

theorem Base.superseded {l : Life} (h : Base l) (status : TaskStatus) :
    Base (l.superseded status) := (h.taskEnds status).jobFails

/-! ### Every step -/

theorem Base.advance {l : Life} {i : Nat} {x : Execution} {stage : Stage} (h : Base l)
    (hi : l.holder i = some x) (hm : x.Moves stage) : Base (l.setStage i x stage) := by
  cases hm with
  | settled hx now =>
    refine h.setStage hi (by rw [hx]; rfl) ?_
    rw [(afterReturn_quiet x now _).1, hx]
    rfl
  | register hx | unread hx | read hx | unstarted hx | broken hx | validated hx =>
    exact h.setStage hi (by rw [hx]; rfl) (by rw [hx]; rfl)

theorem Base.add {l : Life} (h : Base l) (ht : l.task = none) (hu : l.Unheld) :
    Base { l with task := some ⟨.queued, "", ""⟩ } := by
  refine Base.of_one 0 ?_ ?_
  · intro n y hy _
    exact absurd ((hu.1 n).symm.trans hy) (by simp)
  · intro id hid
    obtain ⟨t, ht', -⟩ := h.running id hid
    rw [ht] at ht'
    cases ht'

theorem Base.claim {l : Life} {t : TaskLife} {i : Nat} {x : Execution} (h : Base l) (ht : l.task = some t)
    (hq : t.status = .queued) (hx : x.stage = .entered) :
    Base { l with
      task := some { t with status := .leased, token := x.token }
      holder := Function.update l.holder i (some x) } := by
  have hwait : t.status.inProgress = false := by rw [hq]; rfl
  have hrun : ∀ id, l.job ≠ some ⟨.running, id⟩ := by
    intro id hid
    obtain ⟨t', ht', hp⟩ := h.running id hid
    rw [ht] at ht'
    cases ht'
    rw [hwait] at hp
    cases hp
  refine Base.of_one i ?_ ?_
  · intro n y hy hlive
    rcases holder_update hy with ⟨rfl, rfl⟩ | ⟨-, hn⟩
    · refine ⟨rfl, ⟨_, rfl, rfl, rfl⟩, ?_⟩
      rw [hx]
      exact iff_of_false (by simp [Stage.during]) (fun ⟨id, hid⟩ => hrun id hid)
    · rw [h.free ht hwait n y hn] at hlive
      cases hlive
  · intro id hid
    exact absurd hid (hrun id)

theorem Base.precheck {l : Life} {i : Nat} {x : Execution} (h : Base l) (hi : l.holder i = some x)
    (hx : x.stage = .registered) :
    Base (Life.setStage { l with task := l.task.map (·.prechecked x) } i x .reading) := by
  have hlive : x.stage.live = true := by rw [hx]; rfl
  have hheld := h.held i x hi hlive
  obtain ⟨t, ht, hp, htok⟩ := hheld.task
  -- whether or not the update goes through, the task is in progress under the token
  have ht' : ∃ t', l.task.map (·.prechecked x) = some t' ∧ t'.status.inProgress = true ∧
      t'.token = x.token := by
    rw [ht]
    refine ⟨t.prechecked x, rfl, ?_⟩
    unfold TaskLife.prechecked
    split
    · exact ⟨rfl, htok⟩
    · exact ⟨hp, htok⟩
  refine h.of_mover hi hlive rfl ?_ ?_
  · intro _
    refine ⟨ht', ?_⟩
    refine Iff.trans ?_ hheld.running
    rw [hx]
    exact Iff.rfl
  · intro id _
    obtain ⟨t', ht', hp', -⟩ := ht'
    exact ⟨t', ht', hp'⟩

theorem Base.start {l : Life} {i : Nat} {x : Execution} {job job' : BackupJob} {j : JobLife}
    (h : Base l) (hi : l.holder i = some x) (hx : x.stage = .starting job) :
    Base (Life.setStage { l with job := some { j with status := .running } } i x (.running job')) := by
  have hlive : x.stage.live = true := by rw [hx]; rfl
  have hheld := h.held i x hi hlive
  refine h.of_mover hi hlive rfl ?_ ?_
  · intro _
    exact ⟨hheld.task, iff_of_true rfl ⟨j.snapshotId, rfl⟩⟩
  · intro id _
    obtain ⟨t, ht, hp, -⟩ := hheld.task
    exact ⟨t, ht, hp⟩

theorem Base.commit {l : Life} {i : Nat} {x : Execution} {job : BackupJob} {id : String} (h : Base l)
    (hi : l.holder i = some x) (hx : x.stage = .running job) :
    Base (Life.setStage { l with job := some ⟨.succeeded, id⟩, snapshots := [id] } i x (.returned none)) := by
  have hlive : x.stage.live = true := by rw [hx]; rfl
  have hheld := h.held i x hi hlive
  refine h.of_mover hi hlive rfl ?_ ?_
  · intro _
    refine ⟨hheld.task, iff_of_false (by simp [Stage.during]) ?_⟩
    intro ⟨id', hid'⟩
    cases hid'
  · intro id' hid'
    cases hid'

theorem Base.fail {l : Life} {i : Nat} {x : Execution} {err : GoError} (h : Base l) (hi : l.holder i = some x)
    (hx : x.stage = .failing err) :
    Base (Life.setStage { l with job := l.job.map (·.moved (·.active) .failed) } i x (.returned (some err))) := by
  have hlive : x.stage.live = true := by rw [hx]; rfl
  have hheld := h.held i x hi hlive
  have hstill : ∀ id, l.job.map (·.moved (·.active) .failed) ≠ some ⟨.running, id⟩ := by
    intro id hid
    have hg := (job_moved (by decide) hid).2
    cases hg
  refine h.of_mover hi hlive rfl ?_ ?_
  · intro _
    refine ⟨hheld.task, iff_of_false (by simp [Stage.during]) ?_⟩
    intro ⟨id, hid⟩
    exact hstill id hid
  · intro id hid
    exact absurd hid (hstill id)

theorem Base.close {l : Life} {i : Nat} {x : Execution} {c : Closing} {t : TaskLife} (h : Base l)
    (hi : l.holder i = some x) (hx : x.stage = .closing c) :
    Base (Life.setStage { l with task := some (t.closed c), job := l.job.map (·.closed c) } i x .leaving) := by
  have hlive : x.stage.live = true := by rw [hx]; rfl
  have hheld := h.held i x hi hlive
  have hstill : ∀ id, l.job ≠ some ⟨.running, id⟩ := by
    intro id hid
    have hd := hheld.running.mpr ⟨id, hid⟩
    rw [hx] at hd
    cases hd
  refine h.of_mover hi hlive rfl (fun hl => by cases hl) ?_
  intro id hid
  exact absurd (job_closed (by decide) hid) (hstill id)

theorem Base.timeout {l : Life} {i : Nat} {x : Execution} (h : Base l) (hi : l.holder i = some x) :
    Base { l with holder := Function.update l.holder i (some x.timedOut) } := by
  refine h.of_holder rfl rfl ?_
  intro n y hy hlive
  rcases holder_update hy with ⟨rfl, rfl⟩ | ⟨-, hn⟩
  · have hheld := h.held _ x hi hlive
    exact ⟨⟨hheld.task, hheld.running⟩, x, hi, hlive⟩
  · exact ⟨h.held n y hn hlive, y, hn, hlive⟩

theorem Base.undo {l : Life} (hr : Rooted l) (ht : l.task = none) :
    Base { l with job := l.job.map (·.moved (·.active) .failed) } := by
  refine Base.of_one 0 ?_ ?_
  · intro n y hy _
    exact absurd ht (hr.held n y hy).2
  · intro id hid
    have hg := (job_moved (by decide) hid).2
    cases hg

theorem Base.reset {l : Life} {t : TaskLife} (h : Base l) (ht : l.task = some t)
    (hres : resettable.contains t.status = true) :
    Base { l with task := some t.waiting, job := l.job.map (·.moved (· == .failed) .queued) } := by
  have hended : t.status.inProgress = false := by
    revert hres
    cases t.status <;> decide
  refine Base.of_one 0 ?_ ?_
  · intro n y hy hlive
    rw [h.free ht hended n y hy] at hlive
    cases hlive
  · intro id hid
    obtain ⟨t', ht', hp⟩ := h.running id (job_moved (by decide) hid).1
    rw [ht] at ht'
    cases ht'
    rw [hended] at hp
    cases hp

theorem Base.requeue {l : Life} {t : TaskLife} (h : Base l) (hk : LeaseKept l .requeue) :
    Base { l with task := some t.waiting, job := l.job.map (·.moved (· == .running) .queued) } := by
  refine Base.of_one 0 ?_ ?_
  · intro n y hy hlive
    -- a live call would have the lease that was taken
    obtain ⟨t', ht', -, htok⟩ := (h.held n y hy hlive).task
    exact absurd htok.symm (hk rfl n y t' hy hlive ht')
  · intro id hid
    have hg := (job_moved (by decide) hid).2
    cases hg

theorem Base.step {l l' : Life} {k : Kind} (hr : Rooted l) (h : Base l) (hs : Step l k l')
    (hk : LeaseKept l k) : Base l' := by
  cases hs with
  | quiet => exact h
  -- before there is a job or a task no call is live
  | create hj ht hsn =>
    refine Base.of_one 0 ?_ ?_
    · intro n y hy _
      exact absurd hj (hr.held n y hy).1
    · intro id hid
      cases hid
  | add hj ht hu => exact h.add ht hu
  | skip hj ht hu =>
    refine Base.of_one 0 ?_ ?_
    · intro n y hy _
      exact absurd ((hu.1 n).symm.trans hy) (by simp)
    · intro id hid
      exact absurd (hj.symm.trans hid) (by simp)
  | claim ht hq hi hx hd htok => exact h.claim ht hq hx
  | advance hi hm => exact h.advance hi hm
  | precheck hi hx => exact h.precheck hi hx
  | start hi hx hd hj hq => exact h.start hi hx
  | commit hi hx hd hj hrun hsn => exact h.commit hi hx
  | fail hi hx => exact h.fail hi hx
  | look hi hx hj =>
    exact h.setStage hi (by rw [hx]; rfl) (by rw [hx]; rfl)
  | lost hi hx hj => exact absurd hj (hr.held _ _ hi).1
  | pauseOther hi hx =>
    refine h.setStage hi (by rw [hx]; rfl) ?_
    rw [(failureClosing_quiet _ _ _).1, hx]
    rfl
  | pauseOwn hi hx =>
    refine (h.superseded .skipped).setStage hi (by rw [hx]; rfl) ?_
    rw [(failureClosing_quiet _ _ _).1, hx]
    rfl
  | close hi hx ht htok => exact h.close hi hx
  -- a call that is refused is live no more, and the others stay
  | refused hi hx hrefused =>
    refine h.of_holder rfl rfl ?_
    intro n y hy hlive
    rcases holder_update hy with ⟨-, rfl⟩ | ⟨-, hn⟩
    · cases hlive
    · exact ⟨h.held n y hn hlive, y, hn, hlive⟩
  | leave hi hx =>
    refine h.of_holder rfl rfl ?_
    intro n y hy hlive
    have hn := (holder_removed hy).2
    exact ⟨h.held n y hn hlive, y, hn, hlive⟩
  | timeout hi => exact h.timeout hi
  | interrupt ctx =>
    refine h.of_holder rfl rfl ?_
    intro n y hy hlive
    obtain ⟨x, hx, rfl⟩ := Option.map_eq_some_iff.mp hy
    have hheld := h.held n x hx hlive
    exact ⟨⟨hheld.task, hheld.running⟩, x, hx, hlive⟩
  | cancelRow k => exact (h.taskEnds .cancelled).withSweep _
  | cancelJob hk' => exact h.jobFails.withSweep _
  | hangUp k => exact h.withSweep _
  | supersede hst => exact h.superseded _
  | undo ht => exact Base.undo hr ht
  | reset ht hres => exact h.reset ht hres
  | requeue ht hres => exact h.requeue hk
  | crash =>
    refine h.of_holder rfl rfl ?_
    intro n y hy
    cases hy

end Life

end AppBackup.Queue
