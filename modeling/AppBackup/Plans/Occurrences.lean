import AppBackup.Plans.Schedule

/- Is each occurrence of a plan accounted for exactly once? `RunDue` creates the batch of an
   occurrence, run or skipped, before it moves `next_run_at` on, the batch is unique by plan
   and time, and a batch that is there already counts as done; so a crash, a restart or a
   failed `RunPlan` in between repeats an occurrence and neither drops nor doubles it.

   One plan is followed, whose tenant and id are `u` and `p`. Of the database its scheduler
   depends on the plan's row and on the keys of its batches (`PlanView`); every other call
   leaves these alone, and the scheduler's own are followed from call to call.

   What is proved:
     1. what others do to the database is not seen by the plan's scheduler (`view_foreign`,
        `view_outside`);
     2. each of its own calls has an outline over that view: `runPlan_follows`,
        `handle_follows`, `runMissed_follows`, `tick_follows`. The outline holds at every
        statement, so a crash anywhere leaves what is accounted for;
     3. `accounts_run` -- over a run with crashes and restarts, every occurrence before the
        next time is accounted for, and no other;
     4. `occurrences_accounted` -- once ticks have moved it past the clock, every occurrence
        up to then has its one batch. -/
namespace AppBackup.Plans
open Persistence Queue Threads Threads.Thread Transition Table

/-- `Next` returns the least occurrence after the time it is given. -/
structure Cron.Least (cron : Cron) (occurs : String → String → Time → Prop) : Prop extends
    Cron.Sound cron occurs where
  least : ∀ e z t o, cron.parses e = true → cron.location z = none → occurs e z o → t < o →
    cron.next e z t ≤ o

/-! ## The database, the clock and the plan's history -/

/-- The database; the last time the scheduler read; the occurrences of the plan a batch was
asked for, each with the time of its tick; and the batches of the plan as they were
created. -/
structure Ledger where
  store : Store
  clock : Time
  handled : List (Int × Time)
  created : List BatchRow

namespace Ledger
variable (u p : String)

/-- What is written down of a batch that was asked for. -/
def record (l : Ledger) (batch : BackupBatch) : Ledger :=
  if batch.tenantUid = u ∧ batch.planId = p then
    { l with
      handled := l.handled ++ [(unix batch.scheduledAt, l.clock)]
      created :=
        match l.store.createBatch batch with
        | .ok _ => l.created ++ [batchRow batch]
        | .error _ => l.created }
  else l

def exec (c : Stmt) (l : Ledger) : c.Answer × Ledger :=
  ((c.exec l.store).1,
    match c with
    | .clock now => { l with clock := now }
    | .write (.createBatch batch) basis =>
      { l.record u p batch with store := ((Stmt.write (.createBatch batch) basis).exec l.store).2 }
    | c => { l with store := (c.exec l.store).2 })

def outside (l : Ledger) (e : Outside) : Ledger := { l with store := e.apply l.store }

end Ledger

/-- A batch key of the plan. -/
def keyOf (u p : String) (k : String × String × String × Int) : Bool := k.2.1 == u && k.2.2.1 == p

/-- The batch row of the plan for a time. -/
def batchAt (u p : String) (o : Int) (b : BatchRow) : Bool :=
  b.tenantUid == u && b.planId == p && b.scheduledAt == o

/-- What the plan's scheduler depends on. -/
structure PlanView where
  rows : List PlanRow
  keys : List (String × String × String × Int)
  clock : Time
  handled : List (Int × Time)
  created : List BatchRow

def Ledger.view (u p : String) (l : Ledger) : PlanView where
  rows := l.store.plans.filter (planIn u p)
  keys := (l.store.batches.map BatchRow.keys).filter (keyOf u p)
  clock := l.clock
  handled := l.handled
  created := l.created

/-! ## Calls that leave the plan alone -/

/-- The operation neither edits, pauses nor advances the plan, and creates no batch of
it. -/
def ForeignOp (u p : String) : Op → Prop
  | .createPlan plan => ¬(plan.tenantUid = u ∧ plan.id = p)
  | .updatePlan tenant plan _ => ¬(tenant = u ∧ plan.id = p)
  | .setPlanEnabled tenant id .. | .pausePlanForScope tenant id _ | .advancePlan tenant id .. =>
    ¬(tenant = u ∧ id = p)
  | .createBatch batch => ¬(batch.tenantUid = u ∧ batch.planId = p)
  | _ => True

/-- Nor does the call delete it, and it is none of the scheduler's readings of the clock. -/
def Foreign (u p : String) : Stmt → Prop
  | .write op _ => ForeignOp u p op
  | .deletePlan tenant id => ¬(tenant = u ∧ id = p)
  | .clock _ => False
  | _ => True

section Views
variable {u p : String}

theorem planIn_of_key {tenant id : String} (h : ¬(tenant = u ∧ id = p)) {r : PlanRow}
    (hr : planIn u p r = true) : planIn tenant id r = false := by
  obtain ⟨ht, hi⟩ := planIn_iff.mp hr
  cases hp : planIn tenant id r with
  | false => rfl
  | true =>
    obtain ⟨ht', hi'⟩ := planIn_iff.mp hp
    exact absurd ⟨ht'.symm.trans ht, hi'.symm.trans hi⟩ h

theorem filter_updateWhere_other {tenant id : String} {f : PlanRow → PlanRow} {rows : List PlanRow}
    (h : ¬(tenant = u ∧ id = p)) (hf : ∀ r, (f r).tenantUid = r.tenantUid ∧ (f r).id = r.id) :
    (updateWhere (planIn tenant id) f rows).filter (planIn u p) = rows.filter (planIn u p) := by
  rw [filter_updateWhere rows fun r => by simp only [planIn, hf r]]
  apply updateWhere_miss
  intro r hr
  exact planIn_of_key h (List.mem_filter.mp hr).2

theorem plansAfter_foreign {op : Op} (h : ForeignOp u p op) (rows : List PlanRow) :
    (op.plansAfter rows).filter (planIn u p) = rows.filter (planIn u p) := by
  cases op with
  | createPlan plan =>
    have hrow : planIn u p (planRow plan) = false := by
      cases hp : planIn u p (planRow plan) with
      | false => rfl
      | true => exact absurd (planIn_iff.mp hp) h
    simp [Op.plansAfter, List.filter_append, hrow]
  | updatePlan tenant plan cancelQueued => exact filter_updateWhere_other h fun r => ⟨rfl, rfl⟩
  | setPlanEnabled tenant id enabled next updated =>
    exact filter_updateWhere_other h fun r => ⟨rfl, rfl⟩
  | pausePlanForScope tenant id reason => exact filter_updateWhere_other h fun r => ⟨rfl, rfl⟩
  | advancePlan tenant id scheduledAt next updated =>
    exact filter_updateWhere_other h fun r => ⟨rfl, rfl⟩
  | _ => rfl

theorem batchKeysAfter_foreign {op : Op} (h : ForeignOp u p op)
    (keys : List (String × String × String × Int)) :
    (op.batchKeysAfter keys).filter (keyOf u p) = keys.filter (keyOf u p) := by
  cases op with
  | createBatch batch =>
    have hkey : keyOf u p (batchRow batch).keys = false := by
      cases hk : keyOf u p (batchRow batch).keys with
      | false => rfl
      | true =>
        simp only [keyOf, Bool.and_eq_true, beq_iff_eq] at hk
        exact absurd hk h
    simp [Op.batchKeysAfter, List.filter_append, hkey]
  | _ => rfl

/-- What the view takes of a database. -/
def sameFor (u p : String) (s s' : Store) : Prop :=
  s'.plans.filter (planIn u p) = s.plans.filter (planIn u p) ∧
    (s'.batches.map BatchRow.keys).filter (keyOf u p) =
      (s.batches.map BatchRow.keys).filter (keyOf u p)

theorem sameFor_commit {s : Store} {op : Op} (h : ForeignOp u p op) :
    sameFor u p s (Stmt.commit s (op.apply s)).2 := by
  cases hs : op.apply s with
  | error e => exact ⟨rfl, rfl⟩
  | ok s' =>
    obtain ⟨hplans, hkeys⟩ := Op.apply_frame hs
    refine ⟨?_, ?_⟩
    · show s'.plans.filter _ = _
      rw [hplans, plansAfter_foreign h]
    · show (s'.batches.map BatchRow.keys).filter _ = _
      rw [hkeys, batchKeysAfter_foreign h]

theorem view_of_sameFor {l l' : Ledger} (h : sameFor u p l.store l'.store) (hc : l'.clock = l.clock)
    (hh : l'.handled = l.handled) (hm : l'.created = l.created) : l'.view u p = l.view u p := by
  unfold Ledger.view
  rw [h.1, h.2, hc, hh, hm]

theorem view_foreign {c : Stmt} (h : Foreign u p c) (l : Ledger) :
    (Ledger.exec u p c l).2.view u p = l.view u p := by
  cases c with
  | write op basis =>
    cases op with
    | createBatch batch =>
      have hne : ¬(batch.tenantUid = u ∧ batch.planId = p) := h
      have hrec : l.record u p batch = l := if_neg hne
      refine view_of_sameFor (sameFor_commit h) ?_ ?_ ?_
      · show (l.record u p batch).clock = l.clock
        rw [hrec]
      · show (l.record u p batch).handled = l.handled
        rw [hrec]
      · show (l.record u p batch).created = l.created
        rw [hrec]
    | _ => exact view_of_sameFor (sameFor_commit h) rfl rfl rfl
  | deletePlan tenant id =>
    refine view_of_sameFor ?_ rfl rfl rfl
    show sameFor u p l.store (Stmt.commit l.store (l.store.deletePlan tenant id)).2
    unfold Store.deletePlan
    split
    · exact ⟨rfl, rfl⟩
    · refine ⟨?_, rfl⟩
      show (l.store.plans.filter fun r => !planIn tenant id r).filter (planIn u p) = _
      rw [List.filter_filter]
      apply List.filter_congr
      intro r _
      cases hr : planIn u p r with
      | false => rfl
      | true => rw [planIn_of_key h hr]; rfl
  | clock now => exact h.elim
  | _ => exact view_of_sameFor ⟨rfl, rfl⟩ rfl rfl rfl

theorem view_outside {op : Op} (h : ForeignOp u p op) (l : Ledger) :
    ({ l with store := op.next l.store } : Ledger).view u p = l.view u p := by
  refine view_of_sameFor ?_ rfl rfl rfl
  have hc := sameFor_commit (s := l.store) h
  show sameFor u p l.store (op.next l.store)
  unfold Op.next
  cases hs : op.apply l.store with
  | ok s' => rw [hs] at hc; exact hc
  | error e => exact ⟨rfl, rfl⟩

end Views

/-! ## What is accounted for -/

/-- An occurrence met at `now` is run: the plan catches up or is at most a minute late, and
it is within the catch-up window. -/
def InTime (r : PlanRow) (occurrence now : Time) : Prop :=
  (r.catchUp = true ∨ now - occurrence ≤ minute) ∧
    now - occurrence ≤ r.maxCatchUpSeconds * second

/-- A batch as `RunPlan` creates it for a scheduled run of the plan. -/
def MadeByRunPlan (u p : String) (occurrence : Time) (b : BatchRow) : Prop :=
  ∃ id plan now, plan.id = p ∧ b = batchRow (planBatch u id plan "scheduled" occurrence now)

/-- A batch as `recordSkipped` creates it. -/
def MadeAsSkipped (u p : String) (occurrence : Time) (b : BatchRow) : Prop :=
  ∃ id plan now, plan.id = p ∧ b = batchRow (skippedBatch u id plan occurrence now)

/-- When the occurrence was first handled, and whether the batch was made as it should
be. -/
def MadeAtFirst (r : PlanRow) (handled : List (Int × Time)) (b : BatchRow) : Prop :=
  ∃ now, handled.find? (·.1 == b.scheduledAt) = some (b.scheduledAt, now) ∧
    (InTime r (ofUnix b.scheduledAt) now →
      MadeByRunPlan r.tenantUid r.id (ofUnix b.scheduledAt) b) ∧
    (¬InTime r (ofUnix b.scheduledAt) now →
      MadeAsSkipped r.tenantUid r.id (ofUnix b.scheduledAt) b)

/-- The columns of a plan that say when it runs. -/
def rowTerms (r : PlanRow) : String × String × String × String × String × Bool × Bool × Int :=
  (r.tenantUid, r.id, r.scheduleType, r.cronExpression, r.timezone, r.enabled, r.catchUp,
    r.maxCatchUpSeconds)

section Accounts
variable (occurs : String → String → Time → Prop) (r₀ : PlanRow)
  (k₀ : List (String × String × String × Int)) (n₀ : Int)

/-- A second at which the plan occurs: the next time it starts with, or one of its
schedule. -/
def Occurs (o : Int) : Prop := o = n₀ ∨ occurs r₀.cronExpression r₀.timezone (ofUnix o)

/-- The plan is to run next at `n`, every occurrence before has its batch, and there are no
others. At `n` itself there may be one already. -/
structure AccountsTo (v : PlanView) (r : PlanRow) (n : Int) : Prop where
  rows : v.rows = [r]
  terms : rowTerms r = rowTerms r₀
  next : r.nextRunAt = some n
  start : n₀ ≤ n
  onSchedule : Occurs occurs r₀ n₀ n
  keys : v.keys = k₀ ++ v.created.map BatchRow.keys
  created : ∀ b ∈ v.created, n₀ ≤ b.scheduledAt ∧ b.scheduledAt ≤ n ∧
    Occurs occurs r₀ n₀ b.scheduledAt ∧ ofUnix b.scheduledAt ≤ v.clock ∧ MadeAtFirst r₀ v.handled b
  past : ∀ o, Occurs occurs r₀ n₀ o → n₀ ≤ o → o < n → o ∈ v.created.map (·.scheduledAt)
  handled : ∀ h ∈ v.handled, h.1 ∈ v.created.map (·.scheduledAt)

def Accounts (v : PlanView) : Prop := ∃ r n, AccountsTo occurs r₀ k₀ n₀ v r n

end Accounts

/-! ## The scheduler's calls -/

/-- What is assumed of a call of the plan's scheduler: its clock does not go back, the ids
it draws for batches are new, and its own `RunPlan` does not pause the plan. -/
def SchedulerOk (u p : String) (l : Ledger) : Stmt → Prop
  | .clock now => l.clock ≤ now
  | .write (.createBatch batch) _ => batch.id ∉ l.store.batches.map (·.id)
  | .write (.pausePlanForScope tenant id _) _ => ¬(tenant = u ∧ id = p)
  | _ => True

section Scheduler
variable {occurs : String → String → Time → Prop} {r₀ : PlanRow}
  {k₀ : List (String × String × String × Int)} {n₀ : Int} {v : PlanView} {r : PlanRow} {n : Int}

theorem ofUnix_le_ofUnix {a b : Int} (h : a ≤ b) : ofUnix a ≤ ofUnix b := by
  show (a * 1000000000 : Int) ≤ b * 1000000000
  omega

theorem unix_ofUnix (a : Int) : unix (ofUnix a) = a := by
  show (a * 1000000000 : Int) / 1000000000 = a
  omega

theorem AccountsTo.tick {now : Time} (h : AccountsTo occurs r₀ k₀ n₀ v r n) (hle : v.clock ≤ now) :
    AccountsTo occurs r₀ k₀ n₀ { v with clock := now } r n where
  rows := h.rows
  terms := h.terms
  next := h.next
  start := h.start
  onSchedule := h.onSchedule
  keys := h.keys
  created := fun b hb => by
    obtain ⟨h1, h2, h3, h4, h5⟩ := h.created b hb
    exact ⟨h1, h2, h3, Int.le_trans h4 hle, h5⟩
  past := h.past
  handled := h.handled

theorem MadeAtFirst.append {handled : List (Int × Time)} {b : BatchRow} (h : MadeAtFirst r₀ handled b)
    (x : Int × Time) : MadeAtFirst r₀ (handled ++ [x]) b := by
  obtain ⟨now, hfind, hrest⟩ := h
  refine ⟨now, ?_, hrest⟩
  rw [List.find?_append, hfind]
  rfl

/-- The batch of the next occurrence is created. -/
theorem AccountsTo.insert {b : BatchRow} (h : AccountsTo occurs r₀ k₀ n₀ v r n)
    (hb : b.scheduledAt = n) (hdue : ofUnix n ≤ v.clock) (hnew : ∀ c ∈ v.created, c.scheduledAt ≠ n)
    (hrun : InTime r₀ (ofUnix n) v.clock → MadeByRunPlan r₀.tenantUid r₀.id (ofUnix n) b)
    (hskip : ¬InTime r₀ (ofUnix n) v.clock → MadeAsSkipped r₀.tenantUid r₀.id (ofUnix n) b) :
    AccountsTo occurs r₀ k₀ n₀
      { v with
        keys := v.keys ++ [b.keys], handled := v.handled ++ [(n, v.clock)]
        created := v.created ++ [b] } r n where
  rows := h.rows
  terms := h.terms
  next := h.next
  start := h.start
  onSchedule := h.onSchedule
  keys := by simp [h.keys]
  created := fun c hc => by
    obtain hc | hc := List.mem_append.mp hc
    · obtain ⟨h1, h2, h3, h4, h5⟩ := h.created c hc
      exact ⟨h1, h2, h3, h4, h5.append _⟩
    · obtain rfl := List.mem_singleton.mp hc
      rw [hb]
      refine ⟨h.start, Int.le_refl _, h.onSchedule, hdue, v.clock, ?_, ?_, ?_⟩
      · -- a handled occurrence has its batch, and this one had none
        have hnone : v.handled.find? (·.1 == n) = none := by
          rw [List.find?_eq_none]
          intro x hx hxn
          obtain ⟨c, hc, hcx⟩ := List.mem_map.mp (h.handled x hx)
          exact hnew c hc (hcx.trans (beq_iff_eq.mp hxn))
        rw [hb, List.find?_append, hnone]
        simp
      · rw [hb]
        exact hrun
      · rw [hb]
        exact hskip
  past := fun o ho hle hlt => by
    have hmem := h.past o ho hle hlt
    rw [List.map_append]
    exact List.mem_append_left _ hmem
  handled := fun x hx => by
    rw [List.map_append]
    obtain hx | hx := List.mem_append.mp hx
    · exact List.mem_append_left _ (h.handled x hx)
    · obtain rfl := List.mem_singleton.mp hx
      exact List.mem_append_right _ (by simp [hb])

/-- The batch of the next occurrence is there already. -/
theorem AccountsTo.again (h : AccountsTo occurs r₀ k₀ n₀ v r n)
    (hmem : n ∈ v.created.map (·.scheduledAt)) :
    AccountsTo occurs r₀ k₀ n₀ { v with handled := v.handled ++ [(n, v.clock)] } r n where
  rows := h.rows
  terms := h.terms
  next := h.next
  start := h.start
  onSchedule := h.onSchedule
  keys := h.keys
  created := fun b hb => by
    obtain ⟨h1, h2, h3, h4, h5⟩ := h.created b hb
    exact ⟨h1, h2, h3, h4, h5.append _⟩
  past := h.past
  handled := fun x hx => by
    obtain hx | hx := List.mem_append.mp hx
    · exact h.handled x hx
    · obtain rfl := List.mem_singleton.mp hx
      exact hmem

/-- The next time moves on to the next occurrence, once this one has its batch. -/
theorem AccountsTo.advance {r' : PlanRow} {n' : Int} (h : AccountsTo occurs r₀ k₀ n₀ v r n)
    (hmem : n ∈ v.created.map (·.scheduledAt)) (hterms : rowTerms r' = rowTerms r)
    (hnext : r'.nextRunAt = some n') (hlater : n < n') (hocc : Occurs occurs r₀ n₀ n')
    (hleast : ∀ o, Occurs occurs r₀ n₀ o → n < o → n' ≤ o) :
    AccountsTo occurs r₀ k₀ n₀ { v with rows := [r'] } r' n' where
  rows := rfl
  terms := hterms.trans h.terms
  next := hnext
  start := Int.le_trans h.start (Int.le_of_lt hlater)
  onSchedule := hocc
  keys := h.keys
  created := fun b hb => by
    obtain ⟨h1, h2, h3, h4, h5⟩ := h.created b hb
    exact ⟨h1, Int.le_trans h2 (Int.le_of_lt hlater), h3, h4, h5⟩
  past := fun o ho hle hlt => by
    obtain hon | rfl | hno := Int.lt_trichotomy o n
    · exact h.past o ho hle hon
    · exact hmem
    · exact absurd (hleast o ho hno) (Int.not_le.mpr hlt)
  handled := h.handled

end Scheduler

/-! ## Creating the batch of an occurrence -/

/-- A batch with a new id is created unless its plan has one for that time. -/
theorem createBatch_cases {s : Store} {batch : BackupBatch} (hid : batch.id ≠ "")
    (hten : batch.tenantUid ≠ "") (hplan : batch.planId ≠ "") (htrig : batch.triggerType ≠ "")
    (hfresh : batch.id ∉ s.batches.map (·.id)) :
    ((∃ s', s.createBatch batch = .ok s') ∧ ∀ b ∈ s.batches, b.schedule ≠ (batchRow batch).schedule) ∨
    (s.createBatch batch = .error .conflict ∧ ∃ b ∈ s.batches, b.schedule = (batchRow batch).schedule) := by
  have hargs : ¬(batch.id = "" ∨ batch.tenantUid = "" ∨ batch.triggerType = "") := by
    simp [hid, hten, htrig]
  have hplanned : ∀ b : BatchRow, b.schedule = (batchRow batch).schedule → b.planned = true := by
    intro b hb
    have hp : b.planId = batch.planId := congrArg (·.2.1) hb
    simp [BatchRow.planned, hp, hplan]
  unfold Store.createBatch
  rw [if_neg hargs]
  unfold Store.insertBatch
  by_cases hkey : (batchRow batch).schedule ∈ indexKeys BatchRow.planned BatchRow.schedule s.batches
  · have hrefused : ¬((batchRow batch).id ∉ s.batches.map (·.id) ∧ ((batchRow batch).planned = true →
        (batchRow batch).schedule ∉ indexKeys BatchRow.planned BatchRow.schedule s.batches)) :=
      fun h => h.2 (hplanned _ rfl) hkey
    obtain ⟨b, hb, hs⟩ := List.mem_map.mp hkey
    rw [dif_neg hrefused]
    exact .inr ⟨rfl, b, (List.mem_filter.mp hb).1, hs⟩
  · have haccepted : (batchRow batch).id ∉ s.batches.map (·.id) ∧ ((batchRow batch).planned = true →
        (batchRow batch).schedule ∉ indexKeys BatchRow.planned BatchRow.schedule s.batches) :=
      ⟨hfresh, fun _ => hkey⟩
    rw [dif_pos haccepted]
    refine .inl ⟨⟨_, rfl⟩, fun b hb hs => hkey ?_⟩
    exact List.mem_map.mpr ⟨b, List.mem_filter.mpr ⟨hb, hplanned b hs⟩, hs⟩

/-- The unique index leaves a planned batch alone with its time. -/
theorem countP_batchAt {s : Store} {u p : String} {o : Int} (hp : p ≠ "") {b : BatchRow}
    (hb : b ∈ s.batches) (hat : batchAt u p o b = true) : s.batches.countP (batchAt u p o) = 1 := by
  have hplanned : ∀ b, batchAt u p o b = true → b.planned = true := by
    intro b h
    simp only [batchAt, Bool.and_eq_true, beq_iff_eq] at h
    simp [BatchRow.planned, h.1.2, hp]
  have hone := countP_eq_one (p := batchAt u p o) s.batches_schedule (fun b b' h h' => by
    simp only [batchAt, Bool.and_eq_true, beq_iff_eq] at h h'
    simp [BatchRow.schedule, h, h']) (List.mem_filter.mpr ⟨hb, hplanned b hat⟩) hat
  rw [List.countP_filter] at hone
  rw [← hone]
  apply List.countP_congr
  intro b _
  simp only [Bool.and_eq_true]
  exact ⟨fun h => ⟨h, hplanned b h⟩, fun h => h.1⟩

section Scheduler
variable {occurs : String → String → Time → Prop} {r₀ : PlanRow}
  {k₀ : List (String × String × String × Int)} {n₀ : Int} {v : PlanView} {r : PlanRow} {n : Int}

/-- What holds once the occurrence `n` has been handled at `now`. -/
def Handled (occurs : String → String → Time → Prop) (r₀ : PlanRow)
    (k₀ : List (String × String × String × Int)) (n₀ : Int) (r : PlanRow) (n : Int) (now : Time)
    (v : PlanView) : Prop :=
  AccountsTo occurs r₀ k₀ n₀ v r n ∧ v.clock = now ∧ n ∈ v.created.map (·.scheduledAt)

/-- A program of the scheduler, followed on the view of the plan. -/
abbrev Follows (occurs : String → String → Time → Prop) (r₀ : PlanRow)
    (k₀ : List (String × String × String × Int)) (n₀ : Int) {α : Type} (E : GoError → PlanView → Prop)
    (Q : α → PlanView → Prop) (t : Program α) (v : PlanView) : Prop :=
  Leads (Ledger.exec r₀.tenantUid r₀.id) (Ledger.view r₀.tenantUid r₀.id)
    (SchedulerOk r₀.tenantUid r₀.id) (Accounts occurs r₀ k₀ n₀) (Or E Q) t v

theorem view_createBatch {u p : String} (l : Ledger) (batch : BackupBatch) (basis : Option BackupPlan)
    (hu : batch.tenantUid = u) (hp : batch.planId = p) :
    (Ledger.exec u p (.write (.createBatch batch) basis) l).2.view u p =
      match l.store.createBatch batch with
      | .ok _ => { l.view u p with
          keys := (l.view u p).keys ++ [(batchRow batch).keys]
          handled := l.handled ++ [(unix batch.scheduledAt, l.clock)]
          created := l.created ++ [batchRow batch] }
      | .error _ => { l.view u p with
          handled := l.handled ++ [(unix batch.scheduledAt, l.clock)] } := by
  have hrec : l.record u p batch = { l with
      handled := l.handled ++ [(unix batch.scheduledAt, l.clock)]
      created :=
        match l.store.createBatch batch with
        | .ok _ => l.created ++ [batchRow batch]
        | .error _ => l.created } := if_pos ⟨hu, hp⟩
  show ({ l.record u p batch with
    store := (Stmt.commit l.store (l.store.createBatch batch)).2 } : Ledger).view u p = _
  rw [hrec]
  cases hs : l.store.createBatch batch with
  | error e => rfl
  | ok s' =>
    have hkey : keyOf u p (batchRow batch).keys = true := by
      simp [keyOf, BatchRow.keys, batchRow, hu, hp]
    simp only [Stmt.commit, Ledger.view, Store.createBatch_ok hs, List.map_append, List.filter_append,
      List.map_cons, List.map_nil, List.filter_cons, hkey, if_true, List.filter_nil]

/-- The call that creates the batch of the next occurrence leaves it handled. -/
theorem createBatch_follows {batch : BackupBatch} {now : Time} (h : AccountsTo occurs r₀ k₀ n₀ v r n)
    (hclock : v.clock = now) (hdue : ofUnix n ≤ now) (hold : ∀ k ∈ k₀, k.2.2.2 < n₀)
    (hid : batch.id ≠ "") (hten : batch.tenantUid = r₀.tenantUid) (hplan : batch.planId = r₀.id)
    (htrig : batch.triggerType ≠ "") (hu : r₀.tenantUid ≠ "") (hp : r₀.id ≠ "")
    (hat : batch.scheduledAt = ofUnix n)
    (hrun : InTime r₀ (ofUnix n) now → MadeByRunPlan r₀.tenantUid r₀.id (ofUnix n) (batchRow batch))
    (hskip : ¬InTime r₀ (ofUnix n) now →
      MadeAsSkipped r₀.tenantUid r₀.id (ofUnix n) (batchRow batch)) :
    Follows occurs r₀ k₀ n₀ (fun _ => Handled occurs r₀ k₀ n₀ r n now)
      (fun _ => Handled occurs r₀ k₀ n₀ r n now) (Calls.write (.createBatch batch) none) v := by
  subst hclock
  have hsec : unix batch.scheduledAt = n := by rw [hat, unix_ofUnix]
  refine leads_bindE (Q := fun _ => Handled occurs r₀ k₀ n₀ r n v.clock) (leads_query ?_) ?_
  · intro l hl hok
    -- the batches of the plan are those of the view
    have hkeys : ∀ b ∈ l.store.batches, b.tenantUid = r₀.tenantUid → b.planId = r₀.id →
        b.keys ∈ v.keys := by
      intro b hb hbt hbp
      rw [← hl]
      refine List.mem_filter.mpr ⟨List.mem_map_of_mem hb, ?_⟩
      simp [keyOf, BatchRow.keys, hbt, hbp]
    have hdone : Handled occurs r₀ k₀ n₀ r n v.clock ((Ledger.exec r₀.tenantUid r₀.id
        (.write (.createBatch batch) none) l).2.view r₀.tenantUid r₀.id) := by
      rw [view_createBatch l batch none hten hplan, hsec, hl]
      have hlh : l.handled = v.handled := congrArg PlanView.handled hl
      have hlc : l.clock = v.clock := congrArg PlanView.clock hl
      have hlm : l.created = v.created := congrArg PlanView.created hl
      rw [hlh, hlc, hlm]
      -- a new batch, or one that is in the way and so is of this occurrence
      obtain ⟨⟨s', hs'⟩, hnew⟩ | ⟨hs', b, hb, hbs⟩ :=
        createBatch_cases hid (hten ▸ hu) (hplan ▸ hp) htrig hok
      · rw [hs']
        refine ⟨h.insert hsec hdue ?_ hrun hskip, rfl, ?_⟩
        · -- a batch of the occurrence would have been in the way
          intro c hc hcn
          have hck : c.keys ∈ v.keys := by
            rw [h.keys]
            exact List.mem_append_right _ (List.mem_map_of_mem hc)
          rw [← hl] at hck
          obtain ⟨hmem, hkey⟩ := List.mem_filter.mp hck
          obtain ⟨b, hb, hbk⟩ := List.mem_map.mp hmem
          simp only [keyOf, Bool.and_eq_true, beq_iff_eq] at hkey
          refine hnew b hb ?_
          have hbt : b.tenantUid = r₀.tenantUid := (congrArg (·.2.1) hbk).trans hkey.1
          have hbp : b.planId = r₀.id := (congrArg (·.2.2.1) hbk).trans hkey.2
          have hbn : b.scheduledAt = n := (congrArg (·.2.2.2) hbk).trans hcn
          simp only [BatchRow.schedule, batchRow, hbt, hbp, hbn, hten, hplan, hsec]
        · rw [List.map_append]
          exact List.mem_append_right _ (by simp [batchRow, hsec])
      · rw [hs']
        have hmem : n ∈ v.created.map (·.scheduledAt) := by
          have hbt : b.tenantUid = r₀.tenantUid := (congrArg (·.1) hbs).trans hten
          have hbp : b.planId = r₀.id := (congrArg (·.2.1) hbs).trans hplan
          have hbn : b.scheduledAt = n := (congrArg (·.2.2) hbs).trans hsec
          have hbk := hkeys b hb hbt hbp
          rw [h.keys] at hbk
          obtain hbk | hbk := List.mem_append.mp hbk
          · -- the batches from before the start are earlier
            have hlt : b.scheduledAt < n₀ := hold _ hbk
            rw [hbn] at hlt
            exact absurd h.start (Int.not_le.mpr hlt)
          · obtain ⟨c, hc, hck⟩ := List.mem_map.mp hbk
            exact List.mem_map.mpr ⟨c, hc, (congrArg (·.2.2.2) hck).trans hbn⟩
        exact ⟨h.again hmem, rfl, hmem⟩
    exact ⟨⟨r, n, hdone.1⟩, hdone⟩
  · intro a v' hdone
    refine leads_result ?_
    cases a with
    | error e => exact hdone
    | ok u => exact hdone

theorem follows_frame {α : Type} {X : PlanView → Prop} {P : Stmt → Prop} {t : Program α}
    (ht : Every P t)
    (hP : ∀ c l, P c → SchedulerOk r₀.tenantUid r₀.id l c →
      (Ledger.exec r₀.tenantUid r₀.id c l).2.view r₀.tenantUid r₀.id = l.view r₀.tenantUid r₀.id)
    (hI : Accounts occurs r₀ k₀ n₀ v) (hX : X v) :
    Follows occurs r₀ k₀ n₀ (fun _ => X) (fun _ => X) t v := by
  refine (leads_frame hI ht ?_).mono ?_
  · intro c l hc hl hok
    rw [hP c l hc hok, hl]
  · intro a v' hv
    subst hv
    cases a with
    | error e => exact hX
    | ok a => exact hX

theorem Follows.forget {α : Type} {E : GoError → PlanView → Prop} {Q : α → PlanView → Prop}
    {t : Program α} (h : Follows occurs r₀ k₀ n₀ E Q t v) :
    Follows occurs r₀ k₀ n₀ (fun _ _ => True) Q t v := by
  refine Leads.mono h fun a v' hv => ?_
  cases a with
  | error e => exact trivial
  | ok a => exact hv

/-- An expansion of the plan, which does not pause it, leaves its row and its batches. -/
theorem view_expands {c : Stmt} (hc : Calls.Expands r₀.tenantUid r₀.id c) {l : Ledger}
    (hok : SchedulerOk r₀.tenantUid r₀.id l c) :
    (Ledger.exec r₀.tenantUid r₀.id c l).2.view r₀.tenantUid r₀.id = l.view r₀.tenantUid r₀.id := by
  apply view_foreign
  cases c with
  | write op basis =>
    cases op with
    | pausePlanForScope tenant id reason => exact hok
    | createBackupJob job => trivial
    | addTask task now => trivial
    | failBackupJob tenant id code finished => trivial
    | _ => exact hc.elim
  | deletePlan tenant id => exact hc.elim
  | clock now => exact hc.elim
  | _ => trivial

theorem readPlan_foreign {u p : String} (tenant id : String) : Every (Foreign u p) (readPlan tenant id) := by
  refine every_bindE (every_query trivial) fun r => ?_
  refine every_bindE (Calls.every_ofStore _) fun r => ?_
  exact every_bindE (every_query trivial) fun _ => every_pure _

/-- The terms the copy of a plan has in common with its row. -/
structure CopyOf (r₀ : PlanRow) (n : Int) (plan : BackupPlan) : Prop where
  id : plan.id = r₀.id
  scheduleType : plan.scheduleType = r₀.scheduleType
  cronExpression : plan.cronExpression = r₀.cronExpression
  timezone : plan.timezone = r₀.timezone
  catchUp : plan.catchUp = r₀.catchUp
  maxCatchUpSeconds : plan.maxCatchUpSeconds = r₀.maxCatchUpSeconds
  next : ∀ t, plan.nextRunAt = some t → t = ofUnix n

theorem tooLate_iff {plan : BackupPlan} {now : Time} (hcopy : CopyOf r₀ n plan) :
    tooLate plan (ofUnix n) now = false ↔ InTime r₀ (ofUnix n) now := by
  unfold tooLate InTime
  rw [hcopy.catchUp, hcopy.maxCatchUpSeconds]
  cases r₀.catchUp <;> simp

/-- Where the result is handled either way, so it is when the error is a conflict. -/
theorem Follows.ofConflict {α : Type} {X : PlanView → Prop} {t : Program α}
    (h : Follows occurs r₀ k₀ n₀ (fun _ => X) (fun _ => X) t v) :
    Follows occurs r₀ k₀ n₀ (fun e v' => e.isConflict = true → X v') (fun _ => X) t v := by
  refine Leads.mono h fun a v' hv => ?_
  cases a with
  | error e => exact fun _ => hv
  | ok a => exact hv

theorem randomID_error {kind : String} {hex : Option String} {e : GoError}
    (h : randomID kind hex = .error e) : e.isConflict = false := by
  unfold randomID at h
  split at h
  · cases h
  · cases h; decide

theorem runPlan_follows {plan : BackupPlan} {now : Time} {draws : Draws}
    (hold : ∀ k ∈ k₀, k.2.2.2 < n₀) (hu : r₀.tenantUid ≠ "") (hp : r₀.id ≠ "")
    (h : AccountsTo occurs r₀ k₀ n₀ v r n) (hcopy : CopyOf r₀ n plan) (hclock : v.clock = now)
    (hdue : ofUnix n ≤ now) (hin : InTime r₀ (ofUnix n) now) :
    Follows occurs r₀ k₀ n₀ (fun e v' => e.isConflict = true → Handled occurs r₀ k₀ n₀ r n now v')
      (fun _ => Handled occurs r₀ k₀ n₀ r n now)
      (Calls.runPlan r₀.tenantUid plan "scheduled" (ofUnix n) draws) v := by
  unfold Calls.runPlan
  refine leads_resultBind ?_ fun id hid => ?_
  · intro e he hconf
    rw [randomID_error he] at hconf
    cases hconf
  · obtain ⟨x, -, rfl⟩ := randomID_ok hid
    have hcreate : Follows occurs r₀ k₀ n₀ (fun _ => Handled occurs r₀ k₀ n₀ r n now)
        (fun _ => Handled occurs r₀ k₀ n₀ r n now)
        (Calls.write (.createBatch (planBatch r₀.tenantUid ("batch" ++ "-" ++ x) plan "scheduled"
          (ofUnix n) draws.now)) none) v :=
      createBatch_follows h hclock hdue hold (by simp [planBatch]) rfl hcopy.id (by simp [planBatch])
        hu hp rfl (fun _ => ⟨_, plan, _, hcopy.id, rfl⟩) (fun hnot => absurd hin hnot)
    refine leads_bindE (leads_attempt hcreate) fun a v' ha => ?_
    have hv' : Handled occurs r₀ k₀ n₀ r n now v' := by
      cases a with
      | ok u => exact ha
      | error e => exact ha
    -- the rest reads, and expands the plan
    have hrest : ∀ {α : Type} {t : Program α}, Every (Calls.Expands r₀.tenantUid r₀.id) t →
        Follows occurs r₀ k₀ n₀ (fun e v' => e.isConflict = true → Handled occurs r₀ k₀ n₀ r n now v')
          (fun _ => Handled occurs r₀ k₀ n₀ r n now) t v' := fun ht =>
      (follows_frame ht (fun c l hc hok => view_expands hc hok) ⟨r, n, hv'.1⟩ hv').ofConflict
    split
    · apply hrest
      refine every_bindE ((Calls.expandPlan_fills ?_ draws).mono ?_) fun _ => ?_
      · rfl
      · exact fun _ hc => hcopy.id ▸ Calls.expands_of_fills hc
      exact every_bindE (every_query trivial) fun _ => Calls.every_ofStore _
    · apply hrest
      refine every_bindE (every_query trivial) fun batches => ?_
      split
      · exact every_pure _
      · exact every_pure _
    · exact leads_throw fun _ => hv'

/-- Recorded as skipped or run, the occurrence has its batch afterwards. -/
theorem handle_follows {plan : BackupPlan} {now : Time} {draws : Draws}
    (hold : ∀ k ∈ k₀, k.2.2.2 < n₀) (hu : r₀.tenantUid ≠ "") (hp : r₀.id ≠ "")
    (h : AccountsTo occurs r₀ k₀ n₀ v r n) (hcopy : CopyOf r₀ n plan) (hclock : v.clock = now)
    (hdue : ofUnix n ≤ now) :
    Follows occurs r₀ k₀ n₀ (fun _ _ => True) (fun _ => Handled occurs r₀ k₀ n₀ r n now)
      (handle r₀.tenantUid plan (ofUnix n) now draws) v := by
  have hdone : ∀ {α : Type} {t : Program α},
      Follows occurs r₀ k₀ n₀ (fun e v' => e.isConflict = true → Handled occurs r₀ k₀ n₀ r n now v')
        (fun _ => Handled occurs r₀ k₀ n₀ r n now) t v →
      Follows occurs r₀ k₀ n₀ (fun _ _ => True) (fun _ => Handled occurs r₀ k₀ n₀ r n now)
        (unlessConflict t) v := by
    intro α t ht
    refine leads_bindE (leads_attempt ht) fun a v' ha => ?_
    cases a with
    | ok a => exact leads_return ha
    | error e =>
      simp only
      by_cases hc : e.isConflict = true
      · rw [if_pos hc]
        exact leads_return (ha hc)
      · rw [if_neg hc]
        exact leads_throw trivial
  unfold handle
  cases hlate : tooLate plan (ofUnix n) now with
  | true =>
    rw [if_pos rfl]
    have hnot : ¬InTime r₀ (ofUnix n) now := by
      intro hin
      rw [(tooLate_iff hcopy).mpr hin] at hlate
      cases hlate
    refine leads_bindE (hdone ?_) fun _ v' hv' => leads_return hv'
    refine leads_resultBind ?_ fun id hid => ?_
    · intro e he hconf
      rw [randomID_error he] at hconf
      cases hconf
    · obtain ⟨x, -, rfl⟩ := randomID_ok hid
      refine Follows.ofConflict (createBatch_follows h hclock hdue hold ?_ rfl hcopy.id ?_ hu hp rfl
        (fun hin => absurd hin hnot) fun _ => ⟨_, plan, _, hcopy.id, rfl⟩)
      · simp [skippedBatch]
      · simp [skippedBatch]
  | false =>
    rw [if_neg (by decide)]
    refine leads_bindE (hdone (runPlan_follows hold hu hp h hcopy hclock hdue
      ((tooLate_iff hcopy).mp hlate))) fun _ v' hv' => ?_
    have hread := follows_frame (readPlan_foreign r₀.tenantUid plan.id)
      (fun c l hc _ => view_foreign hc l) ⟨r, n, hv'.1⟩ hv'
    exact leads_bindE hread.forget fun _ v'' hv'' => leads_return hv''

/-- The write of the next time moves the account on. -/
theorem advance_follows {plan : BackupPlan} {now : Time} {next : Option Time} {cron : Cron}
    (hcron : cron.Least occurs) (hmanual : r₀.scheduleType ≠ "MANUAL")
    (h : Handled occurs r₀ k₀ n₀ r n now v) (hcopy : CopyOf r₀ n plan)
    (hnext : nextRun cron plan (ofUnix n) = .ok next) :
    Follows occurs r₀ k₀ n₀ (fun _ _ => True)
      (fun _ v' => ∃ r' n', AccountsTo occurs r₀ k₀ n₀ v' r' n' ∧ v'.clock = now ∧
        CopyOf r₀ n' { plan with lastScheduledAt := some (ofUnix n), nextRunAt := next })
      (Calls.write (.advancePlan r₀.tenantUid plan.id (ofUnix n) next now) (some plan)) v := by
  -- `Next` was asked, so the schedule is one that parses in a zone that loads
  have hvalid : cron.parses plan.cronExpression = true ∧ cron.location plan.timezone = none ∧
      next = some (cron.next plan.cronExpression plan.timezone (ofUnix n)) := by
    unfold nextRun at hnext
    rw [hcopy.scheduleType, if_neg hmanual] at hnext
    cases hloc : cron.location plan.timezone with
    | some e => rw [hloc] at hnext; cases hnext
    | none =>
      rw [hloc] at hnext
      simp only at hnext
      by_cases hparse : cron.parses plan.cronExpression = true
      · rw [if_pos hparse] at hnext
        exact ⟨hparse, rfl, (Except.ok.inj hnext).symm⟩
      · rw [if_neg hparse] at hnext
        cases hnext
  obtain ⟨hparse, hloc, rfl⟩ := hvalid
  have hocc := hcron.occurs_next plan.cronExpression plan.timezone (ofUnix n) hparse hloc
  have hwhole := ofUnix_unix (hcron.whole _ _ _ hocc)
  have hlater := hcron.next_later plan.cronExpression plan.timezone (ofUnix n) hparse hloc
  have hleast := fun o => hcron.least plan.cronExpression plan.timezone (ofUnix n) o hparse hloc
  generalize cron.next plan.cronExpression plan.timezone (ofUnix n) = t at *
  rw [hcopy.cronExpression, hcopy.timezone] at hocc hleast
  have hcopy' : CopyOf r₀ (unix t)
      { plan with lastScheduledAt := some (ofUnix n), nextRunAt := some t } :=
    ⟨hcopy.id, hcopy.scheduleType, hcopy.cronExpression, hcopy.timezone, hcopy.catchUp,
      hcopy.maxCatchUpSeconds, fun t' ht' => by rw [hwhole]; exact (Option.some.inj ht').symm⟩
  -- a later time in nanoseconds is a later second, for occurrences are whole seconds
  have hn : n < unix t := by
    refine Int.not_le.mp fun hle => ?_
    have hback := ofUnix_le_ofUnix hle
    rw [hwhole] at hback
    exact absurd hlater (Int.not_lt.mpr hback)
  refine leads_bindE (leads_query (Q := fun _ v' => ∃ r' n', AccountsTo occurs r₀ k₀ n₀ v' r' n' ∧
    v'.clock = now ∧ CopyOf r₀ n'
      { plan with lastScheduledAt := some (ofUnix n), nextRunAt := some t }) ?_) ?_
  · intro l hl _
    -- the statement writes the one row of the plan, and nothing else of the view
    let moved : PlanRow := { r with
      lastScheduledAt := some (unix (ofUnix n)), nextRunAt := some (unix t), updatedAt := unix now }
    have hview : (Ledger.exec r₀.tenantUid r₀.id (.write (.advancePlan r₀.tenantUid plan.id (ofUnix n)
        (some t) now) (some plan)) l).2.view r₀.tenantUid r₀.id = { v with rows := [moved] } := by
      have hrows : l.store.plans.filter (planIn r₀.tenantUid r₀.id) = [r] :=
        (congrArg PlanView.rows hl).trans h.1.rows
      show ({ l with store := l.store.advancePlan r₀.tenantUid plan.id (ofUnix n) (some t) now } :
        Ledger).view r₀.tenantUid r₀.id = _
      unfold Ledger.view Store.advancePlan
      rw [Store.updatePlans_tables]
      simp only
      rw [hcopy.id, filter_updateWhere, hrows]
      · have hr : planIn r₀.tenantUid r₀.id r = true :=
          (List.mem_filter.mp (hrows ▸ List.mem_singleton_self r)).2
        subst hl
        simp [updateWhere, hr, Ledger.view, nullableUnix, moved]
      · intro r'
        rfl
    have hmoved : AccountsTo occurs r₀ k₀ n₀ { v with rows := [moved] } moved (unix t) := by
      refine h.1.advance h.2.2 rfl rfl hn (.inr (by rw [hwhole]; exact hocc)) ?_
      intro o ho hno
      obtain rfl | ho := ho
      · -- the first occurrence is not after one that is accounted for
        exact absurd h.1.start (Int.not_le.mpr hno)
      · have hle := hleast (ofUnix o) ho (by
          show (n * 1000000000 : Int) < o * 1000000000
          omega)
        rw [← hwhole] at hle
        have hle : (unix t * 1000000000 : Int) ≤ o * 1000000000 := hle
        omega
    rw [hview]
    exact ⟨⟨_, _, hmoved⟩, _, _, hmoved, h.2.1, hcopy'⟩
  · intro a v' hv'
    refine leads_result ?_
    cases a with
    | error e => exact trivial
    | ok u => exact hv'

/-! ## A tick -/

/-- However many occurrences of the plan one call takes, each is handled and then moved
past. -/
theorem runMissed_follows {plan : BackupPlan} {now : Time} {draws : BackupPlan → Time → Draws}
    {cron : Cron} (hcron : cron.Least occurs) (hmanual : r₀.scheduleType ≠ "MANUAL")
    (hold : ∀ k ∈ k₀, k.2.2.2 < n₀) (hu : r₀.tenantUid ≠ "") (hp : r₀.id ≠ "") (steps : Nat)
    (h : AccountsTo occurs r₀ k₀ n₀ v r n) (hcopy : CopyOf r₀ n plan) (hclock : v.clock = now) :
    Follows occurs r₀ k₀ n₀ (fun _ _ => True) (fun _ => Accounts occurs r₀ k₀ n₀)
      (runMissed cron r₀.tenantUid now draws steps plan) v := by
  induction steps generalizing plan v r n with
  | zero => exact leads_return ⟨r, n, h⟩
  | succ steps ih =>
    unfold runMissed
    split
    · exact leads_return ⟨r, n, h⟩
    · next scheduled hs =>
      obtain rfl := hcopy.next scheduled hs
      by_cases hlater : now < ofUnix n
      · rw [if_pos hlater]
        exact leads_return ⟨r, n, h⟩
      · rw [if_neg hlater]
        refine leads_resultBind (fun e _ => trivial) fun next hnext => ?_
        refine leads_bindE (handle_follows hold hu hp h hcopy hclock (Int.not_lt.mp hlater)) ?_
        intro stop v' hv'
        cases stop with
        | true => exact leads_return ⟨r, n, hv'.1⟩
        | false =>
          refine leads_bindE (advance_follows hcron hmanual hv' hcopy hnext) ?_
          intro _ v'' hv''
          obtain ⟨r', n', h', hclock', hcopy'⟩ := hv''
          exact ih h' hcopy' hclock'

theorem runMissed_foreign {u p : String} {cron : Cron} {plan : BackupPlan} (now : Time)
    (draws : BackupPlan → Time → Draws) (steps : Nat) (hne : plan.id ≠ p) :
    Every (Foreign u p) (runMissed cron u now draws steps plan) := by
  have hother : ∀ {tenant : String}, ¬(tenant = u ∧ plan.id = p) := fun h => hne h.2
  refine runMissed_every ?_ ?_ ?_ steps plan rfl
  · intro batch _ hb hkey
    exact hne (hb.symm.trans hkey.2)
  · intro c hc _
    cases c with
    | write op basis =>
      cases op with
      | pausePlanForScope tenant id reason =>
        intro hkey
        exact hne (hc.2.symm.trans hkey.2)
      | createBackupJob job => trivial
      | addTask task now => trivial
      | failBackupJob tenant id code finished => trivial
      | _ => exact hc.elim
    | deletePlan tenant id => exact hc.elim
    | clock now => exact hc.elim
    | _ => trivial
  · intro copy scheduled next _ _
    exact hother

/-- The plans that are due, in their order; this one is at most once among them. -/
theorem plans_follow {plans : List BackupPlan} {now : Time} {draws : BackupPlan → Time → Draws}
    {cron : Cron} (hcron : cron.Least occurs) (hmanual : r₀.scheduleType ≠ "MANUAL")
    (hold : ∀ k ∈ k₀, k.2.2.2 < n₀) (hu : r₀.tenantUid ≠ "") (hp : r₀.id ≠ "")
    (hcopies : ∀ plan ∈ plans, plan.id = r₀.id → CopyOf r₀ n plan)
    (honce : (plans.map (·.id)).Nodup) (h : AccountsTo occurs r₀ k₀ n₀ v r n) (hclock : v.clock = now) :
    Follows occurs r₀ k₀ n₀ (fun _ _ => True) (fun _ _ => True)
      (each (runMissed cron r₀.tenantUid now draws 128) plans) v := by
  induction plans with
  | nil => exact leads_return trivial
  | cons plan rest ih =>
    obtain ⟨hnot, hrest⟩ := List.nodup_cons.mp honce
    by_cases hid : plan.id = r₀.id
    · have hcopy := hcopies plan (List.mem_cons_self ..) hid
      refine leads_bindE (runMissed_follows hcron hmanual hold hu hp 128 h hcopy hclock) ?_
      intro _ v' hv'
      have hothers : Every (Foreign r₀.tenantUid r₀.id)
          (each (runMissed cron r₀.tenantUid now draws 128) rest) := by
        refine every_each rest fun plan' hmem => ?_
        refine runMissed_foreign now draws 128 fun hid' => hnot ?_
        exact List.mem_map.mpr ⟨plan', hmem, hid'.trans hid.symm⟩
      exact (follows_frame hothers (fun c l hc _ => view_foreign hc l) hv' trivial).forget
    · have hother : Every (Foreign r₀.tenantUid r₀.id) (runMissed cron r₀.tenantUid now draws 128 plan) :=
        runMissed_foreign now draws 128 hid
      have hsame : (fun v' => v' = v) v := rfl
      have hframe := follows_frame hother (fun c l hc _ => view_foreign hc l) ⟨r, n, h⟩ hsame
      refine leads_bindE hframe.forget fun _ v' hv' => ?_
      subst hv'
      exact ih (fun plan' hmem => hcopies plan' (List.mem_cons_of_mem plan hmem)) hrest

theorem readTargets_follows (hI : Accounts occurs r₀ k₀ n₀ v) (rows : List PlanRow) :
    Follows occurs r₀ k₀ n₀ (fun _ _ => True)
      (fun plans v' => v' = v ∧ plans.map (·.id) = rows.map (·.id) ∧
        ∀ plan ∈ plans, ∃ row ∈ rows, ∃ targets, plan = scanPlan row targets)
      (readTargets r₀.tenantUid rows) v := by
  induction rows with
  | nil => exact leads_return ⟨rfl, rfl, fun _ h => absurd h List.not_mem_nil⟩
  | cons row rest ih =>
    refine leads_bindE (Q := fun _ v' => v' = v) (leads_query ?_) fun targets v' hv' => ?_
    · intro l hl _
      rw [view_foreign (c := .planTargets r₀.tenantUid row.id) trivial l, hl]
      exact ⟨hI, rfl⟩
    · subst hv'
      refine leads_bindE ih fun plans v'' h => leads_return ?_
      obtain ⟨rfl, hids, hcopies⟩ := h
      refine ⟨rfl, congrArg (row.id :: ·) hids, fun plan hmem => ?_⟩
      obtain rfl | hmem := List.mem_cons.mp hmem
      · exact ⟨row, List.mem_cons_self .., targets, rfl⟩
      · obtain ⟨row', hrow', targets', rfl⟩ := hcopies plan hmem
        exact ⟨row', List.mem_cons_of_mem row hrow', targets', rfl⟩

/-- Of the rows that are due, the plan's own is the one in the view. -/
theorem duePlans_view {l : Ledger} {now : Time} (hrows : (l.view r₀.tenantUid r₀.id).rows = [r]) :
    ((l.store.duePlans r₀.tenantUid now).map (·.id)).Nodup ∧
      ∀ row ∈ l.store.duePlans r₀.tenantUid now, row.id = r₀.id → row = r := by
  have hperm := List.perm_insertionSort Store.dueBefore
    (l.store.plans.filter (Store.due r₀.tenantUid now))
  refine ⟨?_, fun row hrow hid => ?_⟩
  · refine (hperm.map _).nodup_iff.mpr ?_
    exact l.store.plans_pk.sublist (List.filter_sublist.map _)
  · obtain ⟨hmem, hdue⟩ := List.mem_filter.mp (hperm.mem_iff.mp hrow)
    have hten : row.tenantUid = r₀.tenantUid := by
      simp only [Store.due, Bool.and_eq_true, beq_iff_eq] at hdue
      exact hdue.1.1
    have hin : row ∈ (l.view r₀.tenantUid r₀.id).rows :=
      List.mem_filter.mpr ⟨hmem, planIn_iff.mpr ⟨hten, hid⟩⟩
    rw [hrows] at hin
    exact List.mem_singleton.mp hin

theorem copyOf_scanPlan (h : AccountsTo occurs r₀ k₀ n₀ v r n) (targets : List PlanTarget) :
    CopyOf r₀ n (scanPlan r targets) := by
  have hterms := h.terms
  simp only [rowTerms, Prod.mk.injEq] at hterms
  obtain ⟨-, hid, hkind, hexpr, hzone, -, hcatch, hmax⟩ := hterms
  refine ⟨hid, hkind, hexpr, hzone, hcatch, hmax, fun t ht => ?_⟩
  have ht : fromUnix r.nextRunAt = some t := ht
  rw [h.next] at ht
  -- a time of zero is read as none
  simp only [fromUnix] at ht
  split at ht
  · cases ht
  · exact (Option.some.inj ht).symm

/-- A tick, whatever fails in it, leaves the plan accounted for at each call. -/
theorem tick_follows {now : Time} {draws : BackupPlan → Time → Draws} {cron : Cron}
    (hcron : cron.Least occurs) (hmanual : r₀.scheduleType ≠ "MANUAL")
    (hold : ∀ k ∈ k₀, k.2.2.2 < n₀) (hu : r₀.tenantUid ≠ "") (hp : r₀.id ≠ "")
    (hI : Accounts occurs r₀ k₀ n₀ v) :
    Follows occurs r₀ k₀ n₀ (fun _ _ => True) (fun _ _ => True)
      (tick cron r₀.tenantUid now draws) v := by
  obtain ⟨r, n, h⟩ := hI
  refine leads_bindE (Q := fun (_ : (Stmt.clock now).Answer) v' =>
    AccountsTo occurs r₀ k₀ n₀ v' r n ∧ v'.clock = now) (leads_query ?_) ?_
  · intro l hl hok
    have hle : v.clock ≤ now := by
      rw [← hl]
      exact hok
    have htick := h.tick hle
    rw [← hl] at htick
    exact ⟨⟨r, n, htick⟩, htick, rfl⟩
  · intro _ v' hv'
    obtain ⟨h', hclock⟩ := hv'
    unfold runDue
    rw [if_neg hu]
    refine leads_bindE (Q := fun (rows : List PlanRow) v'' => v'' = v' ∧ (rows.map (·.id)).Nodup ∧
      ∀ row ∈ rows, row.id = r₀.id → row = r)
      (leads_query (c := Stmt.duePlans r₀.tenantUid now) ?_) ?_
    · intro l hl _
      rw [view_foreign (c := .duePlans r₀.tenantUid now) trivial l, hl]
      exact ⟨⟨r, n, h'⟩, rfl, duePlans_view (by rw [hl]; exact h'.rows)⟩
    · intro rows v'' hrows
      obtain ⟨rfl, hnodup, hown⟩ := hrows
      refine leads_bindE (readTargets_follows ⟨r, n, h'⟩ rows) fun plans v'' hplans => ?_
      obtain ⟨rfl, hids, hcopies⟩ := hplans
      refine plans_follow hcron hmanual hold hu hp ?_ (by rw [hids]; exact hnodup) h' hclock
      intro plan hmem hid
      obtain ⟨row, hrow, targets, rfl⟩ := hcopies plan hmem
      rw [hown row hrow hid]
      exact copyOf_scanPlan h' targets

end Scheduler

/-! ## Every run -/

/-- The scheduler, which is thread 0, and the other calls, on one database. -/
abbrev Clockwork : Type := Pool Ledger Stmt Stmt.Answer (Except GoError Unit)

abbrev Clockwork.step (u p : String) (lower : String → String) (cron : Cron) :
    Clockwork → Move Request Outside → Option Clockwork :=
  Pool.step (Ledger.exec u p) (Request.program lower cron) Ledger.outside

/-- The scheduler ticks, with a clock that does not go back; no other call and nothing
outside touches the plan; and everything may stop at any time. -/
def Undisturbed (u p : String) (w : Clockwork) : Move Request Outside → Prop
  | .start i q => i = 0 → ∃ now draws, q = .tick u now draws
  | .next i => ∀ c k, w.threads i = .call c k →
    (i = 0 → SchedulerOk u p w.state c) ∧ (i ≠ 0 → Foreign u p c)
  | .outside (.queue op _) => ForeignOp u p op
  | .outside (.library ..) => True
  | .crash => True

/-- The plan of a database whose occurrences from `n₀` on are followed. Its batches so far
are of earlier times. -/
structure Scheduled (s₀ : Store) (r₀ : PlanRow) (n₀ : Int) : Prop where
  row : r₀ ∈ s₀.plans
  tenant : r₀.tenantUid ≠ ""
  id : r₀.id ≠ ""
  notManual : r₀.scheduleType ≠ "MANUAL"
  next : r₀.nextRunAt = some n₀
  earlier : ∀ b ∈ s₀.batches, b.tenantUid = r₀.tenantUid → b.planId = r₀.id → b.scheduledAt < n₀

/-- Nothing runs yet. -/
def Clockwork.starts (s₀ : Store) (w : Clockwork) : Prop :=
  ∃ clock, w = Pool.quiet ⟨s₀, clock, [], []⟩

/-- Up to `now` each occurrence has one batch, made as it should be at its first handling,
and the plan has no other batch that is new. -/
structure AccountedFor (occurs : String → String → Time → Prop) (s₀ : Store) (r₀ : PlanRow) (n₀ : Int)
    (l : Ledger) (now : Time) : Prop where
  once : ∀ o, Occurs occurs r₀ n₀ o → n₀ ≤ o → ofUnix o ≤ now →
    l.store.batches.countP (batchAt r₀.tenantUid r₀.id o) = 1 ∧
    ∃ b ∈ l.store.batches, ∃ made, b.keys = made.keys ∧ made.scheduledAt = o ∧
      MadeAtFirst r₀ l.handled made
  only : ∀ b ∈ l.store.batches, b.tenantUid = r₀.tenantUid → b.planId = r₀.id →
    b.keys ∈ s₀.batches.map BatchRow.keys ∨
      (Occurs occurs r₀ n₀ b.scheduledAt ∧ n₀ ≤ b.scheduledAt ∧ ofUnix b.scheduledAt ≤ now)

section Runs
variable {occurs : String → String → Time → Prop} {cron : Cron} {lower : String → String}
  {s₀ : Store} {r₀ : PlanRow} {n₀ : Int}

/-- The batch keys the plan starts with. -/
def firstKeys (s₀ : Store) (r₀ : PlanRow) : List (String × String × String × Int) :=
  (s₀.batches.map BatchRow.keys).filter (keyOf r₀.tenantUid r₀.id)

theorem Scheduled.accounts (h : Scheduled s₀ r₀ n₀) (clock : Time) :
    Accounts occurs r₀ (firstKeys s₀ r₀) n₀
      ((⟨s₀, clock, [], []⟩ : Ledger).view r₀.tenantUid r₀.id) := by
  refine ⟨r₀, n₀, ?_, rfl, h.next, Int.le_refl _, .inl rfl, ?_, ?_, ?_, ?_⟩
  · have hone := countP_eq_one (p := planIn r₀.tenantUid r₀.id) s₀.plans_pk
      (fun r r' hr hr' => (planIn_iff.mp hr).2.trans (planIn_iff.mp hr').2.symm) h.row
      (planIn_iff.mpr ⟨rfl, rfl⟩)
    rw [List.countP_eq_length_filter] at hone
    obtain ⟨r, hr⟩ := List.length_eq_one_iff.mp hone
    have hmem : r₀ ∈ s₀.plans.filter (planIn r₀.tenantUid r₀.id) :=
      List.mem_filter.mpr ⟨h.row, planIn_iff.mpr ⟨rfl, rfl⟩⟩
    show s₀.plans.filter (planIn r₀.tenantUid r₀.id) = [r₀]
    rw [hr] at hmem ⊢
    rw [List.mem_singleton.mp hmem]
  · simp [Ledger.view, firstKeys]
  · intro b hb
    cases hb
  · intro o _ hle hlt
    exact absurd hle (Int.not_le.mpr hlt)
  · intro x hx
    cases hx

theorem Scheduled.keys_earlier (h : Scheduled s₀ r₀ n₀) :
    ∀ k ∈ firstKeys s₀ r₀, k.2.2.2 < n₀ := by
  intro k hk
  obtain ⟨hmem, hkey⟩ := List.mem_filter.mp hk
  obtain ⟨b, hb, rfl⟩ := List.mem_map.mp hmem
  simp only [keyOf, Bool.and_eq_true, beq_iff_eq] at hkey
  exact h.earlier b hb hkey.1 hkey.2

/-- At every step of an undisturbed run the plan is accounted for, up to its next time. -/
theorem accounts_run (hcron : cron.Least occurs) (hs : Scheduled s₀ r₀ n₀) {w : Clockwork}
    (h : Reach (Clockwork.step r₀.tenantUid r₀.id lower cron) (Undisturbed r₀.tenantUid r₀.id)
      (Clockwork.starts s₀) w) :
    Accounts occurs r₀ (firstKeys s₀ r₀) n₀ (w.state.view r₀.tenantUid r₀.id) := by
  -- what is left of the scheduler's tick leads on from where the plan is
  refine (h.invariant (I := fun w =>
    Accounts occurs r₀ (firstKeys s₀ r₀) n₀ (w.state.view r₀.tenantUid r₀.id) ∧
    Leads (Ledger.exec r₀.tenantUid r₀.id) (Ledger.view r₀.tenantUid r₀.id)
      (SchedulerOk r₀.tenantUid r₀.id) (Accounts occurs r₀ (firstKeys s₀ r₀) n₀)
      (Or (fun _ _ => True) fun _ _ => True) (w.threads 0) (w.state.view r₀.tenantUid r₀.id)) ?_ ?_).1
  · intro w hw
    obtain ⟨clock, rfl⟩ := hw
    exact ⟨hs.accounts clock, leads_done.mpr trivial⟩
  · intro w m w' hI hok hstep
    cases m with
    | start i q =>
      simp only [Clockwork.step, Pool.step] at hstep
      split at hstep
      · cases hstep
        refine ⟨hI.1, ?_⟩
        by_cases hi : i = 0
        · subst hi
          obtain ⟨now, draws, rfl⟩ := hok rfl
          simp only [Function.update_self]
          exact tick_follows hcron hs.notManual hs.keys_earlier hs.tenant hs.id hI.1
        · simpa [Function.update_of_ne (Ne.symm hi)] using hI.2
      · cases hstep
    | next i =>
      simp only [Clockwork.step, Pool.step] at hstep
      split at hstep
      · cases hstep
      · next c k hc =>
        cases hstep
        obtain ⟨hown, hother⟩ := hok c k hc
        by_cases hi : i = 0
        · subst hi
          have hlead := hI.2
          rw [hc] at hlead
          simpa using leads_call.mp hlead w.state rfl (hown rfl)
        · have hview := view_foreign (hother hi) w.state
          simp only [Function.update_of_ne (Ne.symm hi), hview]
          exact hI
    | outside e =>
      cases hstep
      have hview : (w.state.outside e).view r₀.tenantUid r₀.id = w.state.view r₀.tenantUid r₀.id := by
        cases e with
        | queue op hop => exact view_outside hok w.state
        | library applications instances => rfl
      show Accounts _ _ _ _ ((w.state.outside e).view _ _) ∧ _
      rw [hview]
      exact hI
    | crash =>
      cases hstep
      exact ⟨hI.1, leads_done.mpr trivial⟩

/-- Once ticks have moved the plan's next time past the last one of the clock, every
occurrence from the plan's first next time up to then has exactly one batch, which `RunPlan`
or `recordSkipped` made as it was first handled, and the plan has no other new batch. -/
theorem occurrences_accounted (hcron : cron.Least occurs) (hs : Scheduled s₀ r₀ n₀) {w : Clockwork}
    (h : Reach (Clockwork.step r₀.tenantUid r₀.id lower cron) (Undisturbed r₀.tenantUid r₀.id)
      (Clockwork.starts s₀) w) {r : PlanRow} (hr : r ∈ w.state.store.plans)
    (hplan : planIn r₀.tenantUid r₀.id r = true) {n : Int} (hnext : r.nextRunAt = some n)
    (hpast : w.state.clock < ofUnix n) : AccountedFor occurs s₀ r₀ n₀ w.state w.state.clock := by
  obtain ⟨r', n', hacc⟩ := accounts_run hcron hs h
  have hrows : w.state.store.plans.filter (planIn r₀.tenantUid r₀.id) = [r'] := hacc.rows
  obtain rfl : r = r' := by
    have hmem := List.mem_filter.mpr ⟨hr, hplan⟩
    rw [hrows] at hmem
    exact List.mem_singleton.mp hmem
  obtain rfl : n' = n := Option.some.inj (hacc.next.symm.trans hnext)
  have hkeys : (w.state.store.batches.map BatchRow.keys).filter (keyOf r₀.tenantUid r₀.id) =
      firstKeys s₀ r₀ ++ w.state.created.map BatchRow.keys := hacc.keys
  refine ⟨fun o ho hle hdue => ?_, fun b hb hbt hbp => ?_⟩
  · have hlt : o < n' := by
      refine Int.not_le.mp fun hno => ?_
      exact absurd (Int.lt_of_lt_of_le hpast (ofUnix_le_ofUnix hno)) (Int.not_lt.mpr hdue)
    obtain ⟨made, hmade, rfl⟩ := List.mem_map.mp (hacc.past o ho hle hlt)
    have hkey : made.keys ∈ (w.state.store.batches.map BatchRow.keys).filter
        (keyOf r₀.tenantUid r₀.id) := by
      rw [hkeys]
      exact List.mem_append_right _ (List.mem_map_of_mem hmade)
    obtain ⟨hmem, hown⟩ := List.mem_filter.mp hkey
    obtain ⟨b, hb, hbk⟩ := List.mem_map.mp hmem
    simp only [keyOf, Bool.and_eq_true, beq_iff_eq] at hown
    rw [← hbk] at hown
    obtain ⟨hbt, hbp⟩ : b.tenantUid = r₀.tenantUid ∧ b.planId = r₀.id := hown
    have hbs : b.scheduledAt = made.scheduledAt := congrArg (·.2.2.2) hbk
    refine ⟨?_, b, hb, made, hbk, rfl, (hacc.created made hmade).2.2.2.2⟩
    exact countP_batchAt hs.id hb (by simp [batchAt, hbt, hbp, hbs])
  · have hmem : b.keys ∈ (w.state.store.batches.map BatchRow.keys).filter
        (keyOf r₀.tenantUid r₀.id) :=
      List.mem_filter.mpr ⟨List.mem_map_of_mem hb, by simp [keyOf, BatchRow.keys, hbt, hbp]⟩
    rw [hkeys] at hmem
    obtain hold | hnew := List.mem_append.mp hmem
    · exact .inl (List.mem_filter.mp hold).1
    · obtain ⟨made, hmade, hbk⟩ := List.mem_map.mp hnew
      have hbs : made.scheduledAt = b.scheduledAt := congrArg (·.2.2.2) hbk
      obtain ⟨hge, -, hocc, hle, -⟩ := hacc.created made hmade
      rw [hbs] at hge hocc hle
      exact .inr ⟨hocc, hge, hle⟩

end Runs

/-! ## An hourly plan, and a crash -/

theorem clockCron_least : clockCron.Least clockOccurs := by
  refine ⟨clockCron_sound, ?_⟩
  intro e z (t : Int) (o : Int) _ _ ho hlt
  have hlt : (t : Int) < o := hlt
  obtain ⟨rfl, k, hk⟩ | ⟨rfl, k, hk⟩ := ho
  · have hk : (o : Int) = 3600000000000 * k := hk
    show ((t / 3600000000000 + 1) * 3600000000000 : Int) ≤ o
    omega
  · have hk : (o : Int) - 5 * 3600000000000 = 86400000000000 * k := hk
    show (((t - 5 * 3600000000000) / 86400000000000 + 1) * 86400000000000 + 5 * 3600000000000 : Int) ≤ o
    omega

instance (u p : String) (l : Ledger) (c : Stmt) : Decidable (SchedulerOk u p l c) := by
  unfold SchedulerOk
  split <;> infer_instance

/-- Only the scheduler runs, and it may crash. -/
def checkUndisturbed (u p : String) (w : Clockwork) : Move Request Outside → Bool
  | .start _ (.tick tenant _ _) => tenant == u
  | .next 0 =>
    match w.threads 0 with
    | .done _ => true
    | .call c _ => decide (SchedulerOk u p w.state c)
  | .crash => true
  | _ => false

theorem undisturbed_of_check {u p : String} (w : Clockwork) (m : Move Request Outside)
    (h : checkUndisturbed u p w m = true) : Undisturbed u p w m := by
  unfold checkUndisturbed at h
  split at h
  · next now draws =>
    obtain rfl := beq_iff_eq.mp h
    exact fun _ => ⟨now, draws, rfl⟩
  · intro c k hc
    rw [hc] at h
    exact ⟨fun _ => of_decide_eq_true h, fun hne => absurd rfl hne⟩
  · trivial
  · cases h

/-- The database once the hourly plan is created. -/
def hourlyStore : Store := (Desk.after (hourlyRun.take 6)).state.store

def hourlyRow : PlanRow := hourlyStore.plans.headD (planRow (filledPlan (planOf "HOURLY" "") []))

/-- The process is lost after the batch of one o'clock is created, and a minute later a
tick meets the batch. -/
def crashedRun : List (Move Request Outside) :=
  [.start 0 (.tick "tenant-a" hour fun _ _ => fixedDraws)] ++ List.replicate 4 (.next 0) ++
  [.crash, .start 0 (.tick "tenant-a" (hour + minute) fun _ _ => { fixedDraws with batchId := some "b2" })] ++
  List.replicate 8 (.next 0)

def Clockwork.after (moves : List (Move Request Outside)) : Clockwork :=
  final (Clockwork.step "tenant-a" "plan-a" id clockCron) (Pool.quiet ⟨hourlyStore, 0, [], []⟩) moves

/-- One o'clock was handled twice, and has one batch. -/
theorem occurrences_accounted_hourly :
    AccountedFor clockOccurs hourlyStore hourlyRow 3600 (Clockwork.after crashedRun).state
        (hour + minute) ∧
      (Clockwork.after crashedRun).state.handled = [(3600, hour), (3600, hour + minute)] ∧
      (Clockwork.after crashedRun).state.store.batches.map (·.scheduledAt) = [3600] := by
  have hplans : hourlyStore.plans = [hourlyRow] := by
    have hlen : hourlyStore.plans.length = 1 := by decide +kernel
    obtain ⟨r, hr⟩ := List.length_eq_one_iff.mp hlen
    unfold hourlyRow
    rw [hr]
    rfl
  have hterms : (hourlyRow.tenantUid, hourlyRow.id, hourlyRow.scheduleType, hourlyRow.nextRunAt) =
      ("tenant-a", "plan-a", "HOURLY", some 3600) := by decide +kernel
  simp only [Prod.mk.injEq] at hterms
  obtain ⟨hten, hid, hkind, hnext⟩ := hterms
  have hscheduled : Scheduled hourlyStore hourlyRow 3600 := by
    refine ⟨by rw [hplans]; exact List.mem_singleton_self _, ?_, ?_, ?_, hnext, ?_⟩
    · rw [hten]; decide
    · rw [hid]; decide
    · rw [hkind]; decide
    · have hnone : hourlyStore.batches = [] := by decide +kernel
      intro b hb
      rw [hnone] at hb
      cases hb
  have hrun : (runActions (checked (checkUndisturbed "tenant-a" "plan-a")
      (Clockwork.step "tenant-a" "plan-a" id clockCron)) (Pool.quiet ⟨hourlyStore, 0, [], []⟩)
      crashedRun).isSome = true := by decide +kernel
  have hreach : Reach (Clockwork.step hourlyRow.tenantUid hourlyRow.id id clockCron)
      (Undisturbed hourlyRow.tenantUid hourlyRow.id) (Clockwork.starts hourlyStore)
      (Clockwork.after crashedRun) := by
    rw [hten, hid]
    exact reach_final undisturbed_of_check crashedRun ⟨0, rfl⟩ hrun
  have hclock : (Clockwork.after crashedRun).state.clock = hour + minute := by decide +kernel
  have hmoved : ((Clockwork.after crashedRun).state.store.plans.map fun r =>
      (r.tenantUid, r.id, r.nextRunAt)) = [("tenant-a", "plan-a", some 7200)] := by decide +kernel
  obtain ⟨r, hr, hterms⟩ : ∃ r ∈ (Clockwork.after crashedRun).state.store.plans,
      (r.tenantUid, r.id, r.nextRunAt) = ("tenant-a", "plan-a", some 7200) :=
    List.mem_map.mp (by rw [hmoved]; exact List.mem_singleton_self _)
  simp only [Prod.mk.injEq] at hterms
  obtain ⟨hrt, hri, hrn⟩ := hterms
  refine ⟨?_, by decide +kernel, by decide +kernel⟩
  rw [← hclock]
  refine occurrences_accounted clockCron_least hscheduled hreach hr ?_ hrn ?_
  · exact planIn_iff.mpr ⟨hrt.trans hten.symm, hri.trans hid.symm⟩
  · rw [hclock]
    decide

end AppBackup.Plans
