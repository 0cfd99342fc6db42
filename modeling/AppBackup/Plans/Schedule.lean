import AppBackup.Persistence.Frames
import AppBackup.Plans.Service

/- Does `next_run_at` belong to the stored schedule? `RunDue` and `Resume` compute it from
   the copy of the plan they have read, and write it whatever became of the row since. In
   every run in which these writes find the schedule they were computed from, and those of
   `RunDue` a plan that is not paused, it does.

   What is proved:
     1. `program_computed` -- every next time the service writes was computed from the
        expression and the zone of the copy it had read;
     2. `law_write`, `law_exec`, `law_outside` -- one statement keeps the law, when a next time
        goes to a row that still has that schedule;
     3. `next_run_belongs` -- hence every run of such writes does.

   `edits_during_run_due` runs an update between the read and the write of `RunDue`. -/
namespace AppBackup.Plans
open Persistence Queue Threads Threads.Thread Transition Table

/-- `Next` returns an occurrence of the expression in the zone, after the time it is
given; five fields name whole minutes. -/
structure Cron.Sound (cron : Cron) (occurs : String → String → Time → Prop) : Prop where
  occurs_next : ∀ e z t, cron.parses e = true → cron.location z = none → occurs e z (cron.next e z t)
  next_later : ∀ e z t, cron.parses e = true → cron.location z = none → t < cron.next e z t
  whole : ∀ e z t, occurs e z t → minute ∣ t

/-! ## The database, and what was paused -/

/-- The database, and for each plan whether a pause has committed since it was last
created, updated or resumed. -/
structure Watched where
  store : Store
  resting : String → String → Bool

/-- What an operation that commits makes of the pauses. -/
def rests (resting : String → String → Bool) : Op → String → String → Bool
  | .createPlan plan => fun t i => if t = plan.tenantUid ∧ i = plan.id then false else resting t i
  | .updatePlan tenant plan _ => fun t i => if t = tenant ∧ i = plan.id then false else resting t i
  | .setPlanEnabled tenant id enabled _ _ =>
    fun t i => if t = tenant ∧ i = id then !enabled else resting t i
  | .pausePlanForScope tenant id _ => fun t i => if t = tenant ∧ i = id then true else resting t i
  | _ => resting

namespace Watched

def empty : Watched := ⟨Store.empty, fun _ _ => false⟩

/-- The database after an operation, and the pauses where it committed. -/
def write (w : Watched) (op : Op) : Watched :=
  match op.apply w.store with
  | .ok s => ⟨s, rests w.resting op⟩
  | .error _ => w

def exec (c : Stmt) (w : Watched) : c.Answer × Watched :=
  ((c.exec w.store).1,
    match c with
    | .write op _ => w.write op
    | c => { w with store := (c.exec w.store).2 })

def outside (w : Watched) : Outside → Watched
  | .queue op _ => w.write op
  | .library applications instances => { w with store := (Outside.library applications instances).apply w.store }

end Watched

/-- The service's calls, on one database. -/
abbrev Desk : Type := Pool Watched Stmt Stmt.Answer (Except GoError Unit)

abbrev Desk.step (lower : String → String) (cron : Cron) : Desk → Move Request Outside → Option Desk :=
  Pool.step Watched.exec (Request.program lower cron) Watched.outside

/-- Nothing runs on the database a migration leaves. -/
def Desk.fresh (p : Desk) : Prop := p = Pool.quiet Watched.empty

/-! ## The law, and when a write keeps it -/

/-- The next time of a row is an occurrence of the row's own schedule. -/
def Belongs (occurs : String → String → Time → Prop) (r : PlanRow) : Prop :=
  ∀ seconds, r.nextRunAt = some seconds → occurs r.cronExpression r.timezone (ofUnix seconds)

structure Law (occurs : String → String → Time → Prop) (w : Watched) : Prop where
  belongs : ∀ r ∈ w.store.plans, Belongs occurs r
  resting : ∀ r ∈ w.store.plans, w.resting r.tenantUid r.id = true → r.nextRunAt = none

/-- A write of a next time finds the expression and the zone of the copy it was computed
from; that of `RunDue` also finds a next time, not a plan that has none any more. -/
def UpToDate (w : Watched) : Stmt → Prop
  | .write (.advancePlan tenant id _ _ _) (some copy) =>
    ∀ r ∈ w.store.plans, planIn tenant id r = true →
      r.cronExpression = copy.cronExpression ∧ r.timezone = copy.timezone ∧ r.nextRunAt ≠ none
  | .write (.setPlanEnabled tenant id true _ _) (some copy) =>
    ∀ r ∈ w.store.plans, planIn tenant id r = true →
      r.cronExpression = copy.cronExpression ∧ r.timezone = copy.timezone
  | _ => True

instance (w : Watched) (c : Stmt) : Decidable (UpToDate w c) := by
  unfold UpToDate
  split <;> infer_instance

/-- The calls of a step are up to date. -/
def Desk.UpToDate (p : Desk) (m : Move Request Outside) : Prop :=
  ∀ c, p.called m = some c → Plans.UpToDate p.state c

/-! ## What the calls write -/

/-- The next time a call writes is that of a schedule: of the plan it saves, or of the
copy it was computed from. -/
def Computed (cron : Cron) : Stmt → Prop
  | .write (.createPlan plan) _ | .write (.updatePlan _ plan _) _ =>
    ∃ now, nextRun cron plan now = .ok plan.nextRunAt
  | .write (.setPlanEnabled _ _ enabled next _) basis =>
    (enabled = false ∧ next = none) ∨
      (enabled = true ∧ ∃ copy now, basis = some copy ∧ nextRun cron copy now = .ok next)
  | .write (.advancePlan _ _ scheduledAt next _) basis =>
    ∃ copy, basis = some copy ∧ nextRun cron copy scheduledAt = .ok next
  | _ => True

theorem computed_of_expands {cron : Cron} {tenant planId : String} {c : Stmt}
    (h : Calls.Expands tenant planId c) : Computed cron c := by
  cases c with
  | write op basis => cases op <;> trivial
  | _ => trivial

section Calls
variable {lower : String → String} {cron : Cron}

theorem computed_of_reads {c : Stmt} (h : Reads c) : Computed cron c := by
  cases c with
  | write op basis => cases h
  | _ => trivial

theorem readPlan_computed (tenant id : String) : Every (Computed cron) (readPlan tenant id) :=
  readPlan_every fun _ => computed_of_reads

theorem runPlan_computed (tenant : String) (plan : BackupPlan) (trigger : String) (scheduledAt : Time)
    (draws : Draws) : Every (Computed cron) (Calls.runPlan tenant plan trigger scheduledAt draws) :=
  Calls.runPlan_every (fun _ => trivial) fun _ hc _ => computed_of_expands hc

theorem runDue_computed (tenant : String) (now : Time) (draws : BackupPlan → Time → Draws) :
    Every (Computed cron) (runDue cron tenant now draws) := by
  unfold runDue
  split
  · exact every_pure _
  · refine every_bindE (every_query trivial) fun rows => ?_
    refine every_bindE ?_ fun plans => every_each plans fun plan _ => ?_
    · induction rows with
      | nil => exact every_pure _
      | cons r rest ih =>
        refine every_bindE (every_query trivial) fun targets => ?_
        exact every_bindE ih fun _ => every_pure _
    · refine runMissed_every (fun _ _ _ => trivial) (fun _ hc _ => computed_of_expands hc) ?_ 128 plan rfl
      intro copy scheduled next _ hnext
      exact ⟨copy, rfl, hnext⟩

/-- Every next time the service writes is that of a schedule. -/
theorem program_computed (q : Request) : Every (Computed cron) (q.program lower cron) := by
  cases q with
  | tick tenant now draws => exact every_bindE (every_query trivial) fun _ => runDue_computed ..
  | create tenant input subject hex now =>
    exact every_bindE (create_every (fun _ => computed_of_reads) fun _ hnext _ => ⟨now, hnext⟩) fun _ =>
      every_pure _
  | update tenant id input now =>
    exact every_bindE (update_every (fun _ => computed_of_reads) fun _ _ hnext _ => ⟨now, hnext⟩) fun _ =>
      every_pure _
  | delete tenant id => exact every_bindE (every_query trivial) fun _ => Calls.every_ofStore _
  | pause tenant id now =>
    refine every_bindE ?_ fun _ => every_pure _
    exact every_bindE (Calls.every_write (.inl ⟨rfl, rfl⟩)) fun _ => readPlan_computed ..
  | resume tenant id now =>
    refine every_bindE ?_ fun _ => every_pure _
    refine every_bindE (readPlan_computed ..) fun plan => ?_
    apply every_resultBind
    intro next hnext
    exact every_bindE (Calls.every_write (.inr ⟨rfl, plan, now, rfl, hnext⟩)) fun _ =>
      readPlan_computed ..
  | runByHand tenant id now draws =>
    refine every_bindE ?_ fun _ => every_pure _
    exact every_bindE (readPlan_computed ..) fun _ => runPlan_computed ..

end Calls

/-! ## What a write keeps -/

section Law
variable {cron : Cron} {occurs : String → String → Time → Prop}

theorem ofUnix_unix {t : Time} (h : minute ∣ t) : ofUnix (unix t) = t := by
  obtain ⟨k, rfl⟩ := h
  show (60 * 1000000000 * k : Int) / 1000000000 * 1000000000 = 60 * 1000000000 * k
  omega

/-- A row with the next time of a schedule and that schedule's expression and zone. -/
theorem belongs_of_nextRun (hcron : cron.Sound occurs) {plan : BackupPlan} {now : Time}
    {next : Option Time} {r : PlanRow} (h : nextRun cron plan now = .ok next)
    (he : r.cronExpression = plan.cronExpression) (hz : r.timezone = plan.timezone)
    (hnext : r.nextRunAt = nullableUnix next) : Belongs occurs r := by
  intro seconds hs
  rw [hnext] at hs
  obtain ⟨t, ht, rfl⟩ := Option.map_eq_some_iff.mp hs
  subst ht
  unfold nextRun at h
  split at h
  · cases h
  · split at h
    · cases h
    · next hloc =>
      split at h
      · next hparse =>
        cases h
        have hocc := hcron.occurs_next plan.cronExpression plan.timezone now hparse hloc
        rw [ofUnix_unix (hcron.whole _ _ _ hocc), he, hz]
        exact hocc
      · cases h

theorem planIn_iff {tenant id : String} {r : PlanRow} :
    planIn tenant id r = true ↔ r.tenantUid = tenant ∧ r.id = id := by
  simp [planIn]

theorem planIn_false {tenant id : String} {r : PlanRow} (h : planIn tenant id r = false) :
    ¬(r.tenantUid = tenant ∧ r.id = id) := by
  intro hr
  rw [planIn_iff.mpr hr] at h
  cases h

/-- An update of a plan's row keeps the law when the row it writes meets it. -/
theorem Law.updated {w w' : Watched} {tenant id : String} {f : PlanRow → PlanRow}
    (h : Law occurs w)
    (hplans : w'.store.plans = updateWhere (planIn tenant id) f w.store.plans)
    (hhit : ∀ r ∈ w.store.plans, planIn tenant id r = true → Belongs occurs (f r) ∧
      (w'.resting (f r).tenantUid (f r).id = true → (f r).nextRunAt = none))
    (hmiss : ∀ t i, ¬(t = tenant ∧ i = id) → w'.resting t i = w.resting t i) : Law occurs w' := by
  have hrow : ∀ r ∈ w'.store.plans, Belongs occurs r ∧
      (w'.resting r.tenantUid r.id = true → r.nextRunAt = none) := by
    intro r hr
    rw [hplans] at hr
    obtain ⟨r₀, hr₀, hp, rfl⟩ | ⟨hr₀, hp⟩ := mem_updateWhere_cases hr
    · exact hhit r₀ hr₀ hp
    · refine ⟨h.belongs r hr₀, ?_⟩
      rw [hmiss _ _ (planIn_false hp)]
      exact h.resting r hr₀
  exact ⟨fun r hr => (hrow r hr).1, fun r hr => (hrow r hr).2⟩

theorem Law.of_subset {w w' : Watched} (h : Law occurs w)
    (hplans : ∀ r ∈ w'.store.plans, r ∈ w.store.plans) (hrest : w'.resting = w.resting) :
    Law occurs w' := by
  refine ⟨fun r hr => h.belongs r (hplans r hr), fun r hr => ?_⟩
  rw [hrest]
  exact h.resting r (hplans r hr)

theorem law_write (hcron : cron.Sound occurs) {w : Watched} {op : Op} {basis : Option BackupPlan}
    (h : Law occurs w) (hc : Computed cron (.write op basis)) (hok : UpToDate w (.write op basis)) :
    Law occurs (w.write op) := by
  unfold Watched.write
  cases hs : op.apply w.store with
  | error e => exact h
  | ok s' =>
    have hplans := (Op.apply_frame hs).1
    show Law occurs ⟨s', rests w.resting op⟩
    cases op with
    | createPlan plan =>
      obtain ⟨now, hnext⟩ := hc
      have hrow : ∀ r ∈ s'.plans, r ∈ w.store.plans ∨ r = planRow plan := by
        intro r hr
        rw [hplans] at hr
        simpa [Op.plansAfter] using hr
      refine ⟨fun r hr => ?_, fun r hr => ?_⟩
      · obtain hr | rfl := hrow r hr
        · exact h.belongs r hr
        · exact belongs_of_nextRun hcron hnext rfl rfl rfl
      · simp only [rests]
        by_cases hk : r.tenantUid = plan.tenantUid ∧ r.id = plan.id
        · rw [if_pos hk]
          intro hfalse
          cases hfalse
        · rw [if_neg hk]
          obtain hr | rfl := hrow r hr
          · exact h.resting r hr
          · exact absurd ⟨rfl, rfl⟩ hk
    | updatePlan tenant plan cancelQueued =>
      obtain ⟨now, hnext⟩ := hc
      refine h.updated hplans (fun r _ hp => ⟨belongs_of_nextRun hcron hnext rfl rfl rfl, ?_⟩)
        fun t i hk => if_neg hk
      intro hrest
      have hrest : rests w.resting (.updatePlan tenant plan cancelQueued) r.tenantUid r.id = true := hrest
      rw [show rests w.resting (.updatePlan tenant plan cancelQueued) r.tenantUid r.id = false from
        if_pos (planIn_iff.mp hp)] at hrest
      cases hrest
    | setPlanEnabled tenant id enabled next updated =>
      refine h.updated hplans (fun r hr hp => ?_) fun t i hk => if_neg hk
      have hrest : rests w.resting (.setPlanEnabled tenant id enabled next updated) r.tenantUid r.id =
          !enabled := if_pos (planIn_iff.mp hp)
      obtain ⟨rfl, rfl⟩ | ⟨rfl, copy, now, rfl, hnext⟩ := hc
      · refine ⟨fun seconds hs => ?_, fun _ => rfl⟩
        cases hs
      · obtain ⟨he, hz⟩ := hok r hr hp
        refine ⟨belongs_of_nextRun hcron hnext he hz rfl, ?_⟩
        intro htrue
        have htrue : rests w.resting (.setPlanEnabled tenant id true next updated) r.tenantUid r.id =
          true := htrue
        rw [hrest] at htrue
        cases htrue
    | pausePlanForScope tenant id reason =>
      refine h.updated hplans (fun r _ _ => ⟨fun seconds hs => ?_, fun _ => rfl⟩) fun t i hk => if_neg hk
      cases hs
    | advancePlan tenant id scheduledAt next updated =>
      obtain ⟨copy, rfl, hnext⟩ := hc
      refine h.updated hplans (fun r hr hp => ?_) fun _ _ _ => rfl
      obtain ⟨he, hz, hsome⟩ := hok r hr hp
      refine ⟨belongs_of_nextRun hcron hnext he hz rfl, ?_⟩
      intro hrest
      -- a plan at rest has no next time, and this one has
      exact absurd (h.resting r hr hrest) hsome
    | _ => exact h.of_subset (fun r hr => by rw [hplans] at hr; exact hr) rfl

/-- A call that is computed from a schedule and up to date keeps the law. -/
theorem law_exec (hcron : cron.Sound occurs) {w : Watched} {c : Stmt} (h : Law occurs w)
    (hc : Computed cron c) (hok : UpToDate w c) : Law occurs (Watched.exec c w).2 := by
  cases c with
  | write op basis => exact law_write hcron h hc hok
  | deletePlan tenant id =>
    refine h.of_subset (fun r hr => ?_) rfl
    have hr : r ∈ (Stmt.commit w.store (w.store.deletePlan tenant id)).2.plans := hr
    unfold Store.deletePlan at hr
    split at hr
    · exact hr
    · exact (List.mem_filter.mp hr).1
  | _ => exact h.of_subset (fun r hr => hr) rfl

theorem law_outside (hcron : cron.Sound occurs) {w : Watched} (h : Law occurs w) (e : Outside) :
    Law occurs (w.outside e) := by
  cases e with
  | queue op hop =>
    have hcomp : Computed cron (.write op none) := by cases op <;> trivial
    refine law_write hcron h hcomp ?_
    cases op <;> trivial
  | library applications instances => exact h.of_subset (fun r hr => hr) rfl

/-- In every run whose writes of a next time are up to date, each next time in the
database is an occurrence of the schedule in its row, and a plan at rest has none. -/
theorem next_run_belongs {lower : String → String} (hcron : cron.Sound occurs) {p : Desk}
    (h : Reach (Desk.step lower cron) Desk.UpToDate Desk.fresh p) : Law occurs p.state := by
  have hall : (∀ i, (p.threads i).Every (Computed cron)) ∧ Law occurs p.state := by
    refine h.invariant (I := fun p => (∀ i, (p.threads i).Every (Computed cron)) ∧ Law occurs p.state)
      ?_ ?_
    · intro p hp
      rw [hp]
      refine ⟨fun i => every_done _, ⟨fun r hr => ?_, fun r hr => ?_⟩⟩
      · cases hr
      · cases hr
    · intro p m p' hI hok hs
      refine ⟨fun i => Pool.every_step program_computed hI.1 hs i, ?_⟩
      obtain hst | ⟨i, c, k, rfl, hcall, hst⟩ | ⟨e, rfl, hst⟩ := Pool.step_state hs
      · rw [hst]
        exact hI.2
      · rw [hst]
        have hcomp := hI.1 i
        rw [hcall] at hcomp
        refine law_exec hcron hI.2 (every_call.mp hcomp).1 (hok c ?_)
        simp only [Pool.called, hcall]
      · rw [hst]
        exact law_outside hcron hI.2 e
  exact hall.2

end Law

/-! ## An hourly plan -/

def hour : Time := 60 * minute
def day : Time := 24 * hour

/-- The hour, and 05:00 each day, in UTC. -/
def clockCron : Cron where
  location zone := if zone = "UTC" then none else some (.plain "unknown time zone")
  parses e := e == "0 * * * *" || e == "0 5 * * *"
  next e _ t := if e = "0 * * * *" then (t / hour + 1) * hour
    else ((t - 5 * hour) / day + 1) * day + 5 * hour

def clockOccurs (e _ : String) (t : Time) : Prop :=
  (e = "0 * * * *" ∧ hour ∣ t) ∨ (e = "0 5 * * *" ∧ day ∣ t - 5 * hour)

theorem clockCron_sound : clockCron.Sound clockOccurs := by
  have hh : hour = 3600000000000 := rfl
  have hd : day = 86400000000000 := rfl
  have hm : minute = 60000000000 := rfl
  refine ⟨?_, ?_, ?_⟩
  · intro e z (t : Int) hp _
    simp only [clockCron, Bool.or_eq_true, beq_iff_eq] at hp
    obtain rfl | rfl := hp
    · exact .inl ⟨rfl, _, Int.mul_comm _ _⟩
    · refine .inr ⟨rfl, (t - 5 * hour) / day + 1, ?_⟩
      show ((t - 5 * hour) / day + 1) * day + 5 * hour - 5 * hour = _
      rw [Int.add_sub_cancel, Int.mul_comm]
  · intro e z (t : Int) hp _
    simp only [clockCron, Bool.or_eq_true, beq_iff_eq] at hp
    obtain rfl | rfl := hp
    · show (t : Int) < (t / 3600000000000 + 1) * 3600000000000
      omega
    · show (t : Int) < ((t - 5 * 3600000000000) / 86400000000000 + 1) * 86400000000000 + 5 * 3600000000000
      omega
  · intro e z (t : Int) h
    obtain ⟨-, k, hk⟩ | ⟨-, k, hk⟩ := h
    · refine ⟨60 * k, ?_⟩
      rw [hh] at hk
      rw [hm]
      show (t : Int) = 60000000000 * (60 * k)
      have hk : (t : Int) = 3600000000000 * k := hk
      omega
    · refine ⟨1440 * k + 300, ?_⟩
      rw [hh, hd] at hk
      rw [hm]
      have hk : (t : Int) - 5 * 3600000000000 = 86400000000000 * k := hk
      show (t : Int) = 60000000000 * (1440 * k + 300)
      omega

def demoApp : ApplicationRow := ⟨"tenant-a", "cloud.demo", "Demo", "", "demo"⟩
def demoInstance : InstanceRow := ⟨"tenant-a", "cloud.demo", "deploy-a", true, .backupable, true⟩

def planOf (kind time : String) : PlanInput where
  name := "Plan"
  targetKind := ""
  targets := [⟨"deploy-a", false, ⟨"", [], [], 0, ""⟩⟩]
  sharedRiskAccepted := false
  scheduleType := kind
  executionTime := time
  cronExpression := ""
  timezone := "UTC"
  enabled := true
  catchUp := true
  maxCatchUpSeconds := 3600
  retry := ⟨1, 60⟩
  retention := ⟨1, 0, 0, 0, 24⟩

def fixedDraws : Draws where
  batchId := some "b1"
  now := 0
  pausedAt := 0
  enqueue := fun _ => ⟨some "t1", some "j1", fun _ => 0⟩
  skip := fun _ => ⟨none, none, fun _ => 0⟩
  scan := fun _ _ => none

/-- The step's calls are up to date. -/
def checkUpToDate (p : Desk) (m : Move Request Outside) : Bool :=
  match p.called m with
  | none => true
  | some c => decide (UpToDate p.state c)

theorem upToDate_of_check (p : Desk) (m : Move Request Outside) (h : checkUpToDate p m = true) :
    Desk.UpToDate p m := by
  intro c hc
  unfold checkUpToDate at h
  rw [hc] at h
  exact of_decide_eq_true h

/-- An hourly plan is created at half past twelve, and the tick at one o'clock runs up to
the write of the next time. -/
def hourlyRun : List (Move Request Outside) :=
  [.outside (.library [demoApp] [demoInstance]),
    .start 0 (.create "tenant-a" (planOf "HOURLY" "") "subject-a" (some "a") (30 * minute))] ++
  List.replicate 4 (.next 0) ++
  [.start 0 (.tick "tenant-a" hour fun _ _ => fixedDraws)] ++
  List.replicate 11 (.next 0)

def Desk.after (moves : List (Move Request Outside)) : Desk :=
  final (Desk.step id clockCron) (Pool.quiet Watched.empty) moves

/-- Before that write the plan is moved to 05:00. -/
def movedRun : List (Move Request Outside) :=
  hourlyRun ++ [.start 1 (.update "tenant-a" "plan-a" (planOf "DAILY" "05:00") hour)] ++
    List.replicate 4 (.next 1) ++ [.next 0]

/-- Before that write the plan is paused. -/
def pausedRun : List (Move Request Outside) :=
  hourlyRun ++ [.start 1 (.pause "tenant-a" "plan-a" hour), .next 1, .next 0]

/-- The next time of each plan after a run, with its expression and whether it is at
rest. -/
def Desk.nextTimes (p : Desk) : List (Option Int × String × Bool) :=
  p.state.store.plans.map fun r => (r.nextRunAt, r.cronExpression, p.state.resting r.tenantUid r.id)

/-- Left alone, `RunDue` writes two o'clock, which is the plan's next hour. -/
theorem next_run_belongs_hourly :
    Law clockOccurs (Desk.after (hourlyRun ++ [.next 0])).state ∧
      (Desk.after (hourlyRun ++ [.next 0])).nextTimes = [(some 7200, "0 * * * *", false)] := by
  have hrun : (runActions (checked checkUpToDate (Desk.step id clockCron)) (Pool.quiet Watched.empty)
      (hourlyRun ++ [.next 0])).isSome = true := by decide +kernel
  exact ⟨next_run_belongs clockCron_sound (reach_final upToDate_of_check _ rfl hrun),
    by decide +kernel⟩

/-- Moved to 05:00 or paused before that write, the plan is given the next hour all the
same. -/
theorem edits_during_run_due :
    (¬∀ p, Reach (Desk.step id clockCron) (fun _ _ => True) Desk.fresh p →
      ∀ r ∈ p.state.store.plans, Belongs clockOccurs r) ∧
    (¬∀ p, Reach (Desk.step id clockCron) (fun _ _ => True) Desk.fresh p →
      ∀ r ∈ p.state.store.plans, p.state.resting r.tenantUid r.id = true → r.nextRunAt = none) := by
  have hreach : ∀ moves, (runActions (checked (fun _ _ => true) (Desk.step id clockCron))
      (Pool.quiet Watched.empty) moves).isSome = true →
      Reach (Desk.step id clockCron) (fun _ _ => True) Desk.fresh (Desk.after moves) :=
    fun moves h => reach_final (fun _ _ _ => trivial) moves rfl h
  have hmoved : (Desk.after movedRun).nextTimes = [(some 7200, "0 5 * * *", false)] := by
    decide +kernel
  have hpaused : (Desk.after pausedRun).nextTimes = [(some 7200, "0 * * * *", true)] := by
    decide +kernel
  have hrow : ∀ p : Desk, ∀ x, p.nextTimes = [x] → ∃ r ∈ p.state.store.plans,
      r.nextRunAt = x.1 ∧ r.cronExpression = x.2.1 ∧ p.state.resting r.tenantUid r.id = x.2.2 := by
    intro p x hx
    have hmem : x ∈ p.nextTimes := by rw [hx]; exact List.mem_singleton_self x
    obtain ⟨r, hr, rfl⟩ := List.mem_map.mp hmem
    exact ⟨r, hr, rfl, rfl, rfl⟩
  refine ⟨fun h => ?_, fun h => ?_⟩
  · obtain ⟨r, hr, hnext, hexpr, -⟩ := hrow _ _ hmoved
    have hocc := h _ (hreach movedRun (by decide +kernel)) r hr 7200 hnext
    rw [hexpr] at hocc
    obtain ⟨hne, -⟩ | ⟨-, k, hk⟩ := hocc
    · exact absurd hne (by decide)
    · have hk : (7200 * 1000000000 - 5 * 3600000000000 : Int) = 86400000000000 * k := hk
      omega
  · obtain ⟨r, hr, hnext, -, hrest⟩ := hrow _ _ hpaused
    have hnone := h _ (hreach pausedRun (by decide +kernel)) r hr hrest
    rw [hnext] at hnone
    cases hnone

end AppBackup.Plans
