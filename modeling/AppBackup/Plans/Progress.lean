import AppBackup.Plans.Schedule

/- Does the scheduler get on? Each turn of the loop of `RunDue` moves `next_run_at` to what
   `Next` answers. For an expression that has no occurrence left within its horizon, such as
   the thirtieth of February, `Next` answers the zero time, and nothing looks at that: the plan
   is saved with a next time long past, and a plan whose next time is the zero time stays due.
   Where `Next` finds an occurrence at every turn, a plan is due for at most one turn a second
   between its next time and now.

   What is proved:
     1. `turn_ok` -- what one turn of the loop writes, in the row as in its copy;
     2. `Turns.next_time`, `After.bound` -- after some turns the next time is later by a second
        for each turn but the first at least;
     3. `scheduler_progress_iff` -- the scheduler gets on exactly where `Next` finds an
        occurrence.

   `february_stays_due` follows the plan for the thirtieth of February. -/
namespace AppBackup.Plans
open Persistence Queue Table Threads Threads.Thread

/-- `Next` returns an occurrence after the time it is given, or the zero time where there is none
within its horizon; occurrences are whole seconds. -/
structure Cron.Searches (cron : Cron) (occurs : String → String → Time → Prop) : Prop where
  next_cases : ∀ e z t, cron.parses e = true → cron.location z = none →
    (occurs e z (cron.next e z t) ∧ t < cron.next e z t) ∨ cron.next e z t = zeroTime
  whole : ∀ e z t, occurs e z t → second ∣ t

/-- A scheduled plan has no occurrence after `t` within the horizon. -/
def Spent (cron : Cron) (plan : BackupPlan) (t : Time) : Prop :=
  plan.scheduleType ≠ "MANUAL" ∧ zeroTime ≤ t ∧ cron.next plan.cronExpression plan.timezone t = zeroTime

/-- The next time of the plan is after `t`; a plan that is run by hand has none. -/
def Later (plan : BackupPlan) (t : Time) : Prop :=
  (plan.scheduleType = "MANUAL" ∧ plan.nextRunAt = none) ∨ ∃ next, plan.nextRunAt = some next ∧ t < next

section
variable {cron : Cron} {occurs : String → String → Time → Prop}

theorem nextRun_ok {plan : BackupPlan} {t : Time} {next : Option Time} (h : nextRun cron plan t = .ok next) :
    (plan.scheduleType = "MANUAL" ∧ next = none) ∨
      (plan.scheduleType ≠ "MANUAL" ∧ cron.location plan.timezone = none ∧
        cron.parses plan.cronExpression = true ∧ next = some (cron.next plan.cronExpression plan.timezone t)) := by
  unfold nextRun at h
  split at h
  · next hmanual => exact .inl ⟨hmanual, (Except.ok.inj h).symm⟩
  · next hscheduled =>
    split at h
    · cases h
    · next hlocation =>
      split at h
      · next hparses => exact .inr ⟨hscheduled, hlocation, hparses, (Except.ok.inj h).symm⟩
      · cases h

/-- A plan that is not spent is given a later time. -/
theorem Cron.Searches.next_later (hcron : cron.Searches occurs) {plan : BackupPlan} {t : Time}
    {next : Option Time} (h : nextRun cron plan t = .ok next) (hspent : ¬Spent cron plan t) :
    ∀ t', next = some t' → t < t' := by
  intro t' ht'
  obtain ⟨-, hnone⟩ | ⟨hscheduled, hlocation, hparses, hsome⟩ := nextRun_ok h
  · rw [hnone] at ht'
    cases ht'
  · rw [← Option.some.inj (hsome.symm.trans ht')]
    obtain ⟨-, hlt⟩ | hzero := hcron.next_cases _ _ t hparses hlocation
    · exact hlt
    · by_contra hle
      rw [hzero] at hle
      exact hspent ⟨hscheduled, not_lt.mp hle, hzero⟩

/-- A plan is given a later time exactly when it is not spent. -/
theorem later_iff (hcron : cron.Searches occurs) {plan : BackupPlan} {t : Time} {last next : Option Time}
    (h : nextRun cron plan t = .ok next) :
    Later { plan with lastScheduledAt := last, nextRunAt := next } t ↔ ¬Spent cron plan t := by
  refine ⟨fun hlater ⟨hscheduled, hzero, hspent⟩ => ?_, fun hspent => ?_⟩
  · obtain ⟨hmanual, -⟩ | ⟨next', hnext, hlt⟩ := hlater
    · exact hscheduled hmanual
    · obtain ⟨hmanual, -⟩ | ⟨-, -, -, hsome⟩ := nextRun_ok h
      · exact hscheduled hmanual
      · rw [← Option.some.inj (hsome.symm.trans hnext), hspent] at hlt
        exact absurd hzero (not_le.mpr hlt)
  · obtain ⟨hmanual, hnone⟩ | ⟨-, -, -, hsome⟩ := nextRun_ok h
    · exact .inl ⟨hmanual, hnone⟩
    · exact .inr ⟨_, hsome, hcron.next_later h hspent _ hsome⟩

theorem Cron.Searches.whole_next (hcron : cron.Searches occurs) {plan : BackupPlan} {t : Time}
    {next : Option Time} (h : nextRun cron plan t = .ok next) : ∀ t', next = some t' → second ∣ t' := by
  intro t' ht'
  obtain ⟨-, hnone⟩ | ⟨-, hlocation, hparses, hsome⟩ := nextRun_ok h
  · rw [hnone] at ht'
    cases ht'
  · rw [← Option.some.inj (hsome.symm.trans ht')]
    obtain ⟨hoccurs, -⟩ | hzero := hcron.next_cases plan.cronExpression plan.timezone t hparses hlocation
    · exact hcron.whole _ _ _ hoccurs
    · rw [hzero]
      decide

/-! ## A turn of the loop -/

/-- One turn of the loop of `RunDue`: the copy of the plan it goes on with, none where it breaks
off because the plan was paused. -/
def turn (cron : Cron) (tenant : String) (now : Time) (draws : BackupPlan → Time → Draws) (plan : BackupPlan)
    (scheduled : Time) : Program (Option BackupPlan) := do
  let next ← result (nextRun cron plan scheduled)
  if ← handle tenant plan scheduled now (draws plan scheduled) then pure none
  else do
    Calls.write (.advancePlan tenant plan.id scheduled next now) (some plan)
    pure (some { plan with lastScheduledAt := some scheduled, nextRunAt := next })

variable {tenant : String} {now : Time} {draws : BackupPlan → Time → Draws} {plan plan' : BackupPlan}
  {scheduled : Time} {s s' : Store}

/-- The loop is one turn after the other, as long as the copy is due. -/
theorem run_runMissed (steps : Nat) (hnext : plan.nextRunAt = some scheduled) (hdue : scheduled ≤ now) :
    run Stmt.exec (runMissed cron tenant now draws (steps + 1) plan) s =
      match run Stmt.exec (turn cron tenant now draws plan scheduled) s with
      | (.error e, s') => (.error e, s')
      | (.ok none, s') => (.ok (), s')
      | (.ok (some plan'), s') => run Stmt.exec (runMissed cron tenant now draws steps plan') s' := by
  unfold turn
  conv_lhs => unfold runMissed
  simp only [hnext]
  rw [if_neg (not_lt.mpr hdue), run_result, run_result]
  cases nextRun cron plan scheduled with
  | error e => rfl
  | ok next =>
    simp only
    rw [run_bindE, run_bindE]
    rcases run Stmt.exec (handle tenant plan scheduled now (draws plan scheduled)) s with ⟨outcome, s₁⟩
    cases outcome with
    | error e => rfl
    | ok stop =>
      cases stop with
      | true => rfl
      | false =>
        simp only [Bool.false_eq_true, if_false]
        rw [Calls.run_write_bind, Calls.run_write_bind]
        rfl

/-- What a turn that goes through leaves: the next time of the schedule, in the copy and in the
row. -/
theorem turn_ok (h : run Stmt.exec (turn cron tenant now draws plan scheduled) s = (.ok (some plan'), s')) :
    ∃ next, nextRun cron plan scheduled = .ok next ∧
      plan' = { plan with lastScheduledAt := some scheduled, nextRunAt := next } ∧
      ∀ r ∈ s'.plans, planIn tenant plan.id r = true → r.nextRunAt = nullableUnix next := by
  unfold turn at h
  rw [run_result] at h
  cases hnext : nextRun cron plan scheduled with
  | error e => rw [hnext] at h; cases h
  | ok next =>
    rw [hnext] at h
    simp only at h
    rw [run_bindE] at h
    generalize run Stmt.exec (handle tenant plan scheduled now (draws plan scheduled)) s = outcome at h
    obtain ⟨stop, s₁⟩ := outcome
    cases stop with
    | error e => cases h
    | ok stop =>
      cases stop with
      | true => cases h
      | false =>
        simp only [Bool.false_eq_true, if_false] at h
        rw [Calls.run_write_bind] at h
        have h : (Except.ok (some { plan with lastScheduledAt := some scheduled, nextRunAt := next }),
          s₁.advancePlan tenant plan.id scheduled next now) = (Except.ok (some plan'), s') := h
        obtain ⟨hplan, hstore⟩ := Prod.mk.inj h
        obtain rfl := Option.some.inj (Except.ok.inj hplan)
        refine ⟨next, rfl, rfl, ?_⟩
        intro r hr hin
        rw [← hstore] at hr
        obtain ⟨r₀, -, rfl⟩ := mem_updateWhere.mp hr
        by_cases hin₀ : planIn tenant plan.id r₀ = true
        · rw [if_pos hin₀]
        · rw [if_neg hin₀] at hin
          exact absurd hin hin₀

/-- Turns in a row at one `now`, each of a copy that is due and not spent, none with an error or
a pause; a call of `RunDue` after the first reads the plan again. -/
inductive Turns (cron : Cron) (tenant : String) (now : Time) (draws : BackupPlan → Time → Draws)
    (first : BackupPlan) (s₀ : Store) : Nat → BackupPlan → Store → Prop where
  | start : Turns cron tenant now draws first s₀ 0 first s₀
  | more {n : Nat} {plan plan' : BackupPlan} {s s' : Store} {scheduled : Time}
      (h : Turns cron tenant now draws first s₀ n plan s) (hnext : plan.nextRunAt = some scheduled)
      (hdue : scheduled ≤ now) (hspent : ¬Spent cron plan scheduled)
      (hrun : run Stmt.exec (turn cron tenant now draws plan scheduled) s = (.ok (some plan'), s')) :
      Turns cron tenant now draws first s₀ (n + 1) plan' s'
  | again {n : Nat} {plan : BackupPlan} {s : Store} {r : PlanRow}
      (h : Turns cron tenant now draws first s₀ (n + 1) plan s) (hr : r ∈ s.plans)
      (hin : planIn tenant plan.id r = true) :
      Turns cron tenant now draws first s₀ (n + 1) (scanPlan r (s.planTargets tenant plan.id)) s

/-! ## The turns at one time -/

/-- A next time `n` turns after `t₀`: whole seconds from the first turn on, one more each turn. -/
def After (t₀ : Time) (n : Nat) (t : Time) : Prop :=
  (n = 0 ∧ t = t₀) ∨ (0 < n ∧ second ∣ t ∧ t₀ + (n - 1) * second < t)

theorem whole_step {t₀ k m n : Int} (hk : t₀ + (n - 1) * 1000000000 < 1000000000 * k)
    (hlt : 1000000000 * k < 1000000000 * m) : t₀ + (n + 1 - 1) * 1000000000 < 1000000000 * m := by
  omega

theorem whole_first (t : Int) : t + (((0 : Nat) : Int) - 1) * 1000000000 < t := by
  omega

theorem whole_before {t k : Int} (h : t < 1000000000 * k) : t / 1000000000 < 1000000000 * k / 1000000000 := by
  omega

theorem whole_bound {t₀ t now n : Int} (hk : t₀ + (n - 1) * 1000000000 < t) (hdue : t ≤ now) :
    (n + 1) * 1000000000 ≤ now - t₀ + 2 * 1000000000 := by
  omega

theorem After.next {t₀ t next : Time} {n : Nat} (h : After t₀ n t) (hwhole : second ∣ next)
    (hlt : t < next) : After t₀ (n + 1) next := by
  refine .inr ⟨Nat.succ_pos n, hwhole, ?_⟩
  have hone : second = 1000000000 := rfl
  obtain ⟨rfl, rfl⟩ | ⟨-, ⟨k, rfl⟩, hk⟩ := h
  · simpa using hlt
  · obtain ⟨m, rfl⟩ := hwhole
    rw [hone] at hk hlt ⊢
    push_cast
    exact whole_step hk hlt

theorem After.bound {t₀ t now : Time} {n : Nat} (h : After t₀ n t) (hdue : t ≤ now) :
    ((n + 1 : Nat) : Int) * second ≤ max 0 (now - t₀ + 2 * second) := by
  have hone : second = 1000000000 := rfl
  refine le_trans ?_ (le_max_right _ _)
  rw [hone]
  push_cast
  obtain ⟨rfl, rfl⟩ | ⟨-, -, hk⟩ := h
  · exact whole_bound (whole_first t) hdue
  · rw [hone] at hk
    exact whole_bound hk hdue

theorem fromUnix_nullableUnix {next : Option Time} {t : Time} (hwhole : ∀ t, next = some t → second ∣ t)
    (h : fromUnix (nullableUnix next) = some t) : next = some t := by
  cases next with
  | none => cases h
  | some t' =>
    obtain ⟨k, rfl⟩ := hwhole t' rfl
    have hunix : unix (second * k) = k := Int.mul_ediv_cancel_left k (by decide)
    simp only [nullableUnix, Option.map_some, hunix, fromUnix] at h
    split at h
    · cases h
    · rw [← h, ofUnix, Int.mul_comm]

/-- Each turn has moved the next time by a second at least, in the copy and in the row. -/
theorem Turns.next_time (hcron : cron.Searches occurs) {first : BackupPlan} {t₀ : Time} {s₀ : Store} {n : Nat}
    (h₀ : first.nextRunAt = some t₀) (h : Turns cron tenant now draws first s₀ n plan s) :
    (∀ t, plan.nextRunAt = some t → After t₀ n t) ∧
      (0 < n → ∀ r ∈ s.plans, planIn tenant plan.id r = true →
        ∀ t, fromUnix r.nextRunAt = some t → After t₀ n t) ∧
      (n : Int) * second ≤ max 0 (now - t₀ + 2 * second) := by
  induction h with
  | start =>
    refine ⟨fun t ht => .inl ⟨rfl, ?_⟩, fun hpos => absurd hpos (Nat.lt_irrefl 0), ?_⟩
    · rw [h₀] at ht
      exact (Option.some.inj ht).symm
    · simp
  | @more n plan plan' s s' scheduled h hnext hdue hspent hrun ih =>
    obtain ⟨next, hcomputed, rfl, hrow⟩ := turn_ok hrun
    have hafter := ih.1 _ hnext
    have hwhole := hcron.whole_next hcomputed
    have hcopy : ∀ t, next = some t → After t₀ (n + 1) t := by
      intro t ht
      exact hafter.next (hwhole t ht) (hcron.next_later hcomputed hspent t ht)
    refine ⟨hcopy, fun _ r hr hin t ht => ?_, hafter.bound hdue⟩
    rw [hrow r hr hin] at ht
    exact hcopy t (fromUnix_nullableUnix hwhole ht)
  | again h hr hin ih =>
    obtain ⟨-, hrow, hbound⟩ := ih
    have hstored := hrow (Nat.succ_pos _)
    refine ⟨hstored _ hr hin, fun _ r' hr' hin' => ?_, hbound⟩
    have hid := (planIn_iff.mp hin).2
    exact hstored r' hr' (hid ▸ hin')

/-! ## Progress, exactly where the plan is not spent -/

theorem unix_lt_of_whole {t next : Time} (hwhole : second ∣ next) (h : t < next) : unix t < unix next := by
  obtain ⟨k, rfl⟩ := hwhole
  have hone : second = 1000000000 := rfl
  rw [hone] at h
  exact whole_before h

theorem later_row (hcron : cron.Searches occurs) {next : Option Time}
    (h : nextRun cron plan scheduled = .ok next) (hspent : ¬Spent cron plan scheduled) {r : PlanRow}
    (hr : r.nextRunAt = nullableUnix next) : ∀ seconds, r.nextRunAt = some seconds → unix scheduled < seconds := by
  intro seconds hseconds
  rw [hr] at hseconds
  obtain ⟨t, ht, rfl⟩ := Option.map_eq_some_iff.mp hseconds
  exact unix_lt_of_whole (hcron.whole_next h t ht) (hcron.next_later h hspent t ht)

/-- The scheduler makes progress exactly where `Next` finds an occurrence: the first next time of
a plan that is saved is after now, a turn of the loop moves the next time on, in the row as in the
copy, and at one time only finitely many turns find the plan due. -/
theorem scheduler_progress_iff (hcron : cron.Searches occurs) :
    (∀ (lower : String → String) (input : PlanInput) (now : Time) (plan : BackupPlan),
      normalize lower cron input now = .ok plan → plan.scheduleType ≠ "MANUAL" →
        ((∃ next, plan.nextRunAt = some next ∧ now < next) ↔ ¬Spent cron plan now)) ∧
    (∀ (tenant : String) (now : Time) (draws : BackupPlan → Time → Draws) (plan plan' : BackupPlan)
      (scheduled : Time) (s s' : Store), plan.nextRunAt = some scheduled → scheduled ≤ now →
      run Stmt.exec (turn cron tenant now draws plan scheduled) s = (.ok (some plan'), s') →
        (Later plan' scheduled ↔ ¬Spent cron plan scheduled) ∧
        ∀ r ∈ s'.plans, planIn tenant plan.id r = true → r.nextRunAt = nullableUnix plan'.nextRunAt ∧
          (¬Spent cron plan scheduled → ∀ seconds, r.nextRunAt = some seconds → unix scheduled < seconds)) ∧
    (∀ (tenant : String) (now : Time) (draws : BackupPlan → Time → Draws) (first : BackupPlan) (t₀ : Time)
      (s₀ : Store), first.nextRunAt = some t₀ → ∃ most : Nat, ∀ n plan s,
        Turns cron tenant now draws first s₀ n plan s → n ≤ most) := by
  refine ⟨?_, ?_, ?_⟩
  · intro lower input now plan hplan hscheduled
    rw [← @later_iff cron occurs hcron plan now plan.lastScheduledAt _ (normalize_next hplan)]
    refine ⟨.inr, fun hlater => ?_⟩
    obtain ⟨hmanual, -⟩ | hsome := hlater
    · exact absurd hmanual hscheduled
    · exact hsome
  · intro tenant now draws plan plan' scheduled s s' hnext hdue hrun
    obtain ⟨next, hcomputed, rfl, hrow⟩ := turn_ok hrun
    refine ⟨later_iff hcron hcomputed, fun r hr hin => ⟨hrow r hr hin, fun hspent => ?_⟩⟩
    exact later_row hcron hcomputed hspent (hrow r hr hin)
  · intro tenant now draws first t₀ s₀ h₀
    refine ⟨(max 0 (now - t₀ + 2 * second)).toNat, fun n plan s h => ?_⟩
    have hbound := (h.next_time hcron h₀).2.2
    have hone : second = 1000000000 := rfl
    generalize (max 0 (now - t₀ + 2 * second) : Int) = b at hbound ⊢
    rw [hone] at hbound
    omega

end

/-! ## A plan that fires, and one that does not -/

theorem clockCron_searches : clockCron.Searches clockOccurs := by
  refine ⟨fun e z t hparses hlocation => .inl ?_, fun e z t hoccurs => ?_⟩
  · exact ⟨clockCron_sound.occurs_next e z t hparses hlocation, clockCron_sound.next_later e z t hparses hlocation⟩
  · exact Int.dvd_trans (by decide) (clockCron_sound.whole e z t hoccurs)

/-- An hourly plan saved at half past twelve is due at one o'clock. -/
theorem scheduler_progress_hourly : ∃ plan next,
    normalize id clockCron (planOf "HOURLY" "") (30 * minute) = .ok plan ∧
      plan.nextRunAt = some next ∧ 30 * minute < next := by
  have hsaved : (normalize id clockCron (planOf "HOURLY" "") (30 * minute)).map
      (fun p => (p.scheduleType, p.cronExpression, p.timezone)) = .ok ("HOURLY", "0 * * * *", "UTC") := by
    decide +kernel
  cases hplan : normalize id clockCron (planOf "HOURLY" "") (30 * minute) with
  | error e =>
    rw [hplan] at hsaved
    cases hsaved
  | ok plan =>
    rw [hplan] at hsaved
    obtain ⟨hkind, hsaved⟩ := Prod.mk.inj (Except.ok.inj hsaved)
    obtain ⟨hexpression, hzone⟩ := Prod.mk.inj hsaved
    have hscheduled : plan.scheduleType ≠ "MANUAL" := by
      rw [hkind]
      decide
    have hspent : ¬Spent clockCron plan (30 * minute) := by
      intro ⟨_, _, hzero⟩
      rw [hexpression, hzone] at hzero
      exact absurd hzero (by decide)
    obtain ⟨next, hnext, hlt⟩ :=
      ((scheduler_progress_iff clockCron_searches).1 id _ _ plan hplan hscheduled).mpr hspent
    exact ⟨plan, next, rfl, hnext, hlt⟩

/-- As `clockCron`, with the thirtieth of February, which parses and never comes. -/
def februaryCron : Cron where
  location := clockCron.location
  parses e := clockCron.parses e || e == "0 0 30 2 *"
  next e z t := if e = "0 0 30 2 *" then zeroTime else clockCron.next e z t

def februaryOccurs (e z : String) (t : Time) : Prop := e ≠ "0 0 30 2 *" ∧ clockOccurs e z t

theorem februaryCron_searches : februaryCron.Searches februaryOccurs := by
  refine ⟨fun e z t hparses hlocation => ?_, fun e z t hoccurs => clockCron_searches.whole e z t hoccurs.2⟩
  by_cases hnever : e = "0 0 30 2 *"
  · exact .inr (if_pos hnever)
  · have hparses : clockCron.parses e = true := by
      simpa [februaryCron, hnever] using hparses
    have hnext : februaryCron.next e z t = clockCron.next e z t := if_neg hnever
    rw [hnext]
    refine (clockCron_searches.next_cases e z t hparses hlocation).imp ?_ id
    intro ⟨hoccurs, hlt⟩
    exact ⟨⟨hnever, hoccurs⟩, hlt⟩

def februaryInput : PlanInput := { planOf "CRON" "" with cronExpression := "0 0 30 2 *" }

/-- The plan as it is stored. -/
def februaryPlan : BackupPlan :=
  { filledPlan februaryInput [⟨"deploy-a", false, .full⟩] with
    id := "plan-a", tenantUid := "tenant-a", nextRunAt := some zeroTime }

def februaryStore : Store :=
  (Op.createPlan februaryPlan).next { Store.empty with applications := [demoApp], instances := [demoInstance] }

/-- A turn of `RunDue` in the year 1970, ended with its store. -/
def februaryTurn : Except GoError (Option BackupPlan) × Store :=
  run Stmt.exec (turn februaryCron "tenant-a" 0 (fun _ _ => fixedDraws) februaryPlan zeroTime)
    februaryStore

/-- The plan is saved with the zero time, and its turn leaves it due at the zero time. -/
theorem february_stays_due :
    (¬∀ (cron : Cron) (occurs : String → String → Time → Prop), cron.Searches occurs →
      ∀ (lower : String → String) (input : PlanInput) (now : Time) (plan : BackupPlan),
        normalize lower cron input now = .ok plan → plan.scheduleType ≠ "MANUAL" →
          ∃ next, plan.nextRunAt = some next ∧ now < next) ∧
    (¬∀ (cron : Cron) (occurs : String → String → Time → Prop), cron.Searches occurs →
      ∀ (tenant : String) (now : Time) (draws : BackupPlan → Time → Draws) (plan plan' : BackupPlan)
        (scheduled : Time) (s s' : Store), plan.nextRunAt = some scheduled → scheduled ≤ now →
        run Stmt.exec (turn cron tenant now draws plan scheduled) s = (.ok (some plan'), s') →
          Later plan' scheduled) := by
  refine ⟨fun h => ?_, fun h => ?_⟩
  · have hsaved : (normalize id februaryCron februaryInput 0).map (fun p => (p.scheduleType, p.nextRunAt)) =
        .ok ("CRON", some zeroTime) := by decide +kernel
    cases hplan : normalize id februaryCron februaryInput 0 with
    | error e =>
      rw [hplan] at hsaved
      cases hsaved
    | ok plan =>
      rw [hplan] at hsaved
      obtain ⟨hkind, hzero⟩ := Prod.mk.inj (Except.ok.inj hsaved)
      obtain ⟨next, hnext, hlt⟩ := h _ _ februaryCron_searches id _ 0 plan hplan (hkind ▸ by decide)
      obtain rfl := Option.some.inj (hzero.symm.trans hnext)
      exact absurd hlt (by decide)
  · have hturn : februaryTurn.1.map (Option.map fun p => (p.scheduleType, p.nextRunAt)) =
        .ok (some ("CRON", some zeroTime)) := by decide +kernel
    have hrun : run Stmt.exec (turn februaryCron "tenant-a" 0 (fun _ _ => fixedDraws) februaryPlan zeroTime)
        februaryStore = (februaryTurn.1, februaryTurn.2) := rfl
    cases hplan : februaryTurn.1 with
    | error e =>
      rw [hplan] at hturn
      cases hturn
    | ok plan =>
      cases plan with
      | none =>
        rw [hplan] at hturn
        cases hturn
      | some plan =>
        rw [hplan] at hturn hrun
        obtain ⟨hkind, hzero⟩ := Prod.mk.inj (Option.some.inj (Except.ok.inj hturn))
        obtain ⟨hmanual, -⟩ | ⟨next, hnext, hlt⟩ :=
          h _ _ februaryCron_searches _ _ _ _ _ _ _ _ rfl (by decide) hrun
        · rw [hkind] at hmanual
          exact absurd hmanual (by decide)
        · obtain rfl := Option.some.inj (hzero.symm.trans hnext)
          exact absurd hlt (lt_irrefl zeroTime)

end AppBackup.Plans
