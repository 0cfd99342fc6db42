import AppBackup.Persistence.Frames
import AppBackup.Plans.Schedule

/- A plan's state over whole calls. Three columns say whether a plan runs: `enabled`,
   `next_run_at` and `pause_reason_json`. `Create` and `Update` write all three, a pause for
   a scope sets them together, `Pause`, `Resume` and `RunDue` write some of them. Here the
   calls of the service, a `RunPlan` of any copy of a plan, a pause for a scope and the
   queue's own operations come one after the other, each run to its end.

   What is proved:
     1. what each statement does to a plan's three columns (`exec_plans`), and which calls keep
        every plan coherent statement by statement (`runPlan_keeps` and the `keeps_` lemmas);
     2. `tick_tracks`, `resume_tracks` -- a tick and a resumption pass through states that are
        not, and come out of them;
     3. `next_coherent`, `next_incoherent` -- one call keeps the plans coherent exactly when it
        is no `Resume` of a plan with a reason, hence the run theorem. -/
namespace AppBackup.Plans
open Persistence Queue Table Threads Threads.Thread Transition

/-- A plan that was paused for a reason is off and has no next time, and a scheduled plan that
is on has one. -/
def Coherent (r : PlanRow) : Prop :=
  (r.pauseReason ≠ none → r.enabled = false ∧ r.nextRunAt = none) ∧
    (r.enabled = true → r.scheduleType ≠ "MANUAL" → r.nextRunAt ≠ none)

instance (r : PlanRow) : Decidable (Coherent r) := by
  unfold Coherent
  cases r.pauseReason <;> cases r.nextRunAt <;> infer_instance

def AllCoherent (rows : List PlanRow) : Prop := ∀ r ∈ rows, Coherent r

/-- A call run to its end. -/
inductive Call where
  | request (q : Request)
  | runPlan (tenant : String) (plan : BackupPlan) (trigger : String) (scheduledAt : Time) (draws : Draws)
  | pausePlanForScope (tenant id : String) (reason : PlanPauseReason)
  | outside (e : Outside)

/-- The database after a call. -/
def Call.next (lower : String → String) (cron : Cron) (s : Store) : Call → Store
  | request q => (run Stmt.exec (q.program lower cron) s).2
  | runPlan tenant plan trigger scheduledAt draws =>
    (run Stmt.exec (Calls.runPlan tenant plan trigger scheduledAt draws) s).2
  | pausePlanForScope tenant id reason => (Op.pausePlanForScope tenant id reason).next s
  | outside e => e.apply s

/-- `Resume` does not go through on a plan that has a pause reason: there is none, or the next
time of the plan cannot be computed. -/
def Call.Resumable (cron : Cron) (s : Store) : Call → Prop
  | request (.resume tenant id now) => ∀ r ∈ s.plans, planIn tenant id r = true →
    r.pauseReason = none ∨ ∃ e, nextRun cron (scanPlan r (s.planTargets tenant id)) now = .error e
  | _ => True

/-! ## What a statement keeps -/

theorem nextRun_some {cron : Cron} {plan : BackupPlan} {after : Time} {next : Option Time}
    (h : nextRun cron plan after = .ok next) (hkind : plan.scheduleType ≠ "MANUAL") :
    nullableUnix next ≠ none := by
  unfold nextRun at h
  rw [if_neg hkind] at h
  split at h
  · cases h
  · split at h
    · obtain rfl := Except.ok.inj h
      intro hnone
      cases hnone
    · cases h

theorem exec_plans (op : Op) (basis : Option BackupPlan) (s : Store) :
    (Stmt.exec (.write op basis) s).2.plans = op.plansAfter s.plans ∨
      (Stmt.exec (.write op basis) s).2.plans = s.plans := by
  show (Stmt.commit s (op.apply s)).2.plans = _ ∨ (Stmt.commit s (op.apply s)).2.plans = _
  cases hop : op.apply s with
  | ok s' => exact .inl (Op.apply_frame hop).1
  | error e => exact .inr rfl

theorem AllCoherent.update {rows : List PlanRow} {p : PlanRow → Bool} {f : PlanRow → PlanRow}
    (h : AllCoherent rows) (hf : ∀ r ∈ rows, p r = true → Coherent (f r)) :
    AllCoherent (updateWhere p f rows) := by
  intro r' hr'
  obtain ⟨r, hr, rfl⟩ := mem_updateWhere.mp hr'
  by_cases hp : p r = true
  · rw [if_pos hp]
    exact hf r hr hp
  · rw [if_neg hp]
    exact h r hr

/-- A statement that keeps the rows coherent, whatever they are. -/
def Keeps (c : Stmt) : Prop := ∀ s : Store, AllCoherent s.plans → AllCoherent (Stmt.exec c s).2.plans

theorem keeps_write {op : Op} {basis : Option BackupPlan}
    (h : ∀ rows, AllCoherent rows → AllCoherent (op.plansAfter rows)) : Keeps (.write op basis) := by
  intro s hs
  obtain hp | hp := exec_plans op basis s
  · rw [hp]
    exact h _ hs
  · rw [hp]
    exact hs

theorem coherent_paused {r : PlanRow} {reason : PlanPauseReason} {updated : Int} :
    Coherent { r with enabled := false, nextRunAt := none, pauseReason := some reason, updatedAt := updated } := by
  refine ⟨fun _ => ⟨rfl, rfl⟩, ?_⟩
  intro hon
  cases hon

/-- An expansion of a plan leaves the plan rows or pauses that plan. -/
theorem exec_expands {tenant planId : String} {c : Stmt} (h : Calls.Expands tenant planId c) (s : Store) :
    (Stmt.exec c s).2.plans = s.plans ∨ ∃ reason updated, (Stmt.exec c s).2.plans =
      updateWhere (planIn tenant planId) (fun r =>
        { r with enabled := false, nextRunAt := none, pauseReason := some reason, updatedAt := updated })
        s.plans := by
  cases c with
  | write op basis =>
    have hop := exec_plans op basis s
    cases op with
    | pausePlanForScope tenant' id reason =>
      obtain ⟨rfl, rfl⟩ := h
      exact hop.symm.imp_right fun hp => ⟨reason, _, hp⟩
    | createBackupJob job => exact .inl (hop.elim id id)
    | addTask task now => exact .inl (hop.elim id id)
    | failBackupJob tenant' id' code finished => exact .inl (hop.elim id id)
    | _ => exact h.elim
  | deletePlan tenant' id => exact h.elim
  | clock now => exact h.elim
  | _ => exact .inl rfl

theorem keeps_expands {tenant planId : String} {c : Stmt} (h : Calls.Expands tenant planId c) : Keeps c := by
  intro s hs
  obtain hp | ⟨reason, updated, hp⟩ := exec_expands h s
  · rw [hp]
    exact hs
  · rw [hp]
    exact hs.update fun r _ _ => coherent_paused

theorem keeps_reads {c : Stmt} (h : Reads c) : Keeps c := by
  cases c with
  | planRow tenant id => exact fun s hs => hs
  | planTargets tenant id => exact fun s hs => hs
  | instance_ tenant deployId => exact fun s hs => hs
  | _ => cases h

theorem keeps_createBatch (batch : BackupBatch) (basis : Option BackupPlan) :
    Keeps (.write (.createBatch batch) basis) :=
  keeps_write fun _ hrows => hrows

theorem keeps_createPlan {cron : Cron} {plan : BackupPlan} {now : Time}
    (h : nextRun cron plan now = .ok plan.nextRunAt) : Keeps (.write (.createPlan plan) (some plan)) := by
  apply keeps_write
  intro rows hrows r hr
  obtain hr | hr := List.mem_append.mp hr
  · exact hrows r hr
  · rw [List.mem_singleton.mp hr]
    exact ⟨fun hreason => absurd rfl hreason, fun _ hkind => nextRun_some h hkind⟩

theorem keeps_updatePlan {cron : Cron} {plan : BackupPlan} {now : Time} (tenant : String) (changed : Bool)
    (h : nextRun cron plan now = .ok plan.nextRunAt) :
    Keeps (.write (.updatePlan tenant plan changed) (some plan)) := by
  apply keeps_write
  intro rows hrows
  apply hrows.update
  intro r _ _
  exact ⟨fun hreason => absurd rfl hreason, fun _ hkind => nextRun_some h hkind⟩

theorem keeps_disable (tenant id : String) (updated : Time) (basis : Option BackupPlan) :
    Keeps (.write (.setPlanEnabled tenant id false none updated) basis) := by
  apply keeps_write
  intro rows hrows
  apply hrows.update
  intro r _ _
  refine ⟨fun _ => ⟨rfl, rfl⟩, ?_⟩
  intro hon
  cases hon

theorem keeps_deletePlan (tenant id : String) : Keeps (.deletePlan tenant id) := by
  intro s hs
  show AllCoherent (Stmt.commit s (s.deletePlan tenant id)).2.plans
  unfold Store.deletePlan
  split
  · exact hs
  · exact fun r hr => hs r (List.mem_filter.mp hr).1

/-! ## Calls whose statements all keep it -/

section Calls
variable {lower : String → String} {cron : Cron}

theorem coherent_of_every {α : Type} {t : Thread Stmt Stmt.Answer α} (h : Every Keeps t) {s : Store}
    (hs : AllCoherent s.plans) : AllCoherent (run Stmt.exec t s).2.plans := by
  have hleads : Leads Stmt.exec (fun s : Store => s.plans) (fun _ _ => True) AllCoherent
      (fun _ => AllCoherent) t s.plans :=
    leads_keep (fun _ h => h) hs h fun c s hc hs _ => hc s hs
  exact hleads.alone

theorem runPlan_keeps (tenant : String) (plan : BackupPlan) (trigger : String) (scheduledAt : Time)
    (draws : Draws) : Every Keeps (Calls.runPlan tenant plan trigger scheduledAt draws) :=
  Calls.runPlan_every (fun _ => keeps_createBatch _ _) fun _ hc _ => keeps_expands hc

end Calls

/-! ## Calls that go by what they read -/

section Outline
variable {cron : Cron} {tenant : String}

/-- The outlines below follow the plan rows of a call that runs alone. -/
def Tracks {α : Type} (E : List PlanRow → Prop) (Q : α → List PlanRow → Prop) (t : Program α)
    (rows : List PlanRow) : Prop :=
  Leads Stmt.exec (fun s : Store => s.plans) (fun _ _ => True) (fun _ => True) (Or (fun _ => E) Q) t rows

theorem tracks_keep {α : Type} {P : Stmt → Prop} {J : List PlanRow → Prop} {t : Program α}
    {rows : List PlanRow} (hrows : J rows) (ht : Every P t)
    (hP : ∀ c s, P c → J s.plans → J (Stmt.exec c s).2.plans) : Tracks J (fun _ => J) t rows := by
  have hkeep := leads_keep (I := fun _ => True) (fun _ _ => trivial) hrows ht
    (fun c s hc hs (_ : (fun (_ : Store) (_ : Stmt) => True) s c) => hP c s hc hs)
  refine hkeep.mono fun a rows' h => ?_
  cases a with
  | ok a => exact h
  | error e => exact h

theorem Tracks.mono {α : Type} {E E' : List PlanRow → Prop} {Q Q' : α → List PlanRow → Prop}
    {t : Program α} {rows : List PlanRow} (h : Tracks E Q t rows) (hE : ∀ rows, E rows → E' rows)
    (hQ : ∀ a rows, Q a rows → Q' a rows) : Tracks E' Q' t rows := by
  refine Leads.mono h ?_
  intro outcome rows' houtcome
  cases outcome with
  | ok a => exact hQ a rows' houtcome
  | error e => exact hE rows' houtcome

/-- What is read of a plan is its one row. -/
theorem readPlan_tracks {id : String} (rows : List PlanRow) :
    Tracks (· = rows) (fun plan rows' => rows' = rows ∧
      ∀ r ∈ rows, planIn tenant id r = true → ∃ targets, plan = scanPlan r targets)
      (readPlan tenant id) rows := by
  unfold readPlan
  refine leads_bindE (Q := fun (found : (Stmt.planRow tenant id).Answer) rows' => rows' = rows ∧
      ∀ r, found = .ok r → ∀ r' ∈ rows, planIn tenant id r' = true → r' = r) ?_ ?_
  · refine leads_query (c := Stmt.planRow tenant id) ?_
    intro s hs _
    refine ⟨trivial, hs, ?_⟩
    intro r hfound r' hr' hin'
    have hfind : s.plans.find? (planIn tenant id) = some r := Stmt.exec_planRow.mp hfound
    rw [← hs] at hr'
    have hin := planIn_iff.mp (List.find?_some hfind)
    exact eq_of_key s.plans_pk hr' (List.mem_of_find?_eq_some hfind)
      ((planIn_iff.mp hin').2.trans hin.2.symm)
  · intro found rows' hfound
    obtain ⟨rfl, hone⟩ := hfound
    refine leads_bindE (Q := fun (r : PlanRow) rows'' => rows'' = rows' ∧
        ∀ r' ∈ rows', planIn tenant id r' = true → r' = r) ?_ ?_
    · apply leads_result
      cases found with
      | error e => exact rfl
      | ok r => exact ⟨rfl, hone r rfl⟩
    · intro r rows'' hr
      obtain ⟨rfl, hone⟩ := hr
      refine leads_bindE (Q := fun (_ : (Stmt.planTargets tenant id).Answer) rows' => rows' = rows'') ?_ ?_
      · refine leads_query (c := Stmt.planTargets tenant id) ?_
        intro s hs _
        exact ⟨trivial, hs⟩
      · intro targets rows' hrows'
        subst hrows'
        apply leads_return
        refine ⟨rfl, ?_⟩
        intro r' hr' hin
        rw [hone r' hr' hin]
        exact ⟨targets, rfl⟩

/-- The rows of a plan are not paused for a reason, and a copy has their kind of schedule. -/
def Ready (tenant : String) (rows : List PlanRow) (plan : BackupPlan) : Prop :=
  ∀ r ∈ rows, planIn tenant plan.id r = true → r.pauseReason = none ∧ r.scheduleType = plan.scheduleType

def SameKind (tenant : String) (rows : List PlanRow) (plan : BackupPlan) : Prop :=
  ∀ r ∈ rows, planIn tenant plan.id r = true → r.scheduleType = plan.scheduleType

/-- What `RunDue` relies on while it handles a plan: the plans it comes to later are ready. -/
def Waiting (tenant : String) (plan : BackupPlan) (later : List BackupPlan) (rows : List PlanRow) : Prop :=
  AllCoherent rows ∧ SameKind tenant rows plan ∧ ∀ p ∈ later, Ready tenant rows p

theorem Ready.other {rows : List PlanRow} {p : BackupPlan} {id : String} {f : PlanRow → PlanRow}
    (h : Ready tenant rows p) (hne : p.id ≠ id)
    (hf : ∀ r, planIn tenant id r = true → (f r).id = r.id) :
    Ready tenant (updateWhere (planIn tenant id) f rows) p := by
  intro r' hr' hin
  obtain ⟨r, hr, rfl⟩ := mem_updateWhere.mp hr'
  by_cases hid : planIn tenant id r = true
  · rw [if_pos hid] at hin
    exact absurd ((planIn_iff.mp hin).2.symm.trans ((hf r hid).trans (planIn_iff.mp hid).2)) hne
  · rw [if_neg hid] at hin ⊢
    exact h r hr hin

/-- An expansion of the plan that is handled keeps it. -/
theorem Waiting.expands {plan : BackupPlan} {later : List BackupPlan} {c : Stmt} {s : Store}
    (h : Waiting tenant plan later s.plans) (hlater : ∀ p ∈ later, p.id ≠ plan.id)
    (hc : Calls.Expands tenant plan.id c) : Waiting tenant plan later (Stmt.exec c s).2.plans := by
  obtain ⟨hall, hkind, hready⟩ := h
  refine ⟨keeps_expands hc s hall, ?_⟩
  obtain hp | ⟨reason, updated, hp⟩ := exec_expands hc s
  · rw [hp]
    exact ⟨hkind, hready⟩
  · rw [hp]
    refine ⟨?_, fun p hmem => (hready p hmem).other (hlater p hmem) fun r _ => rfl⟩
    intro r' hr' hin
    obtain ⟨r, hr, rfl⟩ := mem_updateWhere.mp hr'
    by_cases hid : planIn tenant plan.id r = true
    · rw [if_pos hid]
      exact hkind r hr hid
    · rw [if_neg hid] at hin ⊢
      exact hkind r hr hin

theorem Waiting.createBatch {plan : BackupPlan} {later : List BackupPlan} {batch : BackupBatch} {s : Store}
    (h : Waiting tenant plan later s.plans) :
    Waiting tenant plan later (Stmt.exec (.write (.createBatch batch) none) s).2.plans := by
  have hp : (Stmt.exec (.write (.createBatch batch) none) s).2.plans = s.plans :=
    (exec_plans (.createBatch batch) none s).elim id id
  rw [hp]
  exact h

theorem unlessConflict_tracks {α : Type} {J : List PlanRow → Prop} {t : Program α} {rows : List PlanRow}
    (h : Tracks J (fun _ => J) t rows) : Tracks J (fun _ => J) (unlessConflict t) rows := by
  refine leads_bindE (leads_attempt h) ?_
  intro outcome rows' houtcome
  cases outcome with
  | ok a => exact leads_return houtcome
  | error e =>
    simp only
    split
    · exact leads_return houtcome
    · exact leads_throw houtcome

/-- One occurrence. Unless the loop breaks, the plan has no pause reason after it. -/
theorem handle_tracks {plan : BackupPlan} {later : List BackupPlan} {scheduled now : Time} {draws : Draws}
    {rows : List PlanRow} (h : Waiting tenant plan later rows) (hready : Ready tenant rows plan)
    (hlater : ∀ p ∈ later, p.id ≠ plan.id) :
    Tracks AllCoherent (fun stop rows' => Waiting tenant plan later rows' ∧
      (stop = false → Ready tenant rows' plan)) (handle tenant plan scheduled now draws) rows := by
  unfold handle
  split
  · -- recorded as skipped: a batch is created and no plan row changes
    have hskip : Every (fun c => ∃ batch, c = .write (.createBatch batch) none)
        (recordSkipped tenant plan scheduled draws) :=
      every_bindE (every_result _) fun _ => Calls.every_write ⟨_, rfl⟩
    have hkeep : Tracks (fun rows' => Waiting tenant plan later rows' ∧ Ready tenant rows' plan)
        (fun _ rows' => Waiting tenant plan later rows' ∧ Ready tenant rows' plan)
        (recordSkipped tenant plan scheduled draws) rows := by
      apply tracks_keep ⟨h, hready⟩ hskip
      intro c s hc hs
      obtain ⟨batch, rfl⟩ := hc
      have hp : (Stmt.exec (.write (.createBatch batch) none) s).2.plans = s.plans :=
        (exec_plans (.createBatch batch) none s).elim id id
      rw [hp]
      exact hs
    refine leads_bindE ((unlessConflict_tracks hkeep).mono (fun _ h => h.1.1) fun _ _ h => h) ?_
    intro _ rows' hrows'
    exact leads_return ⟨hrows'.1, fun _ => hrows'.2⟩
  · -- run: the expansion may pause the plan, and then the loop breaks
    have hrun : Every (fun c => (∃ batch, c = .write (.createBatch batch) none) ∨
        Calls.Expands tenant plan.id c) (Calls.runPlan tenant plan "scheduled" scheduled draws) :=
      Calls.runPlan_every (fun _ => .inl ⟨_, rfl⟩) fun _ hc _ => .inr hc
    have hkeep : Tracks (Waiting tenant plan later) (fun _ => Waiting tenant plan later)
        (Calls.runPlan tenant plan "scheduled" scheduled draws) rows := by
      apply tracks_keep h hrun
      intro c s hc hs
      obtain ⟨batch, rfl⟩ | hc := hc
      · exact hs.createBatch
      · exact hs.expands hlater hc
    refine leads_bindE ((unlessConflict_tracks hkeep).mono (fun _ h => h.1) fun _ _ h => h) ?_
    intro _ rows' hrows'
    refine leads_bindE ((readPlan_tracks rows').mono (fun rows'' heq => by rw [heq]; exact hrows'.1)
      fun _ _ h => h) ?_
    intro latest rows'' hlatest
    obtain ⟨rfl, hlatest⟩ := hlatest
    refine leads_return ⟨hrows', ?_⟩
    intro hgoes r hr hin
    refine ⟨?_, hrows'.2.1 r hr hin⟩
    obtain ⟨targets, rfl⟩ := hlatest r hr hin
    by_contra hreason
    have hoff := ((hrows'.1 r hr).1 hreason).1
    have hsome : (scanPlan r targets).pauseReason.isSome = true := Option.isSome_iff_ne_none.mpr hreason
    have henabled : (scanPlan r targets).enabled = false := hoff
    rw [hsome, henabled] at hgoes
    cases hgoes

theorem advance_tracks {plan : BackupPlan} {later : List BackupPlan} {scheduled now : Time}
    {next : Option Time} {rows : List PlanRow} (h : Waiting tenant plan later rows)
    (hready : Ready tenant rows plan) (hlater : ∀ p ∈ later, p.id ≠ plan.id)
    (hnext : nextRun cron plan scheduled = .ok next) :
    Tracks AllCoherent (fun _ rows' => Waiting tenant plan later rows' ∧ Ready tenant rows' plan)
      (Calls.write (.advancePlan tenant plan.id scheduled next now) (some plan)) rows := by
  have hone : Every (fun c => c = .write (.advancePlan tenant plan.id scheduled next now) (some plan))
      (Calls.write (.advancePlan tenant plan.id scheduled next now) (some plan)) :=
    Calls.every_write rfl
  refine (tracks_keep (J := fun rows' => Waiting tenant plan later rows' ∧ Ready tenant rows' plan)
    ⟨h, hready⟩ hone ?_).mono (fun _ h => h.1.1) fun _ _ h => h
  intro c s hc hs
  subst hc
  obtain ⟨⟨hall, hkind, hrest⟩, hready⟩ := hs
  obtain hp | hp := exec_plans (.advancePlan tenant plan.id scheduled next now) (some plan) s
  · rw [hp]
    refine ⟨⟨hall.update ?_, ?_, fun p hmem => (hrest p hmem).other (hlater p hmem) fun r _ => rfl⟩, ?_⟩
    · intro r hr hin
      obtain ⟨hnone, hkind⟩ := hready r hr hin
      refine ⟨fun hreason => absurd hnone hreason, fun _ hscheduled => ?_⟩
      exact nextRun_some hnext (hkind ▸ hscheduled)
    · intro r' hr' hin
      obtain ⟨r, hr, rfl⟩ := mem_updateWhere.mp hr'
      by_cases hid : planIn tenant plan.id r = true
      · rw [if_pos hid]
        exact hkind r hr hid
      · rw [if_neg hid] at hin ⊢
        exact hkind r hr hin
    · intro r' hr' hin
      obtain ⟨r, hr, rfl⟩ := mem_updateWhere.mp hr'
      by_cases hid : planIn tenant plan.id r = true
      · rw [if_pos hid]
        exact hready r hr hid
      · rw [if_neg hid] at hin ⊢
        exact hready r hr hin
  · rw [hp]
    exact ⟨⟨hall, hkind, hrest⟩, hready⟩

theorem runMissed_tracks {plan : BackupPlan} {later : List BackupPlan} {now : Time}
    {draws : BackupPlan → Time → Draws} (steps : Nat) {rows : List PlanRow}
    (h : Waiting tenant plan later rows) (hready : Ready tenant rows plan)
    (hlater : ∀ p ∈ later, p.id ≠ plan.id) :
    Tracks AllCoherent (fun _ => Waiting tenant plan later)
      (runMissed cron tenant now draws steps plan) rows := by
  induction steps generalizing plan rows with
  | zero => exact leads_return h
  | succ steps ih =>
    unfold runMissed
    split
    · exact leads_return h
    · next scheduled hs =>
      by_cases hearly : now < scheduled
      · rw [if_pos hearly]
        exact leads_return h
      · rw [if_neg hearly]
        refine leads_resultBind (fun _ _ => h.1) fun next hnext => ?_
        refine leads_bindE (handle_tracks h hready hlater) ?_
        intro stop rows' hrows'
        cases stop with
        | true => exact leads_return hrows'.1
        | false =>
          refine leads_bindE (advance_tracks hrows'.1 (hrows'.2 rfl) hlater hnext) ?_
          intro _ rows'' hrows''
          have hwaiting : Waiting tenant { plan with lastScheduledAt := some scheduled, nextRunAt := next } later
              rows'' := hrows''.1
          exact ih hwaiting hrows''.2 hlater

theorem plans_tracks {now : Time} {draws : BackupPlan → Time → Draws} (plans : List BackupPlan)
    {rows : List PlanRow} (hrows : AllCoherent rows) (hready : ∀ p ∈ plans, Ready tenant rows p)
    (honce : (plans.map (·.id)).Nodup) :
    Tracks AllCoherent (fun _ => AllCoherent) (each (runMissed cron tenant now draws 128) plans) rows := by
  induction plans generalizing rows with
  | nil => exact leads_return hrows
  | cons plan rest ih =>
    obtain ⟨hnot, hrest⟩ := List.nodup_cons.mp honce
    have hlater : ∀ p ∈ rest, p.id ≠ plan.id := by
      intro p hmem heq
      exact hnot (List.mem_map.mpr ⟨p, hmem, heq⟩)
    have hfirst := hready plan (List.mem_cons_self ..)
    refine leads_bindE (runMissed_tracks 128
      ⟨hrows, fun r hr hin => (hfirst r hr hin).2,
        fun p hmem => hready p (List.mem_cons_of_mem plan hmem)⟩ hfirst hlater) ?_
    intro _ rows' hrows'
    exact ih hrows'.1 hrows'.2.2 hrest

/-- The copies `DuePlans` reads are those of the rows. -/
theorem readTargets_tracks (due : List PlanRow) {rows : List PlanRow} :
    Tracks (· = rows) (fun plans rows' => rows' = rows ∧ plans.map (·.id) = due.map (·.id) ∧
      ∀ plan ∈ plans, ∃ r ∈ due, ∃ targets, plan = scanPlan r targets) (readTargets tenant due) rows := by
  induction due with
  | nil => exact leads_return ⟨rfl, rfl, fun _ h => absurd h List.not_mem_nil⟩
  | cons r rest ih =>
    refine leads_bindE (Q := fun (_ : (Stmt.planTargets tenant r.id).Answer) rows' => rows' = rows) ?_ ?_
    · refine leads_query (c := Stmt.planTargets tenant r.id) ?_
      intro s hs _
      exact ⟨trivial, hs⟩
    · intro targets rows' hrows'
      subst hrows'
      refine leads_bindE ih fun plans rows'' hplans => leads_return ?_
      obtain ⟨rfl, hids, hcopies⟩ := hplans
      refine ⟨rfl, congrArg (r.id :: ·) hids, fun plan hmem => ?_⟩
      obtain rfl | hmem := List.mem_cons.mp hmem
      · exact ⟨r, List.mem_cons_self .., targets, rfl⟩
      · obtain ⟨r', hr', targets', rfl⟩ := hcopies plan hmem
        exact ⟨r', List.mem_cons_of_mem r hr', targets', rfl⟩

theorem tick_tracks {now : Time} {draws : BackupPlan → Time → Draws} {rows : List PlanRow}
    (h : AllCoherent rows) :
    Tracks AllCoherent (fun _ => AllCoherent) (tick cron tenant now draws) rows := by
  unfold tick
  refine leads_bindE (Q := fun (_ : (Stmt.clock now).Answer) rows' => rows' = rows) ?_ ?_
  · refine leads_query (c := Stmt.clock now) ?_
    intro s hs _
    exact ⟨trivial, hs⟩
  · intro _ rows' hrows'
    subst hrows'
    unfold runDue
    split
    · exact leads_return h
    · refine leads_bindE (Q := fun (due : List PlanRow) rows'' => rows'' = rows' ∧
        (due.map (·.id)).Nodup ∧ ∀ r ∈ due, r.pauseReason = none ∧
          ∀ r' ∈ rows', planIn tenant r.id r' = true → r' = r)
        (leads_query (c := Stmt.duePlans tenant now) ?_) ?_
      · intro s hs _
        have hperm := List.perm_insertionSort Store.dueBefore (s.plans.filter (Store.due tenant now))
        refine ⟨trivial, hs, ?_, ?_⟩
        · refine (hperm.map _).nodup_iff.mpr ?_
          exact s.plans_pk.sublist (List.filter_sublist.map _)
        · intro r hr
          obtain ⟨hmem, hdue⟩ := List.mem_filter.mp (hperm.mem_iff.mp hr)
          simp only [Store.due, Bool.and_eq_true] at hdue
          refine ⟨?_, ?_⟩
          · -- a plan that is due is on, so it was not paused
            by_contra hreason
            have hoff := ((h r (hs ▸ hmem)).1 hreason).1
            rw [hoff] at hdue
            cases hdue.1.2
          · intro r' hr' hin
            rw [← hs] at hr'
            exact eq_of_key s.plans_pk hr' hmem (planIn_iff.mp hin).2
      · intro due rows'' hdue
        obtain ⟨rfl, hnodup, hdue⟩ := hdue
        refine leads_bindE ((readTargets_tracks due).mono
          (fun rows heq => by rw [heq]; exact h) fun _ _ h => h) ?_
        intro plans rows' hplans
        obtain ⟨rfl, hids, hcopies⟩ := hplans
        apply plans_tracks plans h
        · intro p hp r' hr' hin
          obtain ⟨r, hr, targets, rfl⟩ := hcopies p hp
          obtain ⟨hnone, hone⟩ := hdue r hr
          rw [hone r' hr' hin]
          exact ⟨hnone, rfl⟩
        · rw [hids]
          exact hnodup

/-- `Resume` on a plan without a pause reason, or without a next time. -/
theorem resume_tracks {id : String} {now : Time} {targets₀ : List PlanTarget} {rows : List PlanRow}
    (h : AllCoherent rows)
    (hresumable : ∀ r ∈ rows, planIn tenant id r = true →
      r.pauseReason = none ∨ ∃ e, nextRun cron (scanPlan r targets₀) now = .error e) :
    Tracks AllCoherent (fun _ => AllCoherent) (resume cron tenant id now) rows := by
  unfold resume
  refine leads_bindE ((readPlan_tracks rows).mono
    (fun rows' heq => by rw [heq]; exact h) fun _ _ h => h) ?_
  intro plan rows' hplan
  obtain ⟨rfl, hplan⟩ := hplan
  refine leads_resultBind (fun _ _ => h) fun next hnext => ?_
  have hwrite : Tracks AllCoherent (fun _ => AllCoherent)
      (Calls.write (.setPlanEnabled tenant id true next now) (some plan)) rows' := by
    refine leads_bindE (Q := fun _ => AllCoherent)
      (leads_query (c := Stmt.write (.setPlanEnabled tenant id true next now) (some plan)) ?_) ?_
    · intro s hs _
      refine ⟨trivial, ?_⟩
      obtain hp | hp := exec_plans (.setPlanEnabled tenant id true next now) (some plan) s
      · rw [hp, hs]
        apply h.update
        intro r hr hin
        obtain ⟨targets, rfl⟩ := hplan r hr hin
        refine ⟨fun hreason => ?_, fun _ hkind => nextRun_some hnext hkind⟩
        obtain hnone | ⟨e, he⟩ := hresumable r hr hin
        · exact absurd hnone hreason
        · -- what is read has the schedule of the row
          have hsame : nextRun cron (scanPlan r targets) now = nextRun cron (scanPlan r targets₀) now :=
            nextRun_congr now rfl rfl rfl
          rw [hsame, he] at hnext
          cases hnext
      · rw [hp, hs]
        exact h
    · intro answer rows'' hrows''
      apply leads_result
      cases answer with
      | ok _ => exact hrows''
      | error _ => exact hrows''
  have hread : Every Keeps (readPlan tenant id) := readPlan_every fun _ => keeps_reads
  refine leads_bindE hwrite ?_
  intro _ rows'' hrows''
  exact tracks_keep hrows'' hread fun c s hc hs => hc s hs

end Outline

/-! ## One call -/

section Run
variable {lower : String → String} {cron : Cron}

theorem Tracks.alone {α : Type} {t : Program α} {s : Store}
    (h : Tracks AllCoherent (fun _ => AllCoherent) t s.plans) : AllCoherent (run Stmt.exec t s).2.plans := by
  have hafter := Leads.alone h
  revert hafter
  cases (run Stmt.exec t s).1 with
  | ok a => exact id
  | error e => exact id

theorem run_discard {α : Type} (t : Program α) (s : Store) :
    (run Stmt.exec (do let _ ← t; pure () : Program Unit) s).2 = (run Stmt.exec t s).2 := by
  rw [run_bindE]
  rcases run Stmt.exec t s with ⟨outcome, s'⟩
  cases outcome with
  | ok a => rfl
  | error e => rfl

/-- A call that meets the condition keeps the plans coherent. -/
theorem next_coherent {s : Store} {c : Call} (h : AllCoherent s.plans) (hc : c.Resumable cron s) :
    AllCoherent (c.next lower cron s).plans := by
  cases c with
  | request q =>
    cases q with
    -- a tick and a resumption are incoherent in between; the other calls are not
    | tick tenant now draws => exact (tick_tracks h).alone
    | create tenant input subject hex now =>
      refine (congrArg (fun s => AllCoherent s.plans) (run_discard _ s)).mpr ?_
      exact coherent_of_every (create_every (fun _ => keeps_reads) fun plan hnext _ => keeps_createPlan hnext) h
    | update tenant id input now =>
      refine (congrArg (fun s => AllCoherent s.plans) (run_discard _ s)).mpr ?_
      exact coherent_of_every (update_every (fun _ => keeps_reads) fun plan changed hnext _ =>
        keeps_updatePlan tenant changed hnext) h
    | delete tenant id =>
      have hdelete : Every Keeps (Plans.delete tenant id) :=
        every_bindE (every_query (keeps_deletePlan tenant id)) fun _ => Calls.every_ofStore _
      exact coherent_of_every hdelete h
    | pause tenant id now =>
      refine (congrArg (fun s => AllCoherent s.plans) (run_discard _ s)).mpr ?_
      have hpause : Every Keeps (Plans.pause tenant id now) :=
        every_bindE (Calls.every_write (keeps_disable tenant id now none)) fun _ =>
          readPlan_every fun _ => keeps_reads
      exact coherent_of_every hpause h
    | resume tenant id now =>
      refine (congrArg (fun s => AllCoherent s.plans) (run_discard _ s)).mpr ?_
      exact (resume_tracks h hc).alone
    | runByHand tenant id now draws =>
      refine (congrArg (fun s => AllCoherent s.plans) (run_discard _ s)).mpr ?_
      have hrun : Every Keeps (runByHand tenant id now draws) :=
        every_bindE (readPlan_every fun _ => keeps_reads) fun plan => runPlan_keeps ..
      exact coherent_of_every hrun h
  | runPlan tenant plan trigger scheduledAt draws =>
    exact coherent_of_every (runPlan_keeps tenant plan trigger scheduledAt draws) h
  | pausePlanForScope tenant id reason =>
    show AllCoherent ((Op.pausePlanForScope tenant id reason).next s).plans
    obtain hop | hsame := Op.next_cases s (.pausePlanForScope tenant id reason)
    · rw [(Op.apply_frame hop).1]
      exact h.update fun r _ _ => coherent_paused
    · rw [hsame]
      exact h
  | outside e =>
    cases e with
    | library applications instances => exact h
    -- of the queue's own operations only the pause for a scope writes plans
    | queue op hedit =>
      show AllCoherent (op.next s).plans
      obtain hop | hsame := Op.next_cases s op
      · rw [(Op.apply_frame hop).1]
        cases op with
        | createPlan plan => cases hedit
        | updatePlan tenant plan changed => cases hedit
        | setPlanEnabled tenant id enabled next updated => cases hedit
        | advancePlan tenant id scheduledAt next updated => cases hedit
        | pausePlanForScope tenant id reason => exact h.update fun r _ _ => coherent_paused
        | _ => exact h
      · rw [hsame]
        exact h

theorem run_readPlan_state (tenant id : String) (s : Store) : (run Stmt.exec (readPlan tenant id) s).2 = s :=
  run_reads (readPlan_every fun _ h => h) s

theorem run_readPlan {tenant id : String} {s : Store} {r : PlanRow} (hr : r ∈ s.plans)
    (hin : planIn tenant id r = true) :
    (run Stmt.exec (readPlan tenant id) s).1 = .ok (scanPlan r (s.planTargets tenant id)) := by
  have hfind : s.plans.find? (planIn tenant id) = some r :=
    find?_of_key s.plans_pk (fun r r' h h' => (planIn_iff.mp h).2.trans (planIn_iff.mp h').2.symm) hr hin
  have hrow : (Stmt.exec (.planRow tenant id) s).1 = .ok r := Stmt.exec_planRow.mpr hfind
  unfold readPlan
  rw [run_query, hrow]
  rfl

/-- What `Resume` writes, where the plan is there and has a next time. -/
theorem resume_plans {tenant id : String} {now : Time} {next : Option Time} {s : Store} {r : PlanRow}
    (hr : r ∈ s.plans) (hin : planIn tenant id r = true)
    (hnext : nextRun cron (scanPlan r (s.planTargets tenant id)) now = .ok next) :
    (run Stmt.exec (resume cron tenant id now) s).2.plans = updateWhere (planIn tenant id)
      (fun r => { r with enabled := true, nextRunAt := nullableUnix next, updatedAt := unix now }) s.plans := by
  have hset : ∃ s', s.setPlanEnabled tenant id true next now = .ok s' ∧ s'.plans =
      updateWhere (planIn tenant id) (fun r =>
        { r with enabled := true, nextRunAt := nullableUnix next, updatedAt := unix now }) s.plans := by
    have hone := countP_eq_one s.plans_pk
      (fun r r' h h' => (planIn_iff.mp h).2.trans (planIn_iff.mp h').2.symm) hr hin
    unfold Store.setPlanEnabled
    rw [if_neg (fun hne => hne hone)]
    exact ⟨_, rfl, rfl⟩
  obtain ⟨s', hset, hplans⟩ := hset
  have hwrite : ∀ basis, run Stmt.exec (Calls.write (.setPlanEnabled tenant id true next now) basis) s =
      (.ok (), s') := by
    intro basis
    have hexec : Stmt.exec (.write (.setPlanEnabled tenant id true next now) basis) s = (.ok (), s') := by
      show Stmt.commit s (s.setPlanEnabled tenant id true next now) = (.ok (), s')
      rw [hset]
      rfl
    unfold Calls.write
    rw [run_query, hexec]
    rfl
  have hread := run_readPlan hr hin
  have hstate := run_readPlan_state tenant id s
  rw [resume, run_bindE]
  generalize run Stmt.exec (readPlan tenant id) s = outcome at hread hstate
  obtain ⟨plan, s₁⟩ := outcome
  obtain rfl : plan = _ := hread
  obtain rfl : s₁ = s := hstate
  simp only
  rw [run_result, hnext]
  simp only
  rw [run_bindE, hwrite]
  simp only
  rw [run_readPlan_state]
  exact hplans

/-- A call that does not meet it leaves a plan that is on with its pause reason. -/
theorem next_incoherent {s : Store} {c : Call} (hc : ¬c.Resumable cron s) :
    ¬AllCoherent (c.next lower cron s).plans := by
  cases c with
  | request q =>
    cases q with
    | resume tenant id now =>
      have hc : ¬∀ r ∈ s.plans, planIn tenant id r = true → r.pauseReason = none ∨
        ∃ e, nextRun cron (scanPlan r (s.planTargets tenant id)) now = .error e := hc
      push Not at hc
      obtain ⟨r, hr, hin, hreason, hnext⟩ := hc
      cases hcomputed : nextRun cron (scanPlan r (s.planTargets tenant id)) now with
      | error e => exact absurd hcomputed (hnext e)
      | ok next =>
        intro hall
        have hplans : (Call.next lower cron s (.request (.resume tenant id now))).plans = _ :=
          (congrArg (fun s : Store => s.plans) (run_discard _ s)).trans (resume_plans hr hin hcomputed)
        rw [hplans] at hall
        have hon := hall _ (mem_updateWhere.mpr ⟨r, hr, rfl⟩)
        rw [if_pos hin] at hon
        cases (hon.1 hreason).1
    | _ => exact absurd trivial hc
  | _ => exact absurd trivial hc

/-- Calls one after the other. -/
def callStep (lower : String → String) (cron : Cron) (s : Store) (c : Call) : Option Store :=
  some (c.next lower cron s)

/-- No plan is saved yet. -/
def NoPlans (s : Store) : Prop := s.plans = []

/-- In a run without such a `Resume` every plan is coherent at the end of each call, and the first
such `Resume` of any run leaves one that is not. -/
theorem pause_reason_coherent :
    (∀ s, Reach (callStep lower cron) (fun s c => c.Resumable cron s) NoPlans s → AllCoherent s.plans) ∧
    (∀ s s' c, Reach (callStep lower cron) (fun s c => c.Resumable cron s) NoPlans s →
      callStep lower cron s c = some s' → ¬c.Resumable cron s → ¬AllCoherent s'.plans) := by
  refine ⟨?_, ?_⟩
  · intro s hreach
    refine hreach.invariant (I := fun s : Store => AllCoherent s.plans) ?_ ?_
    · intro s hinit r hr
      rw [hinit] at hr
      cases hr
    · intro s c s' hs hc hstep
      obtain rfl := Option.some.inj hstep
      exact next_coherent hs hc
  · intro s s' c _ hstep hc
    obtain rfl := Option.some.inj hstep
    exact next_incoherent hc

end Run

/-! ## A plan that is resumed -/

def missingPath : PlanPauseReason :=
  ⟨"BACKUP_SCOPE_PATH_MISSING", "deploy-a", "docs", "directory", 40 * minute, 1⟩

/-- A plan of every hour is created and then paused for its scope. -/
def scopePausedRun : List Call :=
  [.outside (.library [demoApp] [demoInstance]),
    .request (.create "tenant-a" (planOf "HOURLY" "") "subject-a" (some "a") (30 * minute)),
    .pausePlanForScope "tenant-a" "plan-a" missingPath]

def resumeCall : Call := .request (.resume "tenant-a" "plan-a" (50 * minute))

def storeAfter (calls : List Call) : Store := final (callStep id clockCron) Store.empty calls

/-- The three columns of each plan after a run. -/
def planStates (s : Store) : List (Bool × Option Int × Bool) :=
  s.plans.map fun r => (r.enabled, r.nextRunAt, r.pauseReason.isSome)

/-- The call is no `Resume`. -/
def notResume : Call → Bool
  | .request (.resume ..) => false
  | _ => true

theorem resumable_of_notResume (cron : Cron) (s : Store) (c : Call) (h : notResume c = true) :
    c.Resumable cron s := by
  cases c with
  | request q =>
    cases q with
    | resume tenant id now => cases h
    | _ => trivial
  | _ => trivial

theorem scopePausedRun_reach :
    Reach (callStep id clockCron) (fun s c => c.Resumable clockCron s) NoPlans (storeAfter scopePausedRun) :=
  reach_final (resumable_of_notResume clockCron) _ rfl (by decide +kernel)

theorem resumeCall_breaks : ¬resumeCall.Resumable clockCron (storeAfter scopePausedRun) := by
  have hrow : ∃ r ∈ (storeAfter scopePausedRun).plans, planIn "tenant-a" "plan-a" r = true ∧
      r.pauseReason.isSome = true ∧ (nextRun clockCron (scanPlan r
        ((storeAfter scopePausedRun).planTargets "tenant-a" "plan-a")) (50 * minute)).toBool = true := by
    decide +kernel
  obtain ⟨r, hr, hin, hreason, hnext⟩ := hrow
  intro h
  obtain hnone | ⟨e, he⟩ := h r hr hin
  · rw [hnone] at hreason
    cases hreason
  · rw [he] at hnext
    cases hnext

theorem pause_reason_coherent_paused :
    planStates (storeAfter scopePausedRun) = [(false, none, true)] ∧
      AllCoherent (storeAfter scopePausedRun).plans ∧
      ¬AllCoherent (resumeCall.next id clockCron (storeAfter scopePausedRun)).plans :=
  ⟨by decide +kernel, pause_reason_coherent.1 _ scopePausedRun_reach,
    pause_reason_coherent.2 _ _ resumeCall scopePausedRun_reach rfl resumeCall_breaks⟩

/-- The resumed plan is on, and still has the reason it was paused for. -/
theorem resumed_keeps_reason :
    ¬∀ s, Reach (callStep id clockCron) (fun _ _ => True) NoPlans s → AllCoherent s.plans := by
  intro h
  have hreach : Reach (callStep id clockCron) (fun _ _ => True) NoPlans
      (storeAfter (scopePausedRun ++ [resumeCall])) :=
    @reach_final _ _ (callStep id clockCron) _ NoPlans (fun _ _ => true) (fun _ _ _ => trivial) _ _ rfl
      (by decide +kernel)
  have hrows : planStates (storeAfter (scopePausedRun ++ [resumeCall])) = [(true, some 3600, true)] := by
    decide +kernel
  have hcoherent := h _ hreach
  obtain ⟨r, hr, heq⟩ : ∃ r ∈ (storeAfter (scopePausedRun ++ [resumeCall])).plans,
      (r.enabled, r.nextRunAt, r.pauseReason.isSome) = (true, some 3600, true) := by
    have hmem : (true, some 3600, true) ∈ planStates (storeAfter (scopePausedRun ++ [resumeCall])) := by
      rw [hrows]
      exact List.mem_singleton_self _
    exact List.mem_map.mp hmem
  simp only [Prod.mk.injEq] at heq
  have hoff := (hcoherent r hr).1 (Option.isSome_iff_ne_none.mp heq.2.2)
  rw [heq.1] at hoff
  cases hoff.1

end AppBackup.Plans
