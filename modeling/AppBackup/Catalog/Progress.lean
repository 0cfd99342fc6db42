import AppBackup.Catalog.Runs
import AppBackup.Lib.Potential

/- How the synchronisations of the catalog go on and end.

   What is proved:
     1. `sync_coalesced` -- a tenant has one run at most, and a process begins one run at most
        as its first synchronisation.
     2. `running_honest` -- while no process crashes and the last write of each run is saved,
        RUNNING is shown of exactly the tenants with a run that is not over.
     3. `sync_finishes` -- the pool never blocks: every run can go on, and ends after a number
        of moves bounded by the listing. -/
namespace AppBackup.Catalog
open Persistence Transition

/-! ## Runs end -/

/-- A run of which only the deferred function is left. -/
def Stage.over : Stage → Bool
  | leaving => true
  | _ => false

/-- How many moves are left at most, where listings have at most `n` entries: three for each
task, and one for each stage. -/
def Stage.rest (n : Nat) : Stage → Nat
  | listing => 3 * n + 5
  | probing p => 3 * p.waiting.length + 2 * p.working.length + p.sent.length + 4
  | replacing _ => 3
  | finishing .. => 2
  | leaving => 1

/-- Whether an action is a move of the run `i`. -/
def Action.of (i : Nat) : Action → Bool
  | move j _ => j == i
  | _ => false

/-- No answer of the platform is longer than `n`. -/
def Action.Small (n : Nat) : Action → Prop
  | move _ (.list (some apps)) => apps.length ≤ n
  | _ => True

section
variable {c : Service} {w w' : World} {i : Nat} {u : String} {r : Run} {m : Move}

theorem exchange_rest {p p' : Pool} (n : Nat) (h : c.exchange u p m = some p') :
    (Stage.probing p').rest n < (Stage.probing p).rest n := by
  obtain ⟨t, rest, -, hwaiting, -, rfl⟩ | ⟨j, now, found, t, -, hheld, -, rfl⟩ | ⟨x, rest, -, hsent, rfl⟩ :=
    exchange_cases h
  · simp [Stage.rest, hwaiting]
    omega
  · obtain ⟨hj, -⟩ := List.getElem?_eq_some_iff.mp hheld
    simp [Stage.rest, List.length_eraseIdx, hj]
    omega
  · simp [Stage.rest, hsent]

theorem go_runs (w : World) (i : Nat) (u : String) (stage : Stage) (j : Nat) :
    (w.go i u stage).runs j = if j = i then some ⟨u, stage⟩ else w.runs j := by
  simp [World.go, Function.update_apply]

/-- What a move does to the runs: its own goes on with less left or is gone, the others stay. -/
theorem move_runs {stage : Stage} {n : Nat} (hm : c.move w i u stage m = some w')
    (hsmall : Action.Small n (.move i m)) :
    w'.fresh = w.fresh ∧ ((∃ stage', stage'.rest n < stage.rest n ∧
        w'.runs = Function.update w.runs i (some ⟨u, stage'⟩)) ∨
      (stage = .leaving ∧ w'.runs = Function.update w.runs i none)) := by
  obtain ⟨answer, rfl, rfl, rfl⟩ | ⟨p, p', rfl, hp, rfl⟩ | ⟨p, rfl, rfl, -, rfl⟩ |
      ⟨instances, saved, rfl, rfl, rfl⟩ |
    ⟨result, errorCode, now, saved, rfl, rfl, rfl⟩ | ⟨rfl, rfl, rfl⟩ := move_cases hm
  · cases answer with
    | none =>
      refine ⟨rfl, .inl ⟨_, ?_, rfl⟩⟩
      simp only [Stage.rest]
      omega
    | some apps =>
      refine ⟨rfl, .inl ⟨_, ?_, rfl⟩⟩
      have hfew := tasks_length (c := c) apps
      have hn : apps.length ≤ n := hsmall
      simp only [Stage.rest, List.length_nil]
      omega
  · exact ⟨rfl, .inl ⟨_, exchange_rest n hp, rfl⟩⟩
  · refine ⟨rfl, .inl ⟨_, ?_, rfl⟩⟩
    simp only [Stage.rest]
    omega
  · have hreplace : ∃ store result errorCode,
        c.replace w i u instances saved = World.go { w with store := store } i u (.finishing result errorCode) := by
      unfold Service.replace
      split
      · exact ⟨_, _, _, rfl⟩
      · exact ⟨w.store, _, _, rfl⟩
    obtain ⟨store, result, errorCode, he⟩ := hreplace
    rw [he]
    exact ⟨rfl, .inl ⟨.finishing result errorCode, Nat.lt_succ_self 2, rfl⟩⟩
  · cases saved with
    | false => exact ⟨rfl, .inl ⟨.leaving, Nat.lt_succ_self 1, rfl⟩⟩
    | true => exact ⟨rfl, .inl ⟨.leaving, Nat.lt_succ_self 1, rfl⟩⟩
  · exact ⟨rfl, .inr ⟨rfl, rfl⟩⟩

theorem move_initialSynced {stage : Stage} (hm : c.move w i u stage m = some w') :
    w'.initialSynced = w.initialSynced := by
  obtain ⟨answer, -, -, rfl⟩ | ⟨p, p', -, -, rfl⟩ | ⟨p, -, -, -, rfl⟩ | ⟨instances, saved, -, -, rfl⟩ |
    ⟨result, errorCode, now, saved, -, -, rfl⟩ | ⟨-, -, rfl⟩ := move_cases hm
  · cases answer <;> rfl
  · rfl
  · rfl
  · unfold Service.replace
    split <;> rfl
  · cases saved <;> rfl
  · rfl

/-- A run that is not over can go on: a task to take, an instance to send or to receive, or the
next stage. -/
theorem move_enabled (n : Nat) (h : c.Sound w) (hrun : w.runs i = some r) :
    ∃ m w', Action.Small n (.move i m) ∧ c.step w (.move i m) = some w' := by
  have hstep : ∀ m, c.step w (.move i m) = c.move w i r.tenantUid r.stage m := by
    intro m
    simp [Service.step, hrun]
  have hstanding := h.standing i r hrun
  cases hstage : r.stage with
  | listing => exact ⟨.list none, _, trivial, by rw [hstep, hstage]; rfl⟩
  | replacing instances => exact ⟨.replace true, _, trivial, by rw [hstep, hstage]; rfl⟩
  | finishing result errorCode => exact ⟨.finish 0 true, _, trivial, by rw [hstep, hstage]; rfl⟩
  | leaving => exact ⟨.leave, _, trivial, by rw [hstep, hstage]; rfl⟩
  | probing p =>
    rw [hstage] at hstanding
    obtain ⟨-, haccounted⟩ := hstanding
    by_cases hsent : p.sent = []
    · by_cases hworking : p.working = []
      · cases hwaiting : p.waiting with
        | nil =>
          have hdrained : p.drained = true := drained_iff.mpr ⟨hwaiting, hworking, hsent⟩
          exact ⟨.close, _, trivial, by rw [hstep, hstage]; simp [Service.move, hdrained]; rfl⟩
        | cons t rest =>
          have hidle : p.working.length < c.workers := by
            have := c.pool.1
            rw [hworking]
            exact this
          exact ⟨.take, _, trivial, by
            rw [hstep, hstage]; simp [Service.move, Service.exchange, hwaiting, hidle]; rfl⟩
      · have hroom := haccounted.unblocked hworking
        have hone := List.length_pos_iff.mpr hworking
        exact ⟨.send 0 0 (.unresolved .notReady), _, trivial, by
          rw [hstep, hstage]; simp [Service.move, Service.exchange, List.getElem?_eq_getElem hone, hroom]; rfl⟩
    · obtain ⟨x, rest, hx⟩ := List.exists_cons_of_ne_nil hsent
      exact ⟨.receive, _, trivial, by rw [hstep, hstage]; simp [Service.move, Service.exchange, hx]; rfl⟩

end

/-- What is left of the run `i`. -/
def World.rest (w : World) (i n : Nat) : Nat := (w.runs i).elim 0 fun r => r.stage.rest n

section
variable {c : Service} {w w' : World} {i n : Nat} {a : Action}

/-- No step gives a run more to do, and each of its own moves leaves less. -/
theorem step_rest (h : i < w.fresh) (hsmall : a.Small n) (hs : c.step w a = some w') :
    i < w'.fresh ∧ w'.rest i n + (if a.of i then 1 else 0) ≤ w.rest i n := by
  have hlaunch : ∀ (w : World) (u : String) (now : Time), i < w.fresh →
      i < (w.launch u now).fresh ∧ (w.launch u now).rest i n = w.rest i n := by
    intro w u now hi
    refine ⟨Nat.lt_succ_of_lt hi, ?_⟩
    unfold World.rest
    rw [launch_runs, if_neg (Nat.ne_of_lt hi)]
  cases a with
  -- a run that is begun is another one
  | start u now saved =>
    obtain rfl := Option.some.inj hs
    obtain ⟨-, he⟩ | ⟨-, -, e, he⟩ | ⟨-, -, he⟩ := startSync_cases w u now saved
    · rw [he]
      exact ⟨h, Nat.le_refl _⟩
    · rw [he]
      exact ⟨h, Nat.le_refl _⟩
    · rw [he]
      exact ⟨(hlaunch w u now h).1, Nat.le_of_eq (hlaunch w u now h).2⟩
  | startInitial u now saved =>
    obtain rfl := Option.some.inj hs
    obtain ⟨-, he⟩ | ⟨-, -, he⟩ | ⟨-, -, -, e, he⟩ | ⟨-, -, -, he⟩ := startInitial_cases w u now saved
    · rw [he]
      exact ⟨h, Nat.le_refl _⟩
    · rw [he]
      split
      · exact ⟨h, Nat.le_refl _⟩
      · exact ⟨h, Nat.le_refl _⟩
    · rw [he]
      exact ⟨h, Nat.le_refl _⟩
    · have hmarked := hlaunch (w.markInitial u true) u now h
      rw [he]
      exact ⟨hmarked.1, Nat.le_of_eq hmarked.2⟩
  -- a move is of one run: it has less to do after it, or is gone
  | move j m =>
    obtain ⟨r, hr, hm⟩ := Option.bind_eq_some_iff.mp hs
    obtain ⟨hfresh, hruns⟩ := move_runs (n := n) hm hsmall
    refine ⟨hfresh ▸ h, ?_⟩
    by_cases hj : j = i
    · subst hj
      obtain ⟨stage', hless, hruns⟩ | ⟨hstage, hruns⟩ := hruns
      · simp [World.rest, hr, hruns, Action.of]
        omega
      · simp [World.rest, hr, hruns, hstage, Action.of, Stage.rest]
    · have hsame : w'.runs i = w.runs i := by
        obtain ⟨stage', -, hruns⟩ | ⟨-, hruns⟩ := hruns
        · rw [hruns, Function.update_of_ne (Ne.symm hj)]
        · rw [hruns, Function.update_of_ne (Ne.symm hj)]
      simp [World.rest, hsame, Action.of, hj]
  | other store =>
    obtain rfl := Option.some.inj hs
    exact ⟨h, Nat.le_refl _⟩
  | crash =>
    obtain rfl := Option.some.inj hs
    exact ⟨h, Nat.zero_le _⟩

end

/-! ## RUNNING is shown of what runs -/

/-- A run of `u` that is not over. -/
def World.Busy (w : World) (u : String) : Prop :=
    ∃ i r, w.runs i = some r ∧ r.tenantUid = u ∧ r.stage.over = false

def World.Honest (w : World) : Prop := ∀ u, w.state u = some .running → w.Busy u

section
variable {c : Service} {w w' : World} {i : Nat} {r : Run}

theorem World.Honest.go (h : w.Honest) (hrun : w.runs i = some r) {store : Store} {listed : String → List Application}
    {stage : Stage} (hstage : stage.over = false) :
    (World.go { w with store := store, listed := listed } i r.tenantUid stage).Honest := by
  intro v hv
  obtain ⟨j, q, hq, howner, hover⟩ := h v hv
  by_cases hj : j = i
  · subst hj
    refine ⟨j, ⟨r.tenantUid, stage⟩, by rw [go_runs, if_pos rfl], ?_, hstage⟩
    rw [hrun] at hq
    obtain rfl := Option.some.inj hq
    exact howner
  · exact ⟨j, q, by rw [go_runs, if_neg hj]; exact hq, howner, hover⟩

theorem World.Honest.launch (h : w.Honest) (hmarked : w.Marked) (u : String)
    (now : Time) : (w.launch u now).Honest := by
  intro v hv
  by_cases hvu : v = u
  · exact ⟨w.fresh, ⟨u, .listing⟩, by rw [launch_runs, if_pos rfl], hvu.symm, rfl⟩
  · have hsame : (w.launch u now).state v = w.state v := congrArg SyncStatus.state (syncStatus_startSync_other hvu _ _)
    rw [hsame] at hv
    obtain ⟨j, q, hq, howner, hover⟩ := h v hv
    have hold := hmarked.numbered j _ (owner_eq hq)
    exact ⟨j, q, by rw [launch_runs, if_neg (Nat.ne_of_lt hold)]; exact hq, howner, hover⟩

theorem World.Honest.move (h : w.Honest) (hsound : c.Sound w) (hrun : w.runs i = some r) {m : Move}
    (hcalm : (Action.move i m).calm = true) (hm : c.move w i r.tenantUid r.stage m = some w') : w'.Honest := by
  obtain ⟨answer, -, -, rfl⟩ | ⟨p, p', -, -, rfl⟩ | ⟨p, -, -, -, rfl⟩ | ⟨instances, saved, -, -, rfl⟩ |
    ⟨result, errorCode, now, saved, hstage, rfl, rfl⟩ | ⟨hstage, -, rfl⟩ := move_cases hm
  · cases answer with
    | none => exact h.go hrun rfl
    | some apps => exact h.go hrun rfl
  · exact h.go hrun rfl
  · exact h.go hrun rfl
  · unfold Service.replace
    split
    · exact h.go hrun rfl
    · exact h.go hrun rfl
  · obtain rfl : saved = true := hcalm
    have hstanding := hsound.standing i r hrun
    rw [hstage] at hstanding
    obtain ⟨hrunning, hresult, -⟩ := hstanding
    intro v hv
    by_cases hvu : v = r.tenantUid
    · have hstate : (syncStatus (finishSync w.syncs r.tenantUid result errorCode now) r.tenantUid).state =
          some result := by
        apply state_finishSync
        show w.state r.tenantUid ≠ none
        rw [hrunning]
        exact Option.some_ne_none _
      rw [hvu] at hv
      exact absurd (Option.some.inj (hstate.symm.trans hv)) hresult
    · have hsame := congrArg SyncStatus.state (syncStatus_finishSync_other hvu w.syncs result errorCode now)
      obtain ⟨j, q, hq, howner, hover⟩ := h v (hsame.symm.trans hv)
      have hj : j ≠ i := by
        intro hj
        rw [hj, hrun] at hq
        obtain rfl := Option.some.inj hq
        exact hvu howner.symm
      refine ⟨j, q, ?_, howner, hover⟩
      rw [if_pos rfl, go_runs, if_neg hj]
      exact hq
  · intro v hv
    obtain ⟨j, q, hq, howner, hover⟩ := h v hv
    have hj : j ≠ i := by
      intro hj
      rw [hj, hrun] at hq
      obtain rfl := Option.some.inj hq
      rw [hstage] at hover
      cases hover
    refine ⟨j, q, ?_, howner, hover⟩
    show Function.update w.runs i none j = some q
    rw [Function.update_of_ne hj]
    exact hq

theorem World.Honest.next (h : w.Honest) (hsound : c.Sound w) {a : Action} (hcalm : a.calm = true)
    (hs : c.step w a = some w') :
    w'.Honest := by
  cases a with
  | start u now saved =>
    obtain rfl := Option.some.inj hs
    obtain ⟨-, he⟩ | ⟨-, -, e, he⟩ | ⟨-, -, he⟩ := startSync_cases w u now saved
    · rw [he]
      exact h
    · rw [he]
      exact h
    · rw [he]
      exact h.launch hsound.marked u now
  | startInitial u now saved =>
    obtain rfl := Option.some.inj hs
    obtain ⟨-, he⟩ | ⟨-, hrunning, he⟩ | ⟨-, -, -, e, he⟩ | ⟨-, -, -, he⟩ :=
        startInitial_cases w u now saved
    · rw [he]
      exact h
    · rw [he, if_pos (hsound.marked.scope u hrunning)]
      exact h
    · rw [he]
      exact h
    · rw [he]
      exact h.launch hsound.marked u now
  | move j m =>
    obtain ⟨r, hr, hm⟩ := Option.bind_eq_some_iff.mp hs
    exact h.move hsound hr hcalm hm
  | other store =>
    obtain rfl := Option.some.inj hs
    exact h
  | crash => cases hcalm

end

/-! ## The first synchronisation -/

def began : Except StoreError Bool → Bool
  | .ok started => started
  | .error _ => false

/-- Whether an action is a `StartInitialSync` of `u` that starts a run. -/
def beginsInitial (u : String) (w : World) : Action → Bool
  | .startInitial v now saved => v == u && began (w.startInitial v now saved).2
  | _ => false

/-- One while the first synchronisation of a tenant is not marked. -/
def World.unmarked (w : World) (u : String) : Nat := if w.initialSynced (scopeKey u) = true then 0 else 1

section
variable {c : Service} {w w' : World} {u : String}

theorem markInitial_unmarked (w : World) (u v : String) (value : Bool) :
    (w.markInitial v value).unmarked u = if u = v then (if value = true then 0 else 1) else w.unmarked u := by
  by_cases huv : u = v
  · subst huv
    simp [World.unmarked, World.markInitial]
  · have hkey : scopeKey u ≠ scopeKey v := fun h => huv (scopeKey_injective h)
    simp [World.unmarked, World.markInitial, Function.update_of_ne hkey, huv]

/-- The mark is set by the start that begins the run, and no step of the process clears it. -/
theorem step_unmarked {a : Action} (hcrash : a ≠ .crash) (hs : c.step w a = some w') :
    w'.unmarked u + (if beginsInitial u w a then 1 else 0) ≤ w.unmarked u := by
  cases a with
  | start v now saved =>
    obtain rfl := Option.some.inj hs
    obtain ⟨-, he⟩ | ⟨-, -, e, he⟩ | ⟨-, -, he⟩ := startSync_cases w v now saved
    · rw [he]
      exact Nat.le_refl _
    · rw [he]
      exact Nat.le_refl _
    · rw [he]
      exact Nat.le_refl _
  | startInitial v now saved =>
    obtain rfl := Option.some.inj hs
    obtain ⟨-, he⟩ | ⟨-, -, he⟩ | ⟨hinitial, -, -, e, he⟩ | ⟨hinitial, -, -, he⟩ :=
        startInitial_cases w v now saved
    · simp [beginsInitial, began, he]
    · simp only [beginsInitial, began, he, Bool.and_false, Bool.false_eq_true, if_false]
      split
      · rw [markInitial_unmarked]
        by_cases huv : u = v <;> simp [huv]
      · exact Nat.le_refl _
    · simp only [beginsInitial, began, he, Bool.and_false, Bool.false_eq_true, if_false, markInitial_unmarked]
      by_cases huv : u = v
      · simp [huv, World.unmarked, hinitial]
      · simp [huv]
    · have hlaunch : ((w.markInitial v true).launch v now).unmarked u = (w.markInitial v true).unmarked u := rfl
      simp only [he, hlaunch, markInitial_unmarked, beginsInitial, began, Bool.and_true]
      by_cases huv : u = v
      · simp [huv, World.unmarked, hinitial]
      · simp [huv, Ne.symm huv]
  | move j m =>
    obtain ⟨r, -, hm⟩ := Option.bind_eq_some_iff.mp hs
    have hsame : w'.initialSynced = w.initialSynced := move_initialSynced hm
    simp [World.unmarked, hsame, beginsInitial]
  | other store =>
    obtain rfl := Option.some.inj hs
    exact Nat.le_refl _
  | crash => exact absurd rfl hcrash

end

/-! ## What a maintainer relies on -/

/-- A tenant has one run at most, and `running` says whether it has one. A first
synchronisation that is answered without an error leaves a process that has begun a run for the
tenant, and a process begins at most one run that way. -/
theorem sync_coalesced {c : Service} {w : World} (h : c.Reached w) (u : String) :
    (∀ i j, w.owner i = some u → w.owner j = some u → i = j) ∧
    (w.running u = true ↔ ∃ i, w.owner i = some u) ∧
    (∀ now saved started, (w.startInitial u now saved).2 = .ok started →
      0 < (w.startInitial u now saved).1.begun u) ∧
    (∀ as w', (∀ a ∈ as, a ≠ .crash) → runActions c.step w as = some w' →
      counted c.step (beginsInitial u) w as ≤ 1) := by
  have hmarked := h.sound.marked
  refine ⟨fun i j => hmarked.single i j u, hmarked.running u, ?_, ?_⟩
  · intro now saved started hanswer
    obtain ⟨hinitial, he⟩ | ⟨-, hrunning, he⟩ | ⟨-, -, -, e, he⟩ | ⟨-, -, -, he⟩ :=
        startInitial_cases w u now saved
    · rw [he]
      exact hmarked.initial u hinitial
    · rw [he, if_pos (hmarked.scope u hrunning)]
      exact hmarked.begun u hrunning
    · rw [he] at hanswer
      cases hanswer
    · rw [he]
      show 0 < Function.update w.begun u (w.begun u + 1) u
      rw [Function.update_self]
      exact Nat.succ_pos _
  · intro as w' hcrash has
    have hpay : ∀ s a s', True → a ≠ Action.crash → c.step s a = some s' →
        True ∧ s'.unmarked u + (if beginsInitial u s a then 1 else 0) ≤ s.unmarked u :=
      fun _ _ _ _ hok hs => ⟨trivial, step_unmarked hok hs⟩
    calc counted c.step (beginsInitial u) w as
        ≤ w.unmarked u := counted_le hpay as trivial hcrash has
      _ ≤ 1 := by
        unfold World.unmarked
        split <;> omega

/-- The first request begins a run, the second one finds it, and the whole run begins no other. -/
theorem sync_coalesced_letters :
    (∀ i, (synced 7).owner i = some "ann" → i = 0) ∧ (∃ i, (synced 7).owner i = some "ann") ∧
    0 < ((synced 7).startInitial "ann" 4 true).1.begun "ann" ∧
    counted letters.step (beginsInitial "ann") (synced 0) synchronisation ≤ 1 := by
  obtain ⟨hsingle, hrunning, hbegun, -⟩ :=
    sync_coalesced (Service.reached_of_calm (synced_reached 7 (by decide +kernel))) "ann"
  obtain ⟨-, -, -, honce⟩ := sync_coalesced (Service.reached_of_calm (synced_reached 0 (by decide +kernel))) "ann"
  refine ⟨fun i hi => hsingle i 0 hi (by decide +kernel), hrunning.mp (by decide +kernel), ?_, ?_⟩
  · exact hbegun 4 true false (by decide +kernel)
  · exact honce synchronisation (final letters.step (synced 0) synchronisation) (by simp [synchronisation])
      (runActions_final (by decide +kernel))

/-- While no process crashes and the last write of each run is saved, RUNNING is shown of exactly
the tenants with a run that is not over, so a page that polls sees an end. -/
theorem running_honest {c : Service} {w : World} (h : Reach c.step (fun _ a => a.calm = true) Fresh w) (u : String) :
    (syncStatus w.syncs u).state = some .running ↔ w.Busy u := by
  have hreached : ∀ w, Reach c.step (fun _ a => a.calm = true) Fresh w → c.Sound w :=
    fun w hw => Service.Reached.sound (hw.mono_using fun _ _ _ _ => trivial)
  refine ⟨fun hv => ?_, fun ⟨i, r, hrun, howner, hover⟩ => ?_⟩
  · have hhonest : w.Honest := by
      refine Reach.invariant_using hreached (fun w hw v hv => ?_)
        (fun _ _ _ hsound hh hcalm hs _ => hh.next hsound hcalm hs) h
      simp [World.state, hw.1, syncStatus] at hv
    exact hhonest u hv
  · have hstanding := (hreached w h).standing i r hrun
    rw [howner] at hstanding
    generalize r.stage = stage at hstanding hover
    cases stage with
    | listing => exact hstanding
    | probing p => exact hstanding.1
    | replacing instances => exact hstanding.1
    | finishing result errorCode => exact hstanding.1
    | leaving => cases hover

/-- After seven steps a worker holds the third task. -/
theorem running_honest_letters : (synced 7).Busy "ann" :=
  (running_honest (synced_reached 7 (by decide +kernel)) "ann").mp (by decide +kernel)

/-- Whatever else the server does, a run of the catalog is never stuck: it has a move, no worker
waits for room in the channel, and it makes at most three moves for each application and five
more. Its own moves alone end it. -/
theorem sync_finishes {c : Service} {w : World} {i : Nat} (h : c.Reached w) {r : Run} (hrun : w.runs i = some r)
    (n : Nat) :
    (∃ m w', c.step w (.move i m) = some w') ∧
    (∀ p, r.stage = .probing p → p.working ≠ [] → p.sent.length < p.room) ∧
    (∀ as w', (∀ a ∈ as, a.Small n) → runActions c.step w as = some w' →
      counted c.step (fun _ a => a.of i) w as ≤ r.stage.rest n) ∧
    ∃ as w', (∀ a ∈ as, a.of i = true) ∧ runActions c.step w as = some w' ∧ w'.owner i = none ∧
      w'.running r.tenantUid = false := by
  have hsound := h.sound
  have hnumbered := hsound.marked.numbered i r.tenantUid (owner_eq hrun)
  refine ⟨?_, ?_, ?_, ?_⟩
  · obtain ⟨m, w', -, hw'⟩ := move_enabled n hsound hrun
    exact ⟨m, w', hw'⟩
  · intro p hstage hworking
    have hstanding := hsound.standing i r hrun
    rw [hstage] at hstanding
    exact hstanding.2.unblocked hworking
  · intro as w' hsmall has
    have hrest : w.rest i n = r.stage.rest n := by simp [World.rest, hrun]
    rw [← hrest]
    have hpay : ∀ s a s', i < s.fresh → a.Small n → c.step s a = some s' →
        i < s'.fresh ∧ s'.rest i n + (if a.of i then 1 else 0) ≤ s.rest i n :=
      fun _ _ _ hi hok hs => step_rest hi hok hs
    exact counted_le hpay as hnumbered hsmall has
  · -- only moves of the run itself, so no other run of the tenant begins
    have halone : ∀ j, w.owner j = some r.tenantUid → j = i :=
      fun j hj => hsound.marked.single j i _ hj (owner_eq hrun)
    have hlead : ∀ s, (c.Sound s ∧ ∀ j, s.owner j = some r.tenantUid → j = i) → ¬s.owner i = none →
        ∃ a s', a.of i = true ∧ c.step s a = some s' ∧
          (c.Sound s' ∧ ∀ j, s'.owner j = some r.tenantUid → j = i) ∧ s'.rest i n < s.rest i n := by
      intro s hs hgoal
      obtain ⟨q, hq⟩ : ∃ q, s.runs i = some q := by
        cases hq : s.runs i with
        | none => exact absurd (by simp [World.owner, hq]) hgoal
        | some q => exact ⟨q, rfl⟩
      obtain ⟨m, t, hsmall, ht⟩ := move_enabled n hs.1 hq
      have hpay := (step_rest (hs.1.marked.numbered i _ (owner_eq hq)) hsmall ht).2
      have hof : (Action.move i m).of i = true := beq_self_eq_true i
      rw [if_pos hof] at hpay
      refine ⟨.move i m, t, hof, ht, ⟨hs.1.next ht, fun j hj => ?_⟩, hpay⟩
      by_contra hne
      have hsame : t.runs j = s.runs j := by
        obtain ⟨q', -, hm⟩ := Option.bind_eq_some_iff.mp ht
        obtain ⟨-, ⟨stage', -, hruns⟩ | ⟨-, hruns⟩⟩ := move_runs (n := n) hm hsmall
        · rw [hruns, Function.update_of_ne hne]
        · rw [hruns, Function.update_of_ne hne]
      refine hne (hs.2 j ?_)
      unfold World.owner at hj ⊢
      rwa [← hsame]
    obtain ⟨as, w', hown, has, ⟨hsound', halone'⟩, hgone⟩ := exists_run hlead ⟨hsound, halone⟩
    refine ⟨as, w', hown, has, hgone, Bool.eq_false_iff.mpr fun hrunning => ?_⟩
    obtain ⟨j, hj⟩ := (hsound'.marked.running _).mp hrunning
    obtain rfl := halone' j hj
    rw [hgone] at hj
    cases hj

/-- With one answer received and a worker at the third task. -/
theorem sync_finishes_letters : ∃ r, (synced 7).runs 0 = some r ∧
    (∃ m w', letters.step (synced 7) (.move 0 m) = some w') ∧
    (∀ p, r.stage = .probing p → p.working ≠ [] → p.sent.length < p.room) ∧
    counted letters.step (fun _ a => a.of 0) (synced 7) (synchronisation.drop 7) ≤ r.stage.rest 4 ∧
    ∃ as w', (∀ a ∈ as, a.of 0 = true) ∧ runActions letters.step (synced 7) as = some w' ∧
    w'.owner 0 = none ∧
      w'.running r.tenantUid = false := by
  obtain ⟨r, hr⟩ := Option.isSome_iff_exists.mp (by decide +kernel : ((synced 7).runs 0).isSome = true)
  obtain ⟨hmove, hroom, hbound, hends⟩ :=
    sync_finishes (Service.reached_of_calm (synced_reached 7 (by decide +kernel))) hr 4
  refine ⟨r, hr, hmove, hroom, ?_, hends⟩
  exact hbound (synchronisation.drop 7) (final letters.step (synced 7) (synchronisation.drop 7))
    (by simp [synchronisation, Action.Small]) (runActions_final (by decide +kernel))

end AppBackup.Catalog
