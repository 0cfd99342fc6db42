import AppBackup.Queue.Expansion
import AppBackup.Queue.Invariants
import AppBackup.Queue.Refinement

/- Runs of the world, from a process that has just started on an empty database, with
   any crashes and restarts. An invariant of the lives is proved over `Life.Step` and
   holds of every job in every state a run reaches; `Base` needs the leases to be
   kept, which is what the heartbeat is for. -/
namespace AppBackup.Queue
open Persistence Persistence.Store Table Transition

/-- The states reached by steps that each meet `ok`. -/
abbrev Run (ok : World → Action → Prop) : World → Prop := Reach World.step ok World.Fresh

/-- The life of a job that is not there. -/
def Life.empty : Life where
  job := none
  task := none
  snapshots := []
  holder := fun _ => none
  sweep := fun _ => false

theorem life_fresh {w : World} (h : w.Fresh) (id : String) : w.life id = Life.empty := by
  obtain ⟨lease, rfl⟩ := h
  rfl

section
variable {ok : World → Action → Prop} {w : World}

theorem Run.known (h : Run ok w) : Known w := by
  refine h.invariant (fun _ => Known.fresh) ?_
  intro w a w' hk _ hs
  exact hk.step (World.step_sound hs)

theorem Run.lives {I : Life → Prop} (h0 : I Life.empty)
    (hstep : ∀ w a id k l', Run ok w → ok w a → I (w.life id) → Cause w a id k →
      Life.Step (w.life id) k l' → I l') (h : Run ok w) (id : String) : I (w.life id) := by
  induction h with
  | start h =>
    rw [life_fresh h]
    exact h0
  | next hr hok hs ih =>
    obtain ⟨k, hc, hstep'⟩ := simulates (Run.known hr) (World.step_sound hs) id
    exact hstep _ _ _ _ _ hr hok ih hc hstep'

theorem rooted_empty : Life.empty.Rooted := by
  refine ⟨?_, ?_, ?_, ?_⟩
  · intro t ht
    cases ht
  · intro i x hx
    cases hx
  · intro t ht
    cases ht
  · intro i x hx
    cases hx

theorem Run.rooted (h : Run ok w) (id : String) : (w.life id).Rooted := by
  refine h.lives rooted_empty ?_ id
  intro w a id k l' _ _ hr _ hs
  exact hr.step hs

theorem recorded_empty : Life.empty.Recorded := by
  refine ⟨?_, ?_, ?_⟩
  · intro id hid
    cases hid
  · intro hn
    exact absurd rfl hn
  · intro i x hx
    cases hx

theorem Run.recorded (h : Run ok w) (id : String) : (w.life id).Recorded := by
  refine h.lives recorded_empty ?_ id
  intro w a id k l' _ _ hr _ hs
  exact hr.step hs

theorem leased_empty : Life.empty.Leased := by
  refine ⟨?_, ?_⟩
  · intro t ht
    cases ht
  · intro i x hx
    cases hx

theorem Run.leased (h : Run ok w) (id : String) : (w.life id).Leased := by
  refine h.lives leased_empty ?_ id
  intro w a id k l' _ _ hr _ hs
  exact hr.step hs

/-! ## Leases -/

/-- The step runs `RequeueExpiredTasks` for the user. -/
def Recovers (w : World) (a : Action) (uid : String) (now : Time) : Prop :=
  a = .boot uid now ∨ ∃ i, a = .recover i now ∧ w.workers i = .recovering uid

/-- The call executes the task of the row, under the lease the row has. -/
def Execution.HasLease (x : Execution) (t : TaskRow) : Prop :=
  x.stage.live = true ∧ x.task.id = t.id ∧ x.token = t.leaseToken

/-- The heartbeats keep the leases: a recovery finds no lease expired under which a
worker is executing the task. -/
def LeasesKept (w : World) (a : Action) : Prop :=
  ∀ uid now, Recovers w a uid now → ∀ t ∈ w.store.tasks, expired uid now t = true →
    ∀ i x, w.workers i = .busy x → ¬x.HasLease t

theorem holder_some {id : String} {i : Nat} {x : Execution} :
    (w.life id).holder i = some x ↔ w.workers i = .busy x ∧ x.task.backupJobId = id := by
  show (w.workers i).holds id = some x ↔ _
  cases w.workers i with
  | busy y =>
    show (if y.task.backupJobId = id then some y else none) = some x ↔ _
    by_cases hid : y.task.backupJobId = id
    · rw [if_pos hid]
      constructor
      · intro he
        cases he
        exact ⟨rfl, hid⟩
      · intro he
        cases he.1
        rfl
    · rw [if_neg hid]
      constructor
      · intro he
        cases he
      · intro he
        cases he.1
        exact absurd he.2 hid
  | _ =>
    constructor
    · intro he
      cases he
    · intro he
      cases he.1

theorem Known.taskId (h : Known w) {i : Nat} {x : Execution} {t : TaskRow}
    (hi : w.workers i = .busy x) (ht : t ∈ w.store.tasks) :
    x.task.id = t.id ↔ x.task.backupJobId = t.backupJobId := by
  obtain ⟨-, -, ⟨t₀, ht₀, hid, -, hjob, -⟩, -⟩ := h.workerAt hi
  rw [← hid, ← hjob]
  constructor
  · intro he
    rw [eq_of_key w.store.tasks_pk ht₀ ht he]
  · intro he
    rw [eq_of_key w.store.tasks_job ht₀ ht he]

theorem LeasesKept.life {a : Action} {id : String} {k : Kind} (h : Known w) (hok : LeasesKept w a)
    (hc : Cause w a id k) : Life.LeaseKept (w.life id) k := by
  intro hk i x t hi hlive ht htok
  subst hk
  obtain ⟨uid, now, ha, row, hrow, hjob, hexp⟩ := hc
  obtain ⟨hbusy, hid⟩ := holder_some.mp hi
  have hlife : (w.life id).task = some (taskRowLife row) := by
    rw [← hjob]
    exact taskLife_of_mem hrow
  rw [hlife] at ht
  cases ht
  exact hok uid now ha row hrow hexp i x hbusy
    ⟨hlive, (h.taskId hbusy hrow).mpr (hid.trans hjob.symm), htok⟩

theorem base_empty : Life.empty.Base := by
  refine Life.Base.of_one 0 ?_ ?_
  · intro n y hy
    cases hy
  · intro id hid
    cases hid

theorem Run.base (hok : ∀ w a, ok w a → LeasesKept w a) (h : Run ok w) (id : String) :
    (w.life id).Base := by
  refine h.lives base_empty ?_ id
  intro w a id k l' hr ha hb hc hs
  exact hb.step (hr.rooted id) hs ((hok w a ha).life hr.known hc)

theorem Run.hasLease (hok : ∀ w a, ok w a → LeasesKept w a) (h : Run ok w) {i : Nat} {x : Execution}
    (hi : w.workers i = .busy x) (hlive : x.stage.live = true) :
    ∃ t ∈ w.store.tasks, t.tenantUid = w.tenant ∧ t.backupJobId = x.task.backupJobId ∧
      t.status.inProgress = true ∧ x.HasLease t := by
  obtain ⟨-, -, ⟨t, ht, hid, hten, hjob, -⟩, -⟩ := h.known.workerAt hi
  have hheld := (h.base hok x.task.backupJobId).held i x (holder_busy hi rfl) hlive
  obtain ⟨l, hl, hp, htok⟩ := hheld.task
  have hlife : (w.life x.task.backupJobId).task = some (taskRowLife t) := by
    rw [← hjob]
    exact taskLife_of_mem ht
  rw [hlife] at hl
  cases hl
  exact ⟨t, ht, hten, hjob, hp, hlive, hid.symm, htok.symm⟩

end

/-- The world after a step it can take. -/
def World.after (w : World) (a : Action) : World := (w.step a).getD w

theorem World.step_after {w : World} {a : Action} (h : (w.step a).isSome = true) :
    w.step a = some (w.after a) := by
  obtain ⟨w', hw'⟩ := Option.isSome_iff_exists.mp h
  unfold World.after
  rw [hw', Option.getD_some]

/-! ### A run of one instance -/

def instanceA : ApplicationInstance where
  tenantUid := "tenant-a"
  appId := "cloud.demo"
  name := "Demo"
  version := ""
  deployId := "deploy-a"
  multiInstance := true
  capabilityStatus := .backupable

def termsA : Terms := ⟨false, "subject-a", .normal, 1, 60, 0, .full⟩

def archiveA : Archive := ⟨"snapshots/a", 1, "sha", 1, 1, 1, 0, 0, 0, 0, 0, 0⟩

/-- A process with leases of a minute, on an empty database. -/
def opened : World := World.unbound Store.empty (60 * second) 0

/-- The user comes, and a backup of the instance is enqueued. -/
def enqueuing : List Action :=
  [.library (libraryOf ["deploy-a"]).applications (libraryOf ["deploy-a"]).instances,
    .bind "tenant-a", .createBatch batchA, .enqueueJob 0 batchA instanceA termsA (drawsA.enqueue 0),
    .enqueueTask 0 0]

/-- A worker recovers the expired leases and claims the task, at `now`. -/
def claiming (i : Nat) (hex : String) (now : Time) : List Action :=
  [.loop i, .recover i now, .mark i, .claim i "worker-1" (some hex) now]

/-- The worker starts the job. -/
def starting (i : Nat) (now : Time) : List Action :=
  [.execute i .register, .execute i .precheck, .execute i .readJob, .execute i (.startJob now)]

/-- A recovery finds no task under a lease. -/
def noneLeased (w : World) : Action → Bool
  | .boot _ _ | .recover _ _ => w.store.tasks.all fun t => noRecovery.contains t.status
  | _ => true

theorem noneLeased_expired {w : World} {a : Action} {uid : String} {now : Time} {t : TaskRow}
    (h : noneLeased w a = true) (ha : Recovers w a uid now) (ht : t ∈ w.store.tasks) :
    expired uid now t = false := by
  have hall : w.store.tasks.all (fun t => noRecovery.contains t.status) = true := by
    rcases ha with rfl | ⟨i, rfl, -⟩ <;> exact h
  have hstatus := List.all_eq_true.mp hall t ht
  simp only [expired, hstatus, Bool.not_true, Bool.and_false, Bool.false_and]

theorem noneLeased_kept (w : World) (a : Action) (h : noneLeased w a = true) : LeasesKept w a := by
  intro uid now ha t ht hexp
  rw [noneLeased_expired h ha ht] at hexp
  cases hexp

/-- Any step at all. -/
def anyStep (_ : World) (_ : Action) : Bool := true

theorem anyStep_ok (w : World) (a : Action) (_ : anyStep w a = true) : True := trivial

end AppBackup.Queue
