import Mathlib.Algebra.Order.Ring.Int
import AppBackup.Plans.Schedule
import AppBackup.Queue.Runs

/- How often a task is tried. Of a task its tries are the attempt count of its row, the
   row's retry limit, and the attempts the workers hold; three transactions bring it back
   to the queue: `RetryTask`, a manual retry and `RequeueExpiredTasks`. A claim counts one
   attempt and takes the task out of the queue, so attempts stay one ahead of the returns
   at most; and two returns by `RetryTask` are of two attempts, each within the limit. Last
   comes the delay before the next attempt.

   What is proved:
     1. `Kept.step` -- one step of a task's tries keeps attempts and returns together;
     2. `stepsTries` -- every step of the world is such a step of every task's tries, so
        `kept_of_run` holds after every run of the world;
     3. `delay_bounds`, `delay_mono` -- the delay fits 64 bits at each step of its computation
        and grows with the attempt;
     4. `automatic_retries_bounded` puts these together. -/
namespace AppBackup.Queue
open Persistence Persistence.Store Table Transition

/-! ## The tries of one task -/

/-- What the row of a task says of its tries. -/
structure Lot where
  attempts : Nat
  limit : Int
  waiting : Bool

/-- The attempt a worker holds; it has ended once `execute` has closed the task. -/
structure Try where
  number : Nat
  limit : Int
  ended : Bool

structure Tries where
  row : Option Lot
  runs : Nat → Option Try

/-- How a task comes back to the queue. -/
inductive Return where
  | retry | manual | recovery
  deriving DecidableEq

/-- The row keeps its attempts and its limit, and does not come to the queue. -/
def Lot.Rests (t t' : Lot) : Prop :=
  t'.attempts = t.attempts ∧ t'.limit = t.limit ∧ (t'.waiting = true → t.waiting = true)

/-- Every attempt that is held after was held before, and none is taken up again. -/
def GoesOn (runs runs' : Nat → Option Try) : Prop :=
  ∀ i r', runs' i = some r' → ∃ r, runs i = some r ∧ r'.number = r.number ∧ r'.limit = r.limit ∧
    (r.ended = true → r'.ended = true)

theorem rel_some {α : Type*} {R : α → α → Prop} {a : α} {o : Option α} (h : Option.Rel R (some a) o) :
    ∃ b, o = some b ∧ R a b := by
  cases h with
  | some h => exact ⟨_, rfl, h⟩

theorem rel_of_some {α : Type*} {R : α → α → Prop} {b : α} {o : Option α} (h : Option.Rel R o (some b)) :
    ∃ a, o = some a ∧ R a b := by
  cases h with
  | some h => exact ⟨_, rfl, h⟩

namespace Tries

inductive Step (l : Tries) : Option Return → Tries → Prop where
  | rest {l' : Tries} (hrow : Option.Rel Lot.Rests l.row l'.row) (hruns : GoesOn l.runs l'.runs) : Step l none l'
  | add {l' : Tries} {limit : Int} {waiting : Bool} (h : l.row = none)
      (hrow : l'.row = some ⟨0, limit, waiting⟩) (hruns : GoesOn l.runs l'.runs) : Step l none l'
  | claim {t : Lot} (h : l.row = some t) (hw : t.waiting = true) (i : Nat) :
      Step l none ⟨some ⟨t.attempts + 1, t.limit, false⟩,
        Function.update l.runs i (some ⟨t.attempts + 1, t.limit, false⟩)⟩
  | retry {t : Lot} {i : Nat} {r : Try} (h : l.row = some t) (hi : l.runs i = some r)
      (ho : r.ended = false) (hn : (r.number : Int) ≤ r.limit) :
      Step l (some .retry) ⟨some { t with waiting := true },
        Function.update l.runs i (some { r with ended := true })⟩
  | back {l' : Tries} {t : Lot} {k : Return} {waiting : Bool} (h : l.row = some t) (hk : k ≠ .retry)
      (hrow : l'.row = some { t with waiting := waiting }) (hruns : GoesOn l.runs l'.runs) :
      Step l (some k) l'

/-- The returns after a step. -/
def tallied (count : Return → Nat) (k : Option Return) (r : Return) : Nat :=
  count r + if k = some r then 1 else 0

/-- What holds between the tries of a task and its returns so far; `spent` are the attempts
`RetryTask` has returned it after. -/
structure Kept (l : Tries) (count : Return → Nat) (spent : List Nat) : Prop where
  length : spent.length = count .retry
  nodup : spent.Nodup
  fresh : l.row = none → spent = [] ∧ ∀ i, l.runs i = none
  attempts : ∀ t, l.row = some t →
    t.attempts + (if t.waiting then 1 else 0) ≤ 1 + count .retry + count .manual + count .recovery
  spent_le : ∀ t, l.row = some t → ∀ n ∈ spent, 1 ≤ n ∧ n ≤ t.attempts ∧ (n : Int) ≤ t.limit
  run : ∀ i r, l.runs i = some r → ∃ t, l.row = some t ∧ 1 ≤ r.number ∧ r.number ≤ t.attempts ∧
    r.limit = t.limit ∧ (r.ended = false → r.number ∉ spent)
  distinct : ∀ i j r r', l.runs i = some r → l.runs j = some r' → r.number = r'.number → i = j

theorem tallied_other {count : Return → Nat} {k : Option Return} {r : Return} (h : k ≠ some r) :
    tallied count k r = count r := by
  unfold tallied
  rw [if_neg h]
  rfl

theorem tallied_none (count : Return → Nat) : tallied count none = count := by
  funext r
  exact tallied_other (by simp)

theorem tallied_sum (count : Return → Nat) (k : Return) :
    tallied count (some k) .retry + tallied count (some k) .manual + tallied count (some k) .recovery =
      count .retry + count .manual + count .recovery + 1 := by
  cases k <;> simp [tallied] <;> omega

/-- A step that hands out no attempt and spends none. -/
theorem Kept.goesOn {l l' : Tries} {count count' : Return → Nat} {spent : List Nat} (h : Kept l count spent)
    (hruns : GoesOn l.runs l'.runs) (hlength : spent.length = count' .retry)
    (hrow : ∀ t, l.row = some t → ∃ t', l'.row = some t' ∧ t'.attempts = t.attempts ∧ t'.limit = t.limit)
    (hattempts : ∀ t', l'.row = some t' →
      t'.attempts + (if t'.waiting then 1 else 0) ≤ 1 + count' .retry + count' .manual + count' .recovery) :
    Kept l' count' spent := by
  refine ⟨hlength, h.nodup, ?_, hattempts, ?_, ?_, ?_⟩
  · intro hnone
    have hfresh : l.row = none := by
      cases hl : l.row with
      | none => rfl
      | some t =>
        obtain ⟨t', ht', -, -⟩ := hrow t hl
        exact absurd (ht'.symm.trans hnone) (by simp)
    refine ⟨(h.fresh hfresh).1, fun i => ?_⟩
    cases hi : l'.runs i with
    | none => rfl
    | some r' =>
      obtain ⟨r, hr, -⟩ := hruns i r' hi
      exact absurd (hr.symm.trans ((h.fresh hfresh).2 i)) (by simp)
  · intro t' ht' n hn
    cases hl : l.row with
    | none => exact absurd (h.fresh hl).1 (List.ne_nil_of_mem hn)
    | some t =>
      obtain ⟨t'', ht'', ha, hm⟩ := hrow t hl
      obtain rfl := Option.some.inj (ht'.symm.trans ht'')
      obtain ⟨h1, h2, h3⟩ := h.spent_le t hl n hn
      exact ⟨h1, ha ▸ h2, hm ▸ h3⟩
  · intro i r' hr'
    obtain ⟨r, hr, hnumber, hlimit, hended⟩ := hruns i r' hr'
    obtain ⟨t, ht, h1, h2, h3, h4⟩ := h.run i r hr
    obtain ⟨t', ht', ha, hm⟩ := hrow t ht
    refine ⟨t', ht', hnumber ▸ h1, by rw [hnumber, ha]; exact h2, by rw [hlimit, h3, hm], fun ho => ?_⟩
    rw [hnumber]
    apply h4
    cases hrended : r.ended with
    | false => rfl
    | true => exact absurd (ho.symm.trans (hended hrended)) (by decide)
  · intro i j r r' hr hr' he
    obtain ⟨s, hs, hn, -, -⟩ := hruns i r hr
    obtain ⟨s', hs', hn', -, -⟩ := hruns j r' hr'
    exact h.distinct i j s s' hs hs' (by rw [← hn, ← hn', he])

/-- A claim hands out an attempt nobody has held, nor spent. -/
theorem Kept.claim {l : Tries} {count : Return → Nat} {spent : List Nat} {t : Lot} (h : Kept l count spent)
    (ht : l.row = some t) (hw : t.waiting = true) (i : Nat) :
    Kept ⟨some ⟨t.attempts + 1, t.limit, false⟩,
      Function.update l.runs i (some ⟨t.attempts + 1, t.limit, false⟩)⟩ count spent := by
  have hle : ∀ j r, l.runs j = some r → r.number ≤ t.attempts := by
    intro j r hr
    obtain ⟨t', ht', -, hle, -⟩ := h.run j r hr
    obtain rfl := Option.some.inj (ht.symm.trans ht')
    exact hle
  refine ⟨h.length, h.nodup, ?_, ?_, ?_, ?_, ?_⟩
  · intro hnone
    cases hnone
  · intro t' ht'
    obtain rfl := Option.some.inj ht'
    have hcount := h.attempts t ht
    rw [hw] at hcount
    exact hcount
  · intro t' ht' n hn
    obtain rfl := Option.some.inj ht'
    obtain ⟨h1, h2, h3⟩ := h.spent_le t ht n hn
    exact ⟨h1, Nat.le_succ_of_le h2, h3⟩
  · intro j r hr
    refine ⟨_, rfl, ?_⟩
    by_cases hj : j = i
    · subst hj
      obtain rfl := Option.some.inj ((Function.update_self j _ l.runs).symm.trans hr)
      refine ⟨Nat.succ_pos _, Nat.le_refl _, rfl, fun _ hmem => ?_⟩
      have hspent : t.attempts + 1 ≤ t.attempts := (h.spent_le t ht _ hmem).2.1
      omega
    · have hr : l.runs j = some r := (Function.update_of_ne hj _ l.runs).symm.trans hr
      obtain ⟨t', ht', h1, h2, h3, h4⟩ := h.run j r hr
      obtain rfl := Option.some.inj (ht.symm.trans ht')
      exact ⟨h1, Nat.le_succ_of_le h2, h3, h4⟩
  · intro j k r r' hr hr' he
    by_cases hj : j = i
    · by_cases hk : k = i
      · exact hj.trans hk.symm
      · subst hj
        obtain rfl := Option.some.inj ((Function.update_self j _ l.runs).symm.trans hr)
        have hle := hle k r' ((Function.update_of_ne hk _ l.runs).symm.trans hr')
        have he : t.attempts + 1 = r'.number := he
        omega
    · have hr : l.runs j = some r := (Function.update_of_ne hj _ l.runs).symm.trans hr
      by_cases hk : k = i
      · have hle := hle j r hr
        subst hk
        obtain rfl := Option.some.inj ((Function.update_self k _ l.runs).symm.trans hr')
        have he : r.number = t.attempts + 1 := he
        omega
      · exact h.distinct j k r r' hr ((Function.update_of_ne hk _ l.runs).symm.trans hr') he

/-- `RetryTask` spends the attempt it returns the task after. -/
theorem Kept.retry {l : Tries} {count : Return → Nat} {spent : List Nat} {t : Lot} {i : Nat} {r : Try}
    (h : Kept l count spent) (ht : l.row = some t) (hi : l.runs i = some r) (ho : r.ended = false)
    (hn : (r.number : Int) ≤ r.limit) :
    Kept ⟨some { t with waiting := true }, Function.update l.runs i (some { r with ended := true })⟩
      (tallied count (some .retry)) (r.number :: spent) := by
  obtain ⟨t', ht', h1, h2, h3, h4⟩ := h.run i r hi
  obtain rfl := Option.some.inj (ht.symm.trans ht')
  refine ⟨?_, List.nodup_cons.mpr ⟨h4 ho, h.nodup⟩, ?_, ?_, ?_, ?_, ?_⟩
  · show spent.length + 1 = count .retry + 1
    rw [h.length]
  · intro hnone
    cases hnone
  · intro t' ht'
    obtain rfl := Option.some.inj ht'
    show t.attempts + 1 ≤ _
    have hcount := h.attempts t ht
    have hsum := tallied_sum count .retry
    omega
  · intro t' ht' n hmem
    obtain rfl := Option.some.inj ht'
    obtain rfl | hmem := List.mem_cons.mp hmem
    · exact ⟨h1, h2, h3 ▸ hn⟩
    · exact h.spent_le t ht n hmem
  · intro j s hs
    refine ⟨_, rfl, ?_⟩
    by_cases hj : j = i
    · subst hj
      obtain rfl := Option.some.inj ((Function.update_self j _ l.runs).symm.trans hs)
      exact ⟨h1, h2, h3, fun hended => by cases hended⟩
    · have hs : l.runs j = some s := (Function.update_of_ne hj _ l.runs).symm.trans hs
      obtain ⟨t', ht', g1, g2, g3, g4⟩ := h.run j s hs
      obtain rfl := Option.some.inj (ht.symm.trans ht')
      refine ⟨g1, g2, g3, fun hended hmem => ?_⟩
      obtain he | hmem := List.mem_cons.mp hmem
      · exact hj (h.distinct j i s r hs hi he)
      · exact g4 hended hmem
  · have hbefore : ∀ j s, Function.update l.runs i (some { r with ended := true }) j = some s →
        ∃ s', l.runs j = some s' ∧ s'.number = s.number := by
      intro j s hs
      by_cases hj : j = i
      · subst hj
        obtain rfl := Option.some.inj ((Function.update_self j _ l.runs).symm.trans hs)
        exact ⟨r, hi, rfl⟩
      · exact ⟨s, (Function.update_of_ne hj _ l.runs).symm.trans hs, rfl⟩
    intro j k s s' hs hs' he
    obtain ⟨u, hu, hnu⟩ := hbefore j s hs
    obtain ⟨u', hu', hnu'⟩ := hbefore k s' hs'
    exact h.distinct j k u u' hu hu' (by rw [hnu, hnu', he])

/-- Every step keeps attempts and returns together. -/
theorem Kept.step {l l' : Tries} {count : Return → Nat} {spent : List Nat} {k : Option Return}
    (h : Kept l count spent) (hs : Step l k l') : ∃ spent', Kept l' (tallied count k) spent' := by
  cases hs with
  | rest hrow hruns =>
    rw [tallied_none]
    refine ⟨spent, h.goesOn hruns h.length ?_ ?_⟩
    · intro t ht
      rw [ht] at hrow
      obtain ⟨t', ht', ha, hm, -⟩ := rel_some hrow
      exact ⟨t', ht', ha, hm⟩
    · intro t' ht'
      rw [ht'] at hrow
      obtain ⟨t, ht, ha, -, hw⟩ := rel_of_some hrow
      refine Nat.le_trans ?_ (h.attempts t ht)
      rw [ha]
      apply Nat.add_le_add_left
      cases hwait : t'.waiting with
      | false => exact Nat.zero_le _
      | true => rw [hw hwait]
  | add hnone hrow hruns =>
    rw [tallied_none]
    refine ⟨spent, h.goesOn hruns h.length ?_ ?_⟩
    · intro t ht
      exact absurd (hnone.symm.trans ht) (by simp)
    · intro t' ht'
      obtain rfl := Option.some.inj (hrow.symm.trans ht')
      show 0 + _ ≤ _
      split <;> omega
  | claim ht hw i =>
    rw [tallied_none]
    exact ⟨spent, h.claim ht hw i⟩
  | retry ht hi ho hn => exact ⟨_, h.retry ht hi ho hn⟩
  | back ht hk hrow hruns =>
    rename_i t k waiting
    refine ⟨spent, h.goesOn hruns ?_ ?_ ?_⟩
    · rw [tallied_other (fun he => hk (Option.some.inj he))]
      exact h.length
    · intro t' ht'
      obtain rfl := Option.some.inj (ht.symm.trans ht')
      exact ⟨_, hrow, rfl, rfl⟩
    · intro t' ht'
      obtain rfl := Option.some.inj (hrow.symm.trans ht')
      have hone : (if waiting then 1 else 0) ≤ 1 := by split <;> omega
      have hcount := h.attempts t ht
      have hsum := tallied_sum count k
      show t.attempts + (if waiting then 1 else 0) ≤ _
      omega

theorem Kept.retries {l : Tries} {count : Return → Nat} {spent : List Nat} (h : Kept l count spent) {t : Lot}
    (ht : l.row = some t) : (count .retry : Int) ≤ max 0 t.limit := by
  have hsub : spent ⊆ List.range' 1 t.limit.toNat := by
    intro n hn
    obtain ⟨h1, -, h3⟩ := h.spent_le t ht n hn
    rw [List.mem_range'_1]
    omega
  have hle := (List.subperm_of_subset h.nodup hsub).length_le
  rw [List.length_range', h.length] at hle
  omega

end Tries

/-! ## Task rows -/

def rowLot (t : TaskRow) : Lot := ⟨t.attemptCount, t.maxRetries, t.status == .queued⟩

def lot (s : Store) (id : String) : Option Lot := (s.tasks.find? (·.id == id)).map rowLot

theorem find?_id {s : Store} {t : TaskRow} (ht : t ∈ s.tasks) : s.tasks.find? (·.id == t.id) = some t := by
  apply find?_of_key s.tasks_pk _ ht
  · exact beq_self_eq_true t.id
  · intro r r' hr hr'
    exact (beq_iff_eq.mp hr).trans (beq_iff_eq.mp hr').symm

theorem lot_of_mem {s : Store} {t : TaskRow} (ht : t ∈ s.tasks) : lot s t.id = some (rowLot t) := by
  unfold lot
  rw [find?_id ht]
  rfl

theorem lot_congr {s s' : Store} (h : s'.tasks = s.tasks) (id : String) : lot s' id = lot s id := by
  unfold lot
  rw [h]

theorem rests_refl (row : Option Lot) : Option.Rel Lot.Rests row row := by
  cases row with
  | none => exact .none
  | some t => exact .some ⟨rfl, rfl, id⟩

theorem rests_congr {s s' : Store} (h : s'.tasks = s.tasks) (id : String) :
    Option.Rel Lot.Rests (lot s id) (lot s' id) := by
  rw [lot_congr h]
  exact rests_refl _

theorem lot_updateWhere {s s' : Store} {p : TaskRow → Bool} {f : TaskRow → TaskRow}
    (h : s'.tasks = updateWhere p f s.tasks) (hkeys : ∀ t, (f t).keys = t.keys) (id : String) :
    lot s' id = (s.tasks.find? (·.id == id)).map fun t => rowLot (if p t then f t else t) := by
  have hid : ∀ t, ((f t).id == id) = (t.id == id) := by
    intro t
    rw [(TaskRow.keys_eq.mp (hkeys t)).1]
  unfold lot
  rw [h, find?_updateWhere _ hid, Option.map_map]
  rfl

/-- A statement that neither counts an attempt nor puts a task in the queue. -/
theorem rests_updateWhere {s s' : Store} {p : TaskRow → Bool} {f : TaskRow → TaskRow}
    (h : s'.tasks = updateWhere p f s.tasks) (hkeys : ∀ t, (f t).keys = t.keys)
    (hf : ∀ t, (f t).attemptCount = t.attemptCount ∧ (f t).maxRetries = t.maxRetries ∧
      ((f t).status = .queued → t.status = .queued)) (id : String) :
    Option.Rel Lot.Rests (lot s id) (lot s' id) := by
  rw [lot_updateWhere h hkeys]
  unfold lot
  cases s.tasks.find? (·.id == id) with
  | none => exact .none
  | some t =>
    refine .some ?_
    show (rowLot t).Rests (rowLot (if p t = true then f t else t))
    by_cases hp : p t = true
    · rw [if_pos hp]
      obtain ⟨ha, hm, hw⟩ := hf t
      refine ⟨ha, hm, fun hq => ?_⟩
      exact beq_iff_eq.mpr (hw (beq_iff_eq.mp hq))
    · rw [if_neg hp]
      exact ⟨rfl, rfl, fun hw => hw⟩

theorem lot_updated {s s' : Store} {tenant id : String} {guard : TaskRow → Bool} {f : TaskRow → TaskRow}
    {t : TaskRow} (ht : t ∈ s.tasks) (hp : taskIn tenant id guard t = true)
    (h : s'.tasks = updateWhere (taskIn tenant id guard) f s.tasks) (hkeys : ∀ t, (f t).keys = t.keys) :
    lot s id = some (rowLot t) ∧ lot s' id = some (rowLot (f t)) ∧ ∀ other, other ≠ id →
    lot s' other = lot s other := by
  obtain ⟨-, rfl, -⟩ := taskIn_iff.mp hp
  refine ⟨lot_of_mem ht, ?_, ?_⟩
  · rw [lot_updateWhere h hkeys, find?_id ht]
    show some (rowLot (if _ then f t else t)) = _
    rw [if_pos hp]
  · intro other hother
    rw [lot_updateWhere h hkeys]
    unfold lot
    cases hf : s.tasks.find? (·.id == other) with
    | none => rfl
    | some r =>
      have hfound := List.find?_some hf
      have hid : r.id = other := beq_iff_eq.mp hfound
      have hmiss : ¬taskIn tenant t.id guard r = true := by
        intro hhit
        exact hother (hid.symm.trans (taskIn_iff.mp hhit).2.1)
      show some (rowLot (if _ then f r else r)) = _
      rw [if_neg hmiss]
      rfl

/-- The operations that count no attempt and put no task in the queue. -/
def restsTasks : Op → Bool
  | .addTask .. | .claimNextTask .. | .retryTask .. | .requeueExpiredTasks .. | .resetTaskForManualRetry ..
  | .setTaskStatus _ _ _ .queued | .finishTaskFailure _ _ _ .queued _ _ => false
  | _ => true

theorem rests_closeTask {s s' : Store} {tenant id : String} {guard : TaskRow → Bool} {missing : StoreError}
    {m : TaskMove} {now : Time} (h : s.closeTask tenant id guard missing m now = .ok s')
    (hm : ∀ t, (m.set t).attemptCount = t.attemptCount ∧ (m.set t).maxRetries = t.maxRetries ∧
      ((m.set t).status = .queued → t.status = .queued)) (other : String) :
    Option.Rel Lot.Rests (lot s other) (lot s' other) := by
  obtain ⟨t, -, -, ht⟩ := closeTask_ok h
  exact rests_updateWhere (by rw [ht]; rfl) m.set_keys hm other

theorem rests_apply {s s' : Store} {op : Op} (h : op.apply s = .ok s') (hop : restsTasks op = true) (id : String) :
    Option.Rel Lot.Rests (lot s id) (lot s' id) := by
  cases op with
  | createPlan =>
    obtain ⟨targets, ht⟩ := createPlan_ok h
    exact rests_congr (by rw [ht]) id
  | updatePlan tenant plan cancelQueued =>
    obtain ⟨targets, ht⟩ := updatePlan_ok h
    cases cancelQueued with
    | false => exact rests_congr (by rw [ht]; rfl) id
    | true =>
      simp only [if_true] at ht
      refine rests_updateWhere (by rw [ht]) ?_ ?_ id
      · intro _
        rfl
      · intro t
        exact ⟨rfl, rfl, fun hq => absurd (show TaskStatus.cancelled = .queued from hq) (by decide)⟩
  | setPlanEnabled =>
    obtain ⟨plans, ht⟩ := setPlanEnabled_ok h
    exact rests_congr (by rw [ht]) id
  | pausePlanForScope =>
    obtain ⟨plans, ht⟩ := pausePlanForScope_ok h
    refine rests_updateWhere (by rw [ht]) ?_ ?_ id
    · intro _
      rfl
    · intro t
      exact ⟨rfl, rfl, fun hq => absurd (show TaskStatus.skipped = .queued from hq) (by decide)⟩
  | advancePlan =>
    cases h
    exact rests_congr rfl id
  | createBatch =>
    have ht := createBatch_ok h
    exact rests_congr (by rw [ht]) id
  -- the five that count an attempt or put a task in the queue
  | addTask | claimNextTask | retryTask | requeueExpiredTasks | resetTaskForManualRetry => cases hop
  -- any status but QUEUED, as `restsTasks` says; so with a failure
  | setTaskStatus tenant taskId token status =>
    have ht := setTaskStatus_ok h
    refine rests_updateWhere (by rw [ht]) ?_ ?_ id
    · intro _
      rfl
    · intro t
      refine ⟨rfl, rfl, fun hq => ?_⟩
      have hq : status = .queued := hq
      subst hq
      cases hop
  | setTaskScopeValidation =>
    cases h
    refine rests_updateWhere rfl ?_ ?_ id
    · intro _
      rfl
    · intro t
      exact ⟨rfl, rfl, fun hq => hq⟩
  | heartbeatTask =>
    cases h
    refine rests_updateWhere rfl ?_ ?_ id
    · intro _
      rfl
    · intro t
      exact ⟨rfl, rfl, fun hq => hq⟩
  | completeTask =>
    refine rests_closeTask h (fun t => ⟨rfl, rfl, fun hq => ?_⟩) id
    exact absurd (show TaskStatus.succeeded = .queued from hq) (by decide)
  | finishTaskFailure tenant taskId token status code now =>
    refine rests_closeTask h (fun t => ⟨rfl, rfl, fun hq => ?_⟩) id
    have hq : status = .queued := hq
    subst hq
    cases hop
  | cancelTask tenant taskId now =>
    cases hc : s.cancelTask tenant taskId now with
    | error e =>
      simp only [Op.apply, hc] at h
      cases h
    | ok out =>
      obtain ⟨s₁, task⟩ := out
      simp only [Op.apply, hc] at h
      cases h
      obtain ⟨t, -, -, -, ⟨-, rfl⟩ | ⟨-, rfl⟩⟩ := cancelTask_ok hc
      · have ht := cancelTaskJob_tables (s.cancelTaskRow tenant taskId now) tenant t.backupJobId now
        refine rests_updateWhere (by rw [ht]; rfl) ?_ ?_ id
        · intro _
          rfl
        · intro t
          exact ⟨rfl, rfl, fun hq => absurd (show TaskStatus.cancelled = .queued from hq) (by decide)⟩
      · exact rests_refl _
  | createBackupJob =>
    have ht := createBackupJob_ok h
    exact rests_congr (by rw [ht]) id
  | startBackupJob =>
    have ht := (moveJob_ok h).2
    exact rests_congr (by rw [ht]) id
  | failBackupJob =>
    have ht := (moveJob_ok h).2
    exact rests_congr (by rw [ht]) id
  | commitSnapshot =>
    have ht := (commitSnapshot_ok h).2
    exact rests_congr (by rw [ht]) id

theorem rests_next (s : Store) {op : Op} (hop : restsTasks op = true) (id : String) :
    Option.Rel Lot.Rests (lot s id) (lot (op.next s) id) := by
  obtain h | h := Op.next_cases s op
  · exact rests_apply h hop id
  · rw [h]
    exact rests_refl _

/-- `RequeueExpiredTasks` finds the row of the task among the expired. -/
def Store.recovers (s : Store) (tenant : String) (now : Time) (id : String) : Bool :=
  s.tasks.any fun t => t.id == id && expired tenant now t

/-- A recovery leaves the rows alone that it does not find expired. -/
theorem lot_requeueExpiredTasks {s s' : Store} {tenant : String} {now : Time}
    (h : s.requeueExpiredTasks tenant now = .ok s') (id : String) :
    Option.Rel (fun t t' : Lot => t'.attempts = t.attempts ∧ t'.limit = t.limit ∧
      (t'.waiting = t.waiting ∨ Store.recovers s tenant now id = true)) (lot s id) (lot s' id) := by
  refine foldlM_invariant (P := fun s' => Option.Rel (fun t t' : Lot => t'.attempts = t.attempts ∧
    t'.limit = t.limit ∧ (t'.waiting = t.waiting ∨ Store.recovers s tenant now id = true)) (lot s id) (lot s' id))
    h ?_ ?_
  · cases lot s id with
    | none => exact .none
    | some t => exact .some ⟨rfl, rfl, .inl rfl⟩
  · intro s₁ s₂ item hitem hrel hone
    obtain ⟨hmem, hexpired⟩ := List.mem_filter.mp hitem
    have ht : s₂.tasks = updateWhere (taskIn tenant item.id fun _ => true) (expiredMove now).set s₁.tasks := by
      rw [runMove_ok hone]
      rfl
    have hafter := lot_updateWhere ht (expiredMove now).set_keys id
    unfold lot at hrel
    rw [hafter]
    cases hf : s₁.tasks.find? (·.id == id) with
    | none =>
      rw [hf] at hrel
      exact hrel
    | some t =>
      rw [hf] at hrel
      obtain ⟨t₀, ht₀, ha, hm, hw⟩ := rel_of_some hrel
      show Option.Rel _ (lot s id) (some (rowLot (if _ then (expiredMove now).set t else t)))
      unfold lot
      rw [ht₀]
      refine .some ?_
      by_cases hp : taskIn tenant item.id (fun _ => true) t = true
      · rw [if_pos hp]
        refine ⟨ha, hm, .inr ?_⟩
        have hfound := List.find?_some hf
        have hid : item.id = id := (taskIn_iff.mp hp).2.1.symm.trans (beq_iff_eq.mp hfound)
        refine List.any_eq_true.mpr ⟨item, hmem, ?_⟩
        rw [hid, hexpired]
        simp
      · rw [if_neg hp]
        exact ⟨ha, hm, hw⟩

/-! ## The tries in the world -/

/-- `execute` has closed the task. -/
def Stage.ended : Stage → Bool
  | .leaving => true
  | _ => false

def Execution.try_ (x : Execution) : Try := ⟨x.task.attemptCount, x.task.maxRetries, x.stage.ended⟩

/-- The worker's attempt at the task. -/
def Worker.try_ (id : String) : Worker → Option Try
  | .busy x => if x.task.id = id then some x.try_ else none
  | _ => none

def World.tries (w : World) (id : String) : Tries where
  row := lot w.store id
  runs := fun i => (w.workers i).try_ id

/-- The step brings the task back to the queue, in that way. -/
def World.comesBack (id : String) : Return → World → Action → Bool
  | .retry, w, .execute i .close =>
    match w.workers i with
    | .busy x =>
      match x.stage with
      | .closing (.retry code availableAt now) =>
        x.task.id == id && ((x.closingOp (.retry code availableAt now)).apply w.store).isOk
      | _ => false
    | _ => false
  | .manual, w, .manualRetry id' now =>
    id' == id && ((Op.resetTaskForManualRetry w.tenant id' now).apply w.store).isOk
  | .recovery, w, .boot uid now => Store.recovers w.store uid now id
  | .recovery, w, .recover i now =>
    match w.workers i with
    | .recovering uid => (w.store.requeueExpiredTasks uid now).isOk && Store.recovers w.store uid now id
    | _ => false
  | _, _, _ => false

/-! ### What the threads hold -/

/-- A call that is to return its task has an attempt within the limit, and one that is to
end it does end it. -/
def Execution.Ends (x : Execution) : Prop :=
  match x.stage with
  | .closing (.retry _ _ _) => (x.task.attemptCount : Int) ≤ x.task.maxRetries
  | .closing (.finish status _ _) => status ≠ .queued
  | _ => True

/-- The tasks to be added have not been tried, and the calls about to close do as they
should. -/
structure Prepared (w : World) : Prop where
  pending : ∀ k task, w.enqueues k = .adding task → task.attemptCount = 0
  ending : ∀ i x, w.workers i = .busy x → x.Ends

theorem ends_failureClosing (x : Execution) (err : GoError) (now : Time) :
    { x with stage := .closing (x.failureClosing err now) }.Ends := by
  unfold Execution.failureClosing
  simp only
  split
  · next h =>
    obtain ⟨-, hle⟩ := Bool.and_eq_true_iff.mp h
    have hle : (x.task.attemptCount : Int) ≤ x.task.maxRetries := of_decide_eq_true hle
    exact hle
  · show (if _ then TaskStatus.timedOut else .failed) ≠ .queued
    split <;> decide

theorem ends_afterReturn (x : Execution) (now : Time) (err : Option GoError) :
    { x with stage := x.afterReturn now err }.Ends := by
  cases err with
  | none => exact trivial
  | some err =>
    show Execution.Ends { x with stage := ite _ _ _ }
    split
    · exact show TaskStatus.cancelled ≠ .queued by decide
    · split
      · exact trivial
      · exact ends_failureClosing x err now

theorem ends_of_acts {x : Execution} {s s' : Store} {tenant : String} {a : ExecAct} {stage : Stage}
    (ha : x.Acts s tenant a s' stage) : { x with stage := stage }.Ends := by
  cases ha with
  | settled hx now => exact ends_afterReturn x now _
  | paused => exact ends_failureClosing x _ _
  | _ => exact trivial

theorem Prepared.of {w w' : World} (h : Prepared w)
    (hpending : ∀ k task, w'.enqueues k = .adding task → w.enqueues k = .adding task ∨ task.attemptCount = 0)
    (hending : ∀ i x, w'.workers i = .busy x → w.workers i = .busy x ∨ x.Ends) : Prepared w' := by
  refine ⟨fun k task hk => ?_, fun i x hi => ?_⟩
  · obtain hk | hzero := hpending k task hk
    · exact h.pending k task hk
    · exact hzero
  · obtain hi | hends := hending i x hi
    · exact h.ending i x hi
    · exact hends

theorem Prepared.setWorker {w w' : World} (h : Prepared w) (i : Nat) {worker : Worker}
    (he : w'.enqueues = w.enqueues) (hw : w'.workers = Function.update w.workers i worker)
    (hends : ∀ x, worker = .busy x → x.Ends) : Prepared w' := by
  refine h.of (fun k task hk => .inl (he ▸ hk)) (fun n x hn => ?_)
  rw [hw] at hn
  by_cases hni : n = i
  · rw [hni, Function.update_self] at hn
    exact .inr (hends x hn)
  · rw [Function.update_of_ne hni] at hn
    exact .inl hn

theorem Prepared.setEnqueue {w w' : World} (h : Prepared w) (k : Nat) {call : EnqueueCall}
    (hw : w'.workers = w.workers) (he : w'.enqueues = Function.update w.enqueues k call)
    (hzero : ∀ task, call = .adding task → task.attemptCount = 0) : Prepared w' := by
  refine h.of (fun n task hn => ?_) (fun i x hi => .inl (hw ▸ hi))
  rw [he] at hn
  by_cases hnk : n = k
  · rw [hnk, Function.update_self] at hn
    exact .inr (hzero task hn)
  · rw [Function.update_of_ne hnk] at hn
    exact .inl hn

theorem Prepared.same {w w' : World} (h : Prepared w) (hw : w'.workers = w.workers)
    (he : w'.enqueues = w.enqueues) : Prepared w' :=
  h.of (fun _ _ hk => .inl (he ▸ hk)) (fun _ _ hi => .inl (hw ▸ hi))

theorem Prepared.step {w w' : World} {a : Action} (h : Prepared w) (hs : w.Steps a w') : Prepared w' := by
  cases hs with
  | crash => exact ⟨fun k task hk => (nomatch hk), fun i x hi => (nomatch hi)⟩
  | ready | stale | unrecovered | recovered | mark | unclaimed | leave =>
    exact h.setWorker _ rfl rfl (fun x hx => nomatch hx)
  | claimed hi hx hs =>
    refine h.setWorker _ rfl rfl (fun x hx => ?_)
    cases hx
    exact trivial
  | register hi hx =>
    refine h.setWorker _ rfl rfl (fun x hx => ?_)
    cases hx
    exact trivial
  | timeout hi hx =>
    refine h.setWorker _ rfl rfl (fun y hy => ?_)
    cases hy
    have hends := h.ending _ _ hi
    exact hends
  | act tickers hi ha =>
    refine h.setWorker _ rfl rfl (fun y hy => ?_)
    cases hy
    exact ends_of_acts ha
  | cancelCall hk =>
    refine h.of (fun _ _ hk => .inl hk) (fun i x hi => .inr ?_)
    cases hw : w.workers i with
    | busy y =>
      have hx : (w.workers i).interrupted _ = .busy x := hi
      rw [hw] at hx
      cases hx
      exact h.ending i y hw
    | _ =>
      have hx : (w.workers i).interrupted _ = .busy x := hi
      rw [hw] at hx
      cases hx
  | enqueueJob hk hc =>
    refine h.setEnqueue _ rfl rfl (fun task htask => ?_)
    cases htask
    rfl
  | unadded | added | enqueueFails | undoJob | keepJob =>
    exact h.setEnqueue _ rfl rfl (fun task htask => nomatch htask)
  | _ => exact h.same rfl rfl

/-! ### Every step is a step of the tries -/

section
variable {w w' : World} {a : Action} {id : String}

theorem goesOn_refl (runs : Nat → Option Try) : GoesOn runs runs :=
  fun _ r' hr' => ⟨r', hr', rfl, rfl, fun ho => ho⟩

theorem goesOn_setWorker {i : Nat} {worker : Worker} (hw : w'.workers = Function.update w.workers i worker)
    (h : ∀ r', worker.try_ id = some r' → ∃ r, (w.workers i).try_ id = some r ∧ r'.number = r.number ∧
      r'.limit = r.limit ∧ (r.ended = true → r'.ended = true)) : GoesOn (w.tries id).runs (w'.tries id).runs := by
  intro n r' hr'
  change (w'.workers n).try_ id = some r' at hr'
  rw [hw] at hr'
  by_cases hn : n = i
  · subst hn
    rw [Function.update_self] at hr'
    exact h r' hr'
  · rw [Function.update_of_ne hn] at hr'
    exact ⟨r', hr', rfl, rfl, fun ho => ho⟩

theorem goesOn_busy {i : Nat} {x x' : Execution} (hi : w.workers i = .busy x) (htask : x'.task = x.task)
    (hended : x.stage.ended = true → x'.stage.ended = true)
      (hw : w'.workers = Function.update w.workers i (.busy x')) :
    GoesOn (w.tries id).runs (w'.tries id).runs := by
  refine goesOn_setWorker hw ?_
  intro r' hr'
  rw [hi]
  by_cases hid : x.task.id = id
  · have hr' : (if x'.task.id = id then some x'.try_ else none) = some r' := hr'
    rw [htask, if_pos hid] at hr'
    obtain rfl := Option.some.inj hr'
    refine ⟨x.try_, if_pos hid, ?_, ?_, hended⟩
    · exact congrArg (·.attemptCount) htask
    · exact congrArg (·.maxRetries) htask
  · have hr' : (if x'.task.id = id then some x'.try_ else none) = some r' := hr'
    rw [htask, if_neg hid] at hr'
    cases hr'

theorem goesOn_idle {i : Nat} {worker : Worker} (hw : w'.workers = Function.update w.workers i worker)
    (h : worker.try_ id = none) : GoesOn (w.tries id).runs (w'.tries id).runs := by
  refine goesOn_setWorker hw ?_
  intro r' hr'
  exact absurd (h.symm.trans hr') (by simp)

/-- What a step of the world is to the tries of a task. -/
def StepsTries (w : World) (a : Action) (w' : World) (id : String) : Prop :=
  ∃ k, (w.tries id).Step k (w'.tries id) ∧ ∀ r, World.comesBack id r w a = decide (k = some r)

theorem stepsTries_rest (hrow : Option.Rel Lot.Rests (lot w.store id) (lot w'.store id))
    (hruns : GoesOn (w.tries id).runs (w'.tries id).runs) (hquiet : ∀ r, World.comesBack id r w a = false) :
    StepsTries w a w' id := by
  refine ⟨none, .rest hrow hruns, fun r => ?_⟩
  rw [hquiet r]
  exact (decide_eq_false (by simp)).symm

theorem stepsTries_thread (hstore : w'.store = w.store) (hruns : GoesOn (w.tries id).runs (w'.tries id).runs)
    (hquiet : ∀ r, World.comesBack id r w a = false) : StepsTries w a w' id :=
  stepsTries_rest (rests_congr (by rw [hstore]) id) hruns hquiet

theorem stepsTries_next {op : Op} (hop : restsTasks op = true) (hstore : w'.store = op.next w.store)
    (hworkers : w'.workers = w.workers) (hquiet : ∀ r, World.comesBack id r w a = false) :
    StepsTries w a w' id := by
  have hruns : (w'.tries id).runs = (w.tries id).runs := by
    show (fun i => (w'.workers i).try_ id) = _
    rw [hworkers]
    rfl
  refine stepsTries_rest ?_ (hruns ▸ goesOn_refl _) hquiet
  rw [hstore]
  exact rests_next w.store hop id

/-! ### New tasks and claims -/

theorem lot_addTask {s s' : Store} {task : BackupTask} {now : Time} (h : s.addTask task now = .ok s') (id : String) :
    (lot s id = none ∧ lot s' id = some (rowLot (taskRow task))) ∨ lot s' id = lot s id := by
  have htasks : s'.tasks = s.tasks ++ [taskRow task] := by rw [addTask_ok h]
  have happend : lot s' id = ((s.tasks.find? (·.id == id)).or ([taskRow task].find? (·.id == id))).map rowLot := by
    unfold lot
    rw [htasks, List.find?_append]
  cases hf : s.tasks.find? (·.id == id) with
  | some t =>
    refine .inr ?_
    rw [happend]
    unfold lot
    rw [hf]
    rfl
  | none =>
    have hnone : lot s id = none := by
      unfold lot
      rw [hf]
      rfl
    rw [hf, Option.none_or] at happend
    by_cases hid : task.id = id
    · refine .inl ⟨hnone, happend.trans ?_⟩
      have hhit : ((taskRow task).id == id) = true := beq_iff_eq.mpr hid
      simp [hhit]
    · refine .inr ((happend.trans ?_).trans hnone.symm)
      have hmiss : ((taskRow task).id == id) = false := beq_eq_false_iff_ne.mpr hid
      simp [hmiss]

theorem stepsTries_added {task : BackupTask} {now : Time} {s : Store} (hs : w.store.addTask task now = .ok s)
    (hzero : task.attemptCount = 0) (hstore : w'.store = s) (hworkers : w'.workers = w.workers)
    (hquiet : ∀ r, World.comesBack id r w a = false) : StepsTries w a w' id := by
  have hruns : GoesOn (w.tries id).runs (w'.tries id).runs := by
    show GoesOn (w.tries id).runs fun i => (w'.workers i).try_ id
    rw [hworkers]
    exact goesOn_refl _
  obtain ⟨hnone, hrow⟩ | hsame := lot_addTask hs id
  · have hadded : (w'.tries id).row = some ⟨0, task.maxRetries, task.status == .queued⟩ := by
      show lot w'.store id = _
      rw [hstore, hrow, ← hzero]
      rfl
    refine ⟨none, .add hnone hadded hruns, ?_⟩
    · intro r
      rw [hquiet r]
      exact (decide_eq_false (by simp)).symm
  · refine stepsTries_rest ?_ hruns hquiet
    rw [hstore, hsame]
    exact rests_refl _

theorem stepsTries_claimed {i : Nat} {uid workerId token : String} {now expires : Time} {s : Store}
    {task : BackupTask} (hs : w.store.claimNextTask uid workerId token now expires = .ok (s, task))
    (hquiet : ∀ r, World.comesBack id r w a = false) :
    StepsTries w a ((w.onStore s).begin i token task) id := by
  obtain ⟨t, ht, hten, hq, rfl, htables⟩ := claimNextTask_ok hs
  have hp : taskIn uid t.id (·.status == .queued) t = true :=
    taskIn_iff.mpr ⟨hten, rfl, beq_iff_eq.mpr hq⟩
  have htasks : s.tasks = updateWhere (taskIn uid t.id (·.status == .queued))
      (claimRow workerId token now expires) w.store.tasks := by rw [htables]
  obtain ⟨hbefore, hafter, hother⟩ := lot_updated ht hp htasks (fun _ => rfl)
  by_cases hid : t.id = id
  · subst hid
    have hstep := @Tries.Step.claim (w.tries t.id) _ hbefore (beq_iff_eq.mpr hq) i
    refine ⟨none, ?_, fun r => ?_⟩
    · have hruns : (fun n => (Function.update w.workers i (.busy {
            uid := if (claimedTask now expires t).tenantUid = "" then w.tenant else
              (claimedTask now expires t).tenantUid
            token := token, task := claimedTask now expires t, ctx := w.nextCtx, done := none
            stage := .entered }) n).try_ t.id) =
          Function.update (w.tries t.id).runs i (some ⟨t.attemptCount + 1, t.maxRetries, false⟩) := by
        funext n
        by_cases hn : n = i
        · rw [hn, Function.update_self, Function.update_self]
          exact if_pos rfl
        · rw [Function.update_of_ne hn, Function.update_of_ne hn]
          rfl
      have htries : ((w.onStore s).begin i token (claimedTask now expires t)).tries t.id =
          ⟨some ⟨t.attemptCount + 1, t.maxRetries, false⟩,
            Function.update (w.tries t.id).runs i (some ⟨t.attemptCount + 1, t.maxRetries, false⟩)⟩ := by
        show Tries.mk (lot s t.id) _ = _
        rw [hafter, ← hruns]
        rfl
      rw [htries]
      exact hstep
    · rw [hquiet r]
      exact (decide_eq_false (by simp)).symm
  · refine stepsTries_rest ?_ (goesOn_idle (i := i) rfl (if_neg hid)) hquiet
    show Option.Rel _ _ (lot s id)
    rw [hother id (Ne.symm hid)]
    exact rests_refl _

/-! ### The three returns -/

theorem stepsTries_manualRetry {taskId : String} {now : Time} :
    StepsTries w (.manualRetry taskId now)
      (w.onStore ((Op.resetTaskForManualRetry w.tenant taskId now).next w.store)) id := by
  have hruns : GoesOn (w.tries id).runs
      ((w.onStore ((Op.resetTaskForManualRetry w.tenant taskId now).next w.store)).tries id).runs := goesOn_refl _
  cases happly : (Op.resetTaskForManualRetry w.tenant taskId now).apply w.store with
  | error e =>
    have hnext : (Op.resetTaskForManualRetry w.tenant taskId now).next w.store = w.store := by
      unfold Op.next
      rw [happly]
    refine stepsTries_thread hnext hruns (fun r => ?_)
    cases r with
    | manual =>
      show (taskId == id && Except.isOk _) = false
      rw [happly]
      exact Bool.and_false _
    | retry | recovery => rfl
  | ok s' =>
    have hnext : (Op.resetTaskForManualRetry w.tenant taskId now).next w.store = s' := by
      unfold Op.next
      rw [happly]
    obtain ⟨t, ht, hp, htables⟩ := closeTask_ok happly
    have htasks : s'.tasks = updateWhere (taskIn w.tenant taskId fun t => resettable.contains t.status)
        (manualRetryMove now).set w.store.tasks := by rw [htables]; rfl
    obtain ⟨hbefore, hafter, hother⟩ := lot_updated ht hp htasks (manualRetryMove now).set_keys
    rw [hnext] at hruns ⊢
    by_cases hid : taskId = id
    · subst hid
      refine ⟨some .manual, .back hbefore (by decide) hafter hruns, fun r => ?_⟩
      cases r with
      | manual =>
        show (taskId == taskId && Except.isOk _) = true
        rw [happly]
        simp [Except.isOk, Except.toBool]
      | retry | recovery => rfl
    · refine stepsTries_rest ?_ hruns (fun r => ?_)
      · show Option.Rel _ _ (lot s' id)
        rw [hother id (Ne.symm hid)]
        exact rests_refl _
      · cases r with
        | manual =>
          show (taskId == id && _) = false
          rw [beq_eq_false_iff_ne.mpr hid]
          rfl
        | retry | recovery => rfl

theorem stepsTries_recovered {uid : String} {now : Time} {s : Store}
    (hs : w.store.requeueExpiredTasks uid now = .ok s) (hstore : w'.store = s)
    (hruns : GoesOn (w.tries id).runs (w'.tries id).runs)
    (hevent : ∀ r, World.comesBack id r w a = (decide (r = .recovery) && Store.recovers w.store uid now id)) :
    StepsTries w a w' id := by
  have hrel := lot_requeueExpiredTasks hs id
  cases hexpired : Store.recovers w.store uid now id with
  | false =>
    rw [hexpired] at hrel hevent
    refine stepsTries_rest ?_ hruns (fun r => (hevent r).trans (Bool.and_false _))
    rw [hstore]
    cases hl : lot w.store id with
    | none =>
      rw [hl] at hrel
      cases hl' : lot s id with
      | none => exact .none
      | some t =>
        rw [hl'] at hrel
        cases hrel
    | some t =>
      rw [hl] at hrel
      obtain ⟨t', ht', ha, hm, hw | hf⟩ := rel_some hrel
      · rw [ht']
        exact .some ⟨ha, hm, fun hwait => hw ▸ hwait⟩
      · cases hf
  | true =>
    obtain ⟨t, ht, hhit⟩ := List.any_eq_true.mp hexpired
    obtain ⟨hid, -⟩ := Bool.and_eq_true_iff.mp hhit
    obtain rfl := beq_iff_eq.mp hid
    rw [lot_of_mem ht] at hrel
    obtain ⟨t', ht', ha, hm, -⟩ := rel_some hrel
    have hafter : (w'.tries t.id).row = some { rowLot t with waiting := t'.waiting } := by
      show lot w'.store t.id = _
      rw [hstore, ht']
      show some (Lot.mk t'.attempts t'.limit t'.waiting) = some (Lot.mk (rowLot t).attempts (rowLot t).limit t'.waiting)
      rw [ha, hm]
    refine ⟨some .recovery, .back (lot_of_mem ht) (by decide) hafter hruns, fun r => ?_⟩
    · rw [hevent r, hexpired, Bool.and_true]
      cases r <;> rfl

theorem not_comesBack_execute {i : Nat} {x : Execution} (hi : w.workers i = .busy x)
    (h : ∀ code availableAt now, x.stage ≠ .closing (.retry code availableAt now)) (act : ExecAct) (r : Return) :
    World.comesBack id r w (.execute i act) = false := by
  cases r with
  | retry =>
    cases act with
    | close =>
      cases hx : x.stage with
      | closing c =>
        cases c with
        | retry code availableAt now => exact absurd hx (h code availableAt now)
        | complete | finish => simp only [World.comesBack, hi, hx]
      | _ => simp only [World.comesBack, hi, hx]
    | _ => rfl
  | manual | recovery => rfl

/-- `RetryTask` returns the task after the attempt the worker holds. -/
theorem stepsTries_retry {i : Nat} {x : Execution} {code : String} {availableAt now : Time}
    (tickers : List (String × String × String)) (h : Prepared w) (hi : w.workers i = .busy x)
    (hx : x.stage = .closing (.retry code availableAt now)) :
    StepsTries w (.execute i .close)
      (w.afterAct i x ((x.closingOp (.retry code availableAt now)).next w.store) .leaving tickers) id := by
  have hruns : ∀ s, GoesOn (w.tries id).runs ((w.afterAct i x s .leaving tickers).tries id).runs := fun s =>
    @goesOn_busy w _ id i x { x with stage := .leaving } hi rfl (fun _ => rfl) rfl
  have hevent : ∀ r, World.comesBack id r w (.execute i .close) = (decide (r = .retry) &&
      (x.task.id == id && ((x.closingOp (.retry code availableAt now)).apply w.store).isOk)) := by
    intro r
    cases r with
    | retry => simp only [World.comesBack, hi, hx, decide_true, Bool.true_and]
    | manual | recovery => rfl
  -- a refused retry leaves the row and ends the call; one that lands spends its attempt
  cases happly : (x.closingOp (.retry code availableAt now)).apply w.store with
  | error e =>
    have hnext : (x.closingOp (.retry code availableAt now)).next w.store = w.store := by
      unfold Op.next
      rw [happly]
    rw [hnext]
    refine stepsTries_thread rfl (hruns _) (fun r => (hevent r).trans ?_)
    rw [happly]
    show (_ && (_ && false)) = false
    rw [Bool.and_false, Bool.and_false]
  | ok s' =>
    have hnext : (x.closingOp (.retry code availableAt now)).next w.store = s' := by
      unfold Op.next
      rw [happly]
    rw [hnext]
    rw [happly] at hevent
    obtain ⟨t, ht, hp, htables⟩ :=
        closeTask_ok (show w.store.closeTask x.uid x.task.id _ _ _ _ = .ok s' from happly)
    have htasks : s'.tasks = updateWhere (taskIn x.uid x.task.id (·.leaseToken == x.token))
        (retryMove code availableAt).set w.store.tasks := by rw [htables]; rfl
    obtain ⟨hbefore, hafter, hother⟩ := lot_updated ht hp htasks (retryMove code availableAt).set_keys
    by_cases hid : x.task.id = id
    · subst hid
      have hends := h.ending i x hi
      unfold Execution.Ends at hends
      rw [hx] at hends
      have hrun : (w.tries x.task.id).runs i = some x.try_ := by
        show (w.workers i).try_ x.task.id = _
        rw [hi]
        exact if_pos rfl
      have hended : x.try_.ended = false := by
        show x.stage.ended = false
        rw [hx]
        rfl
      have hstep := @Tries.Step.retry (w.tries x.task.id) _ i _ hbefore hrun hended hends
      refine ⟨some .retry, ?_, fun r => ?_⟩
      · have htries : (w.afterAct i x s' .leaving tickers).tries x.task.id =
            ⟨some { rowLot t with waiting := true },
              Function.update (w.tries x.task.id).runs i (some { x.try_ with ended := true })⟩ := by
          show Tries.mk (lot s' x.task.id) _ = _
          rw [hafter]
          refine congrArg (Tries.mk _) ?_
          funext n
          show (Function.update w.workers i _ n).try_ x.task.id = _
          by_cases hn : n = i
          · rw [hn, Function.update_self, Function.update_self]
            exact if_pos rfl
          · rw [Function.update_of_ne hn, Function.update_of_ne hn]
            rfl
        rw [htries]
        exact hstep
      · rw [hevent r, beq_self_eq_true]
        cases r <;> rfl
    · -- for another task the step is a rest
      refine stepsTries_rest ?_ (hruns s') (fun r => ?_)
      · show Option.Rel _ _ (lot s' id)
        rw [hother id (Ne.symm hid)]
        exact rests_refl _
      · rw [hevent r, beq_eq_false_iff_ne.mpr hid, Bool.false_and, Bool.and_false]

/-! ### The step lemma -/

theorem stepsTries_act {i : Nat} {x : Execution} {act : ExecAct} {s : Store} {stage : Stage}
    (tickers : List (String × String × String)) (h : Prepared w) (hi : w.workers i = .busy x)
    (ha : x.Acts w.store w.tenant act s stage) : StepsTries w (.execute i act) (w.afterAct i x s stage tickers) id := by
  have hlive : ∀ stage', x.stage.ended = false → GoesOn (w.tries id).runs
      ((w.afterAct i x s stage' tickers).tries id).runs := by
    intro stage' hended
    refine @goesOn_busy w _ id i x { x with stage := stage' } hi rfl (fun ho => ?_) rfl
    exact absurd (ho.symm.trans hended) (by decide)
  have hrest : ∀ op, restsTasks op = true → Option.Rel Lot.Rests (lot w.store id) (lot (op.next w.store) id) :=
    fun op hop => rests_next w.store hop id
  have hquiet : (∀ code availableAt now, x.stage ≠ .closing (.retry code availableAt now)) →
      ∀ r, World.comesBack id r w (.execute i act) = false := fun hx => not_comesBack_execute hi hx act
  cases ha with
  | precheckDone hx | unread hx | read hx | unstarted hx | broken hx | settled hx | lost hx | looked hx =>
    exact stepsTries_thread rfl (hlive _ (by rw [hx]; rfl)) (hquiet (by rw [hx]; intro _ _ _ he; cases he))
  | precheck hx hd =>
    exact stepsTries_rest (hrest _ rfl) (hlive _ (by rw [hx]; rfl)) (hquiet (by rw [hx]; intro _ _ _ he; cases he))
  | started hx hd hs =>
    refine stepsTries_rest ?_ (hlive _ (by rw [hx]; rfl)) (hquiet (by rw [hx]; intro _ _ _ he; cases he))
    exact rests_apply (show (Op.startBackupJob _ _ _).apply w.store = .ok s from hs) rfl id
  | committed hx hd hs =>
    refine stepsTries_rest ?_ (hlive _ (by rw [hx]; rfl)) (hquiet (by rw [hx]; intro _ _ _ he; cases he))
    exact rests_apply (show (Op.commitSnapshot _).apply w.store = .ok s from hs) rfl id
  | failed hx | validated hx | paused hx =>
    exact stepsTries_rest (hrest _ rfl) (hlive _ (by rw [hx]; rfl)) (hquiet (by rw [hx]; intro _ _ _ he; cases he))
  | closed hx =>
    rename_i c
    cases c with
    | complete snapshotId now =>
      exact stepsTries_rest (hrest _ rfl) (hlive _ (by rw [hx]; rfl)) (hquiet (by rw [hx]; intro _ _ _ he; cases he))
    | retry code availableAt now => exact stepsTries_retry tickers h hi hx
    | finish status code now =>
      have hends : status ≠ .queued := by
        have hends := h.ending i x hi
        unfold Execution.Ends at hends
        rw [hx] at hends
        exact hends
      have hop : restsTasks (x.closingOp (.finish status code now)) = true := by
        cases status with
        | queued => exact absurd rfl hends
        | _ => rfl
      exact stepsTries_rest (hrest _ hop) (hlive _ (by rw [hx]; rfl)) (hquiet (by rw [hx]; intro _ _ _ he; cases he))

theorem goesOn_interrupted (runs : Nat → Worker) (ctx : Nat) (id : String) :
    (fun i => ((runs i).interrupted ctx).try_ id) = fun i => (runs i).try_ id := by
  funext i
  cases runs i <;> rfl

/-- Every step of the world is one of the tries of a task. -/
theorem stepsTries (h : Prepared w) (hs : w.Steps a w') (id : String) : StepsTries w a w' id := by
  have hnone : ∀ {worker : Worker} {i : Nat} {w'' : World}, w''.workers = Function.update w.workers i worker →
      worker.try_ id = none → GoesOn (w.tries id).runs (w''.tries id).runs :=
    fun hw hn => goesOn_idle hw hn
  cases hs with
  | bind | unready | cancel | cancelRefused | cancelWaiting | cancelLeased | cancelMissed | cancelFound | hangUp
  | unadded | enqueueFails | keepJob =>
    exact stepsTries_thread rfl (goesOn_refl _) (fun r => by cases r <;> rfl)
  | boot hu ht hs =>
    exact stepsTries_recovered hs rfl (goesOn_refl _) (fun r => by cases r <;> rfl)
  | crash =>
    refine stepsTries_thread rfl (fun i r' hr' => ?_) (fun r => by cases r <;> rfl)
    cases hr'
  | ready | stale | mark | unclaimed =>
    exact stepsTries_thread rfl (hnone rfl rfl) (fun r => by cases r <;> rfl)
  -- a recovery that failed brings no task back
  | unrecovered hi hs =>
    refine stepsTries_thread rfl (hnone rfl rfl) (fun r => ?_)
    cases r with
    | recovery =>
      simp only [World.comesBack, hi, hs]
      rfl
    | retry | manual => rfl
  | recovered hi hs =>
    refine stepsTries_recovered hs rfl (hnone rfl rfl) (fun r => ?_)
    cases r with
    | recovery =>
      simp only [World.comesBack, hi, hs]
      rfl
    | retry | manual => rfl
  | claimed hi hx hs => exact stepsTries_claimed hs (fun r => by cases r <;> rfl)
  | register hi hx =>
    rename_i i x
    refine stepsTries_thread rfl ?_ (fun r => by cases r <;> rfl)
    refine @goesOn_busy w _ id i x { x with stage := .registered } hi rfl (fun ho => ?_) rfl
    rw [hx] at ho
    cases ho
  | timeout hi hx =>
    rename_i i x
    refine stepsTries_thread rfl ?_ (fun r => by cases r <;> rfl)
    exact @goesOn_busy w _ id i x x.timedOut hi rfl (fun ho => ho) rfl
  | leave hi hx => exact stepsTries_thread rfl (hnone rfl rfl) (fun r => by cases r <;> rfl)
  | act tickers hi ha => exact stepsTries_act tickers h hi ha
  | heartbeat uid taskId token =>
    exact stepsTries_next (show restsTasks (.heartbeatTask uid taskId token _ _) = true from rfl) rfl rfl
      (fun r => by cases r <;> rfl)
  -- `Cancel` ends a waiting task and counts nothing
  | cancelRow hk =>
    refine stepsTries_rest ?_ (goesOn_refl _) (fun r => by cases r <;> rfl)
    refine rests_updateWhere rfl ?_ ?_ id
    · intro _
      rfl
    · intro t
      exact ⟨rfl, rfl, fun hq => absurd (show TaskStatus.cancelled = .queued from hq) (by decide)⟩
  | cancelJob hk =>
    rename_i k taskId jobId now
    refine stepsTries_rest (rests_congr ?_ id) (goesOn_refl _) (fun r => by cases r <;> rfl)
    show (w.store.cancelTaskJob w.tenant jobId now).tasks = _
    rw [cancelTaskJob_tables]
  | cancelCall hk =>
    rename_i k taskId ctx
    refine stepsTries_thread rfl ?_ (fun r => by cases r <;> rfl)
    show GoesOn (w.tries id).runs fun i => ((w.workers i).interrupted ctx).try_ id
    rw [goesOn_interrupted]
    exact goesOn_refl _
  | manualRetry => exact stepsTries_manualRetry
  | createPlan | updatePlan | pausePlan | createBatch =>
    exact stepsTries_next rfl rfl rfl (fun r => by cases r <;> rfl)
  | enqueueJob hk hc =>
    obtain ⟨i, x, -, -, -, -, hjob⟩ := createJob_ok hc
    refine stepsTries_rest ?_ (goesOn_refl _) (fun r => by cases r <;> rfl)
    exact rests_apply (show (Op.createBackupJob _).apply w.store = .ok _ from hjob) rfl id
  | added hk hs =>
    exact stepsTries_added hs (h.pending _ _ hk) rfl rfl (fun r => by cases r <;> rfl)
  | undoJob => exact stepsTries_rest (rests_next w.store rfl id) (goesOn_refl _) (fun r => by cases r <;> rfl)
  | skipTask hs =>
    obtain ⟨taskId, -, hadd⟩ := recordSkipped_ok hs
    exact stepsTries_added hadd rfl rfl rfl (fun r => by cases r <;> rfl)
  | library => exact stepsTries_rest (rests_congr rfl id) (goesOn_refl _) (fun r => by cases r <;> rfl)

end

/-! ## Every run -/

/-- A process that has just started on an empty database has tried nothing. -/
theorem kept_fresh {w : World} (h : w.Fresh) (id : String) :
    Prepared w ∧ ∃ spent, (w.tries id).Kept (fun _ => 0) spent := by
  obtain ⟨lease, rfl⟩ := h
  refine ⟨⟨fun k task hk => (nomatch hk), fun i x hi => (nomatch hi)⟩, [], rfl, List.nodup_nil, ?_, ?_, ?_, ?_,
    ?_⟩
  · intro _
    exact ⟨rfl, fun _ => rfl⟩
  · intro t ht
    cases ht
  · intro t ht n hn
    cases hn
  · intro i r hr
    cases hr
  · intro i j r r' hr
    cases hr

/-- After a run its tries and the returns counted on the way belong together. -/
theorem kept_of_run {w w' : World} {as : List Action} (h : w.Fresh)
    (hrun : runActions World.step w as = some w') (id : String) :
    ∃ spent, (w'.tries id).Kept (fun r => counted World.step (World.comesBack id r) w as) spent := by
  have hkept := runActions_counted (p := World.comesBack id)
    (I := fun w count => Prepared w ∧ ∃ spent, (w.tries id).Kept count spent) ?_ as (kept_fresh h id) hrun
  · obtain ⟨-, spent, hspent⟩ := hkept
    have hzero : (fun r => 0 + counted World.step (World.comesBack id r) w as) =
        fun r => counted World.step (World.comesBack id r) w as := by
      funext r
      exact Nat.zero_add _
    rw [hzero] at hspent
    exact ⟨spent, hspent⟩
  · intro w a w' count hI hs
    obtain ⟨hprepared, spent, hspent⟩ := hI
    obtain ⟨k, hstep, hevent⟩ := stepsTries hprepared (World.step_sound hs) id
    have hcount : (fun r => count r + if World.comesBack id r w a then 1 else 0) = Tries.tallied count k := by
      funext r
      rw [hevent r]
      unfold Tries.tallied
      by_cases hk : k = some r <;> simp [hk]
    rw [hcount]
    exact ⟨hprepared.step (World.step_sound hs), hspent.step hstep⟩

/-! ## The delay -/

theorem schedulePlan_retry {cron : Plans.Cron} {plan plan' : BackupPlan} {now : Time}
    (h : Plans.schedulePlan cron plan now = .ok plan') : plan'.retry = plan.retry := by
  unfold Plans.schedulePlan at h
  split at h
  · cases h
    rfl
  · split at h
    · cases h
    · split at h
      · cases h
      · cases h
        rfl

/-- The retry policy of an accepted plan, with the default in place of no backoff. -/
theorem retry_of_normalize {lower : String → String} {cron : Plans.Cron} {input : Plans.PlanInput} {now : Time}
    {plan : BackupPlan} (h : Plans.normalize lower cron input now = .ok plan) :
    0 ≤ plan.retry.maxRetries ∧ plan.retry.maxRetries ≤ 8 ∧ 0 < plan.retry.backoffSeconds ∧
      plan.retry.backoffSeconds ≤ 24 * 60 * 60 := by
  unfold Plans.normalize at h
  simp only at h
  split at h
  · cases h
  · split at h
    · cases h
    · split at h
      · cases h
      · cases ht : Plans.normalizeTargets lower input.targets with
        | error e => rw [ht] at h; cases h
        | ok targets =>
          rw [ht] at h
          simp only at h
          split at h
          · cases h
          · split at h
            · cases h
            · split at h
              · cases h
              · split at h
                · cases h
                · next hvalid =>
                  split at h
                  · cases h
                  · rw [schedulePlan_retry h]
                    have hpositive : (Plans.filledPlan input targets).retry.backoffSeconds ≠ 0 := by
                      show (if _ then 60 else input.retry.backoffSeconds) ≠ 0
                      split
                      · decide
                      · next hne => exact hne
                    simp only [Plans.validRetry, Bool.not_eq_true', Bool.not_eq_false, Bool.and_eq_true,
                      decide_eq_true_eq] at hvalid
                    obtain ⟨⟨⟨h1, h2⟩, h3⟩, h4⟩ := hvalid
                    exact ⟨h1, h2, by omega, h4⟩

theorem retryDelay_eq {x : Execution} (h : 0 < x.task.retryBackoffSeconds) :
    x.retryDelay = x.task.retryBackoffSeconds * second * 2 ^ min (x.task.attemptCount - 1) 6 := by
  unfold Execution.retryDelay
  simp only
  rw [if_neg (by omega)]

/-- Doubling at most six times leaves the longest backoff far below 2⁶³ nanoseconds. -/
theorem delay_bounds {base : Int} (hpos : 0 < base) (hle : base ≤ 24 * 60 * 60) (n : Nat) :
    0 < base * second * 2 ^ min n 6 ∧ base * second * 2 ^ min n 6 < 2 ^ 63 := by
  have hbase : 0 < base * second := Int.mul_pos hpos (by decide)
  have htop : base * second ≤ 24 * 60 * 60 * second := Int.mul_le_mul_of_nonneg_right hle (by decide)
  have hpow : (1 : Int) ≤ 2 ^ min n 6 := one_le_pow₀ (by decide)
  have hsix : (2 : Int) ^ min n 6 ≤ 2 ^ 6 := pow_le_pow_right₀ (by decide) (Nat.min_le_right n 6)
  refine ⟨Int.mul_pos hbase (by omega), ?_⟩
  calc base * second * 2 ^ min n 6 ≤ 24 * 60 * 60 * second * 2 ^ 6 :=
        Int.mul_le_mul htop hsix (by omega) (by decide)
    _ < 2 ^ 63 := by decide

theorem delay_mono {base : Int} (hpos : 0 < base) {n m : Nat} (h : n ≤ m) :
    base * second * 2 ^ min n 6 ≤ base * second * 2 ^ min m 6 := by
  apply Int.mul_le_mul_of_nonneg_left
  · exact pow_le_pow_right₀ (by decide) (min_le_min_right 6 h)
  · exact Int.le_of_lt (Int.mul_pos hpos (by decide))

/-! ## Automatic retries are bounded -/

/-- In every run `RetryTask` returns a task at most as often as its limit allows, and its
attempts are one, the limit, its manual retries and its recoveries at most; and the delay
of an accepted policy is positive, fits 64 bits at every step of its computation and grows
with the attempt. -/
theorem automatic_retries_bounded :
    (∀ (w w' : World) (as : List Action), w.Fresh → runActions World.step w as = some w' →
      ∀ t ∈ w'.store.tasks,
        (counted World.step (World.comesBack t.id .retry) w as : Int) ≤ max 0 t.maxRetries ∧
        (t.attemptCount : Int) ≤ 1 + max 0 t.maxRetries +
          counted World.step (World.comesBack t.id .manual) w as +
          counted World.step (World.comesBack t.id .recovery) w as) ∧
    (∀ (lower : String → String) (cron : Plans.Cron) (input : Plans.PlanInput) (now : Time) (plan : BackupPlan),
      Plans.normalize lower cron input now = .ok plan → 0 ≤ plan.retry.maxRetries ∧
        ∀ x : Execution, x.task.retryBackoffSeconds = plan.retry.backoffSeconds → 1 ≤ x.task.attemptCount →
          x.retryDelay = plan.retry.backoffSeconds * second * 2 ^ min (x.task.attemptCount - 1) 6 ∧
          0 < x.retryDelay ∧ plan.retry.backoffSeconds * second < 2 ^ 63 ∧ x.retryDelay < 2 ^ 63 ∧
          ∀ y : Execution, y.task.retryBackoffSeconds = plan.retry.backoffSeconds →
            x.task.attemptCount ≤ y.task.attemptCount → x.retryDelay ≤ y.retryDelay) := by
  refine ⟨?_, ?_⟩
  · intro w w' as hfresh hrun t ht
    obtain ⟨spent, hkept⟩ := kept_of_run hfresh hrun t.id
    have hrow : (w'.tries t.id).row = some (rowLot t) := lot_of_mem ht
    have hretries := hkept.retries hrow
    have hattempts := hkept.attempts (rowLot t) hrow
    change _ ≤ max 0 t.maxRetries at hretries
    change t.attemptCount + _ ≤ _ at hattempts
    refine ⟨hretries, ?_⟩
    omega
  · intro lower cron input now plan hplan
    obtain ⟨hretries, -, hpos, hle⟩ := retry_of_normalize hplan
    refine ⟨hretries, fun x hx hattempt => ?_⟩
    have hdelay : ∀ y : Execution, y.task.retryBackoffSeconds = plan.retry.backoffSeconds →
        y.retryDelay = plan.retry.backoffSeconds * second * 2 ^ min (y.task.attemptCount - 1) 6 := by
      intro y hy
      rw [← hy]
      exact retryDelay_eq (hy ▸ hpos)
    obtain ⟨hpositive, hfits⟩ := delay_bounds hpos hle (x.task.attemptCount - 1)
    rw [hdelay x hx]
    refine ⟨rfl, hpositive, ?_, hfits, fun y hy hmore => ?_⟩
    · have hfirst := (delay_bounds hpos hle 0).2
      simpa using hfirst
    · rw [hdelay y hy]
      exact delay_mono hpos (Nat.sub_le_sub_right hmore 1)

/-- The first attempt fails and the task is returned to the queue. -/
def retriedOnce : List Action :=
  enqueuing ++ claiming 0 "1" 0 ++ starting 0 0 ++
    [.execute 0 (.abort (.backup "CONTROL_DATABASE_WRITE_FAILED" (.plain "disk full"))), .execute 0 (.failJob 0),
      .execute 0 (.settle 0), .execute 0 .close]

/-- A call with a task of a minute's backoff. -/
def attemptOf (n : Nat) : Execution where
  uid := "tenant-a"
  token := "lease-1"
  task := { taskA with attemptCount := n }
  ctx := 0
  done := none
  stage := .entered

theorem automatic_retries_bounded_once :
    (∃ t ∈ (final World.step opened retriedOnce).store.tasks, t.maxRetries = 1 ∧
      counted World.step (World.comesBack t.id .retry) opened retriedOnce = 1 ∧
      (t.attemptCount : Int) ≤ 1 + max 0 t.maxRetries +
        counted World.step (World.comesBack t.id .manual) opened retriedOnce +
        counted World.step (World.comesBack t.id .recovery) opened retriedOnce) ∧
    0 < (attemptOf 1).retryDelay ∧ (attemptOf 1).retryDelay < 2 ^ 63 ∧
      (attemptOf 1).retryDelay ≤ (attemptOf 2).retryDelay := by
  refine ⟨?_, ?_⟩
  · have hsome : (runActions World.step opened retriedOnce).isSome = true := by decide +kernel
    obtain ⟨w, hw⟩ := Option.isSome_iff_exists.mp hsome
    have hfinal : final World.step opened retriedOnce = w := by
      unfold final
      rw [hw]
      rfl
    obtain ⟨t, ht, hmax, hone⟩ : ∃ t ∈ (final World.step opened retriedOnce).store.tasks, t.maxRetries = 1 ∧
        counted World.step (World.comesBack t.id .retry) opened retriedOnce = 1 := by decide +kernel
    exact ⟨t, ht, hmax, hone, (automatic_retries_bounded.1 opened w retriedOnce ⟨_, rfl⟩ hw t
      (hfinal ▸ ht)).2⟩
  · have hsaved : (Plans.normalize id Plans.clockCron (Plans.planOf "HOURLY" "") 0).map (·.retry.backoffSeconds) =
        .ok 60 := by decide +kernel
    cases hplan : Plans.normalize id Plans.clockCron (Plans.planOf "HOURLY" "") 0 with
    | error e =>
      rw [hplan] at hsaved
      cases hsaved
    | ok plan =>
      rw [hplan] at hsaved
      have hbackoff : plan.retry.backoffSeconds = 60 := Except.ok.inj hsaved
      obtain ⟨-, hpositive, -, hfits, hmono⟩ := (automatic_retries_bounded.2 id Plans.clockCron _ 0 plan hplan).2
        (attemptOf 1) hbackoff.symm (Nat.le_refl 1)
      exact ⟨hpositive, hfits, hmono (attemptOf 2) hbackoff.symm (by decide)⟩

end AppBackup.Queue
