import AppBackup.Lib.Calendar
import AppBackup.Persistence.Library
import Mathlib.Data.Finset.Card

/- Retention of a plan's snapshots (`snapshots/service.go`). `ApplyRetention` reads the
   active snapshots of the plan, newest first, marks the ids to keep in one pass, and
   deletes the others one by one. The pass keeps a snapshot for its place in the list,
   for being the first of its day, week or month while the policy has one left, or for
   being the first VERIFIED one; the list holds the snapshots of every target of the
   plan, and none of the rules looks at the target.

   What is proved:
     1. `pass_seen` -- the invariant of the pass: what it has seen of days, weeks and months;
     2. `keeps_iff` -- so an item is kept just if one of the rules says so;
     3. `deletes_iff` -- and is not deleted just if it is kept, or stands behind a deletion that
        fails;
     4. `retention_protects_iff` -- when each target keeps its newest VERIFIED snapshot. -/
namespace AppBackup.Snapshots
open Persistence Persistence.Store Table

/-! ## The pass -/

/-- `fmtKey`. -/
def fmtKey (year week : Int) : String := Calendar.verb 4 year ++ "-" ++ Calendar.verb 2 week

def dayKey (item : Snapshot) : String := Calendar.formatDay (unix item.capturedAt)

def weekKey (item : Snapshot) : String :=
  let week := Calendar.isoWeek (Calendar.dayNumber (unix item.capturedAt))
  fmtKey week.1 week.2

def monthKey (item : Snapshot) : String := Calendar.formatMonth (unix item.capturedAt)

/-- What the pass has seen. -/
structure Pass where
  keep : List String
  verified : String
  days : List String
  weeks : List String
  months : List String

/-- The key is new, and the policy has room for it. -/
def opens (limit : Int) (seen : List String) (key : String) : Bool :=
  !seen.contains key && decide ((seen.length : Int) < limit)

def see (limit : Int) (seen : List String) (key : String) : List String :=
  if opens limit seen key then key :: seen else seen

/-- The body of the loop over the items. -/
def Pass.item (policy : RetentionPolicy) (p : Pass) (index : Nat) (item : Snapshot) : Pass where
  keep :=
    if decide ((index : Int) < policy.keepLast) || opens policy.keepDaily p.days (dayKey item) ||
        opens policy.keepWeekly p.weeks (weekKey item) ||
        opens policy.keepMonthly p.months (monthKey item) then
      item.id :: p.keep
    else p.keep
  verified := if item.verificationStatus = .verified ∧ p.verified = "" then item.id else p.verified
  days := see policy.keepDaily p.days (dayKey item)
  weeks := see policy.keepWeekly p.weeks (weekKey item)
  months := see policy.keepMonthly p.months (monthKey item)

def pass (policy : RetentionPolicy) (items : List Snapshot) : Pass :=
  items.zipIdx.foldl (fun p item => p.item policy item.2 item.1) ⟨[], "", [], [], []⟩

/-- The item is in the keep set when the pass is over. -/
def keeps (policy : RetentionPolicy) (items : List Snapshot) (item : Snapshot) : Bool :=
  let p := pass policy items
  p.keep.contains item.id || (p.verified != "" && p.verified == item.id)

/-! ## Deletion -/

inductive LibraryError where
  | store (e : StoreError)
  | storage
  deriving DecidableEq

/-- `Delete`. Whether it goes through is for the file system to say (`moves`): a
`MoveToTrash` that fails and a `MarkSnapshotTrashed` that fails after it both leave the rows as
they are and end the loop below. `Service.applyRetention_loop` has the two calls as they run. -/
def delete (moves : String → Bool) (now : String → Time) (s : Store) (tenant id : String) :
    Except LibraryError Store :=
  match s.snapshot tenant id with
  | .error e => .error (.store e)
  | .ok snapshot =>
    if snapshot.retentionStatus = .trashed then .error (.store .notFound)
    else if moves id then
      match s.markSnapshotTrashed tenant id ("_trash/" ++ id) (now id) with
      | .error e => .error (.store e)
      | .ok s' => .ok s'
    else .error .storage

/-- The deletion loop: it stops at the first error, with what it has done. -/
def deleteAll (moves : String → Bool) (now : String → Time) (tenant : String) :
    Store → List Snapshot → Store × Option LibraryError
  | s, [] => (s, none)
  | s, item :: rest =>
    match delete moves now s tenant item.id with
    | .error e => (s, some e)
    | .ok s' => deleteAll moves now tenant s' rest

theorem deleteAll_stop {moves : String → Bool} {now : String → Time} {tenant : String} {s : Store}
    {item : Snapshot} {e : LibraryError} (h : delete moves now s tenant item.id = .error e) (rest : List Snapshot) :
    deleteAll moves now tenant s (item :: rest) = (s, some e) := by
  unfold deleteAll
  rw [h]

theorem deleteAll_next {moves : String → Bool} {now : String → Time} {tenant : String} {s s' : Store}
    {item : Snapshot} (h : delete moves now s tenant item.id = .ok s') (rest : List Snapshot) :
    deleteAll moves now tenant s (item :: rest) = deleteAll moves now tenant s' rest := by
  rw [deleteAll, h]

def applyRetention (moves : String → Bool) (now : String → Time) (s : Store) (tenant : String)
    (plan : BackupPlan) : Store × Option LibraryError :=
  let items := s.snapshotsForPlan tenant plan.id
  if items.any (·.verificationStatus == .failed) then (s, none)
  else deleteAll moves now tenant s (items.filter fun item => !keeps plan.retention items item)

/-! ## What the pass keeps -/

/-- What a list of seen keys says of the keys passed: while there is room, all of them. -/
structure Seen (limit : Int) (keys seen : List String) : Prop where
  sub : ∀ k ∈ seen, k ∈ keys
  nodup : seen.Nodup
  full : (seen.length : Int) < limit → ∀ k ∈ keys, k ∈ seen

theorem Seen.nil (limit : Int) : Seen limit [] [] :=
  ⟨fun _ hk => hk, List.nodup_nil, fun _ _ hk => hk⟩

/-- A key is opened when it is the first of its kind and fewer kinds than the limit came
before. -/
theorem Seen.opens_iff {limit : Int} {keys seen : List String} (h : Seen limit keys seen)
    (key : String) :
    opens limit seen key = true ↔ key ∉ keys ∧ (keys.toFinset.card : Int) < limit := by
  have hopens : opens limit seen key = true ↔ key ∉ seen ∧ (seen.length : Int) < limit := by
    simp [opens]
  have hle : seen.length ≤ keys.toFinset.card := by
    rw [← List.toFinset_card_of_nodup h.nodup]
    apply Finset.card_le_card
    intro k hk
    rw [List.mem_toFinset] at hk ⊢
    exact h.sub k hk
  rw [hopens]
  constructor
  · intro ⟨hnew, hroom⟩
    have hall := h.full hroom
    have hcard : keys.toFinset.card ≤ seen.length := by
      rw [← List.toFinset_card_of_nodup h.nodup]
      apply Finset.card_le_card
      intro k hk
      rw [List.mem_toFinset] at hk ⊢
      exact hall k hk
    exact ⟨fun hk => hnew (hall key hk), by omega⟩
  · intro ⟨hnew, hroom⟩
    exact ⟨fun hk => hnew (h.sub key hk), by omega⟩

theorem Seen.see {limit : Int} {keys seen : List String} (h : Seen limit keys seen) (key : String) :
    Seen limit (keys ++ [key]) (see limit seen key) := by
  have hopens : opens limit seen key = true ↔ key ∉ seen ∧ (seen.length : Int) < limit := by
    simp [opens]
  unfold Snapshots.see
  by_cases ho : opens limit seen key = true
  · rw [if_pos ho]
    obtain ⟨hnew, hroom⟩ := hopens.mp ho
    refine ⟨?_, List.nodup_cons.mpr ⟨hnew, h.nodup⟩, ?_⟩
    · intro k hk
      rcases List.mem_cons.mp hk with rfl | hk
      · simp
      · simp [h.sub k hk]
    · intro _ k hk
      rcases List.mem_append.mp hk with hk | hk
      · exact List.mem_cons_of_mem _ (h.full hroom k hk)
      · simp at hk
        simp [hk]
  · rw [if_neg ho]
    refine ⟨?_, h.nodup, ?_⟩
    · intro k hk
      simp [h.sub k hk]
    · intro hroom k hk
      rcases List.mem_append.mp hk with hk | hk
      · exact h.full hroom k hk
      · rw [List.mem_singleton.mp hk]
        by_contra hnew
        exact ho (hopens.mpr ⟨hnew, hroom⟩)

/-- The item is the newest of its day, week or month, and one that the policy still has
room for. -/
def Opens (limit : Int) (key : Snapshot → String) (newer : List Snapshot) (item : Snapshot) : Prop :=
  key item ∉ newer.map key ∧ (((newer.map key).toFinset.card : Nat) : Int) < limit

/-- The reasons to keep an item, given the items that are newer. -/
def Reserved (policy : RetentionPolicy) (newer : List Snapshot) (item : Snapshot) : Prop :=
  (newer.length : Int) < policy.keepLast ∨ Opens policy.keepDaily dayKey newer item ∨
    Opens policy.keepWeekly weekKey newer item ∨ Opens policy.keepMonthly monthKey newer item

/-- The first VERIFIED item. -/
def firstVerified (items : List Snapshot) : Option Snapshot :=
  items.find? fun item => item.verificationStatus == .verified && item.id != ""

/-- The item is kept by one of the rules. -/
def Kept (policy : RetentionPolicy) (items : List Snapshot) (item : Snapshot) : Prop :=
  (∃ i, items[i]? = some item ∧ Reserved policy (items.take i) item) ∨
    firstVerified items = some item

theorem pass_snoc (policy : RetentionPolicy) (items : List Snapshot) (item : Snapshot) :
    pass policy (items ++ [item]) = (pass policy items).item policy items.length item := by
  simp [pass, List.zipIdx_append]

theorem pass_seen (policy : RetentionPolicy) (items : List Snapshot) :
    Seen policy.keepDaily (items.map dayKey) (pass policy items).days ∧
      Seen policy.keepWeekly (items.map weekKey) (pass policy items).weeks ∧
      Seen policy.keepMonthly (items.map monthKey) (pass policy items).months := by
  induction items using List.reverseRecOn with
  | nil => exact ⟨Seen.nil _, Seen.nil _, Seen.nil _⟩
  | append_singleton items item ih =>
    obtain ⟨hd, hw, hm⟩ := ih
    rw [pass_snoc, List.map_append, List.map_append, List.map_append]
    exact ⟨hd.see _, hw.see _, hm.see _⟩

/-- The id of the item that comes after `items` is marked when the item is reserved. -/
theorem item_keep (policy : RetentionPolicy) (items : List Snapshot) (item : Snapshot) (id : String) :
    id ∈ ((pass policy items).item policy items.length item).keep ↔
      id ∈ (pass policy items).keep ∨ (item.id = id ∧ Reserved policy items item) := by
  obtain ⟨hd, hw, hm⟩ := pass_seen policy items
  have hreserved : (decide ((items.length : Int) < policy.keepLast) ||
      opens policy.keepDaily (pass policy items).days (dayKey item) ||
      opens policy.keepWeekly (pass policy items).weeks (weekKey item) ||
      opens policy.keepMonthly (pass policy items).months (monthKey item)) = true ↔
        Reserved policy items item := by
    rw [Bool.or_eq_true, Bool.or_eq_true, Bool.or_eq_true, hd.opens_iff, hw.opens_iff, hm.opens_iff,
      decide_eq_true_iff]
    unfold Reserved Opens
    rw [or_assoc, or_assoc]
  unfold Pass.item
  simp only
  by_cases hr : Reserved policy items item
  · rw [if_pos (hreserved.mpr hr), List.mem_cons, or_comm]
    constructor
    · intro h
      exact h.imp_right (fun he => ⟨he.symm, hr⟩)
    · intro h
      exact h.imp_right (fun he => he.1.symm)
  · rw [if_neg (fun h => hr (hreserved.mp h))]
    constructor
    · intro h
      exact .inl h
    · intro h
      exact h.resolve_right (fun he => hr he.2)

theorem mem_keep {policy : RetentionPolicy} {items : List Snapshot} {id : String} :
    id ∈ (pass policy items).keep ↔ ∃ i item, items[i]? = some item ∧ item.id = id ∧
      Reserved policy (items.take i) item := by
  induction items using List.reverseRecOn with
  | nil => simp [pass]
  | append_singleton items last ih =>
    rw [pass_snoc, item_keep, ih]
    constructor
    · intro h
      rcases h with ⟨i, item, hi, hid, hr⟩ | ⟨hid, hr⟩
      · have hlt : i < items.length := (List.getElem?_eq_some_iff.mp hi).1
        refine ⟨i, item, ?_, hid, ?_⟩
        · rw [List.getElem?_append_left hlt, hi]
        · rw [List.take_append_of_le_length (by omega)]
          exact hr
      · refine ⟨items.length, last, by simp, hid, ?_⟩
        rw [List.take_left]
        exact hr
    · intro ⟨i, item, hi, hid, hr⟩
      by_cases hlt : i < items.length
      · rw [List.getElem?_append_left hlt] at hi
        rw [List.take_append_of_le_length (by omega)] at hr
        exact .inl ⟨i, item, hi, hid, hr⟩
      · have hlen := (List.getElem?_eq_some_iff.mp hi).1
        rw [List.length_append, List.length_singleton] at hlen
        obtain rfl : i = items.length := by omega
        rw [List.take_left] at hr
        have hlast : last = item := by simpa using hi
        exact .inr ⟨hlast ▸ hid, hlast ▸ hr⟩

theorem pass_verified (policy : RetentionPolicy) (items : List Snapshot) :
    (pass policy items).verified = ((firstVerified items).map (·.id)).getD "" := by
  induction items using List.reverseRecOn with
  | nil => rfl
  | append_singleton items last ih =>
    rw [pass_snoc]
    unfold Pass.item firstVerified
    simp only [ih, List.find?_append]
    unfold firstVerified
    cases hf : items.find? (fun item => item.verificationStatus == .verified && item.id != "") with
    | some item =>
      have hne : item.id ≠ "" := by
        have h := List.find?_some hf
        simp only [Bool.and_eq_true, bne_iff_ne] at h
        exact h.2
      simp [hne]
    | none =>
      by_cases hv : last.verificationStatus = .verified
      · by_cases hid : last.id = ""
        · simp [hv, hid]
        · simp [hv, hid]
      · simp [hv]

/-- The keep set is that of the rules. -/
theorem keeps_iff {policy : RetentionPolicy} {items : List Snapshot} (hids : (items.map (·.id)).Nodup)
    {item : Snapshot} (hitem : item ∈ items) : keeps policy items item = true ↔ Kept policy items item := by
  have hsame : ∀ item' ∈ items, item'.id = item.id → item' = item := by
    intro item' hitem' hid
    exact eq_of_key hids hitem' hitem hid
  unfold keeps Kept
  simp only [Bool.or_eq_true, List.contains_iff_mem, mem_keep, Bool.and_eq_true, bne_iff_ne, ne_eq,
    beq_iff_eq, pass_verified]
  constructor
  · intro h
    rcases h with ⟨i, item', hi, hid, hr⟩ | ⟨hne, hid⟩
    · have he := hsame item' (List.mem_of_getElem? hi) hid
      rw [he] at hi hr
      exact .inl ⟨i, hi, hr⟩
    · cases hf : firstVerified items with
      | none =>
        rw [hf] at hne
        exact absurd rfl hne
      | some first =>
        rw [hf] at hid
        rw [hsame first (List.mem_of_find?_eq_some hf) hid]
        exact .inr rfl
  · intro h
    rcases h with ⟨i, hi, hr⟩ | hf
    · exact .inl ⟨i, item, hi, rfl, hr⟩
    · rw [hf]
      have h := List.find?_some hf
      simp only [Bool.and_eq_true, bne_iff_ne] at h
      exact .inr ⟨h.2, rfl⟩

/-! ## What the deletion leaves -/

/-- The snapshot is in the library. -/
def Active (s : Store) (id : String) : Prop :=
  ∃ r ∈ s.snapshots, r.id = id ∧ r.retentionStatus = .active

theorem delete_of_mem (moves : String → Bool) (now : String → Time) {s : Store} {r : SnapshotRow}
    (hr : r ∈ s.snapshots) (hact : r.retentionStatus = .active) :
    (moves r.id = false → delete moves now s r.tenantUid r.id = .error .storage) ∧
    (moves r.id = true → ∃ s', delete moves now s r.tenantUid r.id = .ok s' ∧
      s'.snapshots =
        updateWhere (fun r' => r'.id == r.id) (trashedRow ("_trash/" ++ r.id) (now r.id)) s.snapshots) := by
  have hscan : (scanSnapshot r).retentionStatus ≠ .trashed := by
    show r.retentionStatus ≠ .trashed
    rw [hact]
    decide
  obtain ⟨s', hs', hrows⟩ := markSnapshotTrashed_of_mem ("_trash/" ++ r.id) (now r.id) hr hact
  unfold delete
  rw [snapshot_of_mem hr]
  simp only [if_neg hscan, hs']
  constructor
  · intro hm
    simp [hm]
  · intro hm
    exact ⟨s', by simp [hm], hrows⟩

/-- The loop deletes its items up to the first whose directory does not move. -/
theorem deleteAll_active {moves : String → Bool} (now : String → Time) {tenant : String}
    {items : List Snapshot} {s : Store} (hids : (items.map (·.id)).Nodup)
    (hrows : ∀ item ∈ items, ∃ r ∈ s.snapshots, r.tenantUid = tenant ∧ r.id = item.id ∧
      r.retentionStatus = .active) (id : String) :
    Active (deleteAll moves now tenant s items).1 id ↔
      Active s id ∧ id ∉ (items.takeWhile fun item => moves item.id).map (·.id) := by
  induction items generalizing s with
  | nil => simp [deleteAll]
  | cons item rest ih =>
    obtain ⟨r, hr, hten, hid, hact⟩ := hrows item (List.mem_cons_self ..)
    obtain ⟨hstop, hgo⟩ := delete_of_mem moves now hr hact
    rw [hten, hid] at hstop hgo
    unfold deleteAll
    -- the first item is deleted and the loop goes on, or it stops here
    by_cases hm : moves item.id = true
    · obtain ⟨s', hs', hsn⟩ := hgo hm
      rw [List.map_cons, List.nodup_cons] at hids
      have hother : ∀ item' ∈ rest, ∃ r' ∈ s'.snapshots, r'.tenantUid = tenant ∧ r'.id = item'.id ∧
          r'.retentionStatus = .active := by
        intro item' hitem'
        obtain ⟨r', hr', hten', hid', hact'⟩ := hrows item' (List.mem_cons_of_mem _ hitem')
        refine ⟨r', ?_, hten', hid', hact'⟩
        rw [hsn]
        apply mem_updateWhere_miss hr'
        have hne : r'.id ≠ item.id := by
          intro he
          exact hids.1 (List.mem_map.mpr ⟨item', hitem', hid'.symm.trans he⟩)
        simpa using hne
      -- its row is the only one that changes
      have hleft : Active s' id ↔ Active s id ∧ id ≠ item.id := by
        constructor
        · intro ⟨r', hr', hid', hact'⟩
          rw [hsn] at hr'
          rcases mem_updateWhere_cases hr' with ⟨r₀, -, -, rfl⟩ | ⟨hr₀, hmiss⟩
          · cases hact'
          · refine ⟨⟨r', hr₀, hid', hact'⟩, ?_⟩
            rw [← hid']
            simpa using hmiss
        · intro ⟨⟨r', hr', hid', hact'⟩, hne⟩
          refine ⟨r', ?_, hid', hact'⟩
          rw [hsn]
          apply mem_updateWhere_miss hr'
          simpa [hid'] using hne
      have hwhile : (item :: rest).takeWhile (fun item => moves item.id) =
          item :: rest.takeWhile fun item => moves item.id := by
        simp [hm]
      rw [hs']
      simp only
      rw [ih hids.2 hother, hleft, hwhile, List.map_cons, List.mem_cons, not_or, and_assoc]
    · have hm' : moves item.id = false := by simpa using hm
      have hwhile : (item :: rest).takeWhile (fun item => moves item.id) = [] := by
        simp [hm']
      rw [hstop hm', hwhile]
      simp

theorem mem_takeWhile_filter {α : Type} {p q : α → Bool} {pre : List α} (post : List α) {v : α}
    (hv : v ∉ pre)
    (hp : p v = true) : v ∈ ((pre ++ v :: post).filter p).takeWhile q ↔
      ∀ u ∈ pre ++ [v], p u = true → q u = true := by
  induction pre with
  | nil =>
    rw [List.nil_append, List.filter_cons_of_pos hp]
    by_cases hq : q v = true
    · simp [hq]
    · rw [List.takeWhile_cons_of_neg hq]
      simp [hp, hq]
  | cons a pre ih =>
    rw [List.mem_cons, not_or] at hv
    have ih := ih hv.2
    rw [List.cons_append]
    by_cases hpa : p a = true
    · rw [List.filter_cons_of_pos hpa]
      by_cases hqa : q a = true
      · rw [List.takeWhile_cons_of_pos hqa, List.mem_cons, ih]
        simp [hv.1, hqa]
      · rw [List.takeWhile_cons_of_neg hqa]
        simp [hpa, hqa]
    · rw [List.filter_cons_of_neg hpa, ih]
      simp [hpa]

/-! ## Every target keeps its last good snapshot, or not -/

/-- The newest VERIFIED item of a target. -/
def newestVerified (items : List Snapshot) (deployId : String) : Option Snapshot :=
  items.find? fun item => item.deployId == deployId && item.verificationStatus == .verified

/-- The loop stops before the item: its directory, or that of a newer item to delete,
does not move. -/
def Spared (policy : RetentionPolicy) (moves : String → Bool) (items : List Snapshot)
    (item : Snapshot) : Prop :=
  ∃ newer older, items = newer ++ item :: older ∧
    ∃ u ∈ newer ++ [item], ¬Kept policy items u ∧ moves u.id = false

theorem deletes_iff {policy : RetentionPolicy} {moves : String → Bool} {items : List Snapshot}
    (hids : (items.map (·.id)).Nodup) {item : Snapshot} (hitem : item ∈ items) :
    item.id ∉ ((items.filter fun item => !keeps policy items item).takeWhile
        fun item => moves item.id).map (·.id) ↔
      Kept policy items item ∨ Spared policy moves items item := by
  have hsame : item.id ∈ ((items.filter fun item => !keeps policy items item).takeWhile
      fun item => moves item.id).map (·.id) ↔
      item ∈ (items.filter fun item => !keeps policy items item).takeWhile fun item => moves item.id := by
    constructor
    · intro h
      obtain ⟨item', hitem', hid⟩ := List.mem_map.mp h
      have hmem := List.mem_of_mem_filter (List.takeWhile_sublist _ |>.subset hitem')
      rwa [eq_of_key hids hmem hitem hid] at hitem'
    · intro h
      exact List.mem_map_of_mem h
  -- the item is deleted just if every unkept one up to it is
  obtain ⟨newer, older, hsplit⟩ := List.append_of_mem hitem
  have hfresh : item ∉ newer := by
    intro hmem
    have hnd : items.Nodup := hids.of_map
    rw [hsplit] at hnd
    exact (List.nodup_append.mp hnd).2.2 item hmem item (List.mem_cons_self ..) rfl
  have hdrop : ∀ u ∈ newer ++ [item], (!keeps policy items u) = true ↔ ¬Kept policy items u := by
    intro u hu
    have humem : u ∈ items := by
      rw [hsplit]
      rcases List.mem_append.mp hu with h | h
      · exact List.mem_append_left _ h
      · rw [List.mem_singleton.mp h]
        simp
    rw [Bool.not_eq_true', ← Bool.not_eq_true, keeps_iff hids humem]
  rw [hsame]
  by_cases hk : Kept policy items item
  · refine iff_of_true ?_ (.inl hk)
    intro h
    have hmem := List.takeWhile_sublist _ |>.subset h
    exact (hdrop item (by simp)).mp (List.mem_filter.mp hmem).2 hk
  · have hp := (hdrop item (by simp)).mpr hk
    have hmem : item ∈ (items.filter fun item => !keeps policy items item).takeWhile
        (fun item => moves item.id) ↔
        ∀ u ∈ newer ++ [item], (!keeps policy items u) = true → moves u.id = true := by
      have h := mem_takeWhile_filter (p := fun item => !keeps policy items item)
        (q := fun item => moves item.id) older hfresh hp
      rwa [← hsplit] at h
    rw [hmem, or_iff_right hk]
    constructor
    · intro h
      have hex : ∃ u ∈ newer ++ [item], (!keeps policy items u) = true ∧ moves u.id = false := by
        by_contra hno
        apply h
        intro u hu hd
        by_contra hm
        exact hno ⟨u, hu, hd, by simpa using hm⟩
      obtain ⟨u, hu, hd, hm⟩ := hex
      exact ⟨newer, older, hsplit, u, hu, (hdrop u hu).mp hd, hm⟩
    · intro ⟨newer', older', hsplit', u, hu, hd, hm⟩ hall
      have hnd : (newer ++ item :: older).Nodup := by
        rw [← hsplit]
        exact hids.of_map
      have hold : item ∉ older := (List.nodup_cons.mp (List.nodup_append.mp hnd).2.1).1
      -- the item comes once, so there is one way to split the list at it
      obtain ⟨rfl, -, -⟩ :=
        (List.append_cons_inj_of_notMem hfresh hold).mp (hsplit.symm.trans hsplit')
      rw [hall u hu ((hdrop u hu).mpr hd)] at hm
      cases hm

/-- Every target that had a VERIFIED snapshot still has its newest one, exactly when the
policy is not applied because a snapshot FAILED its verification, or each of these is kept
by a rule or spared by an earlier error. -/
theorem retention_protects_iff (moves : String → Bool) (now : String → Time) (s : Store)
    (tenant : String) (plan : BackupPlan) :
    (∀ deployId item, newestVerified (s.snapshotsForPlan tenant plan.id) deployId = some item →
      Active (applyRetention moves now s tenant plan).1 item.id) ↔
    ((∃ item ∈ s.snapshotsForPlan tenant plan.id, item.verificationStatus = .failed) ∨
      ∀ deployId item, newestVerified (s.snapshotsForPlan tenant plan.id) deployId = some item →
        Kept plan.retention (s.snapshotsForPlan tenant plan.id) item ∨
          Spared plan.retention moves (s.snapshotsForPlan tenant plan.id) item) := by
  have hids := snapshotsForPlan_nodup s tenant plan.id
  have hrows : ∀ item ∈ s.snapshotsForPlan tenant plan.id, ∃ r ∈ s.snapshots, r.tenantUid = tenant ∧
      r.id = item.id ∧ r.retentionStatus = .active := by
    intro item hitem
    obtain ⟨r, hr, hten, -, hact, rfl⟩ := mem_snapshotsForPlan.mp hitem
    exact ⟨r, hr, hten, rfl, hact⟩
  have hactive : ∀ item ∈ s.snapshotsForPlan tenant plan.id, Active s item.id := by
    intro item hitem
    obtain ⟨r, hr, -, hid, hact⟩ := hrows item hitem
    exact ⟨r, hr, hid, hact⟩
  unfold applyRetention
  simp only
  generalize s.snapshotsForPlan tenant plan.id = items at hids hrows hactive ⊢
  by_cases hf : ∃ item ∈ items, item.verificationStatus = .failed
  · have hany : items.any (·.verificationStatus == .failed) = true := by
      obtain ⟨item, hitem, hst⟩ := hf
      exact List.any_eq_true.mpr ⟨item, hitem, by simp [hst]⟩
    rw [if_pos hany]
    refine iff_of_true ?_ (.inl hf)
    intro deployId item hnew
    exact hactive item (List.mem_of_find?_eq_some hnew)
  · have hany : ¬items.any (·.verificationStatus == .failed) = true := by
      intro h
      obtain ⟨item, hitem, hst⟩ := List.any_eq_true.mp h
      exact hf ⟨item, hitem, by simpa using hst⟩
    rw [if_neg hany, or_iff_right hf]
    have hitems : ∀ item ∈ items, Active (deleteAll moves now tenant s
        (items.filter fun item => !keeps plan.retention items item)).1 item.id ↔
          Kept plan.retention items item ∨ Spared plan.retention moves items item := by
      intro item hitem
      rw [deleteAll_active now (hids.sublist (List.filter_sublist.map _)), deletes_iff hids hitem,
        and_iff_right (hactive item hitem)]
      intro item' hitem'
      exact hrows item' (List.mem_of_mem_filter hitem')
    constructor
    · intro h deployId item hnew
      exact (hitems item (List.mem_of_find?_eq_some hnew)).mp (h deployId item hnew)
    · intro h deployId item hnew
      exact (hitems item (List.mem_of_find?_eq_some hnew)).mpr (h deployId item hnew)

/-- One snapshot of each of two targets, under one plan. -/
def twoTargets : Store :=
  let job (id deployId : String) : JobRow := {
    id := id, tenantUid := "tenant-a", oidcSubject := "subject-a", userRole := .normal
    appId := "cloud.demo", applicationName := "Demo", applicationVersion := "", deployId := deployId
    multiInstance := true, sharedRiskAccepted := false, status := .succeeded, errorCode := ""
    snapshotId := "snapshot-" ++ id, createdAt := 0, startedAt := some 0, finishedAt := some 0
    planId := "plan-a", batchId := "batch-a", taskId := "task-" ++ id, triggerType := "scheduled"
    scheduledAt := some 0, scope := .full }
  let row (id deployId : String) (capturedAt : Int) : SnapshotRow := {
    id := "snapshot-" ++ id, tenantUid := "tenant-a", jobId := id, appId := "cloud.demo"
    applicationName := "Demo", applicationVersion := "", deployId := deployId, multiInstance := true
    sharedInstanceWarning := false, status := .completed, storagePath := deployId ++ "/" ++ id
    archiveName := "snapshot.zip", archiveSize := 1, archiveSha256 := "sha", originalBytes := 1
    fileCount := 1, directoryCount := 0, sqliteCount := 0, skippedCount := 0, warningCount := 0
    capturedAt := capturedAt, finishedAt := capturedAt, verificationStatus := .verified
    verifiedAt := some capturedAt, planId := "plan-a", batchId := "batch-a", taskId := "task-" ++ id
    triggerType := "scheduled", retentionStatus := .active, trashedAt := none, scope := .full }
  { Store.empty with
    jobs := [job "a" "deploy-a", job "b" "deploy-b"]
    snapshots := [row "a" "deploy-a" 60, row "b" "deploy-b" 0]
    jobs_pk := by decide
    jobs_active := by decide
    snapshots_pk := by decide
    snapshots_job_unique := by decide
    snapshots_job := by decide }

/-- A plan that keeps the last snapshot. -/
def keepLastPlan : BackupPlan where
  id := "plan-a"
  tenantUid := "tenant-a"
  name := "Nightly"
  targetKind := "EXPLICIT"
  targets := [⟨"deploy-a", false, .full⟩, ⟨"deploy-b", false, .full⟩]
  sharedRiskAccepted := false
  scheduleType := "DAILY"
  executionTime := "02:00"
  cronExpression := "0 2 * * *"
  timezone := "UTC"
  enabled := true
  catchUp := true
  maxCatchUpSeconds := 3600
  retry := ⟨1, 60⟩
  retention := ⟨1, 0, 0, 0, 24⟩
  createdBySubject := "subject-a"
  createdAt := 0
  updatedAt := 0
  lastScheduledAt := none
  nextRunAt := none
  pauseReason := none

/-- The second target loses the only snapshot it has. -/
theorem retention_strips_target :
    ¬∀ (moves : String → Bool) (now : String → Time) (s : Store) (tenant : String)
      (plan : BackupPlan) (deployId : String) (item : Snapshot),
      newestVerified (s.snapshotsForPlan tenant plan.id) deployId = some item →
        Active (applyRetention moves now s tenant plan).1 item.id := by
  intro hall
  obtain ⟨r, hr, hid, hact⟩ := hall (fun _ => true) (fun _ => 0) twoTargets "tenant-a" keepLastPlan
    "deploy-b" _ rfl
  have hgone : ∀ r ∈ (applyRetention (fun _ => true) (fun _ => 0) twoTargets "tenant-a"
      keepLastPlan).1.snapshots, r.id = "snapshot-b" → r.retentionStatus = .trashed := by decide
  rw [hgone r hr hid] at hact
  cases hact

end AppBackup.Snapshots
