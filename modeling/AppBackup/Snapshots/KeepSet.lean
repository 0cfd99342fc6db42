import Mathlib.Data.List.TakeWhile
import Mathlib.Data.String.Basic
import AppBackup.Lib.Newest
import AppBackup.Persistence.Ops
import AppBackup.Snapshots.Retention

/- What retention keeps, as a set. A snapshot is newer than another by the time it was
   captured at, then by its id; its day, its week and its month are numbers that grow with
   that time. The pass over the list, which counts keys, keeps exactly the snapshots that
   the set says survive, so that keeping is monotone in the policy, and a second pass finds
   nothing to remove.

   What is proved:
     1. `dayKey_iff`, `weekKey_iff`, `monthKey_iff` -- the keys tell days, weeks and months
        apart, and `dayOf_mono` and its like say that these grow with the time;
     2. `kept_iff` -- the pass keeps an item of the list just if the set says so;
     3. `Survives.mono`, `Survives.sublist` -- hence more is kept by a larger policy, and all
        of what is left is kept again;
     4. `retention_keep_set` -- the same of the rows, after the deletions. -/
namespace AppBackup.Snapshots
open Persistence Persistence.Store Table Newest

/-! ## The set -/

/-- Newer by captured time, then by id. -/
def Newer (a b : Snapshot) : Prop := b.capturedAt < a.capturedAt ∨ (b.capturedAt = a.capturedAt ∧ b.id < a.id)

instance : DecidableRel Newer := fun _ _ => inferInstanceAs (Decidable (_ ∨ _ ∧ _))

/-- The UTC day a snapshot was captured on. -/
def dayOf (item : Snapshot) : Int := Calendar.dayNumber (unix item.capturedAt)

/-- The week, from Monday to Sunday. -/
def weekOf (item : Snapshot) : Int := Calendar.weekIndex (dayOf item)

/-- The month of that day. -/
def monthOf (item : Snapshot) : Int := Calendar.monthIndex (dayOf item)

/-- The snapshot is among the last, or the newest of one of the most recent days, weeks or
months that have snapshots, or the newest VERIFIED one. -/
def Survives (policy : RetentionPolicy) (items : List Snapshot) (item : Snapshot) : Prop :=
  Latest Newer policy.keepLast items item ∨ NewestOf Newer dayOf policy.keepDaily items item ∨
    NewestOf Newer weekOf policy.keepWeekly items item ∨ NewestOf Newer monthOf policy.keepMonthly items item ∨
    NewestWith Newer (fun other => other.verificationStatus = .verified) items item

/-- At least as large in every component. -/
structure PolicyLe (policy policy' : RetentionPolicy) : Prop where
  last : policy.keepLast ≤ policy'.keepLast
  daily : policy.keepDaily ≤ policy'.keepDaily
  weekly : policy.keepWeekly ≤ policy'.keepWeekly
  monthly : policy.keepMonthly ≤ policy'.keepMonthly

theorem Survives.mono {policy policy' : RetentionPolicy} {items : List Snapshot} {item : Snapshot}
    (h : Survives policy items item) (hle : PolicyLe policy policy') : Survives policy' items item := by
  obtain h | h | h | h | h := h
  · exact .inl (h.mono hle.last)
  · exact .inr (.inl (h.mono hle.daily))
  · exact .inr (.inr (.inl (h.mono hle.weekly)))
  · exact .inr (.inr (.inr (.inl (h.mono hle.monthly))))
  · exact .inr (.inr (.inr (.inr h)))

theorem Survives.sublist {policy : RetentionPolicy} {items items' : List Snapshot} {item : Snapshot}
    (h : Survives policy items item) (hs : items'.Sublist items) : Survives policy items' item := by
  obtain h | h | h | h | h := h
  · exact .inl (h.sublist hs)
  · exact .inr (.inl (h.sublist hs))
  · exact .inr (.inr (.inl (h.sublist hs)))
  · exact .inr (.inr (.inr (.inl (h.sublist hs))))
  · exact .inr (.inr (.inr (.inr (h.sublist hs))))

/-! ## The keys and their numbers -/

theorem dayKey_iff (a b : Snapshot) : dayKey a = dayKey b ↔ dayOf a = dayOf b := Calendar.formatDay_iff

theorem monthKey_iff (a b : Snapshot) : monthKey a = monthKey b ↔ monthOf a = monthOf b := Calendar.formatMonth_iff

theorem fmtKey_inj {year year' week week' : Int} (h : fmtKey year week = fmtKey year' week') :
    year = year' ∧ week = week' := by
  have hlist := congrArg String.toList h
  unfold fmtKey at hlist
  simp only [String.toList_append, List.append_assoc] at hlist
  obtain ⟨hyear, hrest⟩ := Calendar.pad_split hlist
  exact ⟨hyear, Calendar.pad_inj (String.toList_injective hrest)⟩

theorem weekKey_iff (a b : Snapshot) : weekKey a = weekKey b ↔ weekOf a = weekOf b := by
  have hiso : weekOf a = weekOf b ↔ Calendar.isoWeek (dayOf a) = Calendar.isoWeek (dayOf b) :=
    Calendar.isoWeek_iff.symm
  rw [hiso]
  refine ⟨fun h => ?_, fun h => ?_⟩
  · obtain ⟨hyear, hweek⟩ := fmtKey_inj h
    exact Prod.ext hyear hweek
  · show fmtKey (Calendar.isoWeek (dayOf a)).1 (Calendar.isoWeek (dayOf a)).2 = _
    rw [h]
    rfl

theorem newer_asymm (a b : Snapshot) (h : Newer a b) : ¬Newer b a := by
  intro h'
  obtain h | ⟨he, hid⟩ := h
  · obtain h' | ⟨he', -⟩ := h'
    · exact absurd h' (Int.not_lt.mpr (Int.le_of_lt h))
    · exact absurd he' (Int.ne_of_gt h)
  · obtain h' | ⟨-, hid'⟩ := h'
    · exact absurd he (Int.ne_of_gt h')
    · exact lt_asymm hid hid'

theorem capturedAt_le_of_newer {a b : Snapshot} (h : Newer a b) : b.capturedAt ≤ a.capturedAt := by
  obtain h | ⟨he, -⟩ := h
  · exact Int.le_of_lt h
  · exact Int.le_of_eq he

theorem dayOf_mono (a b : Snapshot) (h : Newer a b) : dayOf b ≤ dayOf a := by
  have hle := capturedAt_le_of_newer h
  have hsec : unix b.capturedAt ≤ unix a.capturedAt := Int.ediv_le_ediv (by decide) hle
  exact Int.ediv_le_ediv (by decide) hsec

theorem weekOf_mono (a b : Snapshot) (h : Newer a b) : weekOf b ≤ weekOf a := by
  have hle := dayOf_mono a b h
  unfold weekOf Calendar.weekIndex
  omega

theorem monthOf_mono (a b : Snapshot) (h : Newer a b) : monthOf b ≤ monthOf a :=
  Calendar.monthIndex_mono (dayOf_mono a b h)

/-! ## The pass keeps the set -/

theorem capturedFirst_iff {r r' : SnapshotRow} : capturedFirst r r' = true ↔
    r'.capturedAt < r.capturedAt ∨ (r.capturedAt = r'.capturedAt ∧ r'.id ≤ r.id) := by
  simp [capturedFirst]

theorem snapshotsForPlan_newest (s : Store) (tenant planId : String) :
    (s.snapshotsForPlan tenant planId).Pairwise Newer := by
  have htotal : Std.Total fun r r' : SnapshotRow => capturedFirst r r' = true := by
    refine ⟨fun r r' => ?_⟩
    rw [capturedFirst_iff, capturedFirst_iff]
    obtain h | h | h := Int.lt_trichotomy r.capturedAt r'.capturedAt
    · exact .inr (.inl h)
    · exact (le_total r'.id r.id).imp (fun hid => .inr ⟨h, hid⟩) (fun hid => .inr ⟨h.symm, hid⟩)
    · exact .inl (.inl h)
  have htrans : IsTrans SnapshotRow fun r r' => capturedFirst r r' = true := by
    refine ⟨fun r₁ r₂ r₃ h h' => ?_⟩
    rw [capturedFirst_iff] at h h' ⊢
    obtain h | ⟨he, hid⟩ := h
    · obtain h' | ⟨he', -⟩ := h'
      · exact .inl (Int.lt_trans h' h)
      · exact .inl (he' ▸ h)
    · obtain h' | ⟨he', hid'⟩ := h'
      · exact .inl (he ▸ h')
      · exact .inr ⟨he.trans he', le_trans hid' hid⟩
  have hids := snapshotsForPlan_nodup s tenant planId
  unfold snapshotsForPlan at hids ⊢
  rw [List.map_map] at hids
  rw [List.pairwise_map]
  have hdistinct := List.pairwise_map.mp hids
  refine (hdistinct.and (List.pairwise_insertionSort (fun r r' => capturedFirst r r' = true)
    (s.snapshots.filter (activeOfPlan tenant planId)))).imp ?_
  intro r r' ⟨hne, hfirst⟩
  obtain hlt | ⟨he, hle⟩ := capturedFirst_iff.mp hfirst
  · exact .inl (Int.mul_lt_mul_of_pos_right hlt (by decide))
  · exact .inr ⟨congrArg ofUnix he.symm, lt_of_le_of_ne hle (Ne.symm hne)⟩

theorem kept_iff {policy : RetentionPolicy} {items : List Snapshot} (hsorted : items.Pairwise Newer)
    (hnamed : ∀ item ∈ items, item.id ≠ "") {item : Snapshot} (hitem : item ∈ items) :
    Kept policy items item ↔ Survives policy items item := by
  have hreserved : ∀ i, items[i]? = some item → (Reserved policy (items.take i) item ↔
      Latest Newer policy.keepLast items item ∨ NewestOf Newer dayOf policy.keepDaily items item ∨
        NewestOf Newer weekOf policy.keepWeekly items item ∨
        NewestOf Newer monthOf policy.keepMonthly items item) := by
    intro i hi
    unfold Reserved Opens
    rw [newestOf_iff hsorted newer_asymm dayKey_iff dayOf_mono hi,
      newestOf_iff hsorted newer_asymm weekKey_iff weekOf_mono hi,
      newestOf_iff hsorted newer_asymm monthKey_iff monthOf_mono hi, take_eq_filter hsorted newer_asymm hi]
    rfl
  have hverified : firstVerified items = some item ↔
      NewestWith Newer (fun other => other.verificationStatus = .verified) items item := by
    unfold firstVerified
    rw [find?_iff_newestWith hsorted newer_asymm hitem]
    have hone : ∀ other ∈ items, ((other.verificationStatus == .verified && other.id != "") = true ↔
        other.verificationStatus = .verified) := by
      intro other hother
      simp [hnamed other hother]
    refine and_congr (hone item hitem) (forall₂_congr fun other hother => ?_)
    exact imp_congr_left (hone other hother)
  obtain ⟨i, hi⟩ := List.mem_iff_getElem?.mp hitem
  unfold Kept Survives
  rw [hverified]
  refine ⟨fun h => ?_, fun h => ?_⟩
  · obtain ⟨j, hj, hr⟩ | hv := h
    · obtain h | h | h | h := (hreserved j hj).mp hr
      · exact .inl h
      · exact .inr (.inl h)
      · exact .inr (.inr (.inl h))
      · exact .inr (.inr (.inr (.inl h)))
    · exact .inr (.inr (.inr (.inr hv)))
  · obtain h | h | h | h | h := h
    · exact .inl ⟨i, hi, (hreserved i hi).mpr (.inl h)⟩
    · exact .inl ⟨i, hi, (hreserved i hi).mpr (.inr (.inl h))⟩
    · exact .inl ⟨i, hi, (hreserved i hi).mpr (.inr (.inr (.inl h)))⟩
    · exact .inl ⟨i, hi, (hreserved i hi).mpr (.inr (.inr (.inr h)))⟩
    · exact .inr h

/-! ## Snapshots have ids -/

theorem snapshots_moved {s s' : Store} {tenant id : String} {guard : TaskRow → Bool} {missing : StoreError}
    {m : TaskMove} {at_ : Time} (h : s.closeTask tenant id guard missing m at_ = .ok s') :
      s'.snapshots = s.snapshots := by
  obtain ⟨t, -, -, ht⟩ := closeTask_ok h
  rw [ht]
  rfl

/-- An operation adds no snapshot, or one `CommitSnapshot` accepts. -/
theorem snapshots_apply {s s' : Store} {op : Op} (h : op.apply s = .ok s') :
    s'.snapshots = s.snapshots ∨ ∃ snapshot : Snapshot, snapshot.id ≠ "" ∧
      s'.snapshots = s.snapshots ++ [snapshotRow snapshot] := by
  cases op with
  | createPlan =>
    obtain ⟨targets, ht⟩ := createPlan_ok h
    exact .inl (by rw [ht])
  | updatePlan =>
    obtain ⟨targets, ht⟩ := updatePlan_ok h
    exact .inl (by rw [ht])
  | setPlanEnabled =>
    obtain ⟨plans, ht⟩ := setPlanEnabled_ok h
    exact .inl (by rw [ht])
  | pausePlanForScope =>
    obtain ⟨plans, ht⟩ := pausePlanForScope_ok h
    exact .inl (by rw [ht])
  | advancePlan | setTaskScopeValidation | heartbeatTask =>
    cases h
    exact .inl rfl
  | createBatch => exact .inl (by rw [createBatch_ok h])
  | addTask => exact .inl (by rw [addTask_ok h])
  | claimNextTask tenant workerId token now expires =>
    cases hc : s.claimNextTask tenant workerId token now expires with
    | error e =>
      simp only [Op.apply, hc] at h
      cases h
    | ok out =>
      obtain ⟨s₁, task⟩ := out
      simp only [Op.apply, hc] at h
      cases h
      obtain ⟨t, -, -, -, -, ht⟩ := claimNextTask_ok hc
      exact .inl (by rw [ht])
  | setTaskStatus => exact .inl (by rw [setTaskStatus_ok h])
  | completeTask | retryTask | finishTaskFailure | resetTaskForManualRetry => exact .inl (snapshots_moved h)
  | cancelTask tenant id now =>
    cases hc : s.cancelTask tenant id now with
    | error e =>
      simp only [Op.apply, hc] at h
      cases h
    | ok out =>
      obtain ⟨s₁, task⟩ := out
      simp only [Op.apply, hc] at h
      cases h
      obtain ⟨t, -, -, -, ⟨-, rfl⟩ | ⟨-, rfl⟩⟩ := cancelTask_ok hc
      · refine .inl ?_
        rw [cancelTaskJob_tables]
        rfl
      · exact .inl rfl
  | requeueExpiredTasks tenant now =>
    refine .inl (foldlM_invariant (P := fun s' : Store => s'.snapshots = s.snapshots) h rfl ?_)
    intro s₁ s₂ item _ hkept hone
    rw [runMove_ok hone]
    exact hkept
  | createBackupJob => exact .inl (by rw [createBackupJob_ok h])
  | startBackupJob => exact .inl (by rw [(moveJob_ok h).2])
  | failBackupJob => exact .inl (by rw [(moveJob_ok h).2])
  -- `CommitSnapshot` refuses a snapshot without an id
  | commitSnapshot snapshot =>
    refine .inr ⟨snapshot, fun hid => ?_, by rw [(commitSnapshot_ok h).2]⟩
    have h : s.commitSnapshot snapshot = .ok s' := h
    unfold commitSnapshot at h
    rw [if_pos (.inl hid)] at h
    cases h

theorem named_runOps (ops : List Op) {s : Store} (h : ∀ r ∈ s.snapshots, r.id ≠ "") :
    ∀ r ∈ (runOps s ops).snapshots, r.id ≠ "" := by
  induction ops generalizing s with
  | nil => exact h
  | cons op ops ih =>
    apply ih
    obtain happly | hsame := Op.next_cases s op
    · obtain hrows | ⟨snapshot, hid, hrows⟩ := snapshots_apply happly
      · rw [hrows]
        exact h
      · intro r hr
        rw [hrows] at hr
        obtain hr | hr := List.mem_append.mp hr
        · exact h r hr
        · rw [List.mem_singleton.mp hr]
          exact hid
    · rw [hsame]
      exact h

/-! ## Retention -/

section
variable {moves : String → Bool} {now : String → Time} {s : Store} {tenant : String} {plan : BackupPlan}

/-- Retention without a fault of the storage: it ends without an error, and an active
snapshot of the plan is left when it survives. -/
theorem applyRetention_active (hnamed : ∀ r ∈ s.snapshots, r.id ≠ "") (hmoves : ∀ id, moves id = true)
    (hfailed : ∀ item ∈ s.snapshotsForPlan tenant plan.id, item.verificationStatus ≠ .failed) (id : String) :
    Active (applyRetention moves now s tenant plan).1 id ↔ Active s id ∧
      ∀ item ∈ s.snapshotsForPlan tenant plan.id, item.id = id →
        Survives plan.retention (s.snapshotsForPlan tenant plan.id) item := by
  have hids := snapshotsForPlan_nodup s tenant plan.id
  have hsorted := snapshotsForPlan_newest s tenant plan.id
  have hrows : ∀ item ∈ s.snapshotsForPlan tenant plan.id, ∃ r ∈ s.snapshots, r.tenantUid = tenant ∧
      r.id = item.id ∧ r.retentionStatus = .active := by
    intro item hitem
    obtain ⟨r, hr, hten, -, hact, rfl⟩ := mem_snapshotsForPlan.mp hitem
    exact ⟨r, hr, hten, rfl, hact⟩
  have hids' : ∀ item ∈ s.snapshotsForPlan tenant plan.id, item.id ≠ "" := by
    intro item hitem
    obtain ⟨r, hr, -, hid, -⟩ := hrows item hitem
    exact hid ▸ hnamed r hr
  unfold applyRetention
  simp only
  generalize s.snapshotsForPlan tenant plan.id = items at hids hsorted hrows hids' hfailed ⊢
  have hany : ¬items.any (·.verificationStatus == .failed) = true := by
    intro h
    obtain ⟨item, hitem, hst⟩ := List.any_eq_true.mp h
    exact hfailed item hitem (beq_iff_eq.mp hst)
  rw [if_neg hany, deleteAll_active now (hids.sublist (List.filter_sublist.map _))]
  · have hwhile : (items.filter fun item => !keeps plan.retention items item).takeWhile (fun item => moves item.id) =
        items.filter fun item => !keeps plan.retention items item :=
      List.takeWhile_eq_self_iff.mpr fun item _ => hmoves item.id
    rw [hwhile]
    refine and_congr_right fun _ => ⟨fun hgone item hitem hid => ?_, fun hall hmem => ?_⟩
    · by_contra hsurvives
      refine hgone (List.mem_map.mpr ⟨item, List.mem_filter.mpr ⟨hitem, ?_⟩, hid⟩)
      rw [Bool.not_eq_true', ← Bool.not_eq_true, keeps_iff hids hitem, kept_iff hsorted hids' hitem]
      exact hsurvives
    · obtain ⟨item, hitem, hid⟩ := List.mem_map.mp hmem
      obtain ⟨hitem, hdrop⟩ := List.mem_filter.mp hitem
      rw [Bool.not_eq_true', ← Bool.not_eq_true, keeps_iff hids hitem, kept_iff hsorted hids' hitem] at hdrop
      exact hdrop (hall item hitem hid)
  · intro item hitem
    exact hrows item (List.mem_of_mem_filter hitem)

/-- A snapshot that FAILED its verification stops retention. -/
theorem applyRetention_failed (hfailed : ∃ item ∈ s.snapshotsForPlan tenant plan.id,
    item.verificationStatus = .failed) :
    applyRetention moves now s tenant plan = (s, none) := by
  obtain ⟨item, hitem, hst⟩ := hfailed
  have hany : (s.snapshotsForPlan tenant plan.id).any (·.verificationStatus == .failed) = true :=
    List.any_eq_true.mpr ⟨item, hitem, beq_iff_eq.mpr hst⟩
  unfold applyRetention
  simp only
  rw [if_pos hany]

/-- A deletion trashes rows; those still active are as they were. -/
theorem delete_rows {s s' : Store} {id : String} (h : delete moves now s tenant id = .ok s') :
    ∃ p storagePath at_, s'.snapshots = updateWhere p (trashedRow storagePath at_) s.snapshots := by
  unfold delete at h
  split at h
  · cases h
  · split at h
    · cases h
    · split at h
      · split at h
        · cases h
        · next hmark =>
          cases h
          unfold markSnapshotTrashed at hmark
          simp only at hmark
          split at hmark
          · cases hmark
            exact ⟨_, _, _, rfl⟩
          · cases hmark
      · cases h

/-- The rows after the deletions: ids of before, and the active ones unchanged. -/
theorem deleteAll_rows (items : List Snapshot) (s : Store) {r : SnapshotRow}
    (hr : r ∈ (deleteAll moves now tenant s items).1.snapshots) :
    (∃ r₀ ∈ s.snapshots, r₀.id = r.id) ∧ (r.retentionStatus = .active → r ∈ s.snapshots) := by
  induction items generalizing s with
  | nil => exact ⟨⟨r, hr, rfl⟩, fun _ => hr⟩
  | cons item rest ih =>
    unfold deleteAll at hr
    split at hr
    · exact ⟨⟨r, hr, rfl⟩, fun _ => hr⟩
    · next s' hs' =>
      obtain ⟨⟨r₀, hr₀, hid⟩, hkept⟩ := ih s' hr
      obtain ⟨p, storagePath, at_, hrows⟩ := delete_rows hs'
      rw [hrows] at hr₀ hkept
      refine ⟨?_, fun hact => ?_⟩
      · obtain ⟨r₁, hr₁, -, rfl⟩ | ⟨hr₁, -⟩ := mem_updateWhere_cases hr₀
        · exact ⟨r₁, hr₁, hid⟩
        · exact ⟨r₀, hr₁, hid⟩
      · obtain ⟨r₁, -, -, rfl⟩ | ⟨hr₁, -⟩ := mem_updateWhere_cases (hkept hact)
        · cases hact
        · exact hr₁

theorem applyRetention_rows {r : SnapshotRow} (hr : r ∈ (applyRetention moves now s tenant plan).1.snapshots) :
    (∃ r₀ ∈ s.snapshots, r₀.id = r.id) ∧ (r.retentionStatus = .active → r ∈ s.snapshots) := by
  unfold applyRetention at hr
  simp only at hr
  split at hr
  · exact ⟨⟨r, hr, rfl⟩, fun _ => hr⟩
  · exact deleteAll_rows _ s hr

theorem snapshotsForPlan_after :
    ((applyRetention moves now s tenant plan).1.snapshotsForPlan tenant plan.id).Sublist
      (s.snapshotsForPlan tenant plan.id) := by
  have hantisymm : Std.Antisymm Newer := ⟨fun a b h h' => absurd h' (newer_asymm a b h)⟩
  refine List.sublist_of_subperm_of_pairwise (List.subperm_of_subset (snapshotsForPlan_nodup _ _ _).of_map ?_)
    (snapshotsForPlan_newest _ _ _) (snapshotsForPlan_newest _ _ _)
  intro item hitem
  obtain ⟨r, hr, hten, hplan, hact, he⟩ := mem_snapshotsForPlan.mp hitem
  exact mem_snapshotsForPlan.mpr ⟨r, (applyRetention_rows hr).2 hact, hten, hplan, hact, he⟩

end

/-! ## The retention keep-set -/

/-- Without a fault of the storage: when no snapshot of the plan FAILED its verification, a
snapshot survives retention exactly when the set says so, and when one did nothing is
removed; applied again, retention removes nothing more; and a policy at least as large in
every component keeps what the smaller one kept. No snapshot is committed without an id. -/
theorem retention_keep_set (moves : String → Bool) (now : String → Time) (s : Store) (tenant : String)
    (plan : BackupPlan) (hnamed : ∀ r ∈ s.snapshots, r.id ≠ "") (hmoves : ∀ id, moves id = true) :
    ((∀ item ∈ s.snapshotsForPlan tenant plan.id, item.verificationStatus ≠ .failed) →
      ∀ item ∈ s.snapshotsForPlan tenant plan.id, (Active (applyRetention moves now s tenant plan).1 item.id ↔
        Survives plan.retention (s.snapshotsForPlan tenant plan.id) item)) ∧
    ((∃ item ∈ s.snapshotsForPlan tenant plan.id, item.verificationStatus = .failed) →
      (applyRetention moves now s tenant plan).1 = s) ∧
    (∀ (later : String → Time) (id : String),
      (Active (applyRetention moves later (applyRetention moves now s tenant plan).1 tenant plan).1 id ↔
        Active (applyRetention moves now s tenant plan).1 id)) ∧
    ∀ plan' : BackupPlan, plan'.id = plan.id → PolicyLe plan.retention plan'.retention → ∀ id,
      Active (applyRetention moves now s tenant plan).1 id →
      Active (applyRetention moves now s tenant plan').1 id := by
  have hactive : ∀ item ∈ s.snapshotsForPlan tenant plan.id, Active s item.id := by
    intro item hitem
    obtain ⟨r, hr, -, -, hact, rfl⟩ := mem_snapshotsForPlan.mp hitem
    exact ⟨r, hr, rfl, hact⟩
  have hids := snapshotsForPlan_nodup s tenant plan.id
  refine ⟨?_, ?_, ?_, ?_⟩
  · intro hok item hitem
    rw [applyRetention_active hnamed hmoves hok, and_iff_right (hactive item hitem)]
    refine ⟨fun h => h item hitem rfl, fun h other hother hid => ?_⟩
    rw [eq_of_key hids hother hitem hid]
    exact h
  · intro hfailed
    rw [applyRetention_failed hfailed]
  · intro later id
    by_cases hfailed : ∃ item ∈ s.snapshotsForPlan tenant plan.id, item.verificationStatus = .failed
    · rw [applyRetention_failed hfailed, applyRetention_failed hfailed]
    · have hok : ∀ item ∈ s.snapshotsForPlan tenant plan.id, item.verificationStatus ≠ .failed :=
        fun item hitem hst => hfailed ⟨item, hitem, hst⟩
      have hsub := @snapshotsForPlan_after moves now s tenant plan
      rw [applyRetention_active (fun r hr => ?_) hmoves (fun item hitem => hok item (hsub.subset hitem))]
      · refine and_iff_left_of_imp fun hact item hitem hid => ?_
        have hsurvives := ((applyRetention_active hnamed hmoves hok id).mp hact).2 item (hsub.subset hitem) hid
        exact hsurvives.sublist hsub
      · obtain ⟨⟨r₀, hr₀, hid⟩, -⟩ := applyRetention_rows hr
        exact hid ▸ hnamed r₀ hr₀
  · intro plan' hid hle id hact
    by_cases hfailed : ∃ item ∈ s.snapshotsForPlan tenant plan.id, item.verificationStatus = .failed
    · rw [applyRetention_failed hfailed] at hact
      rw [applyRetention_failed (hid ▸ hfailed)]
      exact hact
    · have hok : ∀ item ∈ s.snapshotsForPlan tenant plan.id, item.verificationStatus ≠ .failed :=
        fun item hitem hst => hfailed ⟨item, hitem, hst⟩
      obtain ⟨hbefore, hall⟩ := (applyRetention_active hnamed hmoves hok id).mp hact
      rw [applyRetention_active hnamed hmoves (hid ▸ hok), hid]
      exact ⟨hbefore, fun item hitem he => (hall item hitem he).mono hle⟩

/-- The same plan with room for two. -/
def keepTwoPlan : BackupPlan := { keepLastPlan with retention := ⟨2, 0, 0, 0, 24⟩ }

/-- Of two snapshots the last one is kept, again and under a policy that keeps two. -/
theorem retention_keep_set_last :
    Active (applyRetention (fun _ => true) (fun _ => 0) twoTargets "tenant-a" keepLastPlan).1 "snapshot-a" ∧
      Active (applyRetention (fun _ => true) (fun _ => 1) (applyRetention (fun _ => true) (fun _ => 0) twoTargets
        "tenant-a" keepLastPlan).1 "tenant-a" keepLastPlan).1 "snapshot-a" ∧
      Active (applyRetention (fun _ => true) (fun _ => 0) twoTargets "tenant-a"
        keepTwoPlan).1 "snapshot-a" := by
  obtain ⟨hkeep, -, hagain, hmore⟩ := retention_keep_set (fun _ => true)
      (fun _ => 0) twoTargets "tenant-a" keepLastPlan
    (by decide) (fun _ => rfl)
  obtain ⟨item, hitem, hid, hlast⟩ : ∃ item ∈ twoTargets.snapshotsForPlan "tenant-a" "plan-a",
      item.id = "snapshot-a" ∧
      ((((twoTargets.snapshotsForPlan "tenant-a" "plan-a").filter fun y => Newer y item).length : Nat) : Int) < 1 := by
    decide
  have hactive := (hkeep (by decide) item hitem).mpr (.inl hlast)
  rw [hid] at hactive
  exact ⟨hactive, (hagain (fun _ => 1) "snapshot-a").mpr hactive,
    hmore keepTwoPlan rfl ⟨by decide, by decide, by decide, by decide⟩ "snapshot-a" hactive⟩

end AppBackup.Snapshots
