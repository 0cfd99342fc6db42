import AppBackup.Persistence.Instances

/- The synchronisations of the catalog (`persistence/store.go`): one row a tenant with the state
   of the last one, and what `ReplaceInstances` leaves of a tenant's instances. -/
namespace AppBackup

inductive SyncState where
  | running | succeeded | failed
  deriving DecidableEq

/-- What `SyncStatus` answers; without a row the state is IDLE. -/
structure SyncStatus where
  state : Option SyncState
  startedAt : Option Time
  finishedAt : Option Time
  errorCode : String
  deriving DecidableEq

namespace Persistence
open Table

structure SyncRow where
  tenantUid : String
  state : SyncState
  startedAt : Int
  finishedAt : Option Int
  errorCode : String

def syncOf (tenant : String) (row : SyncRow) : Bool := row.tenantUid == tenant

def startSync (rows : List SyncRow) (tenant : String) (started : Time) : List SyncRow :=
  upsert (syncOf tenant)
    (fun row => { row with state := .running, startedAt := unix started, finishedAt := none, errorCode := "" })
    ⟨tenant, .running, unix started, none, ""⟩ rows

def finishSync (rows : List SyncRow) (tenant : String) (state : SyncState) (errorCode : String) (finished : Time) :
    List SyncRow :=
  updateWhere (syncOf tenant)
    (fun row => { row with state := state, finishedAt := some (unix finished), errorCode := errorCode }) rows

def syncStatus (rows : List SyncRow) (tenant : String) : SyncStatus :=
  match rows.find? (syncOf tenant) with
  | none => ⟨none, none, none, ""⟩
  | some row => ⟨some row.state, some (ofUnix row.startedAt), row.finishedAt.map ofUnix, row.errorCode⟩

/-! ## The row of a tenant -/

theorem syncOf_iff {tenant : String} {row : SyncRow} : syncOf tenant row = true ↔ row.tenantUid = tenant :=
  beq_iff_eq

theorem find_updateWhere_other {tenant tenant' : String} (hne : tenant' ≠ tenant) {f : SyncRow → SyncRow}
    (hf : ∀ row, (f row).tenantUid = row.tenantUid) (rows : List SyncRow) :
    (updateWhere (syncOf tenant) f rows).find? (syncOf tenant') = rows.find? (syncOf tenant') := by
  rw [find?_updateWhere rows fun row => by unfold syncOf; rw [hf]]
  cases hfind : rows.find? (syncOf tenant') with
  | none => rfl
  | some row =>
    have howner : row.tenantUid = tenant' := syncOf_iff.mp (List.find?_some hfind)
    have hmiss : ¬syncOf tenant row = true := by
      rw [syncOf_iff, howner]
      exact hne
    rw [Option.map_some, if_neg hmiss]

theorem syncStatus_startSync (rows : List SyncRow) (tenant : String) (started : Time) :
    syncStatus (startSync rows tenant started) tenant =
      ⟨some .running, some (ofUnix (unix started)), none, ""⟩ := by
  have hfind : ∃ row, (startSync rows tenant started).find? (syncOf tenant) = some row ∧
      row.state = .running ∧ row.startedAt = unix started ∧ row.finishedAt = none ∧ row.errorCode = "" := by
    unfold startSync upsert
    by_cases hany : rows.any (syncOf tenant) = true
    · rw [if_pos hany, find?_updateWhere]
      · obtain ⟨row, hrow, howner⟩ := List.any_eq_true.mp hany
        obtain ⟨found, hfound⟩ := Option.isSome_iff_exists.mp (List.find?_isSome.mpr ⟨row, hrow, howner⟩)
        rw [hfound, Option.map_some, if_pos (List.find?_some hfound)]
        exact ⟨_, rfl, rfl, rfl, rfl, rfl⟩
      · exact fun _ => rfl
    · rw [if_neg hany, List.find?_append]
      have hnone : rows.find? (syncOf tenant) = none := by
        refine List.find?_eq_none.mpr fun row hrow howner => hany ?_
        exact List.any_eq_true.mpr ⟨row, hrow, howner⟩
      have hown : syncOf tenant ⟨tenant, .running, unix started, none, ""⟩ = true := syncOf_iff.mpr rfl
      rw [hnone, Option.none_or, List.find?_cons, hown]
      exact ⟨_, rfl, rfl, rfl, rfl, rfl⟩
  obtain ⟨row, hrow, hstate, hstarted, hfinished, hcode⟩ := hfind
  unfold syncStatus
  rw [hrow]
  simp only [hstate, hstarted, hfinished, hcode, Option.map_none]

theorem syncStatus_startSync_other {tenant tenant' : String} (hne : tenant' ≠ tenant) (rows : List SyncRow)
    (started : Time) : syncStatus (startSync rows tenant started) tenant' = syncStatus rows tenant' := by
  have hfind : (startSync rows tenant started).find? (syncOf tenant') = rows.find? (syncOf tenant') := by
    unfold startSync upsert
    by_cases hany : rows.any (syncOf tenant) = true
    · rw [if_pos hany]
      apply find_updateWhere_other hne
      intro row
      rfl
    · have hother : ¬syncOf tenant' ⟨tenant, .running, unix started, none, ""⟩ = true :=
        fun h => hne (syncOf_iff.mp h).symm
      rw [if_neg hany, List.find?_append, List.find?_cons, Bool.eq_false_iff.mpr hother, List.find?_nil, Option.or_none]
  unfold syncStatus
  rw [hfind]

/-- The state of a synchronisation that ends, where there is a row. -/
theorem state_finishSync {rows : List SyncRow} {tenant : String} (h : (syncStatus rows tenant).state ≠ none)
    (state : SyncState) (errorCode : String) (finished : Time) :
    (syncStatus (finishSync rows tenant state errorCode finished) tenant).state = some state := by
  unfold syncStatus at *
  have hfind : (finishSync rows tenant state errorCode finished).find? (syncOf tenant) =
      (rows.find? (syncOf tenant)).map fun row =>
        if syncOf tenant row then
          { row with state := state, finishedAt := some (unix finished), errorCode := errorCode }
        else row := by
    apply find?_updateWhere
    intro row
    rfl
  cases hrow : rows.find? (syncOf tenant) with
  | none =>
    rw [hrow] at h
    exact absurd rfl h
  | some row =>
    rw [hfind, hrow, Option.map_some, if_pos (List.find?_some hrow)]

theorem syncStatus_finishSync_other {tenant tenant' : String} (hne : tenant' ≠ tenant) (rows : List SyncRow)
    (state : SyncState) (errorCode : String) (finished : Time) :
    syncStatus (finishSync rows tenant state errorCode finished) tenant' = syncStatus rows tenant' := by
  unfold syncStatus finishSync
  rw [find_updateWhere_other hne]
  exact fun _ => rfl

/-! ## The instances of a tenant -/

/-- The row of an instance that was found. -/
def instanceRow (tenant : String) (x : ApplicationInstance) : InstanceRow :=
  ⟨tenant, x.appId, x.deployId, x.multiInstance, x.capabilityStatus, true⟩

/-- The active instances of a tenant are those that were found. -/
structure Shows (s : Store) (tenant : String) (found : List ApplicationInstance) : Prop where
  sound : ∀ i ∈ s.instances, i.tenantUid = tenant → i.active = true → ∃ x ∈ found, i = instanceRow tenant x
  complete : ∀ x ∈ found, ∃ i ∈ s.instances, i.key = (tenant, x.appId, x.deployId) ∧ i.active = true

section
variable {lower : Char → Char} {tenant : String} {s s' : Store} {x : ApplicationInstance}

theorem replaceInstance_instances (hs : s.replaceInstance lower tenant x = .ok s') :
    s'.instances = upsert (deployedAs tenant x.appId x.deployId)
      (fun i => { i with multiInstance := x.multiInstance, capabilityStatus := x.capabilityStatus, active := true })
      (instanceRow tenant x) s.instances := by
  unfold Store.replaceInstance at hs
  by_cases htenant : x.tenantUid ≠ tenant
  · rw [if_pos htenant] at hs
    cases hs
  · rw [if_neg htenant] at hs
    obtain rfl := Except.ok.inj hs
    rfl

/-- A row after one of the loop is the one it wrote, or was there and is another's. -/
theorem replaceInstance_mem (hs : s.replaceInstance lower tenant x = .ok s') {i : InstanceRow}
    (hi : i ∈ s'.instances) :
    i = instanceRow tenant x ∨ i ∈ s.instances ∧ deployedAs tenant x.appId x.deployId i = false := by
  rw [replaceInstance_instances hs] at hi
  obtain ⟨r, -, hmatch, rfl⟩ | hkept | rfl := mem_upsert_cases hi
  · obtain ⟨htenant, hids⟩ := Prod.mk.inj (deployedAs_iff.mp hmatch)
    obtain ⟨happ, hdeploy⟩ := Prod.mk.inj hids
    refine .inl ?_
    show InstanceRow.mk r.tenantUid r.appId r.deployId x.multiInstance x.capabilityStatus true = instanceRow tenant x
    rw [htenant, happ, hdeploy]
    rfl
  · exact .inr hkept
  · exact .inl rfl

/-- No row goes, and none is switched off. -/
theorem replaceInstance_kept (hs : s.replaceInstance lower tenant x = .ok s') {i : InstanceRow}
    (hi : i ∈ s.instances) :
    ∃ i' ∈ s'.instances, i'.key = i.key ∧ (i.active = true → i'.active = true) ∧
      (deployedAs tenant x.appId x.deployId i = false → i' = i) := by
  rw [replaceInstance_instances hs]
  unfold upsert
  by_cases hmatch : deployedAs tenant x.appId x.deployId i = true
  · rw [if_pos (List.any_eq_true.mpr ⟨i, hi, hmatch⟩)]
    refine ⟨_, mem_updateWhere_hit hi hmatch, rfl, fun _ => rfl, fun hmiss => ?_⟩
    rw [hmatch] at hmiss
    cases hmiss
  · have hmiss := Bool.eq_false_iff.mpr hmatch
    by_cases hany : s.instances.any (deployedAs tenant x.appId x.deployId) = true
    · rw [if_pos hany]
      exact ⟨i, mem_updateWhere_miss hi hmiss, rfl, fun h => h, fun _ => rfl⟩
    · rw [if_neg hany]
      exact ⟨i, List.mem_append_left _ hi, rfl, fun h => h, fun _ => rfl⟩

theorem replaceInstance_new (hs : s.replaceInstance lower tenant x = .ok s') :
    ∃ i ∈ s'.instances, i.key = (tenant, x.appId, x.deployId) ∧ i.active = true := by
  rw [replaceInstance_instances hs]
  unfold upsert
  by_cases hany : s.instances.any (deployedAs tenant x.appId x.deployId) = true
  · obtain ⟨r, hr, hmatch⟩ := List.any_eq_true.mp hany
    rw [if_pos hany]
    exact ⟨_, mem_updateWhere_hit hr hmatch, deployedAs_iff.mp hmatch, rfl⟩
  · rw [if_neg hany]
    exact ⟨_, List.mem_append_right _ (List.mem_singleton_self _), rfl, rfl⟩

theorem Shows.replaceInstance {found : List ApplicationInstance} (h : Shows s tenant found)
    (hs : s.replaceInstance lower tenant x = .ok s') : Shows s' tenant (found ++ [x]) := by
  refine ⟨fun i hi howner hactive => ?_, fun y hy => ?_⟩
  · obtain rfl | ⟨hold, -⟩ := replaceInstance_mem hs hi
    · exact ⟨x, List.mem_append_right _ (List.mem_singleton_self x), rfl⟩
    · obtain ⟨y, hy, he⟩ := h.sound i hold howner hactive
      exact ⟨y, List.mem_append_left _ hy, he⟩
  · obtain hy | hy := List.mem_append.mp hy
    · obtain ⟨i, hi, hkey, hactive⟩ := h.complete y hy
      obtain ⟨i', hi', hkey', hactive', -⟩ := replaceInstance_kept hs hi
      exact ⟨i', hi', hkey'.trans hkey, hactive' hactive⟩
    · obtain rfl := List.mem_singleton.mp hy
      exact replaceInstance_new hs

end

/-- After a replacement exactly what was found is active, each with what was found of it. -/
theorem replaceInstances_shows {lower : Char → Char} {tenant : String} {s s' : Store}
    {found : List ApplicationInstance}
    (h : s.replaceInstances lower tenant found = .ok s') : Shows s' tenant found := by
  have hloop : ∀ (rest before : List ApplicationInstance) (s : Store), Shows s tenant before →
      rest.foldlM (Store.replaceInstance lower tenant) s = .ok s' → Shows s' tenant (before ++ rest) := by
    intro rest
    induction rest with
    | nil =>
      intro before s hshows hdone
      obtain rfl := Except.ok.inj hdone
      rw [List.append_nil]
      exact hshows
    | cons x rest ih =>
      intro before s hshows hdone
      rw [List.foldlM_cons] at hdone
      cases hone : s.replaceInstance lower tenant x with
      | error e =>
        rw [hone] at hdone
        cases hdone
      | ok s₁ =>
        rw [hone] at hdone
        have htail := ih (before ++ [x]) s₁ (hshows.replaceInstance hone) hdone
        rw [List.append_assoc] at htail
        exact htail
  refine hloop found [] _ ⟨fun i hi howner hactive => ?_, fun x hx => absurd hx List.not_mem_nil⟩ h
  obtain ⟨r, -, -, rfl⟩ | ⟨-, hother⟩ := mem_updateWhere_cases hi
  · cases hactive
  · rw [howner, beq_self_eq_true] at hother
    cases hother

/-- A replacement goes through where every instance is of the tenant. -/
theorem replaceInstances_ok {lower : Char → Char} {tenant : String} (s : Store) {found : List ApplicationInstance}
    (h : ∀ x ∈ found, x.tenantUid = tenant) : ∃ s', s.replaceInstances lower tenant found = .ok s' := by
  unfold Store.replaceInstances
  generalize ({ s with
      instances := updateWhere (·.tenantUid == tenant) (fun i => { i with active := false }) s.instances } : Store) = s
  induction found generalizing s with
  | nil => exact ⟨s, rfl⟩
  | cons x rest ih =>
    have hone : ∃ s₁, s.replaceInstance lower tenant x = .ok s₁ := by
      unfold Store.replaceInstance
      rw [if_neg (not_not.mpr (h x (List.mem_cons_self ..)))]
      exact ⟨_, rfl⟩
    obtain ⟨s₁, hs₁⟩ := hone
    obtain ⟨s', hs'⟩ := ih (fun y hy => h y (List.mem_cons_of_mem _ hy)) s₁
    refine ⟨s', ?_⟩
    rw [List.foldlM_cons, hs₁]
    exact hs'

theorem replaceInstances_others {lower : Char → Char} {tenant : String} {s s' : Store}
    {found : List ApplicationInstance}
    (h : s.replaceInstances lower tenant found = .ok s') {i : InstanceRow} (hi : i.tenantUid ≠ tenant) :
    i ∈ s'.instances ↔ i ∈ s.instances := by
  have hmiss : (i.tenantUid == tenant) = false := beq_eq_false_iff_ne.mpr hi
  refine foldlM_invariant (P := fun t => i ∈ t.instances ↔ i ∈ s.instances) h ?_ fun t t' x _ ht hstep => ?_
  · refine ⟨fun hmem => ?_, fun hmem => mem_updateWhere_miss hmem hmiss⟩
    obtain ⟨r, -, howner, rfl⟩ | ⟨hkept, -⟩ := mem_updateWhere_cases hmem
    · exact absurd (eq_of_beq howner) hi
    · exact hkept
  · rw [← ht]
    have hother : deployedAs tenant x.appId x.deployId i = false := by
      refine Bool.eq_false_iff.mpr fun hmatch => hi ?_
      exact (Prod.mk.inj (deployedAs_iff.mp hmatch)).1
    refine ⟨fun hmem => ?_, fun hmem => ?_⟩
    · obtain rfl | ⟨hold, -⟩ := replaceInstance_mem hstep hmem
      · exact absurd rfl hi
      · exact hold
    · obtain ⟨i', hi', -, -, hsame⟩ := replaceInstance_kept hstep hmem
      rw [← hsame hother]
      exact hi'

end Persistence
end AppBackup
