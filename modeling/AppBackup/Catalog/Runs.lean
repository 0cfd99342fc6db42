import AppBackup.Catalog.Service
import Mathlib.Data.List.Perm.Basic

/- What a synchronisation leaves in the catalog, over whole runs of the server: requests of any
   tenants that start and coalesce refreshes, workers that answer in any order, writes that fail
   and processes that crash.

   The invariant says of each run how far it has got: no task of the pool is lost or answered
   twice (`Accounted`), and RUNNING stands until the run writes its end. A step about one tenant
   leaves the others alone (`Apart`), so it is enough to look at the tenant it is about.
   `catalog_shown` is the result: where SUCCEEDED is shown of a tenant, its active instances are
   exactly what the platform last listed for it. -/
namespace AppBackup.Catalog
open Persistence Transition
open scoped List

/-- The state shown of a tenant. -/
def World.state (w : World) (u : String) : Option SyncState := (syncStatus w.syncs u).state

/-! ## The pool -/

/-- The instances of the tasks that were probed, each at its time and with what was found. -/
def Service.results (c : Service) (u : String) (done : List (Task × Time × Found)) : List Probed :=
  done.map fun d => c.probe u d.1 d.2.1 d.2.2

/-- No task is lost or answered twice: each waits, is held by a worker, or has its one result. -/
structure Service.Accounted (c : Service) (u : String) (apps : List Application) (p : Pool) : Prop where
  room : p.room = apps.length
  busy : p.working.length ≤ c.workers
  shared : ∃ done, p.received ++ p.sent = c.results u done ∧
    done.map Prod.fst ++ (p.working ++ p.waiting) ~ c.tasks apps

/-- One instance for each task of a listing. -/
def Service.Complete (c : Service) (u : String) (apps : List Application) (instances : List Probed) : Prop :=
  ∃ done, instances = c.results u done ∧ done.map Prod.fst ~ c.tasks apps

section
variable {c : Service} {u : String} {apps : List Application} {p p' : Pool} {m : Move}

theorem accounted_start (apps : List Application) : c.Accounted u apps ⟨apps.length, c.tasks apps, [], [], []⟩ :=
  ⟨rfl, Nat.zero_le _, [], rfl, List.Perm.refl _⟩

theorem Service.Accounted.exchange (h : c.Accounted u apps p) (hm : c.exchange u p m = some p') :
    c.Accounted u apps p' := by
  obtain ⟨hroom, hbusy, done, hdone, hperm⟩ := h
  obtain ⟨t, rest, -, hwaiting, hidle, rfl⟩ | ⟨j, now, found, t, -, hheld, -, rfl⟩ |
      ⟨x, rest, -, hsent, rfl⟩ :=
    exchange_cases hm
  · refine ⟨hroom, ?_, done, hdone, ?_⟩
    · simp only [List.length_append, List.length_singleton]
      omega
    · simpa [hwaiting] using hperm
  · obtain ⟨hj, rfl⟩ := List.getElem?_eq_some_iff.mp hheld
    refine ⟨hroom, ?_, done ++ [(p.working[j], now, found)], ?_, ?_⟩
    · exact Nat.le_trans (List.length_eraseIdx_le ..) hbusy
    · simp only [Service.results, List.map_append, List.map_cons, List.map_nil] at hdone ⊢
      rw [← List.append_assoc, hdone]
    · -- the worker's task moves from those held to those that are done
      have herase : p.working[j] :: p.working.eraseIdx j ~ p.working := List.getElem_cons_eraseIdx_perm hj
      calc (done ++ [(p.working[j], now, found)]).map Prod.fst ++ (p.working.eraseIdx j ++ p.waiting)
        _ ~ done.map Prod.fst ++ (p.working[j] :: p.working.eraseIdx j ++ p.waiting) := by simp
        _ ~ done.map Prod.fst ++ (p.working ++ p.waiting) := (herase.append_right _).append_left _
        _ ~ c.tasks apps := hperm
  · refine ⟨hroom, hbusy, done, ?_, hperm⟩
    rw [← hdone, hsent]
    simp

/-- The channel of the results never fills up, so no worker waits for the reader. -/
theorem Service.Accounted.unblocked (h : c.Accounted u apps p)
    (hworking : p.working ≠ []) : p.sent.length < p.room := by
  obtain ⟨hroom, -, done, hdone, hperm⟩ := h
  have hresults : p.received.length + p.sent.length = done.length := by
    have := congrArg List.length hdone
    simpa [Service.results] using this
  have htasks : done.length + (p.working.length + p.waiting.length) = (c.tasks apps).length := by
    simpa using hperm.length_eq
  have hfew := tasks_length (c := c) apps
  have hone := List.length_pos_iff.mpr hworking
  omega

theorem drained_iff : p.drained = true ↔ p.waiting = [] ∧ p.working = [] ∧ p.sent = [] := by
  simp [Pool.drained, and_assoc]

theorem Service.Accounted.complete (h : c.Accounted u apps p) (hdrained : p.drained = true) :
    c.Complete u apps p.received := by
  obtain ⟨hwaiting, hworking, hsent⟩ := drained_iff.mp hdrained
  obtain ⟨-, -, done, hdone, hperm⟩ := h
  refine ⟨done, ?_, ?_⟩
  · simpa [hsent] using hdone
  · simpa [hwaiting, hworking] using hperm

end

/-! ## The instances of a tenant -/

/-- The active instances of a tenant are exactly the applications of a listing, each as it was
probed, and called ambiguous where its id is listed more than once. -/
structure Service.Catalogued (c : Service) (s : Store) (u : String) (apps : List Application) : Prop where
  sound : ∀ i ∈ s.instances, i.tenantUid = u → i.active = true → ∃ app ∈ apps, c.includes app = true ∧
    (∃ now found, i = instanceRow u
      (c.probe u ⟨app, decide (1 < c.counts apps app.appId)⟩ now found).toApplicationInstance) ∧
    i.appId = app.appId ∧ i.deployId = app.deployId ∧ i.multiInstance = app.multiInstance ∧
    (i.capabilityStatus = .sourceMappingAmbiguous ↔ 1 < c.counts apps app.appId)
  complete : ∀ app ∈ apps, c.includes app = true →
    ∃ i ∈ s.instances, i.key = (u, app.appId, app.deployId) ∧ i.active = true

theorem probe_identity {c : Service} {u : String} (t : Task) (now : Time) (found : Found) :
    (c.probe u t now found).tenantUid = u ∧ (c.probe u t now found).appId = t.app.appId ∧
      (c.probe u t now found).deployId = t.app.deployId ∧
      (c.probe u t now found).multiInstance = t.app.multiInstance ∧
      ((c.probe u t now found).capabilityStatus = .sourceMappingAmbiguous ↔ t.ambiguous = true) := by
  obtain ⟨status, hprobe, hshared⟩ := probe_spec (c := c) (u := u) t now found
  rw [hprobe]
  exact ⟨rfl, rfl, rfl, rfl, hshared⟩

section
variable {c : Service} {u : String} {apps : List Application} {instances : List Probed}

theorem Service.Complete.owned (h : c.Complete u apps instances) :
    ∀ x ∈ instances.map (·.toApplicationInstance), x.tenantUid = u := by
  obtain ⟨done, rfl, -⟩ := h
  intro x hx
  obtain ⟨y, hy, rfl⟩ := List.mem_map.mp hx
  obtain ⟨d, -, rfl⟩ := List.mem_map.mp hy
  exact (probe_identity d.1 d.2.1 d.2.2).1

theorem Service.Complete.catalogued (h : c.Complete u apps instances) {s : Store}
    (hshows : Shows s u (instances.map (·.toApplicationInstance))) : c.Catalogued s u apps := by
  obtain ⟨done, rfl, hperm⟩ := h
  refine ⟨fun i hi howner hactive => ?_, fun app happ hincludes => ?_⟩
  · obtain ⟨x, hx, rfl⟩ := hshows.sound i hi howner hactive
    obtain ⟨y, hy, rfl⟩ := List.mem_map.mp hx
    obtain ⟨⟨t, now, found⟩, hd, rfl⟩ := List.mem_map.mp hy
    obtain ⟨happ, hincludes, hshared⟩ := mem_tasks.mp (hperm.subset (List.mem_map_of_mem hd))
    obtain ⟨-, happId, hdeploy, hmulti, hstatus⟩ := probe_identity (c := c) (u := u) t now found
    refine ⟨t.app, happ, hincludes, ⟨now, found, ?_⟩, happId, hdeploy, hmulti, ?_⟩
    · rw [← hshared]
    · show (c.probe u t now found).capabilityStatus = _ ↔ _
      rw [hstatus, hshared, decide_eq_true_iff]
  · have htask : (⟨app, decide (1 < c.counts apps app.appId)⟩ : Task) ∈ c.tasks apps :=
      mem_tasks.mpr ⟨happ, hincludes, rfl⟩
    obtain ⟨⟨t, now, found⟩, hd, ht⟩ := List.mem_map.mp (hperm.symm.subset htask)
    obtain ⟨-, happId, hdeploy, -, -⟩ := probe_identity (c := c) (u := u) t now found
    have hfound : (c.probe u t now found).toApplicationInstance ∈
        (c.results u done).map (·.toApplicationInstance) :=
      List.mem_map_of_mem (List.mem_map_of_mem (f := fun d => c.probe u d.1 d.2.1 d.2.2) hd)
    obtain ⟨i, hi, hkey, hactive⟩ := hshows.complete _ hfound
    refine ⟨i, hi, ?_, hactive⟩
    rw [hkey, happId, hdeploy]
    obtain rfl : t = _ := ht
    rfl

/-- A replacement that fails is one the database refused: every instance is the tenant's own. -/
theorem replace_spec (h : c.Complete u apps instances) (w : World) (i : Nat) (saved : Bool) :
    (saved = false ∧ c.replace w i u instances saved = w.go i u
      (.finishing .failed "CONTROL_DATABASE_WRITE_FAILED")) ∨
    (∃ s, w.store.replaceInstances c.lower u (instances.map (·.toApplicationInstance)) = .ok s ∧
      c.Catalogued s u apps ∧ c.replace w i u instances saved = { w with store := s }.go i u
        (.finishing .succeeded "")) := by
  obtain ⟨s, hs⟩ : ∃ s, w.store.replaceInstances c.lower u (instances.map (·.toApplicationInstance)) = .ok s :=
    replaceInstances_ok w.store h.owned
  cases saved with
  | false => exact .inl ⟨rfl, by simp [Service.replace, hs]⟩
  | true => exact .inr ⟨s, hs, h.catalogued (replaceInstances_shows hs), by simp [Service.replace, hs]⟩

end

/-! ## Who runs -/

/-- The tenant of a run. -/
def World.owner (w : World) (i : Nat) : Option String := (w.runs i).map (·.tenantUid)

/-- The memory of a process says which tenants have a run, and each has one at most. -/
structure World.Marked (w : World) : Prop where
  numbered : ∀ i u, w.owner i = some u → i < w.fresh
  running : ∀ u, w.running u = true ↔ ∃ i, w.owner i = some u
  single : ∀ i j u, w.owner i = some u → w.owner j = some u → i = j
  begun : ∀ u, w.running u = true → 0 < w.begun u
  scope : ∀ u, w.running u = true → w.runningScope u = some (scopeKey u)
  initial : ∀ u, w.initialSynced (scopeKey u) = true → 0 < w.begun u

section
variable {c : Service} {w w' : World} {i : Nat} {u : String} {r : Run}

theorem owner_eq (h : w.runs i = some r) : w.owner i = some r.tenantUid := by simp [World.owner, h]

theorem go_owner (h : w.runs i = some r) (stage : Stage) : (w.go i r.tenantUid stage).owner = w.owner := by
  funext j
  by_cases hj : j = i
  · subst hj
    simp [World.owner, World.go, h]
  · simp [World.owner, World.go, Function.update_of_ne hj]

theorem World.Marked.go (h : w.Marked) (hrun : w.runs i = some r)
    (stage : Stage) : (w.go i r.tenantUid stage).Marked := by
  have howner := go_owner hrun stage
  refine ⟨?_, ?_, ?_, h.begun, h.scope, h.initial⟩
  · rw [howner]
    exact h.numbered
  · rw [howner]
    exact h.running
  · rw [howner]
    exact h.single

theorem World.Marked.leave (h : w.Marked) (hrun : w.runs i = some r) : (w.leave i r.tenantUid).Marked := by
  have howner : ∀ j v, (w.leave i r.tenantUid).owner j = some v ↔ w.owner j = some v ∧ v ≠ r.tenantUid := by
    intro j v
    by_cases hj : j = i
    · subst hj
      simp [World.owner, World.leave, hrun, eq_comm]
    · have hsame : (w.leave i r.tenantUid).owner j = w.owner j := by
        simp [World.owner, World.leave, Function.update_of_ne hj]
      rw [hsame]
      refine ⟨fun hv => ⟨hv, fun he => hj ?_⟩, fun hv => hv.1⟩
      exact h.single j i v hv (by rw [owner_eq hrun, he])
  have hrunning : ∀ v, (w.leave i r.tenantUid).running v = true ↔ w.running v = true ∧ v ≠ r.tenantUid := by
    intro v
    by_cases hv : v = r.tenantUid <;> simp [World.leave, hv]
  refine ⟨?_, ?_, ?_, ?_, ?_, h.initial⟩
  · intro j v hv
    exact h.numbered j v ((howner j v).mp hv).1
  · intro v
    rw [hrunning, h.running]
    simp only [howner]
    exact ⟨fun ⟨⟨j, hj⟩, hne⟩ => ⟨j, hj, hne⟩, fun ⟨j, hj, hne⟩ => ⟨⟨j, hj⟩, hne⟩⟩
  · intro j k v hj hk
    exact h.single j k v ((howner j v).mp hj).1 ((howner k v).mp hk).1
  · intro v hv
    exact h.begun v ((hrunning v).mp hv).1
  · intro v hv
    obtain ⟨hv, hne⟩ := (hrunning v).mp hv
    show Function.update w.runningScope r.tenantUid none v = _
    rw [Function.update_of_ne hne]
    exact h.scope v hv

theorem launch_runs (w : World) (u : String) (now : Time) (j : Nat) :
    (w.launch u now).runs j = if j = w.fresh then some ⟨u, .listing⟩ else w.runs j := by
  simp [World.launch, Function.update_apply]

theorem World.Marked.launch (h : w.Marked) (hidle : w.running u = false) (now : Time) : (w.launch u now).Marked := by
  -- the runs are those there were and the new one, whose number no run had
  have howner : ∀ j v, (w.launch u now).owner j = some v ↔ (j = w.fresh ∧ v = u) ∨ w.owner j = some v := by
    intro j v
    have hnew : w.owner w.fresh ≠ some v := fun hv => absurd (h.numbered _ _ hv) (Nat.lt_irrefl _)
    by_cases hj : j = w.fresh
    · subst hj
      simp [World.owner, launch_runs] at hnew ⊢
      exact ⟨fun he => .inl he.symm, fun he => he.elim (fun he => he.symm) fun ⟨r, hr, hv⟩ =>
        absurd hv (hnew r hr)⟩
    · simp [World.owner, launch_runs, hj]
  -- and the tenant had none
  have hno : ∀ j, w.owner j ≠ some u := by
    intro j hj
    have := (h.running u).mpr ⟨j, hj⟩
    rw [hidle] at this
    cases this
  have hrunning : ∀ v, (w.launch u now).running v = true ↔ v = u ∨ w.running v = true := by
    intro v
    by_cases hv : v = u <;> simp [World.launch, hv]
  have hbegun : ∀ v, (w.launch u now).begun v = if v = u then w.begun u + 1 else w.begun v := by
    intro v
    by_cases hv : v = u <;> simp [World.launch, hv]
  refine ⟨?_, ?_, ?_, ?_, ?_, ?_⟩
  · intro j v hv
    show j < w.fresh + 1
    obtain ⟨rfl, -⟩ | hold := (howner j v).mp hv
    · exact Nat.lt_succ_self _
    · exact Nat.lt_succ_of_lt (h.numbered j v hold)
  · intro v
    rw [hrunning, h.running]
    simp only [howner]
    refine ⟨fun hv => ?_, fun ⟨j, hj⟩ => ?_⟩
    · obtain rfl | ⟨j, hj⟩ := hv
      · exact ⟨w.fresh, .inl ⟨rfl, rfl⟩⟩
      · exact ⟨j, .inr hj⟩
    · obtain ⟨-, hv⟩ | hold := hj
      · exact .inl hv
      · exact .inr ⟨j, hold⟩
  · intro j k v hj hk
    obtain ⟨hjnew, hv⟩ | hjold := (howner j v).mp hj
    · obtain ⟨hknew, -⟩ | hkold := (howner k v).mp hk
      · rw [hjnew, hknew]
      · exact absurd (hv ▸ hkold) (hno k)
    · obtain ⟨-, hv⟩ | hkold := (howner k v).mp hk
      · exact absurd (hv ▸ hjold) (hno j)
      · exact h.single j k v hjold hkold
  · intro v hv
    rw [hbegun]
    by_cases hvu : v = u
    · rw [if_pos hvu]
      exact Nat.succ_pos _
    · rw [if_neg hvu]
      exact h.begun v (((hrunning v).mp hv).resolve_left hvu)
  · intro v hv
    show Function.update w.runningScope u (some (scopeKey u)) v = _
    by_cases hvu : v = u
    · rw [hvu, Function.update_self]
    · rw [Function.update_of_ne hvu]
      exact h.scope v (((hrunning v).mp hv).resolve_left hvu)
  · intro v hv
    rw [hbegun]
    by_cases hvu : v = u
    · rw [if_pos hvu]
      exact Nat.succ_pos _
    · rw [if_neg hvu]
      exact h.initial v hv

theorem markInitial_initial {v : String} {value : Bool}
    (h : (w.markInitial u value).initialSynced (scopeKey v) = true) :
    (v = u ∧ value = true) ∨ w.initialSynced (scopeKey v) = true := by
  unfold World.markInitial at h
  by_cases hkey : scopeKey v = scopeKey u
  · rw [hkey] at h
    simp only [Function.update_self] at h
    exact .inl ⟨scopeKey_injective hkey, h⟩
  · simp only [Function.update_of_ne hkey] at h
    exact .inr h

theorem World.Marked.markInitial (h : w.Marked) {value : Bool} (hbegun : value = true → 0 < w.begun u) :
    (w.markInitial u value).Marked := by
  refine ⟨h.numbered, h.running, h.single, h.begun, h.scope, fun v hv => ?_⟩
  obtain ⟨rfl, hvalue⟩ | hold := markInitial_initial hv
  · exact hbegun hvalue
  · exact h.initial v hold

end

/-! ## What is shown -/

/-- How far a run of `u` has got, with the state shown of the tenant and what was listed. -/
def Service.Standing (c : Service) (s : Store) (state : Option SyncState) (apps : List Application) (u : String) :
    Stage → Prop
  | .listing => state = some .running
  | .probing p => state = some .running ∧ c.Accounted u apps p
  | .replacing instances => state = some .running ∧ c.Complete u apps instances
  | .finishing result _ => state = some .running ∧ result ≠ .running ∧
      (result = .succeeded → c.Catalogued s u apps)
  | .leaving => True

/-- The invariant of the catalog. -/
structure Service.Sound (c : Service) (w : World) : Prop where
  marked : w.Marked
  shown : ∀ u, w.state u = some .succeeded → c.Catalogued w.store u (w.listed u)
  standing : ∀ i r, w.runs i = some r →
    c.Standing w.store (w.state r.tenantUid) (w.listed r.tenantUid) r.tenantUid r.stage

/-- Nothing of the tenants other than `u` differs. -/
structure Apart (u : String) (w w' : World) : Prop where
  state : ∀ v, v ≠ u → w'.state v = w.state v
  listed : ∀ v, v ≠ u → w'.listed v = w.listed v
  instances : ∀ i : InstanceRow, i.tenantUid ≠ u → (i ∈ w'.store.instances ↔ i ∈ w.store.instances)

section
variable {c : Service} {w w' : World} {i : Nat} {u : String} {r : Run}

theorem Service.Catalogued.congr {s s' : Store} {apps : List Application} (h : c.Catalogued s u apps)
    (hsame : ∀ i : InstanceRow, i.tenantUid = u → (i ∈ s'.instances ↔ i ∈ s.instances)) :
      c.Catalogued s' u apps := by
  refine ⟨fun i hi howner hactive => h.sound i ((hsame i howner).mp hi) howner hactive,
    fun app happ hincludes => ?_⟩
  obtain ⟨i, hi, hkey, hactive⟩ := h.complete app happ hincludes
  exact ⟨i, (hsame i (congrArg Prod.fst hkey)).mpr hi, hkey, hactive⟩

theorem Service.Standing.congr {s s' : Store} {state : Option SyncState} {apps : List Application} {stage : Stage}
    (h : c.Standing s state apps u stage)
    (hsame : ∀ i : InstanceRow, i.tenantUid = u → (i ∈ s'.instances ↔ i ∈ s.instances)) :
    c.Standing s' state apps u stage := by
  cases stage with
  | listing => exact h
  | probing p => exact h
  | replacing instances => exact h
  | finishing result errorCode => exact ⟨h.1, h.2.1, fun hresult => (h.2.2 hresult).congr hsame⟩
  | leaving => exact h

/-- A step about `u` keeps the invariant where it keeps it of `u`: the others are left alone. -/
theorem Service.Sound.step (h : c.Sound w) (hmarked : w'.Marked) (hapart : Apart u w w')
    (hshown : w'.state u = some .succeeded → c.Catalogued w'.store u (w'.listed u))
    (hown : ∀ j r, w'.runs j = some r → r.tenantUid = u →
      c.Standing w'.store (w'.state u) (w'.listed u) u r.stage)
    (hothers : ∀ j r, w'.runs j = some r → r.tenantUid ≠ u → w.runs j = some r) : c.Sound w' := by
  have hsame : ∀ v, v ≠ u → ∀ i : InstanceRow, i.tenantUid = v →
      (i ∈ w'.store.instances ↔ i ∈ w.store.instances) :=
    fun v hv i hi => hapart.instances i (hi ▸ hv)
  refine ⟨hmarked, fun v hv => ?_, fun j r hr => ?_⟩
  · by_cases hvu : v = u
    · rw [hvu] at hv ⊢
      exact hshown hv
    · rw [hapart.listed v hvu]
      rw [hapart.state v hvu] at hv
      exact (h.shown v hv).congr (hsame v hvu)
  · by_cases hru : r.tenantUid = u
    · rw [hru]
      exact hown j r hr hru
    · rw [hapart.listed _ hru, hapart.state _ hru]
      exact (h.standing j r (hothers j r hr hru)).congr (hsame _ hru)

theorem apart_refl (u : String) (w : World) : Apart u w w := ⟨fun _ _ => rfl, fun _ _ => rfl, fun _ _ => Iff.rfl⟩

/-- The same for a step inside a run: what it writes, and the stage it goes on with. -/
theorem Service.Sound.go (h : c.Sound w) (hrun : w.runs i = some r) {store : Store} {syncs : List SyncRow}
    {listed : String → List Application} {stage : Stage}
    (hapart : Apart r.tenantUid w { w with store := store, syncs := syncs, listed := listed })
    (hshown : (syncStatus syncs r.tenantUid).state = some .succeeded →
      c.Catalogued store r.tenantUid (listed r.tenantUid))
    (hstage : c.Standing store (syncStatus syncs r.tenantUid).state (listed r.tenantUid) r.tenantUid stage) :
    c.Sound (World.go { w with store := store, syncs := syncs, listed := listed } i r.tenantUid stage) := by
  have hm := h.marked
  have hframe : World.Marked { w with store := store, syncs := syncs, listed := listed } :=
    ⟨hm.numbered, hm.running, hm.single, hm.begun, hm.scope, hm.initial⟩
  refine h.step (hframe.go (r := r) hrun stage) ⟨hapart.state, hapart.listed, hapart.instances⟩ hshown ?_ ?_
  · intro j r' hr' howner
    by_cases hj : j = i
    · subst hj
      simp only [World.go, Function.update_self] at hr'
      obtain rfl := Option.some.inj hr'
      exact hstage
    · simp only [World.go, Function.update_of_ne hj] at hr'
      exact absurd (hm.single j i r.tenantUid (by rw [owner_eq hr', howner]) (owner_eq hrun)) hj
  · intro j r' hr' howner
    by_cases hj : j = i
    · subst hj
      simp only [World.go, Function.update_self] at hr'
      obtain rfl := Option.some.inj hr'
      exact absurd rfl howner
    · simpa only [World.go, Function.update_of_ne hj] using hr'

theorem Service.Sound.leave (h : c.Sound w) (hrun : w.runs i = some r) : c.Sound (w.leave i r.tenantUid) := by
  refine ⟨h.marked.leave hrun, h.shown, fun j r' hr' => ?_⟩
  by_cases hj : j = i
  · subst hj
    simp [World.leave] at hr'
  · simp only [World.leave, Function.update_of_ne hj] at hr'
    exact h.standing j r' hr'

theorem Service.Sound.launch (h : c.Sound w) (hidle : w.running u = false) (now : Time) : c.Sound (w.launch u now) := by
  have hstate : (w.launch u now).state u = some .running := by
    show (syncStatus (Persistence.startSync w.syncs u now) u).state = _
    rw [syncStatus_startSync]
  refine h.step (u := u) (h.marked.launch hidle now) ⟨fun v hv => ?_, fun _ _ => rfl, fun _ _ => Iff.rfl⟩ ?_ ?_ ?_
  · show (syncStatus (Persistence.startSync w.syncs u now) v).state = _
    rw [syncStatus_startSync_other hv]
    rfl
  · intro hdone
    rw [hstate] at hdone
    cases hdone
  · intro j r hr howner
    rw [launch_runs] at hr
    by_cases hj : j = w.fresh
    · rw [if_pos hj] at hr
      obtain rfl := Option.some.inj hr
      exact hstate
    · rw [if_neg hj] at hr
      have hrunning := (h.marked.running u).mpr ⟨j, by rw [owner_eq hr, howner]⟩
      rw [hidle] at hrunning
      cases hrunning
  · intro j r hr howner
    rw [launch_runs] at hr
    by_cases hj : j = w.fresh
    · rw [if_pos hj] at hr
      obtain rfl := Option.some.inj hr
      exact absurd rfl howner
    · rwa [if_neg hj] at hr

theorem Service.Sound.markInitial (h : c.Sound w) {value : Bool} (hbegun : value = true → 0 < w.begun u) :
    c.Sound (w.markInitial u value) :=
  ⟨h.marked.markInitial hbegun, h.shown, h.standing⟩

/-- A move of a run keeps the invariant. -/
theorem Service.Sound.move (h : c.Sound w) (hrun : w.runs i = some r) {m : Move}
    (hm : c.move w i r.tenantUid r.stage m = some w') : c.Sound w' := by
  have hstanding := h.standing i r hrun
  have hidle : ∀ {s : Store} {apps : List Application}, w.state r.tenantUid = some .running →
      w.state r.tenantUid = some .succeeded → c.Catalogued s r.tenantUid apps := by
    intro s apps hrunning hdone
    rw [hrunning] at hdone
    cases hdone
  obtain ⟨answer, hstage, -, rfl⟩ | ⟨p, p', hstage, hp, rfl⟩ | ⟨p, hstage, -, hdrained, rfl⟩ |
    ⟨instances, saved, hstage, -, rfl⟩ | ⟨result, errorCode, now, saved, hstage, -, rfl⟩ | ⟨-, -, rfl⟩ :=
    move_cases hm
  · rw [hstage] at hstanding
    cases answer with
    | none =>
      exact h.go hrun (apart_refl _ _) (hidle hstanding) ⟨hstanding, SyncState.noConfusion, SyncState.noConfusion⟩
    | some apps =>
      refine h.go hrun ⟨fun _ _ => rfl, fun v hv => Function.update_of_ne hv _ _, fun _ _ => Iff.rfl⟩
        (hidle hstanding) ?_
      refine ⟨hstanding, ?_⟩
      rw [Function.update_self]
      exact accounted_start apps
  · rw [hstage] at hstanding
    exact h.go hrun (apart_refl _ _) (hidle hstanding.1) ⟨hstanding.1, hstanding.2.exchange hp⟩
  · rw [hstage] at hstanding
    exact h.go hrun (apart_refl _ _) (hidle hstanding.1) ⟨hstanding.1, hstanding.2.complete hdrained⟩
  · rw [hstage] at hstanding
    obtain ⟨-, he⟩ | ⟨s, hs, hshown, he⟩ := replace_spec hstanding.2 w i saved
    · rw [he]
      exact h.go hrun (apart_refl _ _) (hidle hstanding.1)
        ⟨hstanding.1, SyncState.noConfusion, SyncState.noConfusion⟩
    · rw [he]
      refine h.go hrun ⟨fun _ _ => rfl, fun _ _ => rfl, fun x hx => replaceInstances_others hs hx⟩
        (fun _ => hshown) ?_
      exact ⟨hstanding.1, SyncState.noConfusion, fun _ => hshown⟩
  · rw [hstage] at hstanding
    obtain ⟨hrunning, -, hshown⟩ := hstanding
    cases saved with
    | false => exact h.go hrun (apart_refl _ _) (hidle hrunning) trivial
    | true =>
      have hresult : (syncStatus (finishSync w.syncs r.tenantUid result errorCode now) r.tenantUid).state =
          some result := by
        apply state_finishSync
        show w.state r.tenantUid ≠ none
        rw [hrunning]
        exact Option.some_ne_none _
      refine h.go hrun ⟨fun v hv => ?_, fun _ _ => rfl, fun _ _ => Iff.rfl⟩ (fun hdone => ?_) trivial
      · exact congrArg SyncStatus.state (syncStatus_finishSync_other hv ..)
      · rw [hresult] at hdone
        exact hshown (Option.some.inj hdone)
  · exact h.leave hrun

theorem Service.Sound.next (h : c.Sound w) {a : Action} (hs : c.step w a = some w') : c.Sound w' := by
  cases a with
  | start v now saved =>
    obtain rfl := Option.some.inj hs
    obtain ⟨-, he⟩ | ⟨-, -, e, he⟩ | ⟨hidle, -, he⟩ := startSync_cases w v now saved
    · rw [he]
      exact h
    · rw [he]
      exact h
    · rw [he]
      exact h.launch hidle now
  | startInitial v now saved =>
    obtain rfl := Option.some.inj hs
    obtain ⟨-, he⟩ | ⟨-, hrunning, he⟩ | ⟨-, -, -, e, he⟩ | ⟨-, hidle, -, he⟩ :=
        startInitial_cases w v now saved
    · rw [he]
      exact h
    · rw [he, if_pos (h.marked.scope v hrunning)]
      exact h.markInitial fun _ => h.marked.begun v hrunning
    · have hcleared : (w.markInitial v true).markInitial v false = w.markInitial v false := by
        simp [World.markInitial, Function.update_idem]
      rw [he, hcleared]
      exact h.markInitial Bool.noConfusion
    · -- the mark is set first and is good once the run is begun
      have hlaunched := h.launch hidle now
      have hbegun := hlaunched.marked.begun v (Function.update_self ..)
      rw [he]
      exact hlaunched.markInitial (u := v) fun _ => hbegun
  | move j m =>
    obtain ⟨r, hr, hm⟩ := Option.bind_eq_some_iff.mp hs
    exact h.move hr hm
  | other store =>
    obtain rfl := Option.some.inj hs
    exact ⟨⟨h.marked.numbered, h.marked.running, h.marked.single, h.marked.begun, h.marked.scope,
      h.marked.initial⟩,
      fun v hv => (h.shown v hv).congr fun _ _ => Iff.rfl, fun j r hr => (h.standing j r hr).congr fun _ _ => Iff.rfl⟩
  | crash =>
    obtain rfl := Option.some.inj hs
    refine ⟨⟨?_, ?_, ?_, ?_, ?_, ?_⟩, h.shown, ?_⟩ <;> simp [World.restarted, World.owner]

end

/-! ## Every run of the server -/

/-- No crash, and the last write of a run is saved. -/
def Action.calm : Action → Bool
  | crash => false
  | move _ (.finish _ saved) => saved
  | _ => true

/-- Reached from a new control database, by any steps. -/
def Service.Reached (c : Service) : World → Prop := Reach c.step (fun _ _ => True) Fresh

theorem fresh_sound {c : Service} {w : World} (h : Fresh w) : c.Sound w := by
  obtain ⟨hsyncs, hruns, hrunning, hinitial, -⟩ := h
  have howner : ∀ i u, w.owner i ≠ some u := by simp [World.owner, hruns]
  refine ⟨⟨?_, ?_, ?_, ?_, ?_, ?_⟩, ?_, ?_⟩
  · exact fun i u hu => absurd hu (howner i u)
  · simp [hrunning, howner]
  · exact fun i _ u hu => absurd hu (howner i u)
  · simp [hrunning]
  · simp [hrunning]
  · simp [hinitial]
  · simp [World.state, hsyncs, syncStatus]
  · simp [hruns]

theorem Service.Reached.sound {c : Service} {w : World} (h : c.Reached w) : c.Sound w :=
  Reach.invariant (fun _ => fresh_sound) (fun _ _ _ hsound _ hs => hsound.next hs) h

/-- Two workers, with ASCII texts. -/
def letters : Service := .new Char.toLower (fun text => String.ofList (text.toList.map Char.toLower)) "cloud.backup" 2

/-- Two deployments of one application, another application, and the backup itself. -/
def installed : List Application :=
  [⟨"cloud.shared", "Shared", "1", "shared-1", "ann", true⟩,
   ⟨"cloud.alpha", "Alpha", "2", "alpha", "bob", true⟩,
   ⟨"cloud.backup", "Backup", "1", "backup", "ann", true⟩,
   ⟨"cloud.shared", "Shared", "1", "shared-2", "ann", false⟩]

/-- A first synchronisation whose workers answer out of order. -/
def synchronisation : List Action :=
  [.startInitial "ann" 1 true, .move 0 (.list (some installed)), .move 0 .take, .move 0 .take,
   .move 0 (.send 1 2 (.resolved "service-enforced" (.error .notExist) 3)), .move 0 .take, .move 0 .receive,
   .start "ann" 4 true, .move 0 (.send 1 5 (.unresolved .notReady)), .move 0 (.send 0 6 (.unresolved .notReady)),
   .move 0 .receive, .move 0 .receive, .move 0 .close, .move 0 (.replace true), .move 0 (.finish 7 true),
   .move 0 .leave]

def newProcess : World :=
  ⟨Store.empty, [], fun _ => false, fun _ => none, fun _ => false, fun _ => none, 0, fun _ => [], fun _ => 0⟩

/-- The world after the first `k` steps. -/
def synced (k : Nat) : World := final letters.step newProcess (synchronisation.take k)

theorem newProcess_fresh : Fresh newProcess := ⟨rfl, rfl, rfl, rfl, rfl⟩

theorem synced_reached (k : Nat) (h : (runActions (checked (fun _ a => a.calm) letters.step) newProcess
    (synchronisation.take k)).isSome = true) : Reach letters.step (fun _ a => a.calm = true) Fresh (synced k) :=
  reach_final (fun _ _ hcalm => hcalm) _ newProcess_fresh h

theorem Service.reached_of_calm {c : Service} {w : World} (h : Reach c.step (fun _ a => a.calm = true) Fresh w) :
    c.Reached w := h.mono_using fun _ _ _ _ => trivial

end AppBackup.Catalog
