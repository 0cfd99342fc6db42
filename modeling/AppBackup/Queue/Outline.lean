import AppBackup.Lib.Journal
import AppBackup.Queue.Calls

/- What a call of `RunPlan` has been answered, in order, whatever the other callers of the
   database do between its statements. A call notes that its batch was created, which batches
   it was listed, which instances it looked up and whether they were there, and which tasks
   were added.

   What is proved, for every call and every database at each of its statements:
     1. the targets are looked up in turn, once the batch is there, and tasks are added for
        those that were found, in the same order (`Orderly`, at every point of the call);
     2. a call that returns has made its batch and added a task for each target found, or has
        found its batch taken and returns one listed under its plan (`Returned`).

   The outline follows `Queue/Calls.lean` function by function; what the rows are meanwhile is
   in `Queue/Replays.lean`. -/
namespace AppBackup.Queue
open Persistence Table Threads Threads.Thread Threads.Journal

/-- A call of `RunPlan`. -/
structure PlanRun where
  tenant : String
  plan : BackupPlan
  trigger : String
  scheduledAt : Time
  draws : Draws

namespace PlanRun

/-- The id of the batch the call creates, if it does. -/
def batchId (q : PlanRun) : String := "batch" ++ "-" ++ q.draws.batchId.getD ""

def targets (q : PlanRun) : List String := q.plan.targets.map (·.deployId)

def program (q : PlanRun) : Program BackupBatch :=
  Calls.runPlan q.tenant q.plan q.trigger q.scheduledAt q.draws

end PlanRun

/-! ## What a call notes -/

/-- What a call was answered: its batch was created, these batches were listed, an instance
was looked up and was there or not, a task was added. -/
inductive Note where
  | made
  | listed (batches : List (String × String × String))
  | looked (deployId : String) (found : Bool)
  | added (deployId : String)
  deriving DecidableEq

def note : (c : Stmt) → c.Answer → List Note
  | .write (.createBatch _) _, .ok _ => [.made]
  | .write (.addTask task _) _, .ok _ => [.added task.deployId]
  | .instance_ _ deployId, .ok _ => [.looked deployId true]
  | .instance_ _ deployId, .error _ => [.looked deployId false]
  | .recentBatches .., batches => [.listed (batches.map fun b => (b.id, b.tenantUid, b.planId))]
  | _, _ => []

namespace Note

def lookups (notes : List Note) : List (String × Bool) :=
  notes.filterMap fun
    | looked deployId found => some (deployId, found)
    | _ => none

/-- The deployments of the tasks that were added. -/
def adds (notes : List Note) : List String :=
  notes.filterMap fun
    | added deployId => some deployId
    | _ => none

/-- The targets whose instance was there: `planInstances` looks each of them up in turn, before
anything else is looked up. -/
def found (q : PlanRun) (notes : List Note) : List String :=
  (((lookups notes).take q.targets.length).filter (·.2)).map (·.1)

@[simp] theorem lookups_append (notes more : List Note) : lookups (notes ++ more) = lookups notes ++ lookups more :=
  List.filterMap_append

@[simp] theorem adds_append (notes more : List Note) : adds (notes ++ more) = adds notes ++ adds more :=
  List.filterMap_append

end Note

/-! ## The notes in their order -/

/-- At any point of a call: its targets are looked up in turn, and once its batch is made, tasks
are added for those that were found, in turn. -/
structure Orderly (q : PlanRun) (notes : List Note) : Prop where
  unmade : Note.made ∉ notes → Note.adds notes = []
  lookups : ((Note.lookups notes).take q.targets.length).map (·.1) <+: q.targets
  adds : Note.adds notes <+: Note.found q notes

/-- While the targets are looked up: these were, and of these the instance was there. -/
structure Looking (done found : List String) (notes : List Note) : Prop where
  made : Note.made ∈ notes
  lookups : (Note.lookups notes).map (·.1) = done
  found : ((Note.lookups notes).filter (·.2)).map (·.1) = found
  adds : Note.adds notes = []

/-- While tasks are added: all targets were looked up, these were found, and these have their
task. -/
structure Filling (q : PlanRun) (found done : List String) (notes : List Note) : Prop where
  made : Note.made ∈ notes
  lookups : ((Note.lookups notes).take q.targets.length).map (·.1) = q.targets
  found : Note.found q notes = found
  adds : Note.adds notes = done

section Outline
variable {q : PlanRun} {done found : List String} {notes : List Note}

theorem Looking.orderly (h : Looking done found notes) (hdone : done <+: q.targets) : Orderly q notes := by
  have hall : (Note.lookups notes).take q.targets.length = Note.lookups notes := by
    apply List.take_of_length_le
    have hlength := hdone.length_le
    rw [← h.lookups, List.length_map] at hlength
    exact hlength
  refine ⟨fun _ => h.adds, ?_, ?_⟩
  · rw [hall, h.lookups]
    exact hdone
  · rw [h.adds]
    exact List.nil_prefix

theorem Looking.look (h : Looking done found notes) (deployId : String) (there : Bool) :
    Looking (done ++ [deployId]) (found ++ if there then [deployId] else [])
      (notes ++ [.looked deployId there]) := by
  refine ⟨List.mem_append_left _ h.made, ?_, ?_, ?_⟩
  · rw [Note.lookups_append, List.map_append, h.lookups]
    rfl
  · rw [Note.lookups_append, List.filter_append, List.map_append, h.found]
    cases there <;> rfl
  · rw [Note.adds_append, h.adds]
    rfl

theorem Looking.filling (h : Looking q.targets found notes) : Filling q found [] notes := by
  have hall : (Note.lookups notes).take q.targets.length = Note.lookups notes := by
    apply List.take_of_length_le
    rw [← h.lookups, List.length_map]
  refine ⟨h.made, ?_, ?_, h.adds⟩
  · rw [hall, h.lookups]
  · unfold Note.found
    rw [hall, h.found]

theorem Filling.orderly (h : Filling q found done notes) (hdone : done <+: found) : Orderly q notes := by
  refine ⟨fun hmade => absurd h.made hmade, ?_, ?_⟩
  · exact ⟨[], (List.append_nil _).trans h.lookups⟩
  · rw [h.adds, h.found]
    exact hdone

/-- What is looked up later does not count among the targets. -/
theorem Filling.more (h : Filling q found done notes) {more : List Note} (hadds : Note.adds more = []) :
    Filling q found done (notes ++ more) := by
  have hlength : q.targets.length ≤ (Note.lookups notes).length := by
    have hall := congrArg List.length h.lookups
    rw [List.length_map, List.length_take] at hall
    omega
  have htake : (Note.lookups (notes ++ more)).take q.targets.length =
      (Note.lookups notes).take q.targets.length := by
    rw [Note.lookups_append, List.take_append_of_le_length hlength]
  refine ⟨List.mem_append_left _ h.made, ?_, ?_, ?_⟩
  · rw [htake]
    exact h.lookups
  · unfold Note.found
    rw [htake]
    exact h.found
  · rw [Note.adds_append, hadds, List.append_nil]
    exact h.adds

theorem Filling.add (h : Filling q found done notes) (deployId : String) :
    Filling q found (done ++ [deployId]) (notes ++ [.added deployId]) := by
  have hlookups : Note.lookups (notes ++ [.added deployId]) = Note.lookups notes := by
    rw [Note.lookups_append]
    exact List.append_nil _
  refine ⟨List.mem_append_left _ h.made, ?_, ?_, ?_⟩
  · rw [hlookups]
    exact h.lookups
  · unfold Note.found
    rw [hlookups]
    exact h.found
  · rw [Note.adds_append, h.adds]
    rfl

/-! ## The outline of a call -/

/-- From these notes the program keeps them in order; it fails with `F` or returns with `G`. -/
abbrev Traced {α : Type} (q : PlanRun) (F : GoError → List Note → Prop) (G : α → List Note → Prop)
    (t : Program α) (notes : List Note) : Prop :=
  Journal.Notes Stmt.exec note (Orderly q) (Or F G) t notes

theorem traced_write {F : GoError → List Note → Prop} {G : Unit → List Note → Prop} {op : Op}
    {basis : Option BackupPlan}
    (hok : Orderly q (notes ++ note (.write op basis) (.ok ())) ∧
      G () (notes ++ note (.write op basis) (.ok ())))
    (herror : ∀ e, Orderly q (notes ++ note (.write op basis) (.error e)) ∧
      F (.store e) (notes ++ note (.write op basis) (.error e))) :
    Traced q F G (Calls.write op basis) notes := by
  unfold Calls.write
  refine leads_bindE (notes_query (G := fun r notes' => Or F G (r.mapError .store) notes') ?_) ?_
  · intro s
    generalize (Stmt.exec (.write op basis) s).1 = answer
    cases answer with
    | ok u => exact hok
    | error e => exact herror e
  · intro r notes' hr
    exact leads_result hr

theorem traced_frame {α : Type} {t : Program α} (h : Filling q found done notes) (hdone : done <+: found)
    (ht : Every (fun c => ∀ answer, Note.adds (note c answer) = []) t) :
    Traced q (fun _ => Filling q found done) (fun _ => Filling q found done) t notes := by
  have hkeep : Journal.Notes Stmt.exec note (Orderly q) (fun _ => Filling q found done) t notes := by
    refine leads_keep (fun _ h => h.orderly hdone) h ht ?_
    rintro c ⟨s, notes'⟩ hc hfilling -
    exact hfilling.more (hc _)
  refine hkeep.mono fun r notes' h => ?_
  cases r with
  | ok a => exact h
  | error e => exact h

theorem traced_recordSkipped {batch : BackupBatch} {instance_ : ApplicationInstance} {code : String}
    {scope : BackupScope} {validation : Option PlanPauseReason} {draw : Draw}
    (h : Filling q found done notes) (hdone : done ++ [instance_.deployId] <+: found) :
    Traced q (fun _ _ => True) (fun _ => Filling q found (done ++ [instance_.deployId]))
      (Calls.recordSkipped q.tenant batch instance_ code scope validation draw) notes := by
  unfold Calls.recordSkipped
  refine leads_resultBind (fun _ _ => trivial) fun id _ => traced_write ?_ ?_
  · exact ⟨(h.add _).orderly hdone, h.add _⟩
  · intro e
    exact ⟨(h.more rfl).orderly ((List.prefix_append _ _).trans hdone), trivial⟩

theorem traced_enqueueInstance {batch : BackupBatch} {instance_ : ApplicationInstance} {terms : Terms} {draw : Draw}
    (h : Filling q found done notes) (hdone : done ++ [instance_.deployId] <+: found) :
    Traced q (fun _ => Filling q found done) (fun _ => Filling q found (done ++ [instance_.deployId]))
      (Calls.enqueueInstance q.tenant batch instance_ terms draw) notes := by
  have hbefore : done <+: found := (List.prefix_append _ _).trans hdone
  unfold Calls.enqueueInstance
  refine leads_resultBind (fun _ _ => h) fun taskId _ => ?_
  refine leads_bindE (traced_frame h hbefore ?_) fun job notes₁ h₁ => ?_
  · refine Calls.createJob_every ?_ ?_ ..
    · intro deployId answer
      cases answer <;> rfl
    · intro job answer
      cases answer <;> rfl
  · refine leads_bindE (leads_attempt (E := fun _ => Filling q found done)
      (Q := fun _ => Filling q found (done ++ [instance_.deployId])) (traced_write ?_ ?_)) fun r notes₂ hr => ?_
    · exact ⟨(h₁.add _).orderly hdone, h₁.add _⟩
    · intro e
      exact ⟨(h₁.more rfl).orderly hbefore, h₁.more rfl⟩
    · cases r with
      | ok u => exact leads_return hr
      | error e =>
        refine leads_bindE (leads_attempt (E := fun _ => Filling q found done)
          (Q := fun _ => Filling q found done) (traced_frame hr hbefore (Calls.every_write ?_))) fun r notes₃ hr => ?_
        · intro answer
          cases answer <;> rfl
        · apply leads_throw
          cases r with
          | ok u => exact hr
          | error e' => exact hr

/-- One target: its task waits, or is skipped where the deployment has one already. -/
theorem traced_enqueueOrSkip {batch : BackupBatch} {instances : PlanInstances} {instance_ : ApplicationInstance}
    {draw skip : Draw} (h : Filling q found done notes) (hdone : done ++ [instance_.deployId] <+: found) :
    Traced q (fun _ _ => True) (fun _ => Filling q found (done ++ [instance_.deployId]))
      (Calls.enqueueOrSkip q.tenant q.plan batch instances instance_ draw skip) notes := by
  unfold Calls.enqueueOrSkip
  refine leads_bindE (leads_attempt (traced_enqueueInstance h hdone)) fun r notes₁ hr => ?_
  cases r with
  | ok made => exact leads_return hr
  | error e =>
    simp only
    split
    · exact traced_recordSkipped hr hdone
    · exact leads_throw trivial

theorem traced_enqueueAll {batch : BackupBatch} {instances : PlanInstances} {draw skip : Nat → Draw} (n : Nat)
    (items : List ApplicationInstance) (h : Filling q found done notes)
    (hfound : done ++ items.map (·.deployId) = found) :
    Traced q (fun _ _ => True) (fun _ => Filling q found found)
      (Calls.enqueueAll q.tenant q.plan batch instances draw skip n items) notes := by
  induction items generalizing n done notes with
  | nil =>
    rw [List.map_nil, List.append_nil] at hfound
    subst hfound
    exact leads_return h
  | cons instance_ rest ih =>
    rw [List.map_cons, List.append_cons] at hfound
    have hdone : done ++ [instance_.deployId] <+: found := ⟨_, hfound⟩
    exact leads_bindE (traced_enqueueOrSkip h hdone) fun _ notes₁ h₁ => ih (n + 1) h₁ hfound

theorem traced_recordPaused {batch : BackupBatch} {instances : PlanInstances} {reason : PlanPauseReason}
    {draw : Nat → Draw} (n : Nat) (items : List ApplicationInstance) (h : Filling q found done notes)
    (hfound : done ++ items.map (·.deployId) = found) :
    Traced q (fun _ _ => True) (fun _ => Filling q found found)
      (Calls.recordPaused q.tenant batch instances reason draw n items) notes := by
  induction items generalizing n done notes with
  | nil =>
    rw [List.map_nil, List.append_nil] at hfound
    subst hfound
    exact leads_return h
  | cons instance_ rest ih =>
    rw [List.map_cons, List.append_cons] at hfound
    have hdone : done ++ [instance_.deployId] <+: found := ⟨_, hfound⟩
    exact leads_bindE (traced_recordSkipped h hdone) fun _ notes₁ h₁ => ih (n + 1) h₁ hfound

theorem traced_planInstancesFrom (targets : List PlanTarget) {instances : PlanInstances}
    (h : Looking done (instances.items.map (·.deployId)) notes)
    (htargets : done ++ targets.map (·.deployId) = q.targets) :
    Traced q (fun _ _ => True)
      (fun instances : PlanInstances => Looking q.targets (instances.items.map (·.deployId)))
      (Calls.planInstancesFrom q.tenant q.plan targets instances) notes := by
  induction targets generalizing done instances notes with
  | nil =>
    rw [List.map_nil, List.append_nil] at htargets
    subst htargets
    exact leads_return h
  | cons target rest ih =>
    rw [List.map_cons, List.append_cons] at htargets
    have hdone : done ++ [target.deployId] <+: q.targets := ⟨_, htargets⟩
    refine leads_bindE (notes_query (G := fun answer notes₁ => ∃ there,
      (∀ item, answer = .ok item → item.deployId = target.deployId ∧ there = true) ∧
      (∀ e, answer = .error e → there = false) ∧
      Looking (done ++ [target.deployId])
        (instances.items.map (·.deployId) ++ if there then [target.deployId] else []) notes₁) ?_) ?_
    · intro s
      generalize hanswer : (Stmt.exec (.instance_ q.tenant target.deployId) s).1 = answer
      have hanswer : s.instance q.tenant target.deployId = answer := hanswer
      cases answer with
      | ok item =>
        refine ⟨(h.look _ true).orderly hdone, true, ?_, ?_, h.look _ true⟩
        · intro item' he
          cases he
          exact ⟨instance_deployId hanswer, rfl⟩
        · intro e he
          cases he
      | error e =>
        refine ⟨(h.look _ false).orderly hdone, false, ?_, fun _ _ => rfl, h.look _ false⟩
        intro item' he
        cases he
    · intro answer notes₁ hanswer
      obtain ⟨there, hok, herror, h₁⟩ := hanswer
      split
      · obtain rfl := herror _ rfl
        simp only [Bool.false_eq_true, if_false, List.append_nil] at h₁
        exact ih h₁ htargets
      · exact leads_throw trivial
      · next item =>
        obtain ⟨hid, rfl⟩ := hok item rfl
        simp only [if_true] at h₁
        refine ih ?_ htargets
        rw [List.map_append, List.map_singleton, hid]
        exact h₁

/-- `RunPlan` once its batch is there: a task for each target that was found. -/
theorem traced_expandPlan {batch : BackupBatch} (h : Looking [] [] notes) :
    Traced q (fun _ _ => True) (fun _ notes' => ∃ found, Filling q found found notes')
      (Calls.expandPlan q.tenant q.plan batch q.draws) notes := by
  have hreads : ∀ {op : Op} {basis : Option BackupPlan}, (∀ r, Note.adds (note (.write op basis) r) = []) →
      Every (fun c => ∀ answer, Note.adds (note c answer) = []) (Calls.write op basis) := fun hnote =>
    Calls.every_write hnote
  unfold Calls.expandPlan
  refine leads_bindE (Q := fun (instances : PlanInstances) notes' =>
    Filling q (instances.items.map (·.deployId)) [] notes') ?_ fun instances notes₁ h₁ => ?_
  · unfold Calls.planInstances
    split
    · exact leads_throw trivial
    · refine (traced_planInstancesFrom q.plan.targets h rfl).mono fun r notes' hr => ?_
      cases r with
      | ok instances => exact Looking.filling hr
      | error e => trivial
  · have hnil : [] <+: instances.items.map (·.deployId) := List.nil_prefix
    refine leads_bindE (Q := fun _ => Filling q (instances.items.map (·.deployId)) [])
      ((traced_frame h₁ hnil (Calls.firstInvalid_every ?_ ..)).mono ?_) fun r notes₂ h₂ => ?_
    · intro deployId answer
      cases answer <;> rfl
    · intro r notes' hr
      cases r with
      | ok a => exact hr
      | error e => trivial
    · cases r with
      | none =>
        refine (traced_enqueueAll 0 instances.items h₂ rfl).mono fun r notes' hr => ?_
        cases r with
        | ok u => exact ⟨_, hr⟩
        | error e => trivial
      | some invalid =>
        obtain ⟨instance_, err⟩ := invalid
        simp only
        split
        · exact leads_throw trivial
        · refine leads_bindE (Q := fun _ => Filling q (instances.items.map (·.deployId)) [])
            ((traced_frame h₂ hnil (hreads ?_)).mono ?_) fun _ notes₃ h₃ => ?_
          · intro r
            cases r <;> rfl
          · intro r notes' hr
            cases r with
            | ok a => exact hr
            | error e => trivial
          · refine (traced_recordPaused 0 instances.items h₃ rfl).mono fun r notes' hr => ?_
            cases r with
            | ok u => exact ⟨_, hr⟩
            | error e => trivial

/-- What a call has noted when it returns a batch: the batch is its own, with a task for each
target found, or it was not the call's to make, and was listed as one of the plan's. -/
def Returned (q : PlanRun) (b : BackupBatch) (notes : List Note) : Prop :=
  (Note.made ∈ notes ∧ b.id = q.batchId ∧ Note.adds notes = Note.found q notes) ∨
    (Note.made ∉ notes ∧ ∃ batches, Note.listed batches ∈ notes ∧ (b.id, q.tenant, q.plan.id) ∈ batches)

theorem batch_id {s : Store} {tenant id : String} {b : BackupBatch} (h : s.batch tenant id = .ok b) : b.id = id := by
  unfold Store.batch at h
  split at h
  · next row hrow =>
    cases h
    have hin := List.find?_some hrow
    simp only [batchIn, Bool.and_eq_true, beq_iff_eq] at hin
    exact hin.2
  · cases h

theorem recentBatches_tenant {s : Store} {tenant : String} {limit : Nat} {b : BackupBatch}
    (h : b ∈ s.recentBatches tenant limit) : ∃ row ∈ s.batches, b = scanBatch row ∧ row.tenantUid = tenant := by
  unfold Store.recentBatches at h
  obtain ⟨row, hrow, rfl⟩ := List.mem_map.mp h
  have hrow := (List.perm_insertionSort _ _).mem_iff.mp (List.mem_of_mem_take hrow)
  obtain ⟨hmem, hten⟩ := List.mem_filter.mp hrow
  exact ⟨row, hmem, rfl, by simpa using hten⟩

theorem orderly_of_none (hadds : Note.adds notes = []) (hlookups : Note.lookups notes = []) : Orderly q notes := by
  refine ⟨fun _ => hadds, ?_, ?_⟩
  · rw [hlookups, List.take_nil]
    exact List.nil_prefix
  · rw [hadds]
    exact List.nil_prefix

theorem traced_existingBatch (hmade : Note.made ∉ notes) (hadds : Note.adds notes = [])
    (hlookups : Note.lookups notes = []) :
    Traced q (fun _ _ => True) (Returned q) (Calls.existingBatch q.tenant q.plan.id q.scheduledAt) notes := by
  unfold Calls.existingBatch
  refine leads_bindE (notes_query (G := fun (batches : List BackupBatch) notes₁ =>
    Note.made ∉ notes₁ ∧ (∀ b ∈ batches, b.tenantUid = q.tenant) ∧
      Note.listed (batches.map fun b => (b.id, b.tenantUid, b.planId)) ∈ notes₁) ?_) ?_
  · intro s
    refine ⟨orderly_of_none ?_ ?_, ?_, ?_, ?_⟩
    · rw [Note.adds_append, hadds]
      rfl
    · rw [Note.lookups_append, hlookups]
      rfl
    · intro h
      obtain h | h := List.mem_append.mp h
      · exact hmade h
      · cases List.mem_singleton.mp h
    · intro b hb
      obtain ⟨row, -, rfl, hten⟩ := recentBatches_tenant hb
      exact hten
    · exact List.mem_append_right _ (List.mem_singleton.mpr rfl)
  · intro batches notes₁ ⟨hmade₁, hten, hlisted⟩
    split
    · next b hb =>
      refine leads_return (.inr ⟨hmade₁, _, hlisted, ?_⟩)
      have hplan := List.find?_some hb
      simp only [Bool.and_eq_true, beq_iff_eq] at hplan
      have hmem := List.mem_of_find?_eq_some hb
      exact List.mem_map.mpr ⟨b, hmem, by rw [hten b hmem, hplan.1]⟩
    · exact leads_throw trivial

theorem traced_runPlan (q : PlanRun) : Traced q (fun _ _ => True) (Returned q) q.program [] := by
  unfold PlanRun.program Calls.runPlan
  refine leads_resultBind (fun _ _ => trivial) fun batchId hid => ?_
  have hbatchId : batchId = q.batchId := by
    obtain ⟨hex, hdraw, rfl⟩ := randomID_ok hid
    rw [PlanRun.batchId, hdraw]
    rfl
  refine leads_bindE (leads_attempt (Q := fun _ notes' => notes' = [Note.made]) (E := fun _ notes' => notes' = [])
    (traced_write ⟨orderly_of_none rfl rfl, rfl⟩ fun e => ⟨orderly_of_none rfl rfl, rfl⟩))
    fun r notes₁ hr => ?_
  split
  · obtain rfl : notes₁ = [Note.made] := hr
    refine leads_bindE (traced_expandPlan ⟨List.mem_singleton.mpr rfl, rfl, rfl, rfl⟩) fun _ notes₂ h₂ => ?_
    obtain ⟨found, h₂⟩ := h₂
    refine leads_bindE (notes_query (G := fun answer notes₃ => Filling q found found notes₃ ∧
      ∀ b, answer = .ok b → b.id = q.batchId) ?_) fun answer notes₃ h₃ => ?_
    · intro s
      have h₃ : Filling q found found (notes₂ ++ []) := h₂.more rfl
      refine ⟨h₃.orderly List.prefix_rfl, h₃, ?_⟩
      intro b hb
      rw [← hbatchId]
      exact batch_id hb
    · apply leads_result
      cases answer with
      | error e => trivial
      | ok b => exact .inl ⟨h₃.1.made, h₃.2 b rfl, h₃.1.adds.trans h₃.1.found.symm⟩
  · obtain rfl : notes₁ = [] := hr
    exact traced_existingBatch (List.not_mem_nil) rfl rfl
  · exact leads_throw trivial

end Outline

end AppBackup.Queue
