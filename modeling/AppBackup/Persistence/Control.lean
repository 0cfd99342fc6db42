import AppBackup.Backup.Errors
import AppBackup.Lib.Disk
import AppBackup.Persistence.Jobs

/- The control database of a process that also works on the disk. A statement runs as one
   step on the data of the machine: it goes through, is refused by the database, or fails and
   leaves the database as it was. Within one call a statement is told from the others by what
   it does and the snapshot it is about. -/
namespace AppBackup.Persistence
open Program Disk

inductive Statement where
  | backupJob
  | startBackupJob
  | failBackupJob
  | settings
  | commitSnapshot
  | snapshotsForPlan
  | snapshot (id : String)
  | markSnapshotTrashed (id : String)
  | trashedBefore
  | deleteTrashed (id : String)
  | allSnapshots
  | snapshotSummary
  deriving DecidableEq

/-- The database, the statements of the call that fail, and what the file system says of the
times at which directories were last modified. -/
structure Control where
  store : Store
  fails : Statement → Bool
  modified : List String → Time

/-- A directory keeps its time, and what is in it its own, when it is renamed. -/
def Control.renamed (p q : List String) (d : Control) : Control :=
  { d with modified := fun r => if q <+: r then d.modified (p ++ r.drop q.length) else d.modified r }

def databaseFault : GoError := .plain "database fault"

def Control.run {α : Type} (d : Control) (c : Statement) (act : Store → Except StoreError (α × Store)) :
    Except GoError (α × Control) :=
  if d.fails c then .error databaseFault
  else
    match act d.store with
    | .ok (a, s) => .ok (a, { d with store := s })
    | .error e => .error (.store e)

/-- A statement that answers and may write. -/
def statement {α : Type} (c : Statement) (act : Store → Except StoreError (α × Store)) :
    Prog (Machine Control) GoError α :=
  step (fun t d => (d.run c act).map fun r => (r.1, t, r.2)) databaseFault atOnce

/-- A statement that reads. -/
def reading {α : Type} (c : Statement) (ask : Store → Except StoreError α) :
    Prog (Machine Control) GoError α :=
  statement c fun s => (ask s).map fun a => (a, s)

/-- A statement that writes. -/
def writing (c : Statement) (act : Store → Except StoreError Store) : Prog (Machine Control) GoError Unit :=
  statement c fun s => (act s).map fun s => ((), s)

/-! ## What they do -/

section
variable {κ : Fates} {b : Bool} {P : Tree → Control → Prop} {α : Type} {c : Statement}

theorem statement_does {act : Store → Except StoreError (α × Store)} :
    Does κ b P (statement c act)
      (fun a t d => ∃ s, P t { d with store := s } ∧ d.fails c = false ∧ act s = .ok (a, d.store))
      (fun _ t d => P t d ∧ (Calm κ b → d.fails c = true ∨ ∃ e, act d.store = .error e)) P := by
  refine step_does ?_ ?_
  · intro t d h
    by_cases hc : d.fails c = true
    · have hrun : d.run c act = .error databaseFault := by
        unfold Control.run
        rw [if_pos hc]
      rw [hrun]
      exact ⟨h, fun _ => .inl hc⟩
    · have hcall : d.fails c = false := Bool.eq_false_iff.mpr hc
      cases hact : act d.store with
      | ok r =>
        obtain ⟨a, s⟩ := r
        have hrun : d.run c act = .ok (a, { d with store := s }) := by
          unfold Control.run
          rw [if_neg hc, hact]
        rw [hrun]
        exact ⟨d.store, h, hcall, hact⟩
      | error e =>
        have hrun : d.run c act = .error (.store e) := by
          unfold Control.run
          rw [if_neg hc, hact]
        rw [hrun]
        exact ⟨h, fun _ => .inr ⟨e, rfl⟩⟩
  · intro hcalm t d written left h
    exact ⟨⟨h, fun hc => absurd hc hcalm⟩, h⟩

theorem reading_does {ask : Store → Except StoreError α} :
    Does κ b P (reading c ask) (fun a t d => P t d ∧ d.fails c = false ∧ ask d.store = .ok a)
      (fun _ t d => P t d ∧ (Calm κ b → d.fails c = true ∨ ∃ e, ask d.store = .error e)) P := by
  refine statement_does.post ?_ ?_ fun _ _ h => h
  · intro a t d h
    obtain ⟨s, hs, hcall, hact⟩ := h
    cases hask : ask s with
    | ok a' =>
      rw [hask] at hact
      cases hact
      exact ⟨hs, hcall, hask⟩
    | error e =>
      rw [hask] at hact
      cases hact
  · intro e t d h
    refine ⟨h.1, fun hcalm => (h.2 hcalm).imp_right fun hact => ?_⟩
    obtain ⟨e', he'⟩ := hact
    cases hask : ask d.store with
    | ok a => rw [hask] at he'; cases he'
    | error e => exact ⟨e, rfl⟩

theorem writing_does {act : Store → Except StoreError Store} :
    Does κ b P (writing c act)
      (fun _ t d => ∃ s, P t { d with store := s } ∧ d.fails c = false ∧ act s = .ok d.store)
      (fun _ t d => P t d ∧ (Calm κ b → d.fails c = true ∨ ∃ e, act d.store = .error e)) P := by
  refine statement_does.post ?_ ?_ fun _ _ h => h
  · intro a t d h
    obtain ⟨s, hs, hcall, hact⟩ := h
    cases hwrite : act s with
    | ok s' =>
      rw [hwrite] at hact
      cases hact
      exact ⟨s, hs, hcall, hwrite⟩
    | error e =>
      rw [hwrite] at hact
      cases hact
  · intro e t d h
    refine ⟨h.1, fun hcalm => (h.2 hcalm).imp_right fun hact => ?_⟩
    obtain ⟨e', he'⟩ := hact
    cases hwrite : act d.store with
    | ok s => rw [hwrite] at he'; cases he'
    | error e => exact ⟨e, rfl⟩

end

end AppBackup.Persistence
