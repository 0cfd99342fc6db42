import AppBackup.Lib.Base64
import AppBackup.Lib.Program
import Mathlib.Data.Fin.Basic
import Mathlib.Data.List.Basic
import Mathlib.Data.List.Infix

/- A file system of directories and files, without links, and the calls a program makes on
   it. A `Tree` gives the object at each absolute path; what lies in a directory that is
   not there cannot be built. Each call goes through, fails or is where the process dies,
   as the `Fate` of its step says, and a write or a removal that is cut short leaves a part
   of its effect. Clean-up has fates of its own, so that a statement may ask it to succeed.

   `At κ b P` is the assertion of a program whose steps have the fates `κ`. -/
namespace Disk
open Program

abbrev Byte := Fin 256

inductive Object where
  | directory
  | file (bytes : List Byte)
  | special
  deriving DecidableEq

/-- The object at each path from the root of the file system. -/
structure Tree where
  obj : List String → Option Object
  root : obj [] = some .directory
  parents : ∀ p name o, obj (p ++ [name]) = some o → obj p = some .directory

inductive IoError where
  | notExist
  | exist
  | notDirectory
  | isDirectory
  | fault
  deriving DecidableEq

namespace Tree

/-- What lies at the prefixes of a path that is there are directories. -/
theorem prefix_directory (t : Tree) {p : List String} : ∀ {rest : List String} {o : Object},
    t.obj (p ++ rest) = some o → rest ≠ [] → t.obj p = some .directory := by
  intro rest
  induction rest using List.reverseRecOn with
  | nil =>
    intro o _ hne
    exact absurd rfl hne
  | append_singleton rest name ih =>
    intro o h _
    rw [← List.append_assoc] at h
    have hparent := t.parents _ _ _ h
    by_cases hrest : rest = []
    · rw [hrest, List.append_nil] at hparent
      exact hparent
    · exact ih hparent hrest

theorem below_none (t : Tree) {p rest : List String} (h : t.obj p ≠ some .directory) (hne : rest ≠ []) :
    t.obj (p ++ rest) = none := by
  cases ho : t.obj (p ++ rest) with
  | none => rfl
  | some o => exact absurd (t.prefix_directory ho hne) h

/-- The error for a path at which nothing is. -/
def missing (t : Tree) (p : List String) : IoError :=
  if p.inits.any fun q => t.obj q != none && t.obj q != some .directory then .notDirectory
  else .notExist

def lookup (t : Tree) (p : List String) : Except IoError Object :=
  match t.obj p with
  | some o => .ok o
  | none => .error (t.missing p)

theorem parent_directory (t : Tree) {p : List String} {o : Object} (h : t.obj p = some o) (hne : p ≠ []) :
    t.obj p.dropLast = some .directory := by
  refine t.parents p.dropLast (p.getLast hne) o ?_
  rw [List.dropLast_append_getLast hne]
  exact h

/-- Another object, or none, at a path that is no directory. -/
def replace (t : Tree) (p : List String) (o : Option Object) (hfree : t.obj p ≠ some .directory)
    (hparent : o ≠ none → t.obj p.dropLast = some .directory) : Tree where
  obj := Function.update t.obj p o
  root := by
    have hne : [] ≠ p := by
      intro he
      exact hfree (he ▸ t.root)
    rw [Function.update_of_ne hne]
    exact t.root
  parents := by
    intro q name o' h
    have hq : t.obj q = some .directory := by
      by_cases he : q ++ [name] = p
      · have ho : o ≠ none := by
          rw [he, Function.update_self] at h
          rw [h]
          exact Option.some_ne_none o'
        have hdir := hparent ho
        rw [← he, List.dropLast_concat] at hdir
        exact hdir
      · rw [Function.update_of_ne he] at h
        exact t.parents q name o' h
    have hne : q ≠ p := by
      intro he
      exact hfree (he ▸ hq)
    rw [Function.update_of_ne hne]
    exact hq

def create (t : Tree) (p : List String) (o : Object) : Except IoError Tree :=
  if hnew : t.obj p = none then
    if hparent : t.obj p.dropLast = some .directory then
      .ok (t.replace p (some o) (by simp [hnew]) fun _ => hparent)
    else .error (t.missing p)
  else .error .exist

/-- A directory that is there or made in its parent. -/
def ensure (t : Tree) (p : List String) : Except IoError Tree :=
  match t.obj p with
  | some .directory => .ok t
  | some _ => .error .notDirectory
  | none => t.create p .directory

/-- Bytes at the end of a file. -/
def append (t : Tree) (p : List String) (bytes : List Byte) : Except IoError Tree :=
  match h : t.obj p with
  | some (.file old) =>
    .ok (t.replace p (some (.file (old ++ bytes))) (by simp [h]) fun _ =>
      t.parent_directory h (by intro he; rw [he, t.root] at h; cases h))
  | some .directory => .error .isDirectory
  | some .special => .error .fault
  | none => .error (t.missing p)

def read (t : Tree) (p : List String) : Except IoError (List Byte) :=
  match t.obj p with
  | some (.file bytes) => .ok bytes
  | some .directory => .error .isDirectory
  | some .special => .error .fault
  | none => .error (t.missing p)

/-- `os.Remove` of what is no directory. -/
def remove (t : Tree) (p : List String) : Except IoError Tree :=
  match h : t.obj p with
  | some .directory => .error .isDirectory
  | some (.file _) => .ok (t.replace p none (by simp [h]) fun hne => absurd rfl hne)
  | some .special => .ok (t.replace p none (by simp [h]) fun hne => absurd rfl hne)
  | none => .error (t.missing p)

/-- `os.Rename` of a file: a file at the new path is replaced. -/
def rename (t : Tree) (p q : List String) : Except IoError Tree :=
  match t.read p with
  | .error e => .error e
  | .ok bytes =>
    match t.remove p with
    | .error e => .error e
    | .ok t' =>
      if hdir : t'.obj q = some .directory then .error .exist
      else if hparent : t'.obj q.dropLast = some .directory then
        .ok (t'.replace q (some (.file bytes)) hdir fun _ => hparent)
      else .error (t.missing q)

/-- A path is kept when it is not at or below `p`, or `left` keeps it and all between. -/
def keeps (p : List String) (left : List String → Bool) (q : List String) : Bool :=
  q.inits.all fun r => !p.isPrefixOf r || left r

/-- What `left` does not keep of the object at `p` and all below it goes. -/
def erase (t : Tree) (p : List String) (left : List String → Bool) (hp : p ≠ []) : Tree where
  obj q := if keeps p left q then t.obj q else none
  root := by
    have hkeep : keeps p left [] = true := by
      obtain ⟨name, rest, rfl⟩ := List.exists_cons_of_ne_nil hp
      simp [keeps]
    rw [if_pos hkeep]
    exact t.root
  parents := by
    intro q name o h
    by_cases hkeep : keeps p left (q ++ [name]) = true
    · rw [if_pos hkeep] at h
      have hq : keeps p left q = true := by
        unfold keeps at hkeep ⊢
        rw [List.all_eq_true] at hkeep ⊢
        intro r hr
        apply hkeep r
        rw [List.mem_inits] at hr ⊢
        exact hr.trans (List.prefix_append q [name])
      rw [if_pos hq]
      exact t.parents q name o h
    · rw [if_neg hkeep] at h
      cases h

/-- All of what lies at and below a path. -/
def removeAll (t : Tree) (p : List String) (left : List String → Bool) : Tree :=
  if hp : p ≠ [] then t.erase p left hp else t

/-- Only the root. -/
def bare : Tree where
  obj p := if p = [] then some .directory else none
  root := rfl
  parents := by
    intro p name o h
    rw [if_neg (List.append_ne_nil_of_right_ne_nil _ (List.cons_ne_nil _ _))] at h
    cases h

/-- More objects, each where it can be created. -/
def withObjects (t : Tree) (objects : List (List String × Object)) : Tree :=
  objects.foldl (fun t x => (t.create x.1 x.2).toOption.getD t) t

end Tree

/-! ## What the operations do to the objects -/

namespace Tree
variable {t t' : Tree} {p q : List String} {o : Object} {bytes : List Byte}

theorem create_ok (h : t.create p o = .ok t') :
    t.obj p = none ∧ t'.obj = Function.update t.obj p (some o) := by
  unfold create at h
  split at h
  · next hnew =>
    split at h
    · cases h
      exact ⟨hnew, rfl⟩
    · cases h
  · cases h

theorem create_eq (hnew : t.obj p = none) (hparent : t.obj p.dropLast = some .directory) :
    ∃ t', t.create p o = .ok t' ∧ t'.obj = Function.update t.obj p (some o) := by
  unfold create
  rw [dif_pos hnew, dif_pos hparent]
  exact ⟨_, rfl, rfl⟩

theorem append_ok (h : t.append p bytes = .ok t') : ∃ old, t.obj p = some (.file old) ∧
    t'.obj = Function.update t.obj p (some (.file (old ++ bytes))) := by
  unfold append at h
  split at h
  · next old hold =>
    cases h
    exact ⟨old, hold, rfl⟩
  · cases h
  · cases h
  · cases h

theorem append_eq {old : List Byte} (hold : t.obj p = some (.file old)) : ∃ t',
    t.append p bytes = .ok t' ∧ t'.obj = Function.update t.obj p (some (.file (old ++ bytes))) := by
  unfold append
  split
  · next old' hold' =>
    rw [hold] at hold'
    cases hold'
    exact ⟨_, rfl, rfl⟩
  · next h => rw [hold] at h; cases h
  · next h => rw [hold] at h; cases h
  · next h => rw [hold] at h; cases h

theorem read_iff : t.read p = .ok bytes ↔ t.obj p = some (.file bytes) := by
  unfold read
  split
  · next bytes' h => simp [h]
  · next h => simp [h]
  · next h => simp [h]
  · next h => simp [h]

theorem lookup_iff : t.lookup p = .ok o ↔ t.obj p = some o := by
  unfold lookup
  cases t.obj p with
  | none => simp
  | some o' => simp

theorem lookup_error {e : IoError} (h : t.lookup p = .error e) : t.obj p = none ∧ e = t.missing p := by
  unfold lookup at h
  cases hp : t.obj p with
  | none =>
    rw [hp] at h
    exact ⟨rfl, (Except.error.inj h).symm⟩
  | some o =>
    rw [hp] at h
    cases h

/-- A path is missing for no other reason than that it is not there, where all its prefixes
are directories or not there. -/
theorem missing_notExist (h : ∀ q, q <+: p → t.obj q = none ∨ t.obj q = some .directory) :
    t.missing p = .notExist := by
  unfold missing
  rw [if_neg]
  intro hany
  obtain ⟨q, hq, hbad⟩ := List.any_eq_true.mp hany
  obtain hnone | hdir := h q ((List.mem_inits q p).mp hq)
  · simp [hnone] at hbad
  · simp [hdir] at hbad

theorem remove_ok (h : t.remove p = .ok t') :
    t.obj p ≠ none ∧ t.obj p ≠ some .directory ∧ t'.obj = Function.update t.obj p none := by
  unfold remove at h
  split at h
  · cases h
  · next hf =>
    cases h
    exact ⟨by simp [hf], by simp [hf], rfl⟩
  · next hf =>
    cases h
    exact ⟨by simp [hf], by simp [hf], rfl⟩
  · cases h

theorem remove_eq (hfile : t.obj p = some (.file bytes)) :
    ∃ t', t.remove p = .ok t' ∧ t'.obj = Function.update t.obj p none := by
  unfold remove
  split
  · next h => rw [hfile] at h; cases h
  · exact ⟨_, rfl, rfl⟩
  · exact ⟨_, rfl, rfl⟩
  · next h => rw [hfile] at h; cases h

theorem rename_ok (h : t.rename p q = .ok t') : ∃ bytes, t.obj p = some (.file bytes) ∧
    t'.obj = Function.update (Function.update t.obj p none) q (some (.file bytes)) := by
  unfold rename at h
  split at h
  · cases h
  · next bytes hread =>
    split at h
    · cases h
    · next moved hmoved =>
      split at h
      · cases h
      · split at h
        · cases h
          refine ⟨bytes, read_iff.mp hread, ?_⟩
          show Function.update moved.obj q _ = _
          rw [(remove_ok hmoved).2.2]
        · cases h

theorem rename_eq (hfile : t.obj p = some (.file bytes)) (hq : t.obj q ≠ some .directory)
    (hparent : t.obj q.dropLast = some .directory) : ∃ t', t.rename p q = .ok t' ∧
      t'.obj = Function.update (Function.update t.obj p none) q (some (.file bytes)) := by
  obtain ⟨moved, hmoved, hobj⟩ := remove_eq hfile
  have hdir : moved.obj q ≠ some .directory := by
    rw [hobj]
    by_cases hqp : q = p
    · rw [hqp, Function.update_self]
      exact fun h => Option.some_ne_none _ h.symm
    · rw [Function.update_of_ne hqp]
      exact hq
  have hmovedParent : moved.obj q.dropLast = some .directory := by
    have hne : q.dropLast ≠ p := by
      intro he
      rw [he, hfile] at hparent
      cases hparent
    rw [hobj, Function.update_of_ne hne]
    exact hparent
  unfold rename
  rw [read_iff.mpr hfile]
  simp only [hmoved]
  rw [dif_neg hdir, dif_pos hmovedParent]
  refine ⟨_, rfl, ?_⟩
  show Function.update moved.obj q _ = _
  rw [hobj]

theorem keeps_outside {left : List String → Bool} (h : ¬p <+: q) : keeps p left q = true := by
  unfold keeps
  rw [List.all_eq_true]
  intro r hr
  rw [List.mem_inits] at hr
  have hp : p.isPrefixOf r = false :=
    Bool.eq_false_iff.mpr fun hp => h ((List.isPrefixOf_iff_prefix.mp hp).trans hr)
  rw [hp]
  rfl

theorem removeAll_elsewhere {left : List String → Bool} (h : ¬p <+: q) :
    (t.removeAll p left).obj q = t.obj q := by
  unfold removeAll
  split
  · show (if keeps p left q = true then t.obj q else none) = t.obj q
    rw [if_pos (keeps_outside h)]
  · rfl

theorem removeAll_some {left : List String → Bool} (h : (t.removeAll p left).obj q = some o) :
    t.obj q = some o := by
  unfold removeAll at h
  split at h
  · have h : (if keeps p left q = true then t.obj q else none) = some o := h
    split at h
    · exact h
    · cases h
  · exact h

theorem removeAll_below (hne : p ≠ []) (h : p <+: q) :
    (t.removeAll p fun _ => false).obj q = none := by
  unfold removeAll
  rw [dif_pos hne]
  show (if keeps p (fun _ => false) q = true then t.obj q else none) = none
  rw [if_neg]
  intro hkeep
  unfold keeps at hkeep
  rw [List.all_eq_true] at hkeep
  have hp := hkeep p ((List.mem_inits p q).mpr h)
  rw [List.isPrefixOf_iff_prefix.mpr (List.prefix_refl p)] at hp
  cases hp

/-- The directories down to `p` are there, and all else is as it was. -/
def Laid (t : Tree) (p : List String) (t' : Tree) : Prop :=
  t'.obj = fun q => if q <+: p then some .directory else t.obj q

/-- Nothing is in the way of the directories down to `p`. -/
def Passable (t : Tree) (p : List String) : Prop :=
  ∀ q, q <+: p → t.obj q = none ∨ t.obj q = some .directory

theorem prefix_of_directory (h : t.obj p = some .directory) (hq : q <+: p) : t.obj q = some .directory := by
  obtain ⟨rest, rfl⟩ := hq
  by_cases hne : rest = []
  · rw [hne, List.append_nil] at h
    exact h
  · exact t.prefix_directory h hne

theorem laid_self (h : t.obj p = some .directory) : Laid t p t := by
  funext q
  split
  · next hq => exact prefix_of_directory h hq
  · rfl

theorem passable_of_directory (h : t.obj p = some .directory) : Passable t p :=
  fun _ hq => .inr (prefix_of_directory h hq)

theorem Laid.trans {t'' : Tree} (h : Laid t p t') (hpq : p <+: q) (h' : Laid t' q t'') : Laid t q t'' := by
  unfold Laid at h h' ⊢
  rw [h', h]
  funext r
  by_cases hr : r <+: q
  · rw [if_pos hr, if_pos hr]
  · have hrp : ¬r <+: p := fun hrp => hr (hrp.trans hpq)
    rw [if_neg hr, if_neg hr]
    exact if_neg hrp

theorem Laid.again {t'' : Tree} (h : Laid t p t') (hqp : q <+: p) (h' : Laid t' q t'') : Laid t p t'' := by
  have hdir : t'.obj q = some .directory := by
    rw [h]
    exact if_pos hqp
  have hsame : t''.obj = t'.obj := Eq.trans h' (laid_self hdir).symm
  exact Eq.trans hsame h

theorem Laid.passable_iff (h : Laid t p t') (hp : Passable t p) : Passable t' q ↔ Passable t q := by
  unfold Laid at h
  refine ⟨fun hq r hr => ?_, fun hq r hr => ?_⟩
  · by_cases hrp : r <+: p
    · exact hp r hrp
    · have hr := hq r hr
      rw [h] at hr
      simp only [if_neg hrp] at hr
      exact hr
  · rw [h]
    by_cases hrp : r <+: p
    · exact .inr (if_pos hrp)
    · simp only [if_neg hrp]
      exact hq r hr

theorem ensure_ok {name : String} (hp : t.obj p = some .directory)
    (h : t.ensure (p ++ [name]) = .ok t') : Laid t (p ++ [name]) t' ∧ Passable t (p ++ [name]) := by
  have hpass : (t.obj (p ++ [name]) = none ∨ t.obj (p ++ [name]) = some .directory) →
      Passable t (p ++ [name]) := by
    intro hlast q hq
    obtain rfl | hq := List.prefix_concat_iff.mp hq
    · exact hlast
    · exact .inr (prefix_of_directory hp hq)
  unfold ensure at h
  split at h
  · next hdir =>
    cases h
    exact ⟨laid_self hdir, hpass (.inr hdir)⟩
  · cases h
  · next hnone =>
    obtain ⟨-, hobj⟩ := create_ok h
    refine ⟨?_, hpass (.inl hnone)⟩
    unfold Laid
    rw [hobj]
    funext q
    by_cases hq : q = p ++ [name]
    · rw [hq, Function.update_self, if_pos (List.prefix_refl _)]
    · rw [Function.update_of_ne hq]
      by_cases hqp : q <+: p ++ [name]
      · rw [if_pos hqp]
        exact prefix_of_directory hp ((List.prefix_concat_iff.mp hqp).resolve_left hq)
      · rw [if_neg hqp]

theorem ensure_error {name : String} {e : IoError} (hp : t.obj p = some .directory)
    (h : t.ensure (p ++ [name]) = .error e) : ¬Passable t (p ++ [name]) := by
  intro hpass
  obtain hnone | hdir := hpass _ (List.prefix_refl _)
  · have hparent : t.obj (p ++ [name]).dropLast = some .directory := by
      rw [List.dropLast_concat]
      exact hp
    obtain ⟨t', hcreate, -⟩ := create_eq (o := .directory) hnone hparent
    unfold ensure at h
    rw [hnone] at h
    rw [hcreate] at h
    cases h
  · unfold ensure at h
    rw [hdir] at h
    cases h

end Tree

/-! ## Steps and their fates -/

/-- A call goes through, fails or kills the process; a write cut short has written some
bytes, a removal cut short has left some objects. -/
inductive Fate where
  | goes
  | fails (written : Nat) (left : List String → Bool)
  | dies (written : Nat) (left : List String → Bool)

/-- The fates of the steps of a process, and of those of its clean-ups. -/
abbrev Fates := Bool → Nat → Fate

/-- A process: the file system, its other data, and the number of steps it has taken. -/
structure Machine (δ : Type) where
  tree : Tree
  data : δ
  fate : Fates
  cleaning : Bool
  ticks : Nat

variable {δ ε α : Type}

/-- A process at its start, in which nothing fails for a reason of its own. -/
def Machine.calm (tree : Tree) (data : δ) : Machine δ := ⟨tree, data, fun _ _ => .goes, false, 0⟩

/-- A step on the tree and the data; `part` is what one that is cut short leaves. -/
def step (act : Tree → δ → Except ε (α × Tree × δ)) (fault : ε)
    (part : Nat → (List String → Bool) → Tree → Tree) : Prog (Machine δ) ε α := fun m =>
  let m' := { m with ticks := m.ticks + 1 }
  match m.fate m.cleaning m.ticks with
  | .goes =>
    match act m.tree m.data with
    | .ok (a, t, d) => .done a { m' with tree := t, data := d }
    | .error e => .failed e m'
  | .fails written left => .failed fault { m' with tree := part written left m.tree }
  | .dies written left => .crashed { m' with tree := part written left m.tree }

/-- A call on the tree. -/
def call (act : Tree → Except IoError (α × Tree)) (part : Nat → (List String → Bool) → Tree → Tree) :
    Prog (Machine δ) IoError α :=
  step (fun t d => (act t).map fun r => (r.1, r.2, d)) .fault part

/-- A call that looks at the tree. -/
def look (ask : Tree → Except IoError α) : Prog (Machine δ) IoError α :=
  call (fun t => (ask t).map fun a => (a, t)) fun _ _ t => t

/-- A call that changes the tree, all at once or in the parts `part` says. -/
def change (act : Tree → Except IoError Tree) (part : Nat → (List String → Bool) → Tree → Tree) :
    Prog (Machine δ) IoError Unit :=
  call (fun t => (act t).map fun t => ((), t)) part

def atOnce (_ : Nat) (_ : List String → Bool) (t : Tree) : Tree := t

def lstat (p : List String) : Prog (Machine δ) IoError Object := look (·.lookup p)

def readFile (p : List String) : Prog (Machine δ) IoError (List Byte) := look (·.read p)

def mkdir (p : List String) : Prog (Machine δ) IoError Unit := change (·.create p .directory) atOnce

/-- `os.MkdirAll` below a directory. -/
def mkdirFrom (root : List String) : List String → Prog (Machine δ) IoError Unit
  | [] => pure ()
  | name :: rest => do
    change (·.ensure (root ++ [name])) atOnce
    mkdirFrom (root ++ [name]) rest

/-- `os.MkdirAll`. -/
def mkdirAll (p : List String) : Prog (Machine δ) IoError Unit := mkdirFrom [] p

/-- `os.OpenFile` with `O_CREATE | O_EXCL`. -/
def createExclusive (p : List String) : Prog (Machine δ) IoError Unit :=
  change (·.create p (.file [])) atOnce

/-- What a write that is cut short leaves. -/
def partWritten (p : List String) (bytes : List Byte) (written : Nat) (_ : List String → Bool)
    (t : Tree) : Tree :=
  match t.append p (bytes.take written) with
  | .ok t => t
  | .error _ => t

def write (p : List String) (bytes : List Byte) : Prog (Machine δ) IoError Unit :=
  change (·.append p bytes) (partWritten p bytes)

def remove (p : List String) : Prog (Machine δ) IoError Unit := change (·.remove p) atOnce

def rename (p q : List String) : Prog (Machine δ) IoError Unit := change (·.rename p q) atOnce

/-- `os.RemoveAll`. -/
def removeAll (p : List String) : Prog (Machine δ) IoError Unit :=
  change (fun t => .ok (t.removeAll p fun _ => false)) fun _ left t => t.removeAll p left

/-- A program run as clean-up. -/
def cleaningUp (c : Prog (Machine δ) ε α) : Prog (Machine δ) ε α := fun m =>
  match c { m with cleaning := true } with
  | .done a m' => .done a { m' with cleaning := m.cleaning }
  | .failed e m' => .failed e { m' with cleaning := m.cleaning }
  | .crashed m' => .crashed { m' with cleaning := m.cleaning }

/-! ## Assertions -/

/-- No step of a process, or of its clean-ups, fails for a reason of its own. -/
def Calm (κ : Fates) (b : Bool) : Prop := ∀ n, κ b n = .goes

/-- The tree and the data meet `P`, in a process with the fates `κ`. -/
def At (κ : Fates) (b : Bool) (P : Tree → δ → Prop) (m : Machine δ) : Prop :=
  m.fate = κ ∧ m.cleaning = b ∧ P m.tree m.data

/-- A triple over the tree and the data. -/
def Does (κ : Fates) (b : Bool) (P : Tree → δ → Prop) (c : Prog (Machine δ) ε α)
    (Q : α → Tree → δ → Prop) (F : ε → Tree → δ → Prop) (C : Tree → δ → Prop) : Prop :=
  Triple (At κ b P) c (fun a => At κ b (Q a)) (fun e => At κ b (F e)) (At κ b C)

section
variable {κ : Fates} {b : Bool} {P P' : Tree → δ → Prop} {Q Q' : α → Tree → δ → Prop}
  {F F' : ε → Tree → δ → Prop} {C C' : Tree → δ → Prop} {c : Prog (Machine δ) ε α}

theorem Does.weaken (h : Does κ b P c Q F C) (hP : ∀ t d, P' t d → P t d)
    (hQ : ∀ a t d, Q a t d → Q' a t d) (hF : ∀ e t d, F e t d → F' e t d)
    (hC : ∀ t d, C t d → C' t d) : Does κ b P' c Q' F' C' := by
  refine Triple.weaken h ?_ ?_ ?_ ?_
  · intro m ⟨hκ, hb, hm⟩
    exact ⟨hκ, hb, hP _ _ hm⟩
  · intro a m ⟨hκ, hb, hm⟩
    exact ⟨hκ, hb, hQ a _ _ hm⟩
  · intro e m ⟨hκ, hb, hm⟩
    exact ⟨hκ, hb, hF e _ _ hm⟩
  · intro m ⟨hκ, hb, hm⟩
    exact ⟨hκ, hb, hC _ _ hm⟩

theorem Does.post (h : Does κ b P c Q F C) (hQ : ∀ a t d, Q a t d → Q' a t d)
    (hF : ∀ e t d, F e t d → F' e t d) (hC : ∀ t d, C t d → C' t d) : Does κ b P c Q' F' C' :=
  h.weaken (fun _ _ hp => hp) hQ hF hC

theorem Does.pre (h : Does κ b P c Q F C) (hP : ∀ t d, P' t d → P t d) : Does κ b P' c Q F C :=
  h.weaken hP (fun _ _ _ hq => hq) (fun _ _ _ hf => hf) fun _ _ hc => hc

theorem Does.each_start (h : ∀ t₀ d₀, P t₀ d₀ → Does κ b (fun t d => t = t₀ ∧ d = d₀) c Q F C) :
    Does κ b P c Q F C := by
  intro m ⟨hκ, hb, hm⟩
  exact h m.tree m.data hm m ⟨hκ, hb, rfl, rfl⟩

theorem Does.start {φ : Prop} (hP : ∀ t d, P t d → φ) (h : φ → Does κ b P c Q F C) :
    Does κ b P c Q F C := by
  intro m ⟨hκ, hb, hm⟩
  exact h (hP _ _ hm) m ⟨hκ, hb, hm⟩

theorem Does.bind {β : Type} {k : α → Prog (Machine δ) ε β} {R : α → Tree → δ → Prop}
    {Q : β → Tree → δ → Prop} (hc : Does κ b P c R F C) (hk : ∀ a, Does κ b (R a) (k a) Q F C) :
    Does κ b P (c >>= k) Q F C :=
  Triple.bind hc hk

theorem Does.pure {a : α} (h : ∀ t d, P t d → Q a t d) :
    Does κ b P (Pure.pure a : Prog (Machine δ) ε α) Q F C :=
  Triple.pure fun _ ⟨hκ, hb, hm⟩ => ⟨hκ, hb, h _ _ hm⟩

theorem Does.fail {e : ε} (h : ∀ t d, P t d → F e t d) :
    Does κ b P (Prog.fail e : Prog (Machine δ) ε α) Q F C :=
  Triple.fail fun _ ⟨hκ, hb, hm⟩ => ⟨hκ, hb, h _ _ hm⟩

theorem Does.attempt {ε' : Type} {R : Except ε α → Tree → δ → Prop} {F : ε' → Tree → δ → Prop}
    (h : Does κ b P c (fun a => R (.ok a)) (fun e => R (.error e)) C) :
    Does κ b P (c.attempt : Prog (Machine δ) ε' (Except ε α)) R F C :=
  Triple.attempt h

theorem Does.mapError {ε' : Type} {f : ε → ε'} {F : ε' → Tree → δ → Prop}
    (h : Does κ b P c Q (fun e => F (f e)) C) : Does κ b P (c.mapError f) Q F C :=
  Triple.mapError h

theorem Does.ite {p : Prop} [Decidable p] {c₁ c₂ : Prog (Machine δ) ε α} (h₁ : p → Does κ b P c₁ Q F C)
    (h₂ : ¬p → Does κ b P c₂ Q F C) : Does κ b P (if p then c₁ else c₂) Q F C :=
  Triple.ite h₁ h₂

theorem Does.each {ι : Type} {body : ι → Prog (Machine δ) ε Unit} {I : List ι → Tree → δ → Prop}
    (l : List ι) (h : ∀ i rest, Does κ b (I (i :: rest)) (body i) (fun _ => I rest) F C) :
    Does κ b (I l) (Prog.each l body) (fun _ => I []) F C :=
  Triple.each (I := fun l => At κ b (I l)) l h

theorem Does.cleaningUp (h : Does κ true P c Q F C) : Does κ b P (cleaningUp c) Q F C := by
  intro m ⟨hκ, hb, hm⟩
  have hrun := h { m with cleaning := true } ⟨hκ, rfl, hm⟩
  unfold Disk.cleaningUp
  cases hr : c { m with cleaning := true } with
  | done a m' => rw [hr] at hrun; exact ⟨hrun.1, hb, hrun.2.2⟩
  | failed e m' => rw [hr] at hrun; exact ⟨hrun.1, hb, hrun.2.2⟩
  | crashed m' => rw [hr] at hrun; exact ⟨hrun.1, hb, hrun.2.2⟩

theorem Does.onFailure {ε' : Type} {cleanup : Prog (Machine δ) ε' Unit} {G : ε → Tree → δ → Prop}
    (h : Does κ b P c Q G C)
    (hfailed : ∀ e, Does κ true (G e) cleanup (fun _ => F e) (fun _ => F e) C) :
    Does κ b P (Prog.onFailure (Disk.cleaningUp cleanup) c) Q F C :=
  Triple.onFailure h fun e => (hfailed e).cleaningUp

theorem Does.deferred {ε' : Type} {cleanup : Prog (Machine δ) ε' Unit} {R : α → Tree → δ → Prop}
    {G : ε → Tree → δ → Prop} (h : Does κ b P c R G C)
    (hdone : ∀ a, Does κ true (R a) cleanup (fun _ => Q a) (fun _ => Q a) C)
    (hfailed : ∀ e, Does κ true (G e) cleanup (fun _ => F e) (fun _ => F e) C) :
    Does κ b P (Prog.deferred (Disk.cleaningUp cleanup) c) Q F C :=
  Triple.deferred h (fun a => (hdone a).cleaningUp) fun e => (hfailed e).cleaningUp

/-- What a step does; one that is cut short does so only where the fates are not calm. -/
theorem step_does {act : Tree → δ → Except ε (α × Tree × δ)} {fault : ε}
    {part : Nat → (List String → Bool) → Tree → Tree}
    (hgo : ∀ t d, P t d → match act t d with
      | .ok (a, t', d') => Q a t' d'
      | .error e => F e t d)
    (hcut : ¬Calm κ b → ∀ t d written left, P t d →
      F fault (part written left t) d ∧ C (part written left t) d) :
    Does κ b P (step act fault part) Q F C := by
  intro m ⟨hκ, hb, hm⟩
  have hgo := hgo m.tree m.data hm
  have hcalm : ∀ written left, (m.fate m.cleaning m.ticks = .fails written left ∨
      m.fate m.cleaning m.ticks = .dies written left) → ¬Calm κ b := by
    intro written left hfate hcalm
    rw [hκ, hb, hcalm m.ticks] at hfate
    obtain h | h := hfate <;> cases h
  unfold step
  cases hfate : m.fate m.cleaning m.ticks with
  | goes =>
    cases hact : act m.tree m.data with
    | ok r =>
      obtain ⟨a, t, d⟩ := r
      rw [hact] at hgo
      exact ⟨hκ, hb, hgo⟩
    | error e =>
      rw [hact] at hgo
      exact ⟨hκ, hb, hgo⟩
  | fails written left =>
    exact ⟨hκ, hb, (hcut (hcalm written left (.inl hfate)) _ _ written left hm).1⟩
  | dies written left =>
    exact ⟨hκ, hb, (hcut (hcalm written left (.inr hfate)) _ _ written left hm).2⟩

theorem call_does {act : Tree → Except IoError (α × Tree)}
    {part : Nat → (List String → Bool) → Tree → Tree} {F : IoError → Tree → δ → Prop}
    (hgo : ∀ t d, P t d → match act t with
      | .ok (a, t') => Q a t' d
      | .error e => F e t d)
    (hcut : ¬Calm κ b → ∀ t d written left, P t d →
      F .fault (part written left t) d ∧ C (part written left t) d) :
    Does κ b P (call act part) Q F C := by
  refine step_does ?_ hcut
  intro t d ht
  have hgo := hgo t d ht
  cases hact : act t with
  | ok r => rw [hact] at hgo; exact hgo
  | error e => rw [hact] at hgo; exact hgo

theorem Does.run (h : Does κ b P c Q F C) {m : Machine δ} (hm : At κ b P m) :
    match c m with
    | .done a m' => At κ b (Q a) m'
    | .failed e m' => At κ b (F e) m'
    | .crashed m' => At κ b C m' := by
  have hrun := h m hm
  cases hc : c m with
  | done a m' => rw [hc] at hrun; exact hrun
  | failed e m' => rw [hc] at hrun; exact hrun
  | crashed m' => rw [hc] at hrun; exact hrun

-- from here on only these rules look into a triple
attribute [irreducible] Does

/-! ## The calls -/

theorem look_does {ask : Tree → Except IoError α} :
    Does κ b P (look ask) (fun a t d => P t d ∧ ask t = .ok a)
      (fun e t d => P t d ∧ (ask t = .error e ∨ (¬Calm κ b ∧ e = .fault))) P := by
  refine call_does ?_ ?_
  · intro t d ht
    cases hask : ask t with
    | ok a => exact ⟨ht, hask⟩
    | error e => exact ⟨ht, .inl rfl⟩
  · intro hcalm t d written left ht
    exact ⟨⟨ht, .inr ⟨hcalm, rfl⟩⟩, ht⟩

theorem change_does {act : Tree → Except IoError Tree} {part : Nat → (List String → Bool) → Tree → Tree} :
    Does κ b P (change act part) (fun _ t d => ∃ t', P t' d ∧ act t' = .ok t)
      (fun e t d => (P t d ∧ act t = .error e) ∨
        (¬Calm κ b ∧ ∃ t' written left, P t' d ∧ t = part written left t'))
      (fun t d => ∃ t' written left, P t' d ∧ t = part written left t') := by
  refine call_does ?_ ?_
  · intro t d ht
    cases hact : act t with
    | ok t' => exact ⟨t, ht, hact⟩
    | error e => exact .inl ⟨ht, rfl⟩
  · intro hcalm t d written left ht
    exact ⟨.inr ⟨hcalm, t, written, left, ht, rfl⟩, t, written, left, ht, rfl⟩

theorem change_atOnce {act : Tree → Except IoError Tree} :
    Does κ b P (change act atOnce) (fun _ t d => ∃ t', P t' d ∧ act t' = .ok t)
      (fun e t d => P t d ∧ (Calm κ b → act t = .error e)) P := by
  refine change_does.weaken (fun _ _ h => h) (fun _ _ _ h => h) ?_ ?_
  · intro e t d h
    obtain ⟨ht, hact⟩ | ⟨hcalm, t', written, left, ht, rfl⟩ := h
    · exact ⟨ht, fun _ => hact⟩
    · exact ⟨ht, fun h => absurd h hcalm⟩
  · intro t d h
    obtain ⟨t', written, left, ht, rfl⟩ := h
    exact ht

/-- Some of the directories down to `p` have been made. -/
def PartLaid (P : Tree → δ → Prop) (p : List String) (t : Tree) (d : δ) : Prop :=
  ∃ t' q, P t' d ∧ q <+: p ∧ Tree.Laid t' q t ∧ Tree.Passable t' q

theorem mkdirFrom_does {root names : List String} (hroot : ∀ t d, P t d → t.obj root = some .directory) :
    Does κ b P (mkdirFrom root names)
      (fun _ t d => ∃ t', P t' d ∧ Tree.Laid t' (root ++ names) t ∧ Tree.Passable t' (root ++ names))
      (fun _ t d => PartLaid (fun t' d => P t' d ∧ (Calm κ b → ¬Tree.Passable t' (root ++ names)))
        (root ++ names) t d)
      (PartLaid P (root ++ names)) := by
  induction names generalizing root P with
  | nil =>
    refine Does.pure fun t d ht => ⟨t, ht, ?_, ?_⟩
    · rw [List.append_nil]
      exact Tree.laid_self (hroot t d ht)
    · rw [List.append_nil]
      exact Tree.passable_of_directory (hroot t d ht)
  | cons name rest ih =>
    have hlong : root ++ [name] <+: root ++ name :: rest := by
      exact ⟨rest, (List.append_cons root name rest).symm⟩
    refine Does.bind (R := fun _ t d => ∃ t', P t' d ∧ Tree.Laid t' (root ++ [name]) t ∧
      Tree.Passable t' (root ++ [name])) (change_atOnce.weaken (fun _ _ h => h) ?_ ?_ ?_) fun _ => ?_
    · intro _ t d h
      obtain ⟨t', ht', hensure⟩ := h
      exact ⟨t', ht', Tree.ensure_ok (hroot t' d ht') hensure⟩
    · -- the directory could not be made: what is in the way of it is in the way of all
      intro e t d h
      obtain ⟨ht, hfail⟩ := h
      refine ⟨t, root, ⟨ht, fun hcalm hpass => ?_⟩, List.prefix_append .., ?_, ?_⟩
      · exact Tree.ensure_error (hroot t d ht) (hfail hcalm) fun q hq => hpass q (hq.trans hlong)
      · exact Tree.laid_self (hroot t d ht)
      · exact Tree.passable_of_directory (hroot t d ht)
    · intro t d ht
      exact ⟨t, root, ht, List.prefix_append .., Tree.laid_self (hroot t d ht),
        Tree.passable_of_directory (hroot t d ht)⟩
    · -- what the rest makes below the new directory is made below the old one
      have hmade : ∀ t d, (∃ t', P t' d ∧ Tree.Laid t' (root ++ [name]) t ∧
          Tree.Passable t' (root ++ [name])) → t.obj (root ++ [name]) = some .directory := by
        intro t d h
        obtain ⟨t', -, hlaid, -⟩ := h
        rw [hlaid]
        exact if_pos (List.prefix_refl _)
      have hgoes := ih hmade
      rw [← List.append_cons] at hgoes
      refine hgoes.weaken (fun _ _ h => h) ?_ ?_ ?_
      · intro _ t d h
        obtain ⟨t₁, ⟨t', ht', hlaid, hpass⟩, hlaid', hpass'⟩ := h
        exact ⟨t', ht', hlaid.trans hlong hlaid', (hlaid.passable_iff hpass).mp hpass'⟩
      · intro e t d h
        obtain ⟨t₁, q, ⟨⟨t', ht', hlaid, hpass⟩, hcalm⟩, hq, hlaid', hpass'⟩ := h
        have hstuck : Calm κ b → ¬Tree.Passable t' (root ++ name :: rest) :=
          fun h hp => hcalm h ((hlaid.passable_iff hpass).mpr hp)
        obtain hle | hle := List.prefix_or_prefix_of_prefix hlong hq
        · exact ⟨t', q, ⟨ht', hstuck⟩, hq, hlaid.trans hle hlaid', (hlaid.passable_iff hpass).mp hpass'⟩
        · exact ⟨t', root ++ [name], ⟨ht', hstuck⟩, hlong, hlaid.again hle hlaid', hpass⟩
      · intro t d h
        obtain ⟨t₁, q, ⟨t', ht', hlaid, hpass⟩, hq, hlaid', hpass'⟩ := h
        obtain hle | hle := List.prefix_or_prefix_of_prefix hlong hq
        · exact ⟨t', q, ht', hq, hlaid.trans hle hlaid', (hlaid.passable_iff hpass).mp hpass'⟩
        · exact ⟨t', root ++ [name], ht', hlong, hlaid.again hle hlaid', hpass⟩

/-- `os.MkdirAll` makes all the directories, or the first of them up to one that is in the
way. -/
theorem mkdirAll_does {p : List String} : Does κ b P (mkdirAll p)
    (fun _ t d => ∃ t', P t' d ∧ Tree.Laid t' p t ∧ Tree.Passable t' p)
    (fun _ t d => PartLaid (fun t' d => P t' d ∧ (Calm κ b → ¬Tree.Passable t' p)) p t d)
    (PartLaid P p) :=
  mkdirFrom_does fun t _ _ => t.root

theorem removeAll_does {p : List String} : Does κ b P (removeAll p)
    (fun _ t d => ∃ t', P t' d ∧ t = t'.removeAll p fun _ => false)
    (fun _ t d => ¬Calm κ b ∧ ∃ t' left, P t' d ∧ t = t'.removeAll p left)
    (fun t d => ∃ t' left, P t' d ∧ t = t'.removeAll p left) := by
  refine change_does.weaken (fun _ _ h => h) ?_ ?_ ?_
  · intro _ t d h
    obtain ⟨t', ht', he⟩ := h
    exact ⟨t', ht', (Except.ok.inj he).symm⟩
  · intro e t d h
    obtain ⟨-, he⟩ | ⟨hcalm, t', -, left, ht', he⟩ := h
    · cases he
    · exact ⟨hcalm, t', left, ht', he⟩
  · intro t d h
    obtain ⟨t', -, left, ht', he⟩ := h
    exact ⟨t', left, ht', he⟩

end

/-! ## What the calls keep -/

/-- An assertion about the tree and the data. -/
def Holds (I : Tree → δ → Prop) (m : Machine δ) : Prop := I m.tree m.data

section
variable {I : Tree → δ → Prop}

end

/-! ## What a program adds -/

/-- What was there is there as it was, and what is new is where `new` says, and a directory
or a file. -/
structure Grown (new : List String → Prop) (t₀ t : Tree) : Prop where
  kept : ∀ p o, t₀.obj p = some o → t.obj p = some o
  added : ∀ p o, t.obj p = some o → t₀.obj p = none → new p ∧ o ≠ .special

namespace Grown
variable {new new' : List String → Prop} {t₀ t t' : Tree} {p : List String}

theorem refl : Grown new t₀ t₀ :=
  ⟨fun _ _ h => h, fun p o h hnone => by rw [hnone] at h; cases h⟩

theorem mono (h : Grown new t₀ t) (hnew : ∀ p, new p → new' p) : Grown new' t₀ t :=
  ⟨h.kept, fun p o hp hnone => ⟨hnew p (h.added p o hp hnone).1, (h.added p o hp hnone).2⟩⟩

theorem same (h : Grown new t₀ t) (hp : ¬new p) : t.obj p = t₀.obj p := by
  cases h₀ : t₀.obj p with
  | some o => exact h.kept p o h₀
  | none =>
    cases hq : t.obj p with
    | none => rfl
    | some o => exact absurd (h.added p o hq h₀).1 hp

theorem update {o : Object} (h : Grown new t₀ t) (hnone : t₀.obj p = none) (hnew : new p)
    (ho : o ≠ .special) (hobj : t'.obj = Function.update t.obj p (some o)) : Grown new t₀ t' := by
  refine ⟨fun q o' hq => ?_, fun q o' hq hq₀ => ?_⟩
  · have hne : q ≠ p := by
      intro he
      rw [he, hnone] at hq
      cases hq
    rw [hobj, Function.update_of_ne hne]
    exact h.kept q o' hq
  · by_cases hqp : q = p
    · rw [hobj, hqp, Function.update_self] at hq
      cases hq
      exact ⟨hqp ▸ hnew, ho⟩
    · rw [hobj, Function.update_of_ne hqp] at hq
      exact h.added q o' hq hq₀

theorem laid (h : Grown new t₀ t) (hlaid : Tree.Laid t p t') (hpass : Tree.Passable t p)
    (hnew : ∀ q, q <+: p → t.obj q = some .directory ∨ new q) : Grown new t₀ t' := by
  unfold Tree.Laid at hlaid
  refine ⟨fun q o hq => ?_, fun q o hq hq₀ => ?_⟩
  · have hold := h.kept q o hq
    rw [hlaid]
    by_cases hqp : q <+: p
    · obtain hnone | hdir := hpass q hqp
      · rw [hold] at hnone
        cases hnone
      · simp only [if_pos hqp]
        exact hdir.symm.trans hold
    · simp only [if_neg hqp]
      exact hold
  · rw [hlaid] at hq
    by_cases hqp : q <+: p
    · simp only [if_pos hqp] at hq
      cases hq
      obtain hdir | hq := hnew q hqp
      · exact h.added q _ hdir hq₀
      · exact ⟨hq, by decide⟩
    · simp only [if_neg hqp] at hq
      exact h.added q o hq hq₀

theorem removed {left : List String → Bool} (h : Grown new t₀ t) (hnone : t₀.obj p = none) :
    Grown new t₀ (t.removeAll p left) := by
  refine ⟨fun q o hq => ?_, fun q o hq hq₀ => ?_⟩
  · have hout : ¬p <+: q := by
      intro hpq
      obtain ⟨rest, rfl⟩ := hpq
      by_cases hrest : rest = []
      · rw [hrest, List.append_nil, hnone] at hq
        cases hq
      · rw [t₀.below_none (by rw [hnone]; exact fun h => Option.some_ne_none _ h.symm) hrest] at hq
        cases hq
    rw [Tree.removeAll_elsewhere hout]
    exact h.kept q o hq
  · exact h.added q o (Tree.removeAll_some hq) hq₀

end Grown

end Disk
