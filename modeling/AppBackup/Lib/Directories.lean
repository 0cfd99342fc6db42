import AppBackup.Lib.Disk

/- Directories that move and directories that stay. `Tree.move` is the rename of an object
   with all below it to a path where nothing is. An assertion is `Lasting` when new objects,
   at the paths it allows, do not end it as long as the directories stay: only the removal
   and the move of a directory can. `Always` is an assertion that a program keeps, whatever
   becomes of it. -/
namespace Disk
open Program

namespace Tree
variable {t t' : Tree} {p q : List String} {o : Object} {bytes : List Byte}

/-- What is at and below `p` is at and below `q`. -/
def relocate (t : Tree) (p q : List String) (hnew : t.obj q = none) (hin : ¬p <+: q)
    (hparent : t.obj q.dropLast = some .directory) : Tree where
  obj r := if q <+: r then t.obj (p ++ r.drop q.length) else if p <+: r then none else t.obj r
  root := by
    have hq : ¬q <+: [] := by
      intro h
      rw [List.prefix_nil.mp h, t.root] at hnew
      cases hnew
    have hp : ¬p <+: [] := by
      intro h
      rw [List.prefix_nil.mp h] at hin
      exact hin List.nil_prefix
    rw [if_neg hq, if_neg hp]
    exact t.root
  parents := by
    intro r name o h
    by_cases hr : q <+: r
    · have hlong : q <+: r ++ [name] := hr.trans (List.prefix_append r [name])
      rw [if_pos hlong, List.drop_append_of_le_length hr.length_le, ← List.append_assoc] at h
      rw [if_pos hr]
      exact t.parents _ name o h
    · by_cases hlong : q <+: r ++ [name]
      · -- the new path itself, whose parent is where it was
        have hq : q = r ++ [name] := (List.prefix_concat_iff.mp hlong).resolve_right hr
        have hrq : r = q.dropLast := by rw [hq, List.dropLast_concat]
        have hpr : ¬p <+: r := fun hp => hin (hp.trans (hrq ▸ List.dropLast_prefix q))
        rw [if_neg hr, if_neg hpr, hrq]
        exact hparent
      · rw [if_neg hlong] at h
        by_cases hp : p <+: r ++ [name]
        · rw [if_pos hp] at h
          cases h
        · rw [if_neg hp] at h
          have hpr : ¬p <+: r := fun h => hp (h.trans (List.prefix_append r [name]))
          rw [if_neg hr, if_neg hpr]
          exact t.parents r name o h

/-- `os.Rename` to a path where nothing is. -/
def move (t : Tree) (p q : List String) : Except IoError Tree :=
  if t.obj p = none then .error (t.missing p)
  else if hin : p <+: q then .error .fault
  else if hnew : t.obj q = none then
    if hparent : t.obj q.dropLast = some .directory then .ok (t.relocate p q hnew hin hparent)
    else .error (t.missing q)
  else .error .exist

structure Moved (t : Tree) (p q : List String) (t' : Tree) : Prop where
  there : t.obj p ≠ none
  outside : ¬p <+: q
  free : t.obj q = none
  parent : t.obj q.dropLast = some .directory
  obj : t'.obj = fun r => if q <+: r then t.obj (p ++ r.drop q.length) else if p <+: r then none else t.obj r

theorem move_ok (h : t.move p q = .ok t') : Moved t p q t' := by
  unfold move at h
  split at h
  · cases h
  · next hp =>
    split at h
    · cases h
    · next hin =>
      split at h
      · next hnew =>
        split at h
        · next hparent =>
          cases h
          exact ⟨hp, hin, hnew, hparent, rfl⟩
        · cases h
      · cases h

namespace Moved

theorem gone (h : Moved t p q t') : t'.obj p = none := by
  rw [h.obj]
  have hqp : ¬q <+: p := by
    intro hqp
    obtain ⟨rest, rfl⟩ := hqp
    by_cases hrest : rest = []
    · rw [hrest, List.append_nil] at h
      exact h.outside (List.prefix_refl q)
    · exact h.there (t.below_none (by rw [h.free]; exact fun h => Option.some_ne_none _ h.symm) hrest)
  simp only [if_neg hqp, if_pos (List.prefix_refl p)]

theorem elsewhere {r : List String} (h : Moved t p q t') (hq : ¬q <+: r) (hp : ¬p <+: r) :
    t'.obj r = t.obj r := by
  rw [h.obj]
  simp only [if_neg hq, if_neg hp]

theorem directory {r : List String} (h : Moved t p q t') (hr : t.obj r = some .directory) (hp : ¬p <+: r) :
    t'.obj r = some .directory := by
  have hq : ¬q <+: r := by
    intro hq
    have hq := prefix_of_directory hr hq
    rw [h.free] at hq
    cases hq
  rw [h.elsewhere hq hp]
  exact hr

end Moved

/-- The directories of `t` are there in `t'`, and what `t'` has where `t` has nothing is where
`new` says. -/
structure Grows (new : List String → Prop) (t t' : Tree) : Prop where
  kept : ∀ r, t.obj r = some .directory → t'.obj r = some .directory
  added : ∀ r, t.obj r = none → t'.obj r ≠ none → new r

variable {new : List String → Prop}

theorem grows_update {o : Option Object} (hp : t.obj p ≠ some .directory)
    (hnew : t.obj p = none → o ≠ none → new p) (h : t'.obj = Function.update t.obj p o) : Grows new t t' := by
  refine ⟨fun r hr => ?_, fun r hr hr' => ?_⟩
  · have hne : r ≠ p := by
      intro he
      rw [he] at hr
      exact hp hr
    rw [h, Function.update_of_ne hne]
    exact hr
  · by_cases he : r = p
    · rw [he] at hr ⊢
      rw [h, he, Function.update_self] at hr'
      exact hnew hr hr'
    · rw [h, Function.update_of_ne he] at hr'
      exact absurd hr hr'

theorem grows_create (hp : new p) (h : t.create p o = .ok t') : Grows new t t' := by
  obtain ⟨hnone, hobj⟩ := create_ok h
  refine grows_update ?_ (fun _ _ => hp) hobj
  rw [hnone]
  exact fun h => Option.some_ne_none _ h.symm

theorem grows_append (h : t.append p bytes = .ok t') : Grows new t t' := by
  obtain ⟨old, hold, hobj⟩ := append_ok h
  refine grows_update ?_ ?_ hobj
  · rw [hold]
    exact fun h => by cases h
  · intro hnone
    rw [hold] at hnone
    cases hnone

theorem grows_remove (h : t.remove p = .ok t') : Grows new t t' := by
  obtain ⟨-, hdir, hobj⟩ := remove_ok h
  exact grows_update hdir (fun _ hne => absurd rfl hne) hobj

theorem Grows.trans {t'' : Tree} (h : Grows new t t') (h' : Grows new t' t'') : Grows new t t'' := by
  refine ⟨fun r hr => h'.kept r (h.kept r hr), fun r hr hr' => ?_⟩
  by_cases hmid : t'.obj r = none
  · exact h'.added r hmid hr'
  · exact h.added r hr hmid

theorem grows_rename (hq : new q) (h : t.rename p q = .ok t') : Grows new t t' := by
  unfold rename at h
  split at h
  · cases h
  · split at h
    · cases h
    · next moved hmoved =>
      split at h
      · cases h
      · next hdir =>
        split at h
        · have hfirst : Grows new t moved := grows_remove hmoved
          cases h
          exact hfirst.trans (grows_update hdir (fun _ _ => hq) rfl)
        · cases h

theorem grows_laid (hp : ∀ q, q <+: p → new q) (h : Laid t p t') : Grows new t t' := by
  refine ⟨fun r hr => ?_, fun r hr hr' => ?_⟩
  · rw [h]
    show (if r <+: p then _ else _) = _
    split
    · rfl
    · exact hr
  · rw [h] at hr'
    by_cases hrp : r <+: p
    · exact hp r hrp
    · exact absurd hr (by simpa only [if_neg hrp] using hr')

end Tree

variable {δ ε α : Type}

/-- The rename of an object with all below it; `moved` is its effect on the data. -/
def move (moved : δ → δ) (p q : List String) : Prog (Machine δ) IoError Unit :=
  step (fun t d => (t.move p q).map fun t => ((), t, moved d)) .fault atOnce

theorem move_does {κ : Fates} {b : Bool} {P : Tree → δ → Prop} {moved : δ → δ} {p q : List String} :
    Does κ b P (move moved p q)
      (fun _ t d => ∃ t' d', P t' d' ∧ Tree.Moved t' p q t ∧ d = moved d')
      (fun _ t d => P t d ∧ (Calm κ b → ¬∃ t', t.move p q = .ok t')) P := by
  refine step_does ?_ ?_
  · intro t d h
    cases hmove : t.move p q with
    | ok t' => exact ⟨t, d, h, Tree.move_ok hmove, rfl⟩
    | error e =>
      refine ⟨h, fun _ hex => ?_⟩
      obtain ⟨t', ht'⟩ := hex
      cases ht'
  · intro hcalm t d written left h
    exact ⟨⟨h, fun hc => absurd hc hcalm⟩, h⟩

/-! ## What a program always keeps -/

/-- The assertion holds after the program as it did before, whatever becomes of it. -/
abbrev Always (κ : Fates) (b : Bool) (I : Tree → δ → Prop) (c : Prog (Machine δ) ε α) : Prop :=
  Does κ b I c (fun _ => I) (fun _ => I) I

/-- The assertion holds after the program as before; a process that dies leaves `C`. -/
abbrev Upholds (κ : Fates) (b : Bool) (I C : Tree → δ → Prop) (c : Prog (Machine δ) ε α) : Prop :=
  Does κ b I c (fun _ => I) (fun _ => I) C

/-- New objects where `new` says do not end the assertion while the directories stay. -/
def Lasting (new : List String → Prop) (I : Tree → δ → Prop) : Prop :=
  ∀ t t' d, I t d → Tree.Grows new t t' → I t' d

theorem Lasting.mono {new new' : List String → Prop} {I : Tree → δ → Prop} (h : Lasting new I)
    (hnew : ∀ p, new' p → new p) : Lasting new' I :=
  fun t t' d ht hgrows => h t t' d ht ⟨hgrows.kept, fun r hr hr' => hnew r (hgrows.added r hr hr')⟩

section
variable {κ : Fates} {b : Bool} {I : Tree → δ → Prop} {c : Prog (Machine δ) ε α} {new : List String → Prop}

theorem upholds_pure {C : Tree → δ → Prop} (a : α) : Upholds κ b I C (Pure.pure a : Prog (Machine δ) ε α) :=
  Does.pure fun _ _ h => h

theorem upholds_fail {C : Tree → δ → Prop} (e : ε) : Upholds κ b I C (Prog.fail e : Prog (Machine δ) ε α) :=
  Does.fail fun _ _ h => h

theorem Always.pure (a : α) : Always κ b I (Pure.pure a : Prog (Machine δ) ε α) := Does.pure fun _ _ h => h

theorem Always.fail (e : ε) : Always κ b I (Prog.fail e : Prog (Machine δ) ε α) := Does.fail fun _ _ h => h

theorem Always.bind {β : Type} {k : α → Prog (Machine δ) ε β} (hc : Always κ b I c)
    (hk : ∀ a, Always κ b I (k a)) : Always κ b I (c >>= k) := Does.bind hc hk

theorem Always.attempt {ε' : Type} (h : Always κ b I c) :
    Always κ b I (c.attempt : Prog (Machine δ) ε' (Except ε α)) := Does.attempt h

theorem Always.mapError {ε' : Type} {f : ε → ε'} (h : Always κ b I c) : Always κ b I (c.mapError f) :=
  Does.mapError h

theorem Always.ite {p : Prop} [Decidable p] {c₁ c₂ : Prog (Machine δ) ε α} (h₁ : Always κ b I c₁)
    (h₂ : Always κ b I c₂) : Always κ b I (if p then c₁ else c₂) := Does.ite (fun _ => h₁) fun _ => h₂

theorem Always.deferred {ε' : Type} {cleanup : Prog (Machine δ) ε' Unit} (h : Always κ b I c)
    (hclean : Always κ true I cleanup) : Always κ b I (Prog.deferred (Disk.cleaningUp cleanup) c) :=
  Does.deferred h (fun _ => hclean) fun _ => hclean

theorem Always.onFailure {ε' : Type} {cleanup : Prog (Machine δ) ε' Unit} (h : Always κ b I c)
    (hclean : Always κ true I cleanup) : Always κ b I (Prog.onFailure (Disk.cleaningUp cleanup) c) :=
  Does.onFailure h fun _ => hclean

theorem Always.cleaningUp (h : Always κ true I c) : Always κ b I (cleaningUp c) := Does.cleaningUp h

theorem always_look (ask : Tree → Except IoError α) : Always κ b I (look ask) :=
  look_does.post (fun _ _ _ h => h.1) (fun _ _ _ h => h.1) fun _ _ h => h

theorem always_change {act : Tree → Except IoError Tree}
    (h : ∀ t d t', I t d → act t = .ok t' → I t' d) : Always κ b I (change act atOnce) := by
  refine change_atOnce.post ?_ (fun _ _ _ h => h.1) fun _ _ h => h
  intro _ t d ht
  obtain ⟨t', ht', hact⟩ := ht
  exact h t' d t ht' hact

theorem always_createExclusive (hI : Lasting new I) {p : List String} (hp : new p) :
    Always κ b I (createExclusive p) :=
  always_change fun t d t' h hact => hI t t' d h (Tree.grows_create hp hact)

theorem always_remove (hI : Lasting new I) (p : List String) : Always κ b I (remove p) :=
  always_change fun t d t' h hact => hI t t' d h (Tree.grows_remove hact)

theorem always_rename (hI : Lasting new I) (p : List String) {q : List String} (hq : new q) :
    Always κ b I (rename p q) :=
  always_change fun t d t' h hact => hI t t' d h (Tree.grows_rename hq hact)

theorem always_write (hI : Lasting new I) (p : List String) (bytes : List Byte) :
    Always κ b I (write p bytes) := by
  have hpart : ∀ t d written left, I t d → I (partWritten p bytes written left t) d := by
    intro t d written left h
    unfold partWritten
    cases happ : t.append p (bytes.take written) with
    | ok t' => exact hI t t' d h (Tree.grows_append happ)
    | error e => exact h
  refine change_does.post ?_ ?_ ?_
  · intro _ t d h
    obtain ⟨t', ht', hact⟩ := h
    exact hI t' t d ht' (Tree.grows_append hact)
  · intro e t d h
    obtain ⟨ht, -⟩ | ⟨-, t', written, left, ht, rfl⟩ := h
    · exact ht
    · exact hpart t' d written left ht
  · intro t d h
    obtain ⟨t', written, left, ht, rfl⟩ := h
    exact hpart t' d written left ht

theorem partLaid_lasting (hI : Lasting new I) {p : List String} (hp : ∀ q, q <+: p → new q) {t : Tree} {d : δ}
    (h : PartLaid I p t d) : I t d := by
  obtain ⟨t', q, ht', hq, hlaid, -⟩ := h
  exact hI t' t d ht' (Tree.grows_laid (fun r hr => hp r (hr.trans hq)) hlaid)

theorem always_mkdirAll (hI : Lasting new I) {p : List String} (hp : ∀ q, q <+: p → new q) :
    Always κ b I (mkdirAll p) := by
  refine mkdirAll_does.post ?_ ?_ fun t d h => partLaid_lasting hI hp h
  · intro _ t d h
    obtain ⟨t', ht', hlaid, -⟩ := h
    exact hI t' t d ht' (Tree.grows_laid hp hlaid)
  · intro _ t d h
    obtain ⟨t', q, ⟨ht', -⟩, hq, hlaid, hpass⟩ := h
    exact partLaid_lasting hI hp ⟨t', q, ht', hq, hlaid, hpass⟩

theorem always_removeAll {p : List String} (h : ∀ t d left, I t d → I (t.removeAll p left) d) :
    Always κ b I (removeAll p) := by
  refine removeAll_does.post ?_ ?_ ?_
  · intro _ t d ht
    obtain ⟨t', ht', rfl⟩ := ht
    exact h t' d _ ht'
  · intro _ t d ht
    obtain ⟨-, t', left, ht', rfl⟩ := ht
    exact h t' d left ht'
  · intro t d ht
    obtain ⟨t', left, ht', rfl⟩ := ht
    exact h t' d left ht'

end

end Disk
