import AppBackup.Lib.Calm

/- What a program changes of the tree. Outside the paths that are its own, `Frame` lets it
   make directories and nothing else; `Framed` are the assertions that changes of files at
   own paths, and new directories anywhere, do not end. -/
namespace Disk
open Program

variable {δ ε α : Type}

/-- Outside `own` all is as it was, but for new directories. -/
def Frame (own : List String → Prop) (t₀ t : Tree) : Prop :=
  ∀ q, ¬own q → t.obj q = t₀.obj q ∨ (t₀.obj q = none ∧ t.obj q = some .directory)

namespace Frame
variable {own own' : List String → Prop} {t₀ t t' : Tree} {p : List String}

theorem refl : Frame own t₀ t₀ := fun _ _ => .inl rfl

theorem mono (h : Frame own t₀ t) (hown : ∀ q, own q → own' q) : Frame own' t₀ t :=
  fun q hq => h q fun ho => hq (hown q ho)

theorem update {o : Option Object} (h : Frame own t₀ t) (hp : own p) (hobj : t'.obj = Function.update t.obj p o) :
    Frame own t₀ t' := by
  intro q hq
  have hne : q ≠ p := fun he => hq (he ▸ hp)
  rw [hobj, Function.update_of_ne hne]
  exact h q hq

theorem laid (h : Frame own t₀ t) (hlaid : Tree.Laid t p t') (hpass : Tree.Passable t p) : Frame own t₀ t' := by
  intro q hq
  rw [hlaid]
  by_cases hle : q <+: p
  · simp only [if_pos hle]
    obtain hsame | ⟨hnew, -⟩ := h q hq
    · obtain hnone | hdir := hpass q hle
      · exact .inr ⟨hsame ▸ hnone, trivial⟩
      · exact .inl (hsame ▸ hdir.symm)
    · exact .inr ⟨hnew, trivial⟩
  · simp only [if_neg hle]
    exact h q hq

theorem removed {left : List String → Bool} (h : Frame own t₀ t) (hp : ∀ q, p <+: q → own q) :
    Frame own t₀ (t.removeAll p left) := by
  intro q hq
  rw [Tree.removeAll_elsewhere fun hle => hq (hp q hle)]
  exact h q hq

theorem file {o : Object} (h : Frame own t₀ t) (hp : ¬own p) (ho : o ≠ .directory) (hobj : t.obj p = some o) :
    t₀.obj p = some o := by
  obtain hsame | ⟨-, hdir⟩ := h p hp
  · exact hsame ▸ hobj
  · rw [hdir] at hobj
    exact absurd (Option.some.inj hobj).symm ho

end Frame

/-- Other files at own paths, and new directories, keep the assertion. -/
structure Framed (own : List String → Prop) (I : Tree → δ → Prop) : Prop where
  update : ∀ {t t' : Tree} {d : δ} {p : List String} {o : Option Object}, I t d → own p →
    t.obj p ≠ some .directory → o ≠ some .directory → t'.obj = Function.update t.obj p o → I t' d
  laid : ∀ {t t' : Tree} {d : δ} {p : List String}, I t d → Tree.Laid t p t' → Tree.Passable t p → I t' d

theorem framed_frame {own : List String → Prop} {t₀ : Tree} : Framed own fun t (_ : δ) => Frame own t₀ t :=
  ⟨fun h hp _ _ hobj => h.update hp hobj, fun h hlaid hpass => h.laid hlaid hpass⟩

theorem framed_directory {own : List String → Prop} {q : List String} :
    Framed own fun t (_ : δ) => t.obj q = some .directory := by
  refine ⟨fun {t t' d p o} h _ hold _ hobj => ?_, fun {t t' d p} h hlaid _ => ?_⟩
  · have hne : q ≠ p := fun he => hold (he ▸ h)
    rw [hobj, Function.update_of_ne hne]
    exact h
  · rw [hlaid]
    show (if q <+: p then _ else _) = _
    split
    · rfl
    · exact h

theorem framed_data {own : List String → Prop} {D : δ → Prop} : Framed own fun _ d => D d :=
  ⟨fun h _ _ _ _ => h, fun h _ _ => h⟩

namespace Framed
variable {κ : Fates} {b : Bool} {own : List String → Prop} {I J : Tree → δ → Prop} {p q : List String}

theorem and (h : Framed own I) (h' : Framed own J) : Framed own fun t d => I t d ∧ J t d :=
  ⟨fun ht hp hold hnew hobj => ⟨h.update ht.1 hp hold hnew hobj, h'.update ht.2 hp hold hnew hobj⟩,
    fun ht hlaid hpass => ⟨h.laid ht.1 hlaid hpass, h'.laid ht.2 hlaid hpass⟩⟩

theorem gone_ne_dir : (none : Option Object) ≠ some .directory := by
  intro h
  cases h

theorem file_ne_dir {bytes : List Byte} : some (Object.file bytes) ≠ some .directory := by
  intro h
  cases h

theorem createExclusive (h : Framed own I) (hp : own p) : Always κ b I (createExclusive p) := by
  refine always_change fun t d t' ht hact => ?_
  obtain ⟨hnone, hobj⟩ := Tree.create_ok hact
  exact h.update (o := some (.file [])) ht hp (by rw [hnone]; exact nofun) nofun hobj

theorem remove (h : Framed own I) (hp : own p) : Always κ b I (remove p) := by
  refine always_change fun t d t' ht hact => ?_
  obtain ⟨-, hdir, hobj⟩ := Tree.remove_ok hact
  exact h.update (o := none) ht hp hdir nofun hobj

/-- The part of a write that comes before a fault counts like the write. -/
theorem write (h : Framed own I) (hp : own p) (bytes : List Byte) : Always κ b I (write p bytes) := by
  have happend : ∀ {t t' : Tree} {d : δ} {bytes : List Byte}, I t d → t.append p bytes = .ok t' → I t' d := by
    intro t t' d bytes ht hact
    obtain ⟨old, hold, hobj⟩ := Tree.append_ok hact
    exact h.update (o := some (.file (old ++ bytes))) ht hp (by rw [hold]; exact nofun) nofun hobj
  have hpart : ∀ {t d written left}, I t d → I (partWritten p bytes written left t) d := by
    intro t d written left ht
    unfold partWritten
    cases hact : t.append p (bytes.take written) with
    | ok t' => exact happend ht hact
    | error e => exact ht
  refine change_does.post ?_ ?_ ?_
  · intro _ t d ht
    obtain ⟨t', ht', hact⟩ := ht
    exact happend ht' hact
  · intro _ t d ht
    obtain ⟨ht, -⟩ | ⟨-, t', written, left, ht', rfl⟩ := ht
    · exact ht
    · exact hpart ht'
  · intro t d ht
    obtain ⟨t', written, left, ht', rfl⟩ := ht
    exact hpart ht'

/-- A rename is a removal and a file at the new path. -/
theorem renamed (h : Framed own I) (hp : own p) (hq : own q) {t t' : Tree} {d : δ} (ht : I t d)
    (hact : t.rename p q = .ok t') : I t' d := by
  unfold Tree.rename at hact
  split at hact
  · cases hact
  · next bytes hread =>
    split at hact
    · cases hact
    · next moved hmoved =>
      split at hact
      · cases hact
      · next hfree =>
        split at hact
        · obtain ⟨-, hdir, hobj⟩ := Tree.remove_ok hmoved
          have hmid : I moved d := h.update (o := none) ht hp hdir gone_ne_dir hobj
          cases hact
          exact h.update (o := some (.file bytes)) hmid hq hfree file_ne_dir rfl
        · cases hact

theorem rename (h : Framed own I) (hp : own p) (hq : own q) : Always κ b I (rename p q) :=
  always_change fun _ _ _ ht hact => h.renamed hp hq ht hact

theorem partLaid (h : Framed own I) {t : Tree} {d : δ} (hpart : PartLaid I p t d) : I t d := by
  obtain ⟨t', q, ht', -, hlaid, hpass⟩ := hpart
  exact h.laid ht' hlaid hpass

theorem mkdirAll (h : Framed own I) : Always κ b I (mkdirAll p) := by
  refine mkdirAll_does.post ?_ ?_ fun t d hpart => h.partLaid hpart
  · intro _ t d ht
    obtain ⟨t', ht', hlaid, hpass⟩ := ht
    exact h.laid ht' hlaid hpass
  · intro _ t d ht
    obtain ⟨t', q, ⟨ht', -⟩, hq, hlaid, hpass⟩ := ht
    exact h.laid ht' hlaid hpass

end Framed

theorem Always.state {c : Prog (Machine δ) ε α} {I : Tree → δ → Prop} {m : Machine δ}
    (h : Always m.fate m.cleaning I c) (hm : I m.tree m.data) : I (c m).state.tree (c m).state.data := by
  have hrun := Does.run h ⟨rfl, rfl, hm⟩
  cases hc : c m with
  | done a m' => rw [hc] at hrun; exact hrun.2.2
  | failed e m' => rw [hc] at hrun; exact hrun.2.2
  | crashed m' => rw [hc] at hrun; exact hrun.2.2

end Disk
