import AppBackup.Lib.Calm
import Mathlib.Data.List.Pairwise

/- Directories and files laid out below a directory, one after the other, as an extraction
   makes them. `objAt items r` is what is at the names `r` when all items are there. Each
   file is new where it comes, and nothing comes below a file, just if the items are apart;
   then the order in which they come does not matter. -/
namespace Disk
open Program

inductive Item where
  | directory (names : List String)
  | file (names : List String) (bytes : List Byte)

namespace Item

def names : Item → List String
  | directory names => names
  | file names _ => names

def isFile : Item → Bool
  | directory _ => false
  | file _ _ => true

/-- The bytes of the item, where it is a file at these names. -/
def bytesAt (r : List String) : Item → Option (List Byte)
  | directory _ => none
  | file names bytes => if names = r then some bytes else none

/-- Neither item is a file at, or on the way to, the names of the other. -/
def Apart (i j : Item) : Prop :=
  (i.isFile = true → ¬i.names <+: j.names) ∧ (j.isFile = true → ¬j.names <+: i.names)

end Item

/-- What is at `r`, below the directory of the items. -/
def objAt (items : List Item) (r : List String) : Option Object :=
  match items.findSome? (·.bytesAt r) with
  | some bytes => some (.file bytes)
  | none => if r = [] ∨ ∃ i ∈ items, r <+: i.names then some .directory else none

section
variable {items : List Item} {names r : List String} {bytes : List Byte}

theorem bytesAt_some {i : Item} : i.bytesAt r = some bytes ↔ i = .file r bytes := by
  cases i with
  | directory names => exact iff_of_false nofun nofun
  | file names content =>
    by_cases hr : names = r
    · rw [Item.bytesAt, if_pos hr, hr]
      exact ⟨fun h => by rw [Option.some.inj h], fun h => by injection h with _ h; rw [h]⟩
    · rw [Item.bytesAt, if_neg hr]
      refine iff_of_false nofun fun h => ?_
      injection h with hnames
      exact hr hnames

theorem findSome?_bytesAt_none : items.findSome? (·.bytesAt r) = none ↔ ∀ content, .file r content ∉ items := by
  rw [List.findSome?_eq_none_iff]
  refine ⟨fun h content hmem => ?_, fun h i hi => ?_⟩
  · have hnone := h _ hmem
    rw [bytesAt_some.mpr rfl] at hnone
    cases hnone
  · cases hb : i.bytesAt r with
    | none => rfl
    | some content => exact absurd (bytesAt_some.mp hb ▸ hi) (h content)

theorem objAt_of_noFile (h : ∀ content, .file r content ∉ items) :
    objAt items r = if r = [] ∨ ∃ i ∈ items, r <+: i.names then some .directory else none := by
  unfold objAt
  rw [findSome?_bytesAt_none.mpr h]

theorem objAt_nil (h : ∀ i ∈ items, i.names ≠ []) : objAt items [] = some .directory := by
  rw [objAt_of_noFile fun content hmem => h _ hmem rfl, if_pos (.inl rfl)]

theorem objAt_directory (h : ∀ i ∈ items, i.Apart (.directory names)) :
    objAt (items ++ [.directory names]) r = if r <+: names then some .directory else objAt items r := by
  have hfind : (items ++ [Item.directory names]).findSome? (·.bytesAt r) = items.findSome? (·.bytesAt r) := by
    rw [List.findSome?_append]
    cases items.findSome? (·.bytesAt r) <;> rfl
  by_cases hr : r <+: names
  · rw [if_pos hr, objAt_of_noFile, if_pos]
    · exact .inr ⟨_, List.mem_concat_self, hr⟩
    · intro content hmem
      obtain hmem | hmem := List.mem_append.mp hmem
      · exact (h _ hmem).1 rfl hr
      · cases List.mem_singleton.mp hmem
  · rw [if_neg hr]
    unfold objAt
    rw [hfind]
    cases items.findSome? (·.bytesAt r) with
    | some content => rfl
    | none =>
      refine if_congr (or_congr_right ⟨fun hway => ?_, fun hway => ?_⟩) rfl rfl
      · obtain ⟨i, hi, hle⟩ := hway
        obtain hi | hi := List.mem_append.mp hi
        · exact ⟨i, hi, hle⟩
        · rw [List.mem_singleton.mp hi] at hle
          exact absurd hle hr
      · obtain ⟨i, hi, hle⟩ := hway
        exact ⟨i, List.mem_append_left _ hi, hle⟩

/-- One more file, and the directories it lies in. -/
theorem objAt_file (h : ∀ i ∈ items, i.Apart (.file names bytes)) :
    objAt (items ++ [.file names bytes]) r =
      if r = names then some (.file bytes) else if r <+: names then some .directory else objAt items r := by
  have hfree : ∀ content, r <+: names → .file r content ∉ items := fun content hr hmem => (h _ hmem).1 rfl hr
  have hfind : (items ++ [Item.file names bytes]).findSome? (·.bytesAt r) =
      (items.findSome? (·.bytesAt r)).or (if names = r then some bytes else none) := by
    rw [List.findSome?_append]
    simp [Item.bytesAt]
  by_cases hr : r = names
  · rw [if_pos hr]
    unfold objAt
    rw [hfind, findSome?_bytesAt_none.mpr fun content => hfree content (hr ▸ List.prefix_refl names),
      Option.none_or, if_pos hr.symm]
  · rw [if_neg hr]
    rw [if_neg (Ne.symm hr), Option.or_none] at hfind
    by_cases hle : r <+: names
    · rw [if_pos hle]
      unfold objAt
      rw [hfind, findSome?_bytesAt_none.mpr fun content => hfree content hle]
      exact if_pos (.inr ⟨_, List.mem_concat_self, hle⟩)
    · rw [if_neg hle]
      unfold objAt
      rw [hfind]
      cases items.findSome? (·.bytesAt r) with
      | some content => rfl
      | none =>
        refine if_congr (or_congr_right ⟨fun hway => ?_, fun hway => ?_⟩) rfl rfl
        · obtain ⟨i, hi, hway⟩ := hway
          obtain hi | hi := List.mem_append.mp hi
          · exact ⟨i, hi, hway⟩
          · rw [List.mem_singleton.mp hi] at hway
            exact absurd hway hle
        · obtain ⟨i, hi, hway⟩ := hway
          exact ⟨i, List.mem_append_left _ hi, hway⟩

/-- What is there is a file of the items, or a directory on the way to one. -/
theorem objAt_some {o : Object} (h : objAt items r = some o) :
    (∃ content, .file r content ∈ items ∧ o = .file content) ∨
      (o = .directory ∧ (r = [] ∨ ∃ i ∈ items, r <+: i.names)) := by
  unfold objAt at h
  cases hfind : items.findSome? (·.bytesAt r) with
  | some content =>
    rw [hfind] at h
    obtain ⟨i, hi, hbytes⟩ := List.exists_of_findSome?_eq_some hfind
    exact .inl ⟨content, bytesAt_some.mp hbytes ▸ hi, (Option.some.inj h).symm⟩
  | none =>
    rw [hfind] at h
    by_cases hway : r = [] ∨ ∃ i ∈ items, r <+: i.names
    · simp only [if_pos hway] at h
      exact .inr ⟨(Option.some.inj h).symm, hway⟩
    · simp only [if_neg hway] at h
      cases h

instance Item.apartSymm : Std.Symm Item.Apart := ⟨fun _ _ h => ⟨h.2, h.1⟩⟩

theorem objAt_of_directory (happart : items.Pairwise Item.Apart) (hmem : .directory r ∈ items) :
    objAt items r = some .directory := by
  rw [objAt_of_noFile, if_pos (.inr ⟨_, hmem, List.prefix_refl r⟩)]
  intro content hfile
  exact (happart.forall hfile hmem nofun).1 rfl (List.prefix_refl r)

theorem objAt_of_file (happart : items.Pairwise Item.Apart) (hmem : .file r bytes ∈ items) :
    objAt items r = some (.file bytes) := by
  unfold objAt
  cases hfind : items.findSome? (·.bytesAt r) with
  | some content =>
    obtain ⟨i, hi, hbytes⟩ := List.exists_of_findSome?_eq_some hfind
    obtain rfl := bytesAt_some.mp hbytes
    by_cases hsame : content = bytes
    · rw [hsame]
    · have hne : Item.file r content ≠ .file r bytes := fun he => hsame (by injection he)
      exact absurd (List.prefix_refl r) ((happart.forall hi hmem hne).1 rfl)
  | none => exact absurd hmem (findSome?_bytesAt_none.mp hfind bytes)

theorem objAt_none (h : ∀ i ∈ items, i.Apart (.file names bytes))
    (hne : names ≠ []) : objAt items names = none := by
  rw [objAt_of_noFile fun content hmem => (h _ hmem).1 rfl (List.prefix_refl names), if_neg]
  rintro (hnil | ⟨i, hi, hle⟩)
  · exact hne hnil
  · exact (h i hi).2 rfl hle

theorem objAt_passable {i : Item} (h : ∀ j ∈ items, j.Apart i) (hr : r <+: i.names) :
    objAt items r = none ∨ objAt items r = some .directory := by
  rw [objAt_of_noFile fun content hmem => (h _ hmem).1 rfl hr]
  split
  · exact .inr rfl
  · exact .inl rfl

end

/-! ## Laying out -/

/-- The items are laid out below a directory of a tree that is `outside` elsewhere. -/
def LaidOut (outside : List String → Option Object) (root : List String) (items : List Item) (t : Tree) : Prop :=
  t.obj = fun p => if root <+: p then objAt items (p.drop root.length) else outside p

section
variable {outside : List String → Option Object} {root names : List String} {items : List Item} {t t' : Tree}
  {bytes : List Byte}

theorem LaidOut.inside (h : LaidOut outside root items t) (r : List String) : t.obj (root ++ r) = objAt items r := by
  rw [h]
  simp

theorem LaidOut.top (h : LaidOut outside root items t) (hne : ∀ i ∈ items, i.names ≠ []) :
    t.obj root = some .directory := by
  have hroot := h.inside []
  rw [List.append_nil] at hroot
  rw [hroot, objAt_nil hne]

theorem LaidOut.passable (h : LaidOut outside root items t) (hne : ∀ i ∈ items, i.names ≠ []) {i : Item}
    (hapart : ∀ j ∈ items, j.Apart i) {r : List String} (hr : r <+: i.names) : Tree.Passable t (root ++ r) := by
  intro q hq
  obtain hle | hle := List.prefix_or_prefix_of_prefix hq (List.prefix_append root r)
  · exact .inr (Tree.prefix_of_directory (h.top hne) hle)
  · obtain ⟨s, rfl⟩ := hle
    rw [h.inside]
    exact objAt_passable hapart (((List.prefix_append_right_inj root).mp hq).trans hr)

/-- A directory that is laid below the root, with those it lies in. -/
theorem LaidOut.laid (h : LaidOut outside root items t) (hne : ∀ i ∈ items, i.names ≠ [])
    (hlaid : Tree.Laid t (root ++ names) t') :
    t'.obj = fun p => if root <+: p then if p.drop root.length <+: names then some .directory
      else objAt items (p.drop root.length) else outside p := by
  funext p
  rw [hlaid]
  by_cases hp : root <+: p
  · obtain ⟨r, rfl⟩ := hp
    simp only [List.prefix_append_right_inj, List.prefix_append, if_true, List.drop_left]
    exact if_congr Iff.rfl rfl (h.inside r)
  · simp only [if_neg hp]
    by_cases hle : p <+: root ++ names
    · -- a directory the root itself lies in
      have hway : p <+: root := (List.prefix_or_prefix_of_prefix hle (List.prefix_append root names)).resolve_right hp
      rw [if_pos hle]
      have hdir := Tree.prefix_of_directory (h.top hne) hway
      rw [h] at hdir
      simp only [if_neg hp] at hdir
      exact hdir.symm
    · rw [if_neg hle, h]
      exact if_neg hp

theorem LaidOut.directory (h : LaidOut outside root items t) (hne : ∀ i ∈ items, i.names ≠ [])
    (hapart : ∀ i ∈ items, i.Apart (.directory names)) (hlaid : Tree.Laid t (root ++ names) t') :
    LaidOut outside root (items ++ [.directory names]) t' := by
  unfold LaidOut
  rw [h.laid hne hlaid]
  funext p
  exact if_congr Iff.rfl (objAt_directory hapart).symm rfl

theorem LaidOut.file (h : LaidOut outside root items t) (hne : ∀ i ∈ items, i.names ≠ [])
    (hapart : ∀ i ∈ items, i.Apart (.file names bytes)) (hnames : names ≠ []) {t'' : Tree}
    (hlaid : Tree.Laid t (root ++ names).dropLast t')
    (hobj : t''.obj = Function.update t'.obj (root ++ names) (some (.file bytes))) :
    LaidOut outside root (items ++ [.file names bytes]) t'' := by
  rw [List.dropLast_append_of_ne_nil hnames] at hlaid
  unfold LaidOut
  rw [hobj, h.laid hne hlaid]
  funext p
  by_cases hp : root <+: p
  · obtain ⟨r, rfl⟩ := hp
    simp only [List.prefix_append, if_true, List.drop_left]
    rw [objAt_file hapart]
    by_cases hr : r = names
    · rw [hr, Function.update_self, if_pos rfl]
    · have hne' : root ++ r ≠ root ++ names := fun he => hr (List.append_cancel_left he)
      rw [Function.update_of_ne hne', if_neg hr]
      simp only [List.prefix_append, if_true, List.drop_left]
      refine if_congr ⟨fun hle => hle.trans (List.dropLast_prefix names), fun hle => ?_⟩ rfl rfl
      rw [← List.dropLast_append_getLast hnames] at hle hr
      exact (List.prefix_concat_iff.mp hle).resolve_left hr
  · have hne' : p ≠ root ++ names := fun he => hp (he ▸ List.prefix_append root names)
    rw [Function.update_of_ne hne']
    simp only [if_neg hp]

end

/-! ## Calls -/

section
variable {δ ι ε : Type} {κ : Fates} {b : Bool} {H : Prop} {P : Tree → δ → Prop}

theorem doneIff_mkdirAll (hH : H → Quiet κ) {p : List String} (hpass : ∀ t d, P t d → Tree.Passable t p) :
    DoneIff κ b H True P (mkdirAll p : Prog (Machine δ) IoError Unit)
      (fun _ t d => ∃ t', P t' d ∧ Tree.Laid t' p t) := by
  refine Does.quiet hH (mkdirAll_does.post ?_ ?_ fun _ _ hc => hc) fun hcalm => lives_mkdirAll hcalm _
  · intro _ t d ht
    obtain ⟨t', ht', hlaid, -⟩ := ht
    exact ⟨trivial, t', ht', hlaid⟩
  · intro e t d ht hh
    obtain ⟨t', q, ⟨ht', hstuck⟩, -⟩ := ht
    exact absurd (hpass t' d ht') (hstuck (hH hh b))

theorem done_bind {σ α β : Type} {c : Prog σ ε α} {k : α → Prog σ ε β} {r : β} {s s' : σ} :
    (c >>= k) s = .done r s' ↔ ∃ a s₁, c s = .done a s₁ ∧ k a s₁ = .done r s' := by
  show Prog.bind c k s = _ ↔ _
  unfold Prog.bind
  cases hc : c s with
  | done a s₁ => simp
  | failed e s₁ => simp
  | crashed s₁ => simp

theorem DoneIff.after {α β : Type} {c : Prog (Machine δ) ε α} {k : α → Prog (Machine δ) ε β} {ψ : Prop}
    {Q : α → Tree → δ → Prop} {R : β → Tree → δ → Prop} (hc : DoneIff κ b H True P c Q)
    (hk : ∀ a, DoneIff κ b H ψ (Q a) (k a) R) : DoneIff κ b H ψ P (c >>= k) R :=
  (hc.bind hk).weaken (fun _ _ ht => ht) (iff_of_eq (true_and _)) fun _ _ _ ht => ht

theorem DoneIff.next {α β : Type} {c : Prog (Machine δ) ε α} {k : α → Prog (Machine δ) ε β}
    {Q : α → Tree → δ → Prop}
    {R : β → Tree → δ → Prop} (hc : DoneIff κ b H True P c Q) (hk : ∀ a, DoneIff κ b H True (Q a) (k a) R) :
    DoneIff κ b H True P (c >>= k) R := hc.after hk

/-- A loop is done just where each of its turns is. -/
theorem DoneIff.eachIff {body : ι → Prog (Machine δ) ε Unit} {φ : ι → Prop}
    {I : List ι → Tree → δ → Prop}
    (all : List ι) (h : ∀ before i after, all = before ++ i :: after →
      DoneIff κ b H (φ i) (I before) (body i) fun _ => I (before ++ [i])) :
    DoneIff κ b H (∀ i ∈ all, φ i) (I []) (Prog.each all body) fun _ => I all := by
  have hrest : ∀ before after, all = before ++ after →
      DoneIff κ b H (∀ i ∈ after, φ i) (I before) (Prog.each after body) fun _ => I all := by
    intro before after
    induction after generalizing before with
    | nil =>
      intro he
      rw [List.append_nil] at he
      exact (DoneIff.pure fun t d ht => he ▸ ht).weaken (fun _ _ ht => ht) (by simp) fun _ _ _ ht => ht
    | cons i after ih =>
      intro he
      refine ((h before i after he).bind fun _ => ih (before ++ [i]) ?_).weaken (fun _ _ ht => ht) ?_ fun _ _ _ ht => ht
      · rw [he, List.append_assoc]
        rfl
      · exact List.forall_mem_cons.symm
  exact hrest [] all rfl

theorem DoneIff.each {body : ι → Prog (Machine δ) ε Unit} {I : List ι → Tree → δ → Prop} (all : List ι)
    (h : ∀ before i after, all = before ++ i :: after →
      DoneIff κ b H True (I before) (body i) fun _ => I (before ++ [i])) :
    DoneIff κ b H True (I []) (Prog.each all body) fun _ => I all := by
  have hall : DoneIff κ b H (∀ i ∈ all, True) (I []) (Prog.each all body) fun _ => I all := DoneIff.eachIff all h
  exact hall.weaken (fun _ _ ht => ht) (by simp) fun _ _ _ ht => ht

/-- A deferred removal of all below a path leaves success what it is, and nothing there. -/
theorem DoneIff.clearing {α : Type} {c : Prog (Machine δ) ε α} {φ : Prop} {Q : α → Tree → δ → Prop}
    (hH : H → Quiet κ) {p : List String} (hp : p ≠ []) (h : DoneIff κ b H φ P c Q) :
    DoneIff κ b H φ P (Prog.deferred (cleaningUp (removeAll p)) c) fun _ t _ => H → ∀ q, p <+: q →
    t.obj q = none := by
  refine Does.deferred h (fun _ => ?_) fun _ => ?_
  · refine Does.quiet hH (removeAll_does.post ?_ ?_ fun _ _ ht => ht) fun hcalm => lives_change hcalm _ _
    · intro _ t d ht
      obtain ⟨t', ht', rfl⟩ := ht
      exact ⟨ht'.1, fun _ q hq => Tree.removeAll_below hp hq⟩
    · intro _ t d ht
      obtain ⟨hnot, t', left, ht', -⟩ := ht
      exact ⟨ht'.1, fun hh => absurd (hH hh true) hnot⟩
  · refine Does.quiet hH (removeAll_does.post ?_ ?_ fun _ _ ht => ht) fun hcalm => lives_change hcalm _ _
    · intro _ t d ht
      obtain ⟨t', ht', -⟩ := ht
      exact ht'
    · intro _ t d ht
      obtain ⟨-, t', left, ht', -⟩ := ht
      exact ht'

end

end Disk
