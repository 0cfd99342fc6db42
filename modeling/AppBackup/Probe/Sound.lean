import AppBackup.Probe.Partition
import AppBackup.Probe.Scope

/- What the entries of a plan have to do with each other: their paths are proper names, no two
   are the same, and none leads through a planned file. A plan of a source tree is so, and so is
   what a scope leaves of one. -/
namespace AppBackup.Probe
open Path Text

/-! ## Below an object -/

theorem Listing.walk_first {parent names : List String} {name : String} {l : Listing} {found : List String × Node}
    (hf : found ∈ l.walk parent) (hle : parent ++ name :: names <+: found.1 ∨ found.1 <+: parent ++ name :: names) :
    name ∈ l.names := by
  obtain ⟨n, hn, more, he⟩ := mem_walk_names hf
  rw [he, List.prefix_append_right_inj, List.prefix_append_right_inj, List.cons_prefix_cons,
    List.cons_prefix_cons] at hle
  obtain ⟨rfl, -⟩ | ⟨rfl, -⟩ := hle
  · exact hn
  · exact hn

/-- Nothing is visited below an object that is no directory. -/
theorem Listing.WellFormed.walk_object {parent path path' : List String} {o : SourceObject} {node : Node} {l : Listing}
    (h : l.WellFormed) (hf : (path, .object o) ∈ l.walk parent) (hf' : (path', node) ∈ l.walk parent)
    (hle : path <+: path') : path' = path := by
  induction l generalizing parent with
  | nil => cases hf
  | object name object rest ih =>
    obtain ⟨-, hlater, hrest⟩ := h
    obtain he | hf := List.mem_cons.mp hf
    · obtain he' | hf' := List.mem_cons.mp hf'
      · rw [(Prod.mk.inj he).1, (Prod.mk.inj he').1]
      · rw [(Prod.mk.inj he).1] at hle
        exact absurd rfl (later_ne hlater name (walk_first hf' (.inl hle)))
    · obtain he' | hf' := List.mem_cons.mp hf'
      · rw [(Prod.mk.inj he').1] at hle
        exact absurd rfl (later_ne hlater name (walk_first hf (.inr hle)))
      · exact ih hrest hf hf'
  | directory name size children rest ihc ihr =>
    obtain ⟨-, hlater, hchildren, hrest⟩ := h
    have hchild : ∀ {found : List String × Node}, found ∈ children.walk (parent ++ [name]) →
        ∃ n more, found.1 = parent ++ name :: n :: more := by
      intro found hfound
      obtain ⟨n, -, more, he⟩ := mem_walk_names hfound
      exact ⟨n, more, by rw [he, List.append_assoc]; rfl⟩
    obtain he | hf := List.mem_cons.mp hf
    · cases (Prod.mk.inj he).2
    obtain hf | hf := List.mem_append.mp hf
    · obtain ⟨n, more, hpath⟩ := hchild hf
      obtain he' | hf' := List.mem_cons.mp hf'
      · -- the directory itself has a shorter path than what lies in it
        have hlength := hle.length_le
        rw [(Prod.mk.inj he').1, show path = parent ++ name :: n :: more from hpath] at hlength
        simp at hlength
      obtain hf' | hf' := List.mem_append.mp hf'
      · exact ihc hchildren hf hf'
      · rw [show path = parent ++ name :: n :: more from hpath] at hle
        exact absurd rfl (later_ne hlater name (walk_first hf' (.inl hle)))
    · obtain he' | hf' := List.mem_cons.mp hf'
      · rw [(Prod.mk.inj he').1] at hle
        exact absurd rfl (later_ne hlater name (walk_first hf (.inr hle)))
      obtain hf' | hf' := List.mem_append.mp hf'
      · obtain ⟨n, more, hpath⟩ := hchild hf'
        rw [show path' = parent ++ name :: n :: more from hpath] at hle
        exact absurd rfl (later_ne hlater name (walk_first hf (.inr hle)))
      · exact ihr hrest hf hf'

/-! ## Sound plans -/

def Plan.entries (p : Plan) : List Entry := p.directories ++ (p.files ++ p.sqlite)

structure Plan.Sound (p : Plan) : Prop where
  named : ∀ e ∈ p.entries, e.Named
  once : (p.entries.map (·.path)).Nodup
  leaves : ∀ f ∈ p.files ++ p.sqlite, ∀ e ∈ p.entries, f.path <+: e.path → e.path = f.path

section
variable {lower : String → String} {tree : SourceTree} {multiInstance : Bool} {plan filtered : Plan}
  {scope : BackupScope}

theorem buildPlan_sound (h : buildPlan lower tree multiInstance = .ok plan) : plan.Sound := by
  refine ⟨fun e he => buildPlan_named h he, (buildPlan_partitioned h).once, fun f hf e he hle => ?_⟩
  have hvisited : ∃ node, (e.path, node) ∈ tree.listing.walk [] := by
    obtain he | he := List.mem_append.mp he
    · rw [buildPlan_directories h] at he
      obtain ⟨found, hfound, he⟩ := List.mem_filterMap.mp he
      rw [(directoryEntry_eq_some he).1]
      exact ⟨found.2, hfound⟩
    · obtain ⟨found, hfound, he⟩ := List.mem_filterMap.mp (buildPlan_files h he)
      rw [(regularEntry_path he).1]
      exact ⟨found.2, hfound⟩
  obtain ⟨node, hnode⟩ := hvisited
  obtain ⟨found, hfound, hf⟩ := List.mem_filterMap.mp (buildPlan_files h hf)
  obtain ⟨bytes, readable, -, hobject⟩ := regularEntry_eq_some hf
  have hpath := (regularEntry_path hf).1
  have hmem : (f.path, .object (.regular bytes readable)) ∈ tree.listing.walk [] := by
    rw [hpath, ← hobject]
    exact hfound
  exact tree.wellFormed.walk_object hmem hnode hle

theorem Plan.Within.entries {p p' : Plan} (h : p.Within p') : p.entries.Sublist p'.entries :=
  h.directories.append (h.files.append h.sqlite)

theorem Plan.Within.sound {p p' : Plan} (h : p.Within p') (hp : p'.Sound) : p.Sound := by
  refine ⟨fun e he => hp.named e (h.entries.subset he), hp.once.sublist (h.entries.map _), ?_⟩
  exact fun f hf e he => hp.leaves f ((h.files.append h.sqlite).subset hf) e (h.entries.subset he)

theorem applyScope_within (h : applyScope plan scope = .ok filtered) : filtered.Within plan := by
  have hsame : plan.Within plan := ⟨List.Sublist.refl _, List.Sublist.refl _, List.Sublist.refl _⟩
  unfold applyScope at h
  split at h
  · exact Except.ok.inj h ▸ hsame
  · split at h
    · split at h
      · cases h
      · obtain rfl := Except.ok.inj h
        exact ⟨List.nil_sublist _, List.nil_sublist _, List.Sublist.refl _⟩
    · split at h
      · cases h
      · split at h
        · cases h
        · simp only at h
          split at h
          · cases h
          · obtain rfl := Except.ok.inj h
            exact ⟨List.filter_sublist, List.filter_sublist, List.filter_sublist⟩

end

end AppBackup.Probe
