import AppBackup.Lib.Disk
import AppBackup.Lib.Path

/- How the storage keeps to its root (`storage/storage.go`): the checks of a relative path,
   of a segment and of an entry name, and the calls that resolve a path, make directories
   and remove one. The root is an absolute path without links, given by its names; the tree
   below it has no links either, so `ensureWithin` finds none. -/
namespace AppBackup.Storage
open Program Disk Path Text

inductive StorageError where
  | io (e : IoError)
  | refused (message : String)
  deriving DecidableEq

variable {δ : Type}

/-- A program of the storage. -/
abbrev Action (δ α : Type) : Type := Prog (Machine δ) StorageError α

/-- A call whose error is passed on. -/
def io {α : Type} (c : Prog (Machine δ) IoError α) : Action δ α := c.mapError .io

/-! ## Texts -/

/-- `path.Join`. -/
def pathJoin (elements : List String) : String :=
  let elements := elements.filter (· ≠ "")
  if elements = [] then "" else clean (join elements)

/-- `filepath.Join` of an absolute path and a relative one. -/
def under (root : List String) (relative : String) : List String :=
  ((split relative).foldl (pushName true) root.reverse).reverse

/-- `strings.TrimSuffix(value, "/")`. -/
def trimSlash (value : String) : String :=
  if hasSuffix value "/" then String.ofList value.toList.dropLast else value

def safeSegment (value : String) : Bool :=
  !(value == "" || value == "." || value == ".." || value.toList.any fun c => c == '/' || c == '\\')

def safeRelative (value : String) : Bool :=
  if value = "" ∨ hasPrefix value "/" then false
  else
    let cleaned := clean value
    cleaned == value && cleaned != "." && cleaned != ".." && !hasPrefix cleaned "../"

def safeZipPath (value : String) : Bool :=
  if value = "" ∨ hasPrefix value "/" then false
  else
    let trimmed := trimSlash value
    trimmed != "" && clean trimmed == trimmed && trimmed != ".." && !hasPrefix trimmed "../"

/-! ## Calls -/

/-- The loop of `ensureWithin`: no name of the target is that of a link. -/
def ensureNames (root : List String) : List String → Action δ Unit
  | [] => pure ()
  | name :: rest => do
    match ← (lstat (root ++ [name])).attempt with
    | .ok _ => ensureNames (root ++ [name]) rest
    | .error .notExist => pure ()
    | .error e => Prog.fail (.io e)

def ensureWithin (base target : List String) : Action δ Unit :=
  if base <+: target then ensureNames base (target.drop base.length)
  else Prog.fail (.refused "storage path escapes document root")

def resolve (base : List String) (relative : String) : Action δ (List String) :=
  if safeRelative relative then do
    ensureWithin base (under base relative)
    pure (under base relative)
  else Prog.fail (.refused "unsafe storage relative path")

def makeDirectories (base : List String) (relative : String) : Action δ Unit := do
  let target ← resolve base relative
  ensureWithin base target
  io (mkdirAll target)
  ensureWithin base target

/-- `RemoveDirectory`. -/
def removeDirectory (base : List String) (relative : String) : Action δ Unit := do
  let target ← resolve base relative
  ensureWithin base target
  match ← (lstat target).attempt with
  | .error .notExist => pure ()
  | .error e => Prog.fail (.io e)
  | .ok _ => io (removeAll target)

/-! ## What the checks accept -/

theorem safeSegment_proper {value : String} (h : safeSegment value = true) : Proper value := by
  unfold safeSegment at h
  simp only [Bool.not_eq_true', Bool.or_eq_false_iff, beq_eq_false_iff_ne] at h
  obtain ⟨⟨⟨hne, hdot⟩, hup⟩, hslash⟩ := h
  refine ⟨hne, hdot, hup, fun hmem => ?_⟩
  rw [List.any_eq_false] at hslash
  exact hslash '/' hmem (by decide)

theorem safeRelative_iff {value : String} :
    safeRelative value = true ↔ value ≠ "" ∧ hasPrefix value "/" = false ∧ clean value = value ∧
      value ≠ "." ∧ value ≠ ".." ∧ hasPrefix value "../" = false := by
  unfold safeRelative
  by_cases hroot : value = "" ∨ hasPrefix value "/" = true
  · rw [if_pos hroot]
    refine ⟨fun h => absurd h (by decide), fun h => ?_⟩
    obtain hempty | hslash := hroot
    · exact absurd hempty h.1
    · rw [h.2.1] at hslash
      cases hslash
  · rw [if_neg hroot]
    rw [not_or] at hroot
    simp only [Bool.and_eq_true, beq_iff_eq, bne_iff_ne, Bool.not_eq_true']
    refine ⟨?_, ?_⟩
    · intro h
      obtain ⟨⟨⟨hc, hd⟩, hu⟩, hb⟩ := h
      rw [hc] at hd hu hb
      exact ⟨hroot.1, Bool.eq_false_iff.mpr hroot.2, hc, hd, hu, hb⟩
    · intro h
      obtain ⟨-, -, hc, hd, hu, hb⟩ := h
      rw [hc]
      exact ⟨⟨⟨rfl, hd⟩, hu⟩, hb⟩

theorem safeRelative_proper {value : String} (h : safeRelative value = true) :
    ∀ n ∈ split value, Proper n := by
  obtain ⟨-, hroot, hclean, hdot, hup, hbelow⟩ := safeRelative_iff.mp h
  exact (proper_of_clean hroot hclean hup hbelow).resolve_left hdot

theorem under_proper {base : List String} {value : String} (h : ∀ n ∈ split value, Proper n) :
    under base value = base ++ split value := by
  unfold under
  rw [foldl_pushName_proper h, List.reverse_append, List.reverse_reverse, List.reverse_reverse]

theorem under_safe {base : List String} {value : String} (h : safeRelative value = true) :
    under base value = base ++ split value := under_proper (safeRelative_proper h)

theorem pathJoin_proper {names : List String} (hne : names ≠ []) (h : ∀ n ∈ names, Proper n) :
    pathJoin names = join names := by
  have hfilter : names.filter (fun n => decide (n ≠ "")) = names := by
    rw [List.filter_eq_self]
    intro n hn
    exact decide_eq_true (h n hn).1
  unfold pathJoin
  simp only [hfilter, if_neg hne]
  exact clean_join hne h

theorem safeRelative_join {names : List String} (hne : names ≠ []) (h : ∀ n ∈ names, Proper n) :
    safeRelative (join names) = true := by
  obtain ⟨name, rest, rfl⟩ := List.exists_cons_of_ne_nil hne
  have hslash : ∀ n ∈ name :: rest, '/' ∉ n.toList := fun n hn => (h n hn).2.2.2
  have hsplit := split_join hne hslash
  have hname := h name (List.mem_cons_self ..)
  have hsingle : ∀ x, '/' ∉ x.toList → join (name :: rest) = x → name = x := by
    intro x hx hjoin
    have hlist : name :: rest = [x] :=
      join_inj hne (List.cons_ne_nil x []) hslash (fun n hn => by rwa [List.mem_singleton.mp hn])
        (hjoin.trans (join_singleton x).symm)
    exact (List.cons.inj hlist).1
  rw [safeRelative_iff]
  refine ⟨?_, hasPrefix_join hname rest, clean_join hne h, ?_, ?_, ?_⟩
  · intro he
    exact hname.1 (hsingle "" (by decide) he)
  · intro he
    exact hname.2.1 (hsingle "." (by decide) he)
  · intro he
    exact hname.2.2.1 (hsingle ".." (by decide) he)
  · rw [Bool.eq_false_iff]
    intro hprefix
    rw [hasPrefix_iff] at hprefix
    obtain ⟨tail, htail⟩ := hprefix
    -- `../` at the front makes `..` the first name
    have hfirst : (join (name :: rest)).toList.splitOn '/' = ['.', '.'] :: tail.splitOn '/' := by
      rw [← htail]
      have hdots : '/' ∉ ['.', '.'] := by decide
      exact List.splitOn_append_cons_self_of_not_mem hdots tail
    have hnames : split (join (name :: rest)) = ".." :: (tail.splitOn '/').map String.ofList := by
      unfold split
      rw [hfirst]
      rfl
    rw [hsplit] at hnames
    exact hname.2.2.1 (List.cons.inj hnames).1

/-! ## What the calls do -/

section
variable {κ : Fates} {b : Bool} {P : Tree → δ → Prop} {base target : List String} {relative : String}

theorem prefix_dropLast {q p : List String} (h : q <+: p) (hne : q ≠ p) : q <+: p.dropLast := by
  by_cases hp : p = []
  · rw [hp] at h hne
    exact absurd (List.prefix_nil.mp h) hne
  · rw [← List.dropLast_append_getLast hp] at h
    refine (List.prefix_concat_iff.mp h).resolve_left fun he => hne ?_
    rw [he, List.dropLast_append_getLast hp]

theorem lookup_passable {t : Tree} (h : Tree.Passable t target.dropLast) {e : IoError}
    {p : List String} (hp : p <+: target) (he : t.lookup p = .error e) : e = .notExist := by
  obtain ⟨hnone, rfl⟩ := Tree.lookup_error he
  refine Tree.missing_notExist fun q hq => ?_
  by_cases hqp : q = p
  · rw [hqp]
    exact .inl hnone
  · refine h q (prefix_dropLast (hq.trans hp) fun heq => hqp ?_)
    exact hq.eq_of_length_le (by rw [heq]; exact hp.length_le)

theorem ensureNames_does {root names : List String} (hle : root ++ names <+: target) :
    Does κ b P (ensureNames root names) (fun _ t d => P t d)
      (fun _ t d => P t d ∧ (Calm κ b → ¬Tree.Passable t target.dropLast)) P := by
  induction names generalizing root with
  | nil => exact Does.pure fun _ _ h => h
  | cons name rest ih =>
    have hhead : root ++ [name] <+: target := by
      refine List.IsPrefix.trans ⟨rest, ?_⟩ hle
      exact (List.append_cons root name rest).symm
    refine Does.bind (R := fun r t d => P t d ∧ ∀ e, r = .error e →
      t.lookup (root ++ [name]) = .error e ∨ (¬Calm κ b ∧ e = .fault))
      (Does.attempt (look_does.post ?_ ?_ ?_)) ?_
    · exact fun _ _ _ h => ⟨h.1, fun e he => by cases he⟩
    · intro e t d h
      refine ⟨h.1, fun e' he' => ?_⟩
      cases he'
      exact h.2
    · exact fun _ _ h => h
    · intro r
      have hrest : root ++ [name] ++ rest <+: target := by
        rw [← List.append_cons]
        exact hle
      split
      · exact (ih hrest).weaken (fun _ _ h => h.1) (fun _ _ _ h => h) (fun _ _ _ h => h) fun _ _ h => h
      · exact Does.pure fun _ _ h => h.1
      · next e hne =>
        refine Does.fail fun t d h => ⟨h.1, fun hcalm hpass => ?_⟩
        obtain hlook | ⟨hnot, -⟩ := h.2 e rfl
        · exact hne (lookup_passable hpass hhead hlook)
        · exact hnot hcalm

theorem ensureWithin_does : Does κ b P (ensureWithin base target) (fun _ t d => P t d ∧ base <+: target)
    (fun _ t d => P t d ∧ (Calm κ b → base <+: target → ¬Tree.Passable t target.dropLast)) P := by
  refine Does.ite (fun hle => ?_) fun hle => ?_
  · have htarget : base ++ target.drop base.length = target := (List.prefix_iff_eq_append.mp hle)
    refine (ensureNames_does (by rw [htarget])).post ?_ ?_ ?_
    · exact fun _ _ _ h => ⟨h, hle⟩
    · exact fun _ _ _ h => ⟨h.1, fun hcalm _ => h.2 hcalm⟩
    · exact fun _ _ h => h
  · exact Does.fail fun _ _ h => ⟨h, fun _ hle' => absurd hle' hle⟩

/-- A safe relative path resolves unless something on its way is no directory. -/
theorem resolve_does : Does κ b P (resolve base relative)
    (fun p t d => P t d ∧ safeRelative relative = true ∧ p = base ++ split relative)
    (fun _ t d => P t d ∧ (Calm κ b → safeRelative relative = true →
      ¬Tree.Passable t (base ++ split relative).dropLast)) P := by
  refine Does.ite (fun hsafe => ?_) fun hsafe => ?_
  · rw [under_safe hsafe]
    refine Does.bind (ensureWithin_does.post ?_ ?_ ?_) fun _ => Does.pure (P := P) fun t d h => ?_
    · exact fun _ _ _ h => h.1
    · exact fun _ _ _ h => ⟨h.1, fun hcalm _ => h.2 hcalm (List.prefix_append ..)⟩
    · exact fun _ _ h => h
    · exact ⟨h, hsafe, rfl⟩
  · exact Does.fail fun _ _ h => ⟨h, fun _ hs => absurd hs hsafe⟩

theorem partLaid_self {t : Tree} {d : δ} {p : List String} (h : P t d) : PartLaid P p t d := by
  refine ⟨t, [], h, List.nil_prefix, Tree.laid_self t.root, ?_⟩
  exact Tree.passable_of_directory t.root

theorem passable_dropLast {t : Tree} {p : List String} (h : Tree.Passable t p) :
    Tree.Passable t p.dropLast :=
  fun q hq => h q (hq.trans (List.dropLast_prefix p))

/-- The directories of a safe relative path are made unless something is in their way. -/
theorem makeDirectories_does : Does κ b P (makeDirectories base relative)
    (fun _ t d => safeRelative relative = true ∧ ∃ t', P t' d ∧
      Tree.Laid t' (base ++ split relative) t ∧ Tree.Passable t' (base ++ split relative))
    (fun _ t d => PartLaid (fun t' d => P t' d ∧ (Calm κ b → safeRelative relative = true →
      ¬Tree.Passable t' (base ++ split relative))) (base ++ split relative) t d)
    (PartLaid P (base ++ split relative)) := by
  have hstuck : ∀ {t : Tree}, (Calm κ b → safeRelative relative = true →
      ¬Tree.Passable t (base ++ split relative).dropLast) → Calm κ b → safeRelative relative = true →
        ¬Tree.Passable t (base ++ split relative) :=
    fun h hcalm hsafe hpass => h hcalm hsafe (passable_dropLast hpass)
  refine Does.bind (resolve_does.post (fun _ _ _ h => h) ?_ ?_) fun p => ?_
  · exact fun _ t d h => partLaid_self ⟨h.1, hstuck h.2⟩
  · exact fun _ _ h => partLaid_self h
  refine Does.start (fun _ _ h => h.2) fun hp => ?_
  obtain ⟨hsafe, rfl⟩ := hp
  refine Does.bind (ensureWithin_does.weaken (fun _ _ h => h.1) (fun _ _ _ h => h.1) ?_ ?_) fun _ => ?_
  · exact fun _ t d h => partLaid_self ⟨h.1, hstuck fun hcalm _ => h.2 hcalm (List.prefix_append ..)⟩
  · exact fun _ _ h => partLaid_self h
  refine Does.bind (Does.mapError (mkdirAll_does.post (fun _ _ _ h => h) ?_ ?_))
    fun _ => ?_
  · intro _ t d h
    obtain ⟨t', q, ⟨ht', hcalm⟩, hrest⟩ := h
    exact ⟨t', q, ⟨ht', fun hc _ => hcalm hc⟩, hrest⟩
  · exact fun _ _ h => h
  refine ensureWithin_does.post ?_ ?_ ?_
  · exact fun _ _ _ h => ⟨hsafe, h.1⟩
  · intro _ t d h
    obtain ⟨⟨t', ht', hlaid, hpass⟩, hcalm⟩ := h
    refine ⟨t', _, ⟨ht', fun hc _ => ?_⟩, List.prefix_refl _, hlaid, hpass⟩
    -- the directories are there by now
    exact absurd (passable_dropLast ((hlaid.passable_iff hpass).mpr hpass))
      (hcalm hc (List.prefix_append ..))
  · intro t d h
    obtain ⟨t', ht', hlaid, hpass⟩ := h
    exact ⟨t', _, ht', List.prefix_refl _, hlaid, hpass⟩

/-- A directory is removed unless something on the way to it is none. -/
theorem removeDirectory_does : Does κ b P (removeDirectory base relative)
    (fun _ t d => ∃ t', P t' d ∧ ((t = t' ∧ t'.obj (base ++ split relative) = none) ∨
      t = t'.removeAll (base ++ split relative) fun _ => false))
    (fun _ t d => ∃ t', P t' d ∧ (t = t' ∨ ∃ left, t = t'.removeAll (base ++ split relative) left) ∧
      (Calm κ b → safeRelative relative = true → ¬Tree.Passable t' (base ++ split relative).dropLast))
    (fun t d => ∃ t', P t' d ∧ (t = t' ∨ ∃ left, t = t'.removeAll (base ++ split relative) left)) := by
  refine Does.bind (resolve_does.post (fun _ _ _ h => h) ?_ ?_) fun p => ?_
  · exact fun _ t d h => ⟨t, h.1, .inl rfl, h.2⟩
  · exact fun t _ h => ⟨t, h, .inl rfl⟩
  refine Does.start (fun _ _ h => h.2) fun hp => ?_
  obtain ⟨hsafe, rfl⟩ := hp
  refine Does.bind (ensureWithin_does.weaken (fun _ _ h => h.1) (fun _ _ _ h => h.1) ?_ ?_) fun _ => ?_
  · exact fun _ t d h => ⟨t, h.1, .inl rfl, fun hcalm _ => h.2 hcalm (List.prefix_append ..)⟩
  · exact fun t _ h => ⟨t, h, .inl rfl⟩
  refine Does.bind (R := fun r t d => P t d ∧ ∀ e, r = .error e →
    t.lookup (base ++ split relative) = .error e ∨ (¬Calm κ b ∧ e = .fault))
    (Does.attempt (look_does.post ?_ ?_ ?_)) fun r => ?_
  · exact fun _ _ _ h => ⟨h.1, fun _ he => by cases he⟩
  · intro e t d h
    refine ⟨h.1, fun e' he' => ?_⟩
    cases he'
    exact h.2
  · exact fun t _ h => ⟨t, h, .inl rfl⟩
  split
  · refine Does.pure fun t d h => ⟨t, h.1, .inl ⟨rfl, ?_⟩⟩
    obtain hlook | ⟨-, hfault⟩ := h.2 _ rfl
    · exact (Tree.lookup_error hlook).1
    · cases hfault
  · next e hne =>
    refine Does.fail fun t d h => ⟨t, h.1, .inl rfl, fun hcalm _ hpass => ?_⟩
    obtain hlook | ⟨hnot, -⟩ := h.2 e rfl
    · exact hne (lookup_passable hpass (List.prefix_refl _) hlook)
    · exact hnot hcalm
  · refine Does.mapError (removeAll_does.weaken (fun _ _ h => h.1) ?_ ?_ ?_)
    · intro _ t d h
      obtain ⟨t', ht', he⟩ := h
      exact ⟨t', ht', .inr he⟩
    · intro _ t d h
      obtain ⟨hnot, t', left, ht', he⟩ := h
      exact ⟨t', ht', .inr ⟨left, he⟩, fun hcalm => absurd hcalm hnot⟩
    · intro t d h
      obtain ⟨t', left, ht', he⟩ := h
      exact ⟨t', ht', .inr ⟨left, he⟩⟩

end

end AppBackup.Storage
