import AppBackup.Lib.Path

/- Trees with symbolic links, and the resolution of a path in one (`filepath.EvalSymlinks`).
   A path is the sequence of its names from the root; a walk keeps the names resolved so far,
   takes the elements of a path one by one, and puts the elements of a link's target before
   the rest. After 255 links it gives up.

   What is proved: a walk ends in an object that is no link and below directories only
   (`walk_real`), and does nothing to the path of such an object (`walk_self`). -/
namespace Links
open Path

inductive LinkError where
  | notExist | permission | notDirectory | tooManyLinks | other
  deriving DecidableEq

inductive Node where
  | directory
  | object
  | link (target : String)
  deriving DecidableEq

/-- What `os.Lstat` says of each path; what is there is in a directory. -/
structure Tree where
  lstat : List String → Except LinkError Node
  root : lstat [] = .ok .directory
  above : ∀ path name n, lstat (path ++ [name]) = .ok n → lstat path = .ok .directory

/-- The elements of a path one after the other; `jump` goes on behind a link. -/
def walkElements (t : Tree) (jump : List String → List String → Except LinkError (List String)) :
    List String → List String → Except LinkError (List String)
  | dest, [] => .ok dest
  | dest, name :: rest =>
    if name = "" ∨ name = "." then walkElements t jump dest rest
    else if name = ".." then walkElements t jump dest.dropLast rest
    else
      match t.lstat (dest ++ [name]) with
      | .error e => .error e
      | .ok .directory => walkElements t jump (dest ++ [name]) rest
      | .ok .object => if rest = [] then .ok (dest ++ [name]) else .error .notDirectory
      | .ok (.link target) => jump (if Text.hasPrefix target "/" then [] else dest) (split target ++ rest)

/-- A walk that may follow `links` links. -/
def walk (t : Tree) : Nat → List String → List String → Except LinkError (List String)
  | 0 => walkElements t fun _ _ => .error .tooManyLinks
  | links + 1 => walkElements t (walk t links)

/-- `filepath.EvalSymlinks` of an absolute path. -/
def evalSymlinks (t : Tree) (path : String) : Except LinkError (List String) := walk t 255 [] (split path)

/-- `os.Stat`; the kernel follows 40 links. -/
def stat (t : Tree) (path : List String) : Except LinkError Node := (walk t 40 [] path).bind t.lstat

/-- Names that lead to an object that is no link. -/
def Real (t : Tree) (path : List String) : Prop :=
  (∀ name ∈ path, Proper name) ∧ (t.lstat path = .ok .directory ∨ t.lstat path = .ok .object)

variable {t : Tree}

theorem real_root (t : Tree) : Real t [] := ⟨fun _ h => absurd h List.not_mem_nil, .inl t.root⟩

theorem directory_above {path more : List String} {n : Node} (hmore : more ≠ [])
    (h : t.lstat (path ++ more) = .ok n) :
    t.lstat path = .ok .directory := by
  induction more using List.reverseRecOn generalizing n with
  | nil => exact absurd rfl hmore
  | append_singleton more name ih =>
    rw [← List.append_assoc] at h
    have habove := t.above _ _ _ h
    by_cases hlast : more = []
    · rwa [hlast, List.append_nil] at habove
    · exact ih hlast habove

theorem Real.dropLast {path : List String} (h : Real t path) : Real t path.dropLast := by
  refine ⟨fun name hname => h.1 name (List.dropLast_subset path hname), ?_⟩
  induction path using List.reverseRecOn with
  | nil => exact .inl t.root
  | append_singleton path name =>
    rw [List.dropLast_concat]
    obtain hn | hn := h.2
    · exact .inl (t.above _ _ _ hn)
    · exact .inl (t.above _ _ _ hn)

theorem walkElements_real {jump : List String → List String → Except LinkError (List String)}
    (hjump : ∀ dest todo path, Real t dest → (∀ name ∈ todo, '/' ∉ name.toList) →
      jump dest todo = .ok path → Real t path)
    {todo dest path : List String} (hdest : Real t dest) (htodo : ∀ name ∈ todo, '/' ∉ name.toList)
    (h : walkElements t jump dest todo = .ok path) : Real t path := by
  induction todo generalizing dest with
  | nil =>
    obtain rfl := Except.ok.inj h
    exact hdest
  | cons name rest ih =>
    have hrest : ∀ name ∈ rest, '/' ∉ name.toList := fun n hn => htodo n (List.mem_cons_of_mem _ hn)
    unfold walkElements at h
    by_cases hskip : name = "" ∨ name = "."
    · rw [if_pos hskip] at h
      exact ih hdest hrest h
    · rw [if_neg hskip] at h
      by_cases hup : name = ".."
      · rw [if_pos hup] at h
        exact ih hdest.dropLast hrest h
      · rw [if_neg hup] at h
        have hproper : ∀ n ∈ dest ++ [name], Proper n := by
          intro n hn
          obtain hn | hn := List.mem_append.mp hn
          · exact hdest.1 n hn
          · obtain rfl := List.mem_singleton.mp hn
            exact ⟨fun he => hskip (.inl he), fun he => hskip (.inr he), hup, htodo _ (List.mem_cons_self ..)⟩
        cases hn : t.lstat (dest ++ [name]) with
        | error e =>
          rw [hn] at h
          cases h
        | ok n =>
          rw [hn] at h
          cases n with
          | directory => exact ih ⟨hproper, .inl hn⟩ hrest h
          | object =>
            by_cases hend : rest = []
            · simp only [if_pos hend] at h
              obtain rfl := Except.ok.inj h
              exact ⟨hproper, .inr hn⟩
            · simp only [if_neg hend] at h
              cases h
          | link target =>
            refine hjump _ _ path ?_ ?_ h
            · split
              · exact real_root t
              · exact hdest
            · intro n hn
              obtain hn | hn := List.mem_append.mp hn
              · exact slash_notMem_split hn
              · exact hrest n hn

theorem walk_real {links : Nat} {todo dest path : List String} (hdest : Real t dest)
    (htodo : ∀ name ∈ todo, '/' ∉ name.toList) (h : walk t links dest todo = .ok path) : Real t path := by
  induction links generalizing todo dest path with
  | zero =>
    refine walkElements_real (fun _ _ _ _ _ hjump => ?_) hdest htodo h
    cases hjump
  | succ links ih => exact walkElements_real (fun _ _ _ hd ht hjump => ih hd ht hjump) hdest htodo h

theorem walkElements_self {jump : List String → List String → Except LinkError (List String)}
    {todo dest : List String}
    (h : Real t (dest ++ todo)) : walkElements t jump dest todo = .ok (dest ++ todo) := by
  induction todo generalizing dest with
  | nil =>
    rw [List.append_nil]
    rfl
  | cons name rest ih =>
    obtain ⟨hempty, hdot, hdots, -⟩ := h.1 name (List.mem_append_right _ (List.mem_cons_self ..))
    have happend : dest ++ name :: rest = dest ++ [name] ++ rest := by simp
    unfold walkElements
    rw [if_neg (not_or.mpr ⟨hempty, hdot⟩), if_neg hdots]
    rw [happend] at h ⊢
    by_cases hend : rest = []
    · subst hend
      simp only [List.append_nil] at h ⊢
      obtain hn | hn := h.2
      · rw [hn]
        rfl
      · rw [hn]
        rfl
    · have hdirectory : t.lstat (dest ++ [name]) = .ok .directory := by
        obtain hn | hn := h.2
        · exact directory_above hend hn
        · exact directory_above hend hn
      rw [hdirectory]
      exact ih h

theorem walk_self {path : List String} (h : Real t path) (links : Nat) : walk t links [] path = .ok path := by
  have hnil : Real t ([] ++ path) := h
  cases links with
  | zero => exact walkElements_self hnil
  | succ links => exact walkElements_self hnil

theorem evalSymlinks_real {path : String} {resolved : List String} (h : evalSymlinks t path = .ok resolved) :
    Real t resolved :=
  walk_real (real_root t) (fun _ hn => slash_notMem_split hn) h

end Links
