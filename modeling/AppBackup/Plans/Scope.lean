import AppBackup.Domain.Types
import AppBackup.Lib.Path
import Mathlib.Data.List.Sort
import Mathlib.Data.String.Basic

/- The scope of a plan's target as it is saved (`plans/service.go`): `normalizeScope` trims
   and rewrites the paths it is given, refuses unsafe ones and the companions of SQLite
   databases, and drops what a chosen directory covers. `strings.ToLower` is the parameter
   `lower`. -/
namespace AppBackup.Plans
open Path Text

/-- `strings.ToUpper`, as far as it gives ASCII letters. -/
def upperChar (c : Char) : Char := if c = 'ſ' then 'S' else if c = 'ı' then 'I' else c.toUpper

def toUpper (text : String) : String := String.ofList (text.toList.map upperChar)

/-- `strings.Trim(strings.ReplaceAll(value, "\\", "/"), "/ ")`. -/
def normalPath (value : String) : String :=
  String.ofList (trimChars (fun c => c == '/' || c == ' ')
    (value.toList.map fun c => if c = '\\' then '/' else c))

def unsafePath (value : String) : Bool :=
  value == "" || hasPrefix value "../" || value == ".." || contains value "/../"

/-- A name that looks like the companion of a SQLite database. -/
def companionName (lower : String → String) (file : String) : Bool :=
  hasSuffix (lower file) "-wal" || hasSuffix (lower file) "-shm" || hasSuffix (lower file) "-journal"

/-- One path of the closure `clean` of `normalizeScope`. -/
def cleanPath (out : List String) (value : String) : Except String (List String) :=
  let value := normalPath value
  if unsafePath value then .error "unsafe path"
  else if out.contains value then .ok out
  else .ok (out ++ [value])

def cleanPaths (values : List String) : Except String (List String) := do
  let out ← values.foldlM cleanPath []
  if out.length > 500 then .error "too many paths" else .ok out

/-- Shorter paths first, in bytes, those of one length in order. -/
def shorterFirst (p q : String) : Prop :=
  p.utf8ByteSize < q.utf8ByteSize ∨ (p.utf8ByteSize = q.utf8ByteSize ∧ p ≤ q)

instance : DecidableRel shorterFirst := fun _ _ => inferInstanceAs (Decidable (_ ∨ _))

/-- One path of the loop of `removeCoveredDirectories`. -/
def keepUncovered (result : List String) (value : String) : List String :=
  if result.any fun parent => below parent value then result else result ++ [value]

def removeCoveredDirectories (values : List String) : List String :=
  (values.insertionSort shorterFirst).foldl keepUncovered []

def removeFilesCoveredByDirectories (files directories : List String) : List String :=
  files.filter fun file => !directories.any fun directory => below directory file

/-- What `normalizeScope` makes of cleaned paths. -/
def closeScope (lower : String → String) (mode : String) (revision : Int)
    (directories files : List String) : Except String BackupScope :=
  if files.any (companionName lower) then .error "sqlite companion files cannot be selected"
  else
    let directories := removeCoveredDirectories directories
    let files := removeFilesCoveredByDirectories files directories
    if mode = "CUSTOM" ∧ directories.length + files.length = 0 then .error "empty scope"
    else
      let summary := if mode = "CORE" then "Notus 核心 SQLite 档案"
        else toString directories.length ++ " 个目录，" ++ toString files.length ++ " 个文件"
      .ok ⟨mode, directories, files, revision, summary⟩

def normalizeScope (lower : String → String) (input : BackupScope) : Except String BackupScope :=
  let upper := toUpper (trimSpace input.mode)
  let mode := if upper = "" then "FULL" else upper
  let revision := if input.revision < 1 then 1 else input.revision
  if mode ≠ "FULL" ∧ mode ≠ "CORE" ∧ mode ≠ "CUSTOM" then .error "invalid scope mode"
  else if mode = "FULL" then .ok ⟨mode, [], [], revision, "全部支持数据"⟩
  else do
    let directories ← cleanPaths input.directories
    let files ← cleanPaths input.files
    closeScope lower mode revision directories files

/-! ## Normal paths -/

theorem normalPath_normalPath (value : String) : normalPath (normalPath value) = normalPath value := by
  unfold normalPath
  rw [String.toList_ofList]
  generalize hl : value.toList.map (fun c => if c = '\\' then '/' else c) = l
  have hslash : ∀ c ∈ l, c ≠ '\\' := by
    intro c hc
    rw [← hl] at hc
    obtain ⟨b, -, rfl⟩ := List.mem_map.mp hc
    by_cases hb : b = '\\'
    · rw [if_pos hb]
      decide
    · rw [if_neg hb]
      exact hb
  have hmap : (trimChars (fun c => c == '/' || c == ' ') l).map (fun c => if c = '\\' then '/' else c) =
      trimChars (fun c => c == '/' || c == ' ') l := by
    conv_rhs => rw [← List.map_id (trimChars (fun c => c == '/' || c == ' ') l)]
    apply List.map_congr_left
    intro c hc
    exact if_neg (hslash c (mem_of_mem_trimChars hc))
  rw [hmap, trimChars_trimChars]

/-! ## Cleaned paths -/

theorem ok_of_bind {ε α β : Type} {x : Except ε α} {f : α → Except ε β} {b : β} (h : x >>= f = .ok b) :
    ∃ a, x = .ok a ∧ f a = .ok b := by
  cases x with
  | error e => cases h
  | ok a => exact ⟨a, rfl, h⟩

theorem foldlM_cleanPath {values : List String} (h : ∀ v ∈ values, unsafePath (normalPath v) = false) :
    ∀ out, ∃ out', values.foldlM cleanPath out = .ok out' ∧ out'.length ≤ out.length + values.length ∧
      ∀ p, p ∈ out' ↔ p ∈ out ∨ ∃ v ∈ values, normalPath v = p := by
  induction values with
  | nil =>
    intro out
    exact ⟨out, rfl, Nat.le_refl _, by simp⟩
  | cons v rest ih =>
    intro out
    have hv := h v (List.mem_cons_self ..)
    have hrest := ih fun w hw => h w (List.mem_cons_of_mem _ hw)
    have hcons : ∀ p, (∃ w ∈ v :: rest, normalPath w = p) ↔
        normalPath v = p ∨ ∃ w ∈ rest, normalPath w = p := by simp
    rw [List.foldlM_cons]
    unfold cleanPath
    simp only [hv, Bool.false_eq_true, if_false]
    by_cases hseen : out.contains (normalPath v) = true
    · rw [if_pos hseen]
      obtain ⟨out', hout, hlen, hmem⟩ := hrest out
      refine ⟨out', hout, by rw [List.length_cons]; omega, ?_⟩
      intro p
      rw [hmem, hcons]
      have hv : normalPath v = p → p ∈ out := by
        intro he
        simpa [he] using hseen
      constructor
      · intro hp
        exact hp.imp id .inr
      · intro hp
        obtain hp | hp | hp := hp
        · exact .inl hp
        · exact .inl (hv hp)
        · exact .inr hp
    · rw [if_neg hseen]
      obtain ⟨out', hout, hlen, hmem⟩ := hrest (out ++ [normalPath v])
      rw [List.length_append, List.length_singleton] at hlen
      refine ⟨out', hout, by rw [List.length_cons]; omega, ?_⟩
      intro p
      rw [hmem, hcons, List.mem_append, List.mem_singleton, or_assoc, @eq_comm _ p]

theorem cleanPaths_ok {values : List String} (hlen : values.length ≤ 500)
    (h : ∀ v ∈ values, unsafePath (normalPath v) = false) :
    ∃ out, cleanPaths values = .ok out ∧ ∀ p, p ∈ out ↔ ∃ v ∈ values, normalPath v = p := by
  obtain ⟨out, hout, hle, hmem⟩ := foldlM_cleanPath h []
  refine ⟨out, ?_, by simpa using hmem⟩
  unfold cleanPaths
  rw [hout]
  show (if out.length > 500 then _ else _) = _
  rw [if_neg (by rw [List.length_nil] at hle; omega)]

theorem safe_of_cleanPaths {values out : List String} (h : cleanPaths values = .ok out) :
    ∀ v ∈ values, unsafePath (normalPath v) = false := by
  have hfold : ∀ (values out out' : List String), values.foldlM cleanPath out = .ok out' →
      ∀ v ∈ values, unsafePath (normalPath v) = false := by
    intro values
    induction values with
    | nil =>
      intro _ _ _ v hv
      cases hv
    | cons w rest ih =>
      intro out out' h v hv
      rw [List.foldlM_cons] at h
      by_cases hw : unsafePath (normalPath w) = true
      · have herror : cleanPath out w = .error "unsafe path" := by
          unfold cleanPath
          exact if_pos hw
        rw [herror] at h
        cases h
      · obtain rfl | hv := List.mem_cons.mp hv
        · simpa using hw
        · cases hclean : cleanPath out w with
          | error e => rw [hclean] at h; cases h
          | ok out₁ => rw [hclean] at h; exact ih out₁ out' h v hv
  cases hv : values.foldlM cleanPath [] with
  | error e => unfold cleanPaths at h; rw [hv] at h; cases h
  | ok out' => exact hfold values [] out' hv

theorem mem_cleanPaths {values out : List String} (hlen : values.length ≤ 500)
    (h : cleanPaths values = .ok out) (p : String) : p ∈ out ↔ ∃ v ∈ values, normalPath v = p := by
  obtain ⟨out', hout, hmem⟩ := cleanPaths_ok hlen (safe_of_cleanPaths h)
  rw [h] at hout
  rw [Except.ok.inj hout]
  exact hmem p

/-! ## Covered paths -/

instance : Std.Total shorterFirst where
  total p q := by
    unfold shorterFirst
    have := le_total p q
    have := Nat.lt_trichotomy p.utf8ByteSize q.utf8ByteSize
    tauto

instance : IsTrans String shorterFirst where
  trans p q r hpq hqr := by
    unfold shorterFirst at *
    obtain hpq | ⟨hpq, hle⟩ := hpq
    · left
      omega
    · obtain hqr | ⟨hqr, hle'⟩ := hqr
      · left
        omega
      · exact .inr ⟨hpq.trans hqr, hle.trans hle'⟩

instance : Std.Antisymm shorterFirst where
  antisymm p q hpq hqp := by
    unfold shorterFirst at *
    obtain hlt | ⟨he, hle⟩ := hpq
    · obtain hlt' | ⟨he', -⟩ := hqp <;> omega
    · obtain hlt' | ⟨-, hle'⟩ := hqp
      · omega
      · exact le_antisymm hle hle'

theorem shorterFirst_sorted (values : List String) :
    (values.insertionSort shorterFirst).Pairwise fun p q => p.utf8ByteSize ≤ q.utf8ByteSize := by
  refine (List.pairwise_insertionSort shorterFirst values).imp ?_
  intro p q h
  obtain hlt | ⟨he, -⟩ := h
  · exact Nat.le_of_lt hlt
  · exact Nat.le_of_eq he

/-- Of sorted paths the loop keeps those that no other is above: a path above another one is
shorter and has been met before it. -/
theorem mem_foldl_keepUncovered {values : List String}
    (hsorted : values.Pairwise fun p q => p.utf8ByteSize ≤ q.utf8ByteSize) (p : String) :
    p ∈ values.foldl keepUncovered [] ↔ p ∈ values ∧ ∀ w ∈ values, below w p = false := by
  induction values using List.reverseRecOn generalizing p with
  | nil => simp
  | append_singleton values v ih =>
    obtain ⟨hvalues, -, hlast⟩ := List.pairwise_append.mp hsorted
    have ih := ih hvalues
    have hself : below v v = false := by
      by_contra h
      exact absurd (below_size (by simpa using h)) (Nat.lt_irrefl _)
    have hshort : ∀ q ∈ values, below v q = false := by
      intro q hq
      by_contra h
      have := below_size (by simpa using h : below v q = true)
      have := hlast q hq v (List.mem_singleton_self v)
      omega
    rw [List.foldl_append, List.foldl_cons, List.foldl_nil]
    generalize values.foldl keepUncovered [] = result at ih ⊢
    unfold keepUncovered
    by_cases hcovered : result.any (fun parent => below parent v) = true
    · rw [if_pos hcovered, ih p]
      obtain ⟨r, hr, hrv⟩ := List.any_eq_true.mp hcovered
      have hr := ((ih r).mp hr).1
      constructor
      · intro ⟨hp, hnone⟩
        refine ⟨List.mem_append_left _ hp, ?_⟩
        intro w hw
        obtain hw | hw := List.mem_append.mp hw
        · exact hnone w hw
        · rw [List.mem_singleton.mp hw]
          exact hshort p hp
      · intro ⟨hp, hnone⟩
        refine ⟨?_, fun w hw => hnone w (List.mem_append_left _ hw)⟩
        obtain hp | hp := List.mem_append.mp hp
        · exact hp
        · have hrp := hnone r (List.mem_append_left _ hr)
          rw [List.mem_singleton.mp hp, hrv] at hrp
          cases hrp
    · rw [if_neg hcovered, List.mem_append, List.mem_singleton, ih p]
      constructor
      · intro h
        obtain ⟨hp, hnone⟩ | rfl := h
        · refine ⟨List.mem_append_left _ hp, ?_⟩
          intro w hw
          obtain hw | hw := List.mem_append.mp hw
          · exact hnone w hw
          · rw [List.mem_singleton.mp hw]
            exact hshort p hp
        · refine ⟨List.mem_append_right _ (List.mem_singleton_self _), ?_⟩
          intro w hw
          obtain hw | hw := List.mem_append.mp hw
          · by_contra hwp
            have hwp : below w p = true := by simpa using hwp
            obtain ⟨root, hroot, hnone, hrw⟩ := exists_root hw
            apply hcovered
            refine List.any_eq_true.mpr ⟨root, (ih root).mpr ⟨hroot, hnone⟩, ?_⟩
            obtain rfl | hrw := hrw
            · exact hwp
            · exact below_trans hrw hwp
          · rw [List.mem_singleton.mp hw]
            exact hself
      · intro ⟨hp, hnone⟩
        obtain hp | hp := List.mem_append.mp hp
        · exact .inl ⟨hp, fun w hw => hnone w (List.mem_append_left _ hw)⟩
        · exact .inr (List.mem_singleton.mp hp)

theorem mem_removeCoveredDirectories {values : List String} {p : String} :
    p ∈ removeCoveredDirectories values ↔ p ∈ values ∧ ∀ w ∈ values, below w p = false := by
  unfold removeCoveredDirectories
  rw [mem_foldl_keepUncovered (shorterFirst_sorted values)]
  simp [List.mem_insertionSort]

theorem mem_removeFiles {files directories : List String} {f : String} :
    f ∈ removeFilesCoveredByDirectories files directories ↔
      f ∈ files ∧ ∀ d ∈ directories, below d f = false := by
  unfold removeFilesCoveredByDirectories
  rw [List.mem_filter]
  simp

end AppBackup.Plans
