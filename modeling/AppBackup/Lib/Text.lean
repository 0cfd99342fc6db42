import Mathlib.Data.List.Basic
import Mathlib.Data.List.Infix
import Mathlib.Data.List.TakeWhile

/- The functions of the `strings` package the services use on paths and queries, over the
   characters of a text. -/
namespace Text

/-- `strings.HasPrefix`. -/
def hasPrefix (text start : String) : Bool := start.toList.isPrefixOf text.toList

/-- `strings.HasSuffix`. -/
def hasSuffix (text suffix : String) : Bool := suffix.toList.isSuffixOf text.toList

/-- `strings.Contains`. -/
def contains (text part : String) : Bool := text.toList.tails.any part.toList.isPrefixOf

/-- The characters left when those of a set are cut from both ends. -/
def trimChars (cut : Char → Bool) (l : List Char) : List Char :=
  ((l.dropWhile cut).reverse.dropWhile cut).reverse

/-- `strings.TrimFunc`, and `strings.Trim` with the characters of its cutset. -/
def trim (cut : Char → Bool) (text : String) : String := String.ofList (trimChars cut text.toList)

/-- `unicode.IsSpace`. -/
def isSpace (c : Char) : Bool :=
  let n := c.toNat
  (9 ≤ n && n ≤ 13) || n == 0x20 || n == 0x85 || n == 0xA0 || n == 0x1680 ||
    (0x2000 ≤ n && n ≤ 0x200A) || n == 0x2028 || n == 0x2029 || n == 0x202F || n == 0x205F ||
    n == 0x3000

/-- `strings.TrimSpace`. -/
def trimSpace (text : String) : String := trim isSpace text

theorem hasPrefix_iff {text start : String} :
    hasPrefix text start = true ↔ start.toList <+: text.toList := by
  simp [hasPrefix, List.isPrefixOf_iff_prefix]

theorem hasSuffix_iff {text suffix : String} :
    hasSuffix text suffix = true ↔ suffix.toList <:+ text.toList := by
  simp [hasSuffix, List.isSuffixOf_iff_suffix]

theorem contains_iff {text part : String} :
    contains text part = true ↔ part.toList <:+: text.toList := by
  unfold contains
  rw [List.any_eq_true]
  constructor
  · intro ⟨rest, hrest, hpart⟩
    exact (List.isPrefixOf_iff_prefix.mp hpart).isInfix.trans ((List.mem_tails _ _).mp hrest).isInfix
  · intro h
    obtain ⟨rest, hpart, hrest⟩ := List.infix_iff_prefix_suffix.mp h
    exact ⟨rest, (List.mem_tails _ _).mpr hrest, List.isPrefixOf_iff_prefix.mpr hpart⟩

theorem trimChars_eq_self {cut : Char → Bool} {l : List Char} (hfirst : ∀ c ∈ l.head?, cut c = false)
    (hlast : ∀ c ∈ l.getLast?, cut c = false) : trimChars cut l = l := by
  have hdrop : ∀ l : List Char, (∀ c ∈ l.head?, cut c = false) → l.dropWhile cut = l := by
    intro l h
    cases l with
    | nil => rfl
    | cons c l => simp [h c rfl]
  unfold trimChars
  rw [hdrop l hfirst, hdrop l.reverse (by simpa using hlast), List.reverse_reverse]

/-- The ends of a trimmed text are kept. -/
theorem trimChars_ends (cut : Char → Bool) (l : List Char) :
    (∀ c ∈ (trimChars cut l).head?, cut c = false) ∧ ∀ c ∈ (trimChars cut l).getLast?, cut c = false := by
  have hhead : ∀ l : List Char, ∀ c ∈ (l.dropWhile cut).head?, cut c = false := by
    intro l c hc
    have := List.head?_dropWhile_not cut l
    rw [Option.mem_def.mp hc] at this
    simpa using this
  unfold trimChars
  constructor
  · intro c hc
    rw [List.head?_reverse] at hc
    -- What is cut at the end leaves a prefix of what was left at the start.
    have hsuffix : (l.dropWhile cut).reverse.dropWhile cut <:+ (l.dropWhile cut).reverse :=
      List.dropWhile_suffix cut
    obtain ⟨more, hmore⟩ := hsuffix
    apply hhead l
    rw [Option.mem_def, ← List.getLast?_reverse, ← hmore, List.getLast?_append, Option.mem_def.mp hc]
    rfl
  · intro c hc
    rw [List.getLast?_reverse] at hc
    exact hhead _ c hc

theorem trimChars_trimChars (cut : Char → Bool) (l : List Char) :
    trimChars cut (trimChars cut l) = trimChars cut l :=
  trimChars_eq_self (trimChars_ends cut l).1 (trimChars_ends cut l).2

theorem mem_of_mem_trimChars {cut : Char → Bool} {l : List Char} {c : Char}
    (h : c ∈ trimChars cut l) : c ∈ l := by
  unfold trimChars at h
  rw [List.mem_reverse] at h
  have h := (List.dropWhile_suffix cut).subset h
  rw [List.mem_reverse] at h
  exact (List.dropWhile_suffix cut).subset h

theorem mem_trimChars {cut : Char → Bool} {l : List Char} {c : Char} (hc : cut c = false) (h : c ∈ l) :
    c ∈ trimChars cut l := by
  have hkept : ∀ l : List Char, c ∈ l → c ∈ l.dropWhile cut := by
    intro l hl
    rw [← List.takeWhile_append_dropWhile (p := cut) (l := l)] at hl
    obtain hl | hl := List.mem_append.mp hl
    · have hcut := List.mem_takeWhile_imp hl
      rw [hc] at hcut
      cases hcut
    · exact hl
  unfold trimChars
  rw [List.mem_reverse]
  exact hkept _ (List.mem_reverse.mpr (hkept l h))

end Text
