import Mathlib.Algebra.GroupWithZero.Nat
import Mathlib.Data.List.Basic

/- Fields joined by a separator and split again (`strings.Join`, `strings.Split`): the
   split gives one field more than there are separators, so it gives the fields back
   exactly when none of them has a separator in it. -/
namespace Fields

variable {α : Type*} [BEq α] {sep : α}

theorem length_splitOn (text : List α) : (text.splitOn sep).length = text.count sep + 1 := by
  induction text with
  | nil => rfl
  | cons c text ih =>
    rw [List.splitOn_cons_eq_if_modifyHead, List.count_cons]
    by_cases hc : (c == sep) = true
    · rw [if_pos hc, if_pos hc, List.length_cons, ih]
    · rw [if_neg hc, if_neg hc, List.length_modifyHead, ih]

variable [LawfulBEq α]

theorem count_intercalate (fields : List (List α)) :
    ([sep].intercalate fields).count sep = (fields.map (·.count sep)).sum + (fields.length - 1) := by
  induction fields with
  | nil => rfl
  | cons field rest ih =>
    cases rest with
    | nil => simp
    | cons next rest =>
      rw [List.intercalate_cons_cons, List.count_append, List.count_append, ih, List.count_singleton_self]
      simp only [List.map_cons, List.sum_cons, List.length_cons]
      omega

theorem notMem_of_length_splitOn {fields : List (List α)} (hne : fields ≠ [])
    (h : (([sep].intercalate fields).splitOn sep).length = fields.length) :
    ∀ field ∈ fields, sep ∉ field := by
  have hpos := List.length_pos_iff.mpr hne
  rw [length_splitOn, count_intercalate] at h
  intro field hfield
  have hzero : (fields.map (·.count sep)).sum = 0 := by omega
  have hall := List.sum_eq_zero_iff_forall_eq_nat.mp hzero
  exact List.count_eq_zero.mp (hall _ (List.mem_map_of_mem hfield))

end Fields
