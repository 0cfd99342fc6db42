import AppBackup.Lib.Base64

/- Integers in decimal, as bytes (`strconv.FormatInt` and `strconv.ParseInt` in base 10 and
   64 bits): a sign and digits, refused when there is no digit, another byte or the number
   does not fit; what was formatted is read back. -/
namespace Decimal
open Base64

/-- The value is one of a 64-bit integer. -/
def Fits (t : Int) : Prop := -2 ^ 63 ≤ t ∧ t < 2 ^ 63

instance (t : Int) : Decidable (Fits t) := inferInstanceAs (Decidable (_ ∧ _))

def isDigit (b : Byte) : Bool := decide (48 ≤ b.val ∧ b.val ≤ 57)

def formatNat (n : Nat) : List Byte := (Nat.toDigits 10 n).map fun c => byte c.toNat

def formatInt (t : Int) : List Byte :=
  if t < 0 then 45 :: formatNat t.natAbs else formatNat t.natAbs

def parseNat (text : List Byte) : Option Nat :=
  if text ≠ [] ∧ text.all isDigit then some (text.foldl (fun n b => 10 * n + (b.val - 48)) 0) else none

/-- A number within the 64 bits. -/
def fitting (t : Int) : Option Int := if Fits t then some t else none

def parseInt (text : List Byte) : Option Int :=
  match text with
  | [] => none
  | sign :: rest =>
    if sign = 45 then (parseNat rest).bind fun n => fitting (-(n : Int))
    else if sign = 43 then (parseNat rest).bind fun n => fitting n
    else (parseNat text).bind fun n => fitting n

theorem digit_byte {c : Char} (h : c.isDigit = true) :
    (byte c.toNat).val = c.toNat ∧ 48 ≤ c.toNat ∧ c.toNat ≤ 57 := by
  rw [Char.isDigit_iff_toNat] at h
  have hval : (byte c.toNat).val = c.toNat % 256 := rfl
  have hlow : 48 ≤ c.toNat := h.1
  have hhigh : c.toNat ≤ 57 := h.2
  refine ⟨?_, hlow, hhigh⟩
  omega

theorem toDigits_isDigit (n : Nat) : ∀ c ∈ Nat.toDigits 10 n, c.isDigit = true := by
  intro c hc
  exact Nat.isDigit_of_mem_toDigits (by omega) (by omega) hc

theorem formatNat_digits (n : Nat) : ∀ b ∈ formatNat n, 48 ≤ b.val ∧ b.val ≤ 57 := by
  intro b hb
  obtain ⟨c, hc, rfl⟩ := List.mem_map.mp hb
  obtain ⟨hval, hlow, hhigh⟩ := digit_byte (toDigits_isDigit n c hc)
  show 48 ≤ (byte c.toNat).val ∧ (byte c.toNat).val ≤ 57
  omega

theorem formatNat_ne_nil (n : Nat) : formatNat n ≠ [] := by
  intro h
  exact Nat.toDigits_ne_nil (List.map_eq_nil_iff.mp h)

/-- A number is written without zeros in front. -/
theorem formatNat_head {n : Nat} (hn : 0 < n) : (formatNat n).head? ≠ some 48 := by
  have hdigits : ∀ k n, n ≤ k → 0 < n → ((Nat.toDigits 10 n).map fun c => byte c.toNat).head? ≠ some 48 := by
    intro k
    induction k with
    | zero => omega
    | succ k ih =>
      intro n hk hn
      by_cases hsmall : n < 10
      · have hcases : ∀ d < 10, 0 < d →
            ((Nat.toDigits 10 d).map fun c => byte c.toNat).head? ≠ some 48 := by decide
        exact hcases n hsmall hn
      · have hmore := ih (n / 10) (by omega) (by omega)
        rw [Nat.toDigits_of_base_le (by omega) (by omega), List.map_append, List.head?_append_of_ne_nil]
        · exact hmore
        · exact fun hnil => Nat.toDigits_ne_nil (List.map_eq_nil_iff.mp hnil)
  exact hdigits n n (Nat.le_refl n) hn

theorem parseNat_formatNat (n : Nat) : parseNat (formatNat n) = some n := by
  have hall : (formatNat n).all isDigit = true := by
    rw [List.all_eq_true]
    intro b hb
    exact decide_eq_true (formatNat_digits n b hb)
  have hfold : ∀ (l : List Char) (k : Nat), (∀ c ∈ l, c.isDigit = true) →
      (l.map fun c => byte c.toNat).foldl (fun n b => 10 * n + (b.val - 48)) k =
        Nat.ofDigitChars 10 l k := by
    intro l
    induction l with
    | nil =>
      intro k _
      rfl
    | cons c l ih =>
      intro k hl
      obtain ⟨hval, -⟩ := digit_byte (hl c (List.mem_cons_self ..))
      rw [List.map_cons, List.foldl_cons, ih _ fun c' hc' => hl c' (List.mem_cons_of_mem _ hc'),
        Nat.ofDigitChars_cons, hval]
      rfl
  unfold parseNat
  rw [if_pos ⟨formatNat_ne_nil n, hall⟩]
  unfold formatNat
  rw [hfold _ 0 (toDigits_isDigit n), Nat.ofDigitChars_ten_toDigits]

theorem parseInt_formatInt {t : Int} (h : Fits t) : parseInt (formatInt t) = some t := by
  unfold formatInt
  by_cases hneg : t < 0
  · rw [if_pos hneg]
    have habs : -(t.natAbs : Int) = t := by omega
    show (parseNat (formatNat t.natAbs)).bind (fun n => fitting (-(n : Int))) = some t
    rw [parseNat_formatNat, Option.bind_some, habs]
    exact if_pos h
  · rw [if_neg hneg]
    have habs : (t.natAbs : Int) = t := by omega
    have hread : (parseNat (formatNat t.natAbs)).bind (fun n => fitting n) = some t := by
      rw [parseNat_formatNat, Option.bind_some, habs]
      exact if_pos h
    obtain ⟨b, rest, hb⟩ := List.exists_cons_of_ne_nil (formatNat_ne_nil t.natAbs)
    have hdigit := formatNat_digits t.natAbs b (by rw [hb]; exact List.mem_cons_self ..)
    rw [hb] at hread ⊢
    have hsign : ∀ sign : Byte, ¬(48 ≤ sign.val ∧ sign.val ≤ 57) → b ≠ sign := by
      intro sign hsign he
      exact hsign (he ▸ hdigit)
    unfold parseInt
    simp only [if_neg (hsign 45 (by decide)), if_neg (hsign 43 (by decide))]
    exact hread

theorem parseInt_fits {text : List Byte} {t : Int} (h : parseInt text = some t) : Fits t := by
  have hfitting : ∀ {n : Option Nat} {f : Nat → Int}, (n.bind fun n => fitting (f n)) = some t → Fits t := by
    intro n f hn
    obtain ⟨m, -, hm⟩ := Option.bind_eq_some_iff.mp hn
    unfold fitting at hm
    by_cases hfits : Fits (f m)
    · rw [if_pos hfits] at hm
      exact Option.some.inj hm ▸ hfits
    · rw [if_neg hfits] at hm
      cases hm
  unfold parseInt at h
  cases text with
  | nil => cases h
  | cons sign rest =>
    simp only at h
    by_cases hminus : sign = 45
    · rw [if_pos hminus] at h
      exact hfitting h
    · rw [if_neg hminus] at h
      by_cases hplus : sign = 43
      · rw [if_pos hplus] at h
        exact hfitting h
      · rw [if_neg hplus] at h
        exact hfitting h

theorem nul_notMem_formatInt (t : Int) : 0 ∉ formatInt t := by
  have hdigits : 0 ∉ formatNat t.natAbs := by
    intro h
    exact absurd (formatNat_digits _ _ h) (by decide)
  unfold formatInt
  by_cases hneg : t < 0
  · rw [if_pos hneg]
    intro h
    obtain h | h := List.mem_cons.mp h
    · exact absurd h (by decide)
    · exact hdigits h
  · rw [if_neg hneg]
    exact hdigits

end Decimal
