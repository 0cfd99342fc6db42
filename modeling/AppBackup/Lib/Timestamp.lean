import AppBackup.Lib.Calendar
import AppBackup.Lib.Decimal
import Mathlib.Tactic.Ring

/- Times as RFC 3339 writes them, in UTC and to the nanosecond (`Time.MarshalJSON`), and the
   strict reader of the `time` package (`parseRFC3339`). A year has four digits, or the time
   is not written; the zeros at the end of a fraction are left out. What was written is read
   back. -/
namespace Timestamp
open Base64 Calendar

/-- The nanoseconds of a second. -/
def nanos : Int := 1000000000

/-! ## Dates -/

/-- The day of a date, for `time.Date`. -/
def dayOf (year month day : Int) : Int :=
  let start := if month ≤ 2 then year - 1 else year
  let mp := if month ≤ 2 then month + 9 else month - 3
  yearStart start + (153 * mp + 2) / 5 + (day - 1) - 719468

def isLeap (year : Int) : Bool := year % 4 == 0 && (year % 100 != 0 || year % 400 == 0)

def daysIn (month year : Int) : Int :=
  if month = 2 then if isLeap year then 29 else 28
  else if month = 4 ∨ month = 6 ∨ month = 9 ∨ month = 11 then 30
  else 31

theorem yearStart_length (year : Int) :
    yearStart (year + 1) - yearStart year = if isLeap (year + 1) then 366 else 365 := by
  have hleap : isLeap (year + 1) = true ↔ (year + 1) % 4 = 0 ∧
      ((year + 1) % 100 ≠ 0 ∨ (year + 1) % 400 = 0) := by
    simp [isLeap]
  unfold yearStart
  by_cases h : isLeap (year + 1) = true
  · rw [if_pos h]
    rw [hleap] at h
    omega
  · rw [if_neg h]
    rw [hleap] at h
    omega

theorem dayOf_civil (day : Int) : dayOf (civil day).year (civil day).month (civil day).day = day := by
  obtain ⟨year, doy, hsum, h0, -, hdoy, hcivil⟩ := civil_march day
  rw [hcivil]
  unfold dayOf marchDate
  simp only
  by_cases hmp : (5 * doy + 2) / 153 < 10
  · have hlate : ¬(5 * doy + 2) / 153 + 3 ≤ 2 := by omega
    simp only [if_pos hmp, if_neg hlate, Int.add_zero, Int.add_sub_cancel]
    omega
  · have hearly : (5 * doy + 2) / 153 - 9 ≤ 2 := by omega
    simp only [if_neg hmp, if_pos hearly, Int.add_sub_cancel, Int.sub_add_cancel]
    omega

/-- The day of a date is one of its month. -/
theorem civil_day (day : Int) :
    1 ≤ (civil day).day ∧ (civil day).day ≤ daysIn (civil day).month (civil day).year := by
  obtain ⟨year, doy, -, h0, hlt, hdoy, hcivil⟩ := civil_march day
  rw [yearStart_length] at hlt
  rw [hcivil]
  unfold marchDate daysIn
  simp only
  refine ⟨by omega, ?_⟩
  by_cases hmp : (5 * doy + 2) / 153 < 10
  · simp only [if_pos hmp]
    have hmonth : (5 * doy + 2) / 153 + 3 ≠ 2 := by omega
    rw [if_neg hmonth]
    split <;> omega
  · simp only [if_neg hmp]
    by_cases hfebruary : (5 * doy + 2) / 153 - 9 = 2
    · have hend : (5 * doy + 2) / 153 - 9 ≤ 2 := by omega
      rw [if_pos hfebruary, if_pos hend]
      split at hlt
      · next h => rw [if_pos h]; omega
      · next h => rw [if_neg h]; omega
    · rw [if_neg hfebruary]
      split <;> omega

/-! ## Digits -/

/-- The last so many digits of a number. -/
def digits : Nat → Nat → List Byte
  | 0, _ => []
  | k + 1, n => byte (48 + n / 10 ^ k % 10) :: digits k n

def value (text : List Byte) (n : Nat) : Nat := text.foldl (fun n b => 10 * n + (b.val - 48)) n

/-- `parseUint`, of so many bytes. -/
def readUint (width low high : Nat) (text : List Byte) : Option (Nat × List Byte) :=
  if (text.take width).length = width ∧ (text.take width).all Decimal.isDigit = true ∧
      low ≤ value (text.take width) 0 ∧ value (text.take width) 0 ≤ high then
    some (value (text.take width) 0, text.drop width)
  else none

theorem digit_val (n : Nat) : (byte (48 + n % 10)).val = 48 + n % 10 := by
  show (48 + n % 10) % 256 = _
  omega

theorem digits_length (k n : Nat) : (digits k n).length = k := by
  induction k with
  | zero => rfl
  | succ k ih => exact congrArg (· + 1) ih

theorem digits_isDigit (k n : Nat) : ∀ b ∈ digits k n, Decimal.isDigit b = true := by
  induction k with
  | zero => exact fun b hb => absurd hb List.not_mem_nil
  | succ k ih =>
    intro b hb
    obtain rfl | hb := List.mem_cons.mp hb
    · have hval := digit_val (n / 10 ^ k)
      refine decide_eq_true ?_
      omega
    · exact ih b hb

theorem value_digits (k n m : Nat) : value (digits k n) m = m * 10 ^ k + n % 10 ^ k := by
  induction k generalizing m with
  | zero => simp [digits, value, Nat.mod_one]
  | succ k ih =>
    have hsplit : n % 10 ^ (k + 1) = n / 10 ^ k % 10 * 10 ^ k + n % 10 ^ k := by
      rw [Nat.pow_succ, Nat.mod_mul, Nat.mul_comm]
      exact Nat.add_comm _ _
    have hval := digit_val (n / 10 ^ k)
    calc value (digits (k + 1) n) m
        = value (digits k n) (10 * m + ((byte (48 + n / 10 ^ k % 10)).val - 48)) := rfl
      _ = (10 * m + n / 10 ^ k % 10) * 10 ^ k + n % 10 ^ k := by
        rw [ih, hval, Nat.add_sub_cancel_left]
      _ = m * 10 ^ (k + 1) + n % 10 ^ (k + 1) := by
        rw [hsplit, Nat.add_mul, Nat.pow_succ]
        ring

/-- A number of at most so many digits is read back. -/
theorem readUint_digits {width low high n : Nat} (hwidth : n < 10 ^ width) (hlow : low ≤ n) (hhigh : n ≤ high)
    (rest : List Byte) : readUint width low high (digits width n ++ rest) = some (n, rest) := by
  have htake : (digits width n ++ rest).take width = digits width n :=
    List.take_left' (digits_length width n)
  have hdrop : (digits width n ++ rest).drop width = rest := List.drop_left' (digits_length width n)
  have hvalue : value (digits width n) 0 = n := by
    rw [value_digits, Nat.zero_mul, Nat.zero_add, Nat.mod_eq_of_lt hwidth]
  unfold readUint
  rw [htake, hdrop, hvalue]
  exact if_pos ⟨digits_length width n, List.all_eq_true.mpr (digits_isDigit width n), hlow, hhigh⟩

/-! ## Fractions -/

/-- The fraction of a second, of nine digits. -/
def fraction (n : Nat) : List Byte :=
  let significant := ((digits 9 n).reverse.dropWhile (· == 48)).reverse
  if significant = [] then [] else 46 :: significant

/-- `parseNanoseconds`, behind the period. -/
def scaled (text : List Byte) : Nat := value (text.take 9) 0 * 10 ^ (9 - (text.take 9).length)

def readFraction (text : List Byte) : Nat × List Byte :=
  match text with
  | 46 :: rest =>
    if rest.takeWhile Decimal.isDigit = [] then (0, text)
    else (scaled (rest.takeWhile Decimal.isDigit), rest.dropWhile Decimal.isDigit)
  | _ => (0, text)

theorem value_zeros (text : List Byte) (k n : Nat) :
    value (text ++ List.replicate k 48) n = value text n * 10 ^ k := by
  unfold value
  rw [List.foldl_append]
  generalize text.foldl (fun n b => 10 * n + (b.val - 48)) n = m
  induction k generalizing m with
  | zero => simp
  | succ k ih =>
    rw [List.replicate_succ, List.foldl_cons, ih]
    show (10 * m + (48 - 48)) * 10 ^ k = m * 10 ^ (k + 1)
    rw [Nat.pow_succ]
    ring

theorem significant_zeros (n : Nat) : ∃ k, digits 9 n =
    ((digits 9 n).reverse.dropWhile (· == 48)).reverse ++ List.replicate k 48 := by
  have hsplit := congrArg List.reverse (List.takeWhile_append_dropWhile (p := (· == 48)) (l := (digits 9 n).reverse))
  rw [List.reverse_append, List.reverse_reverse] at hsplit
  refine ⟨_, hsplit.symm.trans (congrArg _ (List.eq_replicate_of_mem fun b hb => ?_))⟩
  exact eq_of_beq (List.all_eq_true.mp List.all_takeWhile b (List.mem_reverse.mp hb))

/-- A fraction is read back where no digit follows it. -/
theorem readFraction_fraction {n : Nat} (hn : n < 10 ^ 9) {b : Byte} (hdigit : Decimal.isDigit b = false)
    (hb : b ≠ 46)
    (rest : List Byte) : readFraction (fraction n ++ b :: rest) = (n, b :: rest) := by
  obtain ⟨k, hsplit⟩ := significant_zeros n
  generalize hs : ((digits 9 n).reverse.dropWhile (· == 48)).reverse = significant at hsplit
  have hvalue : value significant 0 * 10 ^ k = n := by
    rw [← value_zeros, ← hsplit, value_digits, Nat.zero_mul, Nat.zero_add, Nat.mod_eq_of_lt hn]
  have hlength : significant.length + k = 9 := by
    have h := congrArg List.length hsplit
    rw [digits_length, List.length_append, List.length_replicate] at h
    exact h.symm
  unfold fraction
  simp only [hs]
  by_cases hnil : significant = []
  · rw [if_pos hnil, List.nil_append]
    have hzero : n = 0 := by
      rw [← hvalue, hnil]
      exact Nat.zero_mul _
    rw [hzero]
    unfold readFraction
    split
    · next h => exact absurd (List.cons.inj h).1 hb
    · rfl
  · rw [if_neg hnil]
    have hall : ∀ c ∈ significant, Decimal.isDigit c = true := by
      intro c hc
      refine digits_isDigit 9 n c ?_
      rw [hsplit]
      exact List.mem_append_left _ hc
    have htake : (significant ++ b :: rest).takeWhile Decimal.isDigit = significant := by
      rw [List.takeWhile_append_of_pos hall, List.takeWhile_cons_of_neg (by rw [hdigit]; exact Bool.false_ne_true),
        List.append_nil]
    have hdrop : (significant ++ b :: rest).dropWhile Decimal.isDigit = b :: rest := by
      rw [List.dropWhile_append_of_pos hall, List.dropWhile_cons_of_neg (by rw [hdigit]; exact Bool.false_ne_true)]
    show (if (significant ++ b :: rest).takeWhile Decimal.isDigit = [] then _ else
      (scaled ((significant ++ b :: rest).takeWhile Decimal.isDigit),
        (significant ++ b :: rest).dropWhile Decimal.isDigit)) = _
    rw [htake, hdrop, if_neg hnil]
    have hshort : significant.take 9 = significant := List.take_of_length_le (by omega)
    unfold scaled
    rw [hshort, show 9 - significant.length = k by omega, hvalue]

/-! ## Times -/

/-- The next byte is this one. -/
def expect (b : Byte) : List Byte → Option (List Byte)
  | [] => none
  | c :: rest => if c = b then some rest else none

/-- The time zone that ends a text, in seconds. -/
def readZone (text : List Byte) : Option Int :=
  match text with
  | [90] => some 0
  | [sign, h₁, h₀, colon, m₁, m₀] => do
    let (hours, _) ← readUint 2 0 23 [h₁, h₀]
    let (minutes, _) ← readUint 2 0 59 [m₁, m₀]
    if (sign = 43 ∨ sign = 45) ∧ colon = 58 then
      some (if sign = 45 then -((hours * 60 + minutes : Int) * 60) else (hours * 60 + minutes : Int) * 60)
    else none
  | _ => none

/-- The day of a date, and what follows it. -/
def readDate (text : List Byte) : Option (Int × List Byte) := do
  let (year, text) ← readUint 4 0 9999 text
  let text ← expect 45 text
  let (month, text) ← readUint 2 1 12 text
  let text ← expect 45 text
  let (day, text) ← readUint 2 1 (daysIn month year).toNat text
  some (dayOf year month day, text)

/-- The seconds of the day, and what follows them. -/
def readClock (text : List Byte) : Option (Int × List Byte) := do
  let (hour, text) ← readUint 2 0 23 text
  let text ← expect 58 text
  let (minute, text) ← readUint 2 0 59 text
  let text ← expect 58 text
  let (second, text) ← readUint 2 0 59 text
  some (((hour * 60 + minute) * 60 + second : Int), text)

/-- `parseRFC3339`. -/
def parse (text : List Byte) : Option Int := do
  let (day, text) ← readDate text
  let text ← expect 84 text
  let (seconds, text) ← readClock text
  let zone ← readZone (readFraction text).2
  some ((day * 86400 + seconds - zone) * nanos + (readFraction text).1)

def formatDate (day : Int) : List Byte :=
  digits 4 (civil day).year.toNat ++ 45 :: (digits 2 (civil day).month.toNat ++
    45 :: digits 2 (civil day).day.toNat)

def formatClock (seconds : Nat) : List Byte :=
  digits 2 (seconds / 3600) ++ 58 :: (digits 2 (seconds / 60 % 60) ++ 58 :: digits 2 (seconds % 60))

/-- `Time.MarshalJSON` of a time in UTC, between its quotes. -/
def format (t : Int) : Option (List Byte) :=
  let day := dayNumber (t / nanos)
  if 0 ≤ (civil day).year ∧ (civil day).year ≤ 9999 then
    some (formatDate day ++ 84 :: (formatClock (t / nanos % 86400).toNat ++
      (fraction (t % nanos).toNat ++ [90])))
  else none

theorem expect_cons (b : Byte) (rest : List Byte) : expect b (b :: rest) = some rest := if_pos rfl

theorem readDate_formatDate {day : Int} (hlow : 0 ≤ (civil day).year) (hhigh : (civil day).year ≤ 9999)
    (rest : List Byte) : readDate (formatDate day ++ rest) = some (day, rest) := by
  obtain ⟨hmonth, hmonth'⟩ := civil_month day
  obtain ⟨hday, hday'⟩ := civil_day day
  have hyear : ((civil day).year.toNat : Int) = (civil day).year := Int.toNat_of_nonneg hlow
  have hm : ((civil day).month.toNat : Int) = (civil day).month := Int.toNat_of_nonneg (by omega)
  have hd : ((civil day).day.toNat : Int) = (civil day).day := Int.toNat_of_nonneg (by omega)
  have hlast : daysIn (civil day).month (civil day).year ≤ 31 := by
    unfold daysIn
    split
    · split <;> omega
    · split <;> omega
  unfold readDate formatDate
  simp only [List.append_assoc, List.cons_append, Option.bind_eq_bind]
  rw [readUint_digits (by omega) (by omega) (by omega), Option.bind_some, expect_cons, Option.bind_some,
    readUint_digits (by omega) (by omega) (by omega), Option.bind_some, expect_cons, Option.bind_some, hyear, hm,
    readUint_digits (by omega) (by omega) (by omega), Option.bind_some, hd, dayOf_civil]

theorem readClock_formatClock {seconds : Nat} (h : seconds < 86400) (rest : List Byte) :
    readClock (formatClock seconds ++ rest) = some ((seconds : Int), rest) := by
  unfold readClock formatClock
  simp only [List.append_assoc, List.cons_append, Option.bind_eq_bind]
  rw [readUint_digits (by omega) (by omega) (by omega), Option.bind_some, expect_cons, Option.bind_some,
    readUint_digits (by omega) (by omega) (by omega), Option.bind_some, expect_cons, Option.bind_some,
    readUint_digits (by omega) (by omega) (by omega), Option.bind_some]
  have hsum : ((seconds / 3600 : Nat) * 60 + (seconds / 60 % 60 : Nat)) * 60 +
      (seconds % 60 : Nat) = seconds := by omega
  have hcast := congrArg (Nat.cast : Nat → Int) hsum
  push_cast at hcast ⊢
  rw [hcast]

theorem parse_format {t : Int} {text : List Byte} (h : format t = some text) : parse text = some t := by
  unfold format at h
  simp only at h
  by_cases hyear : 0 ≤ (civil (dayNumber (t / nanos))).year ∧ (civil (dayNumber (t / nanos))).year ≤ 9999
  · rw [if_pos hyear] at h
    obtain rfl := Option.some.inj h
    have hclock : (t / nanos % 86400).toNat < 86400 := by omega
    have hfraction : (t % nanos).toNat < 10 ^ 9 := by
      have hlt : t % 1000000000 < 1000000000 := Int.emod_lt_of_pos t (by decide)
      show (t % 1000000000).toNat < 10 ^ 9
      omega
    unfold parse
    simp only [Option.bind_eq_bind]
    rw [readDate_formatDate hyear.1 hyear.2, Option.bind_some, expect_cons, Option.bind_some,
      readClock_formatClock hclock, Option.bind_some,
      readFraction_fraction hfraction (by decide) (by decide)]
    show some ((dayNumber (t / nanos) * 86400 + ((t / nanos % 86400).toNat : Int) - 0) * nanos +
      ((t % nanos).toNat : Int)) = some t
    have hn : nanos = 1000000000 := rfl
    unfold dayNumber
    rw [hn]
    refine congrArg some ?_
    omega
  · rw [if_neg hyear] at h
    cases h

/-- A written time has digits, hyphens, a period, colons and the two letters, thirty bytes at
most. -/
theorem format_bounds {t : Int} {text : List Byte} (h : format t = some text) :
    (∀ b ∈ text, Decimal.isDigit b = true ∨ b ∈ ([45, 46, 58, 84, 90] : List Byte)) ∧ text.length ≤ 30 := by
  have hdate : ∀ day, (∀ b ∈ formatDate day, Decimal.isDigit b = true ∨
      b ∈ ([45, 46, 58, 84, 90] : List Byte)) ∧
      (formatDate day).length = 10 := by
    intro day
    unfold formatDate
    refine ⟨fun b hb => ?_, by simp [digits_length]⟩
    simp only [List.mem_append, List.mem_cons] at hb
    obtain hb | rfl | hb | rfl | hb := hb
    · exact .inl (digits_isDigit _ _ b hb)
    · exact .inr (by decide)
    · exact .inl (digits_isDigit _ _ b hb)
    · exact .inr (by decide)
    · exact .inl (digits_isDigit _ _ b hb)
  have hclock : ∀ seconds, (∀ b ∈ formatClock seconds, Decimal.isDigit b = true ∨
      b ∈ ([45, 46, 58, 84, 90] : List Byte)) ∧ (formatClock seconds).length = 8 := by
    intro seconds
    unfold formatClock
    refine ⟨fun b hb => ?_, by simp [digits_length]⟩
    simp only [List.mem_append, List.mem_cons] at hb
    obtain hb | rfl | hb | rfl | hb := hb
    · exact .inl (digits_isDigit _ _ b hb)
    · exact .inr (by decide)
    · exact .inl (digits_isDigit _ _ b hb)
    · exact .inr (by decide)
    · exact .inl (digits_isDigit _ _ b hb)
  -- a fraction is its digits without the zeros at the end
  have hfraction : ∀ n, (∀ b ∈ fraction n, Decimal.isDigit b = true ∨
      b ∈ ([45, 46, 58, 84, 90] : List Byte)) ∧
      (fraction n).length ≤ 10 := by
    intro n
    obtain ⟨k, hsplit⟩ := significant_zeros n
    unfold fraction
    generalize ((digits 9 n).reverse.dropWhile (· == 48)).reverse = significant at hsplit
    simp only
    have hlength := congrArg List.length hsplit
    rw [digits_length, List.length_append, List.length_replicate] at hlength
    split
    · exact ⟨fun b hb => absurd hb List.not_mem_nil, by simp⟩
    · refine ⟨fun b hb => ?_, by rw [List.length_cons]; omega⟩
      obtain rfl | hb := List.mem_cons.mp hb
      · exact .inr (by decide)
      · refine .inl (digits_isDigit 9 n b ?_)
        rw [hsplit]
        exact List.mem_append_left _ hb
  unfold format at h
  simp only at h
  split at h
  · obtain rfl := Option.some.inj h
    obtain ⟨hd, hdlength⟩ := hdate (dayNumber (t / nanos))
    obtain ⟨hc, hclength⟩ := hclock (t / nanos % 86400).toNat
    obtain ⟨hf, hflength⟩ := hfraction (t % nanos).toNat
    refine ⟨fun b hb => ?_, ?_⟩
    · simp only [List.mem_append, List.mem_cons, List.not_mem_nil, or_false] at hb
      obtain hb | rfl | hb | hb | rfl := hb
      · exact hd b hb
      · exact .inr (by decide)
      · exact hc b hb
      · exact hf b hb
      · exact .inr (by decide)
    · simp only [List.length_append, List.length_cons, List.length_nil]
      omega
  · cases h

end Timestamp
