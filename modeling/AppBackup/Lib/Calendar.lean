/- The proleptic Gregorian calendar in UTC: the civil date and the ISO 8601 week of a
   number of days since 1970-01-01, and the layouts they are written in. A day belongs to
   one year that begins in March (`civil_march`); from that the date tells days apart,
   months follow each other, and a layout tells apart what it writes. -/
namespace Calendar

structure Date where
  year : Int
  month : Int
  day : Int
  deriving DecidableEq

/-- Days since 1970-01-01 of a number of seconds since then. -/
def dayNumber (seconds : Int) : Int := seconds / 86400

/-- The civil date of a day. The year is taken to begin in March, so that the leap day
ends it; an era is 400 years. -/
def civil (day : Int) : Date :=
  let z := day + 719468
  let era := z / 146097
  let doe := z - era * 146097
  let yoe := (doe - doe / 1460 + doe / 36524 - doe / 146096) / 365
  let doy := doe - (365 * yoe + yoe / 4 - yoe / 100)
  let mp := (5 * doy + 2) / 153
  let month := if mp < 10 then mp + 3 else mp - 9
  { year := yoe + era * 400 + if month ≤ 2 then 1 else 0
    month := month
    day := doy - (153 * mp + 2) / 5 + 1 }

/-- The day number of 1 January. -/
def newYear (year : Int) : Int :=
  let era := (year - 1) / 400
  let yoe := year - 1 - era * 400
  era * 146097 + (yoe * 365 + yoe / 4 - yoe / 100 + 306) - 719468

/-- The ISO year and week: those of the Thursday of the day's week, which begins on
Monday. -/
def isoWeek (day : Int) : Int × Int :=
  let thursday := day - (day + 3) % 7 + 3
  let year := (civil thursday).year
  (year, (thursday - newYear year) / 7 + 1)

/-- A number padded with zeros. -/
def pad (width : Nat) (n : Int) : String :=
  let digits := (Nat.repr n.natAbs).toList
  let padded := String.ofList (List.replicate (width - digits.length) '0' ++ digits)
  if n < 0 then "-" ++ padded else padded

/-- The verbs `%04d` and `%02d`, where the sign counts for the width. -/
def verb (width : Nat) (n : Int) : String := pad (if n < 0 then width - 1 else width) n

/-- The layout `2006-01-02`. -/
def formatDay (seconds : Int) : String :=
  let date := civil (dayNumber seconds)
  pad 4 date.year ++ "-" ++ pad 2 date.month ++ "-" ++ pad 2 date.day

/-- The layout `2006-01`. -/
def formatMonth (seconds : Int) : String :=
  let date := civil (dayNumber seconds)
  pad 4 date.year ++ "-" ++ pad 2 date.month

/-- Sunday 3 January 2021 belongs to the last week of 2020. -/
example : civil 18630 = ⟨2021, 1, 3⟩ ∧ isoWeek 18630 = (2020, 53) ∧ isoWeek 18631 = (2021, 1) := by
  decide

example : formatDay 1709164800 = "2024-02-29" ∧ formatMonth (-1) = "1969-12" := by decide

/-! ## Years that begin in March -/

/-- Days from 1 March of the year 0 to 1 March of a year. -/
def yearStart (year : Int) : Int := 365 * year + year / 4 - year / 100 + year / 400

theorem yearStart_mono {year year' : Int} (h : year ≤ year') : yearStart year ≤ yearStart year' := by
  unfold yearStart
  omega

theorem yearStart_succ_le (year : Int) : yearStart (year + 1) ≤ yearStart year + 366 := by
  unfold yearStart
  omega

theorem yearStart_era (year era : Int) : yearStart (year + era * 400) = yearStart year + era * 146097 := by
  have h4 : (year + era * 400) / 4 = year / 4 + era * 100 := by omega
  have h100 : (year + era * 400) / 100 = year / 100 + era * 4 := by omega
  have h400 : (year + era * 400) / 400 = year / 400 + era := by omega
  unfold yearStart
  omega

theorem start_le_doe {doe year : Int} (h0 : 0 ≤ doe) (h1 : doe ≤ 146096)
    (hlo : 365 * year ≤ doe - doe / 1460 + doe / 36524 - doe / 146096) :
    365 * year + year / 4 - year / 100 ≤ doe := by
  apply Int.not_lt.mp
  intro hneg
  have hcycle : doe / 1460 ≤ year / 4 := by omega
  have hcentury : doe / 36524 ≤ year / 100 := by omega
  omega

theorem doe_lt_next {doe year : Int} (h0 : 0 ≤ doe) (h1 : doe ≤ 146096) (hy : 0 ≤ year) (hy' : year ≤ 399)
    (hhi : doe - doe / 1460 + doe / 36524 - doe / 146096 < 365 * (year + 1)) :
    doe < 365 * (year + 1) + (year + 1) / 4 - (year + 1) / 100 + (year + 1) / 400 := by
  generalize hz : year + 1 = z at hhi ⊢
  apply Int.not_le.mp
  intro hneg
  have hlast : z ≠ 400 := by
    intro he
    subst he
    omega
  have hera : z / 400 = 0 := by omega
  rw [hera] at hneg
  have hcentury : z / 100 ≤ doe / 36524 := by omega
  have hcentury' : z / 100 ≤ doe / 36524 - doe / 146096 := by omega
  have hcycle : doe / 1460 ≤ z / 4 + (doe - (365 * z + z / 4 - z / 100)) := by omega
  omega

/-- The date of a day of a year that begins in March. -/
def marchDate (year doy : Int) : Date :=
  let mp := (5 * doy + 2) / 153
  let month := if mp < 10 then mp + 3 else mp - 9
  { year := year + if month ≤ 2 then 1 else 0
    month := month
    day := doy - (153 * mp + 2) / 5 + 1 }

/-- A day belongs to one year that begins in March, whose days are 366 at most. -/
theorem civil_march (day : Int) : ∃ year doy, yearStart year + doy = day + 719468 ∧ 0 ≤ doy ∧
    doy < yearStart (year + 1) - yearStart year ∧ doy ≤ 365 ∧ civil day = marchDate year doy := by
  have hdoe0 : 0 ≤ (day + 719468) - (day + 719468) / 146097 * 146097 := by omega
  have hdoe1 : (day + 719468) - (day + 719468) / 146097 * 146097 ≤ 146096 := by omega
  generalize hz : day + 719468 = z at hdoe0 hdoe1
  generalize he : z / 146097 = era at hdoe0 hdoe1
  generalize hd : z - era * 146097 = doe at hdoe0 hdoe1
  generalize hy : (doe - doe / 1460 + doe / 36524 - doe / 146096) / 365 = yoe
  have hyoe0 : 0 ≤ yoe := by omega
  have hyoe1 : yoe ≤ 399 := by omega
  have hstart := @start_le_doe doe yoe hdoe0 hdoe1 (by omega)
  have hnext := @doe_lt_next doe yoe hdoe0 hdoe1 hyoe0 hyoe1 (by omega)
  have hfirst : yoe / 400 = 0 := by omega
  have hyear := yearStart_era yoe era
  have hyear' := yearStart_era (yoe + 1) era
  rw [Int.add_right_comm] at hyear'
  have hopen : yearStart yoe = 365 * yoe + yoe / 4 - yoe / 100 + yoe / 400 := rfl
  have hclose : yearStart (yoe + 1) = 365 * (yoe + 1) + (yoe + 1) / 4 - (yoe + 1) / 100 + (yoe + 1) / 400 := rfl
  have hlength := yearStart_succ_le yoe
  refine ⟨yoe + era * 400, doe - (365 * yoe + yoe / 4 - yoe / 100), ?_, ?_, ?_, ?_, ?_⟩
  · omega
  · omega
  · omega
  · omega
  · unfold civil marchDate
    simp only [hz, he, hd, hy]

/-! ## Months -/

/-- The months since January of the year 0. -/
def monthIndex (day : Int) : Int := 12 * (civil day).year + ((civil day).month - 1)

theorem civil_month (day : Int) : 1 ≤ (civil day).month ∧ (civil day).month ≤ 12 := by
  obtain ⟨year, doy, -, h0, -, hdoy, hcivil⟩ := civil_march day
  rw [hcivil]
  unfold marchDate
  simp only
  split <;> omega

theorem monthIndex_march {day year doy : Int} (h : civil day = marchDate year doy) (h0 : 0 ≤ doy)
    (hdoy : doy ≤ 365) : monthIndex day = 12 * year + (5 * doy + 2) / 153 + 2 := by
  unfold monthIndex
  rw [h]
  unfold marchDate
  simp only
  split <;> split <;> omega

theorem monthIndex_mono {day day' : Int} (h : day ≤ day') : monthIndex day ≤ monthIndex day' := by
  obtain ⟨year, doy, hsum, h0, hlt, hdoy, hcivil⟩ := civil_march day
  obtain ⟨year', doy', hsum', h0', hlt', hdoy', hcivil'⟩ := civil_march day'
  rw [monthIndex_march hcivil h0 hdoy, monthIndex_march hcivil' h0' hdoy']
  by_cases hback : year' < year
  · have hstart : yearStart (year' + 1) ≤ yearStart year := yearStart_mono (by omega)
    omega
  · by_cases hsame : year = year'
    · subst hsame
      omega
    · omega

theorem date_eq {date date' : Date} (hyear : date.year = date'.year) (hmonth : date.month = date'.month)
    (hday : date.day = date'.day) : date = date' := by
  cases date
  cases date'
  simp only at hyear hmonth hday
  rw [hyear, hmonth, hday]

theorem civil_injective {day day' : Int} (h : civil day = civil day') : day = day' := by
  obtain ⟨year, doy, hsum, h0, hlt, hdoy, hcivil⟩ := civil_march day
  obtain ⟨year', doy', hsum', h0', hlt', hdoy', hcivil'⟩ := civil_march day'
  have hindex : monthIndex day = monthIndex day' := by
    unfold monthIndex
    rw [h]
  rw [monthIndex_march hcivil h0 hdoy, monthIndex_march hcivil' h0' hdoy'] at hindex
  have hdate : doy - (153 * ((5 * doy + 2) / 153) + 2) / 5 + 1 = doy' - (153 * ((5 * doy' + 2) / 153) + 2) / 5 + 1 := by
    have hday := congrArg Date.day h
    rw [hcivil, hcivil'] at hday
    exact hday
  have hyear : year = year' := by omega
  subst hyear
  omega

/-! ## Weeks -/

/-- The weeks, from Monday to Sunday, since that of 1970-01-01. -/
def weekIndex (day : Int) : Int := (day + 3) / 7

theorem isoWeek_eq (day : Int) : isoWeek day =
    ((civil (7 * weekIndex day)).year, (7 * weekIndex day - newYear (civil (7 * weekIndex day)).year) / 7 + 1) := by
  have hthursday : day - (day + 3) % 7 + 3 = 7 * weekIndex day := by
    unfold weekIndex
    omega
  unfold isoWeek
  simp only [hthursday]

theorem isoWeek_iff {day day' : Int} : isoWeek day = isoWeek day' ↔ weekIndex day = weekIndex day' := by
  refine ⟨fun h => ?_, fun h => ?_⟩
  · rw [isoWeek_eq, isoWeek_eq] at h
    obtain ⟨hyear, hweek⟩ := Prod.mk.inj h
    rw [hyear] at hweek
    omega
  · rw [isoWeek_eq, isoWeek_eq, h]

/-! ## Layouts -/

/-- The digits of a number in a width. -/
def padded (width n : Nat) : List Char := List.replicate (width - n.repr.toList.length) '0' ++ n.repr.toList

theorem toList_pad (width : Nat) (n : Int) :
    (pad width n).toList = if n < 0 then '-' :: padded width n.natAbs else padded width n.natAbs := by
  unfold pad padded
  simp only
  split <;> simp

theorem padded_isDigit (width n : Nat) : ∀ c ∈ padded width n, c.isDigit = true := by
  intro c hc
  obtain hzero | hdigit := List.mem_append.mp hc
  · rw [List.eq_of_mem_replicate hzero]
    decide
  · rw [Nat.toList_repr] at hdigit
    exact Nat.isDigit_of_mem_toDigits (by omega) (by omega) hdigit

theorem ofDigitChars_padded (width n : Nat) : Nat.ofDigitChars 10 (padded width n) 0 = n := by
  have hzeros : ∀ k l, Nat.ofDigitChars 10 (List.replicate k '0' ++ l) 0 = Nat.ofDigitChars 10 l 0 := by
    intro k l
    induction k with
    | zero => rfl
    | succ k ih =>
      rw [List.replicate_succ, List.cons_append, Nat.ofDigitChars_cons]
      exact ih
  unfold padded
  rw [hzeros, Nat.toList_repr, Nat.ofDigitChars_ten_toDigits]

/-- Digits end where a hyphen stands. -/
theorem digits_split {ds ds' rest rest' : List Char} (hds : ∀ c ∈ ds, c.isDigit = true)
    (hds' : ∀ c ∈ ds', c.isDigit = true) (h : ds ++ '-' :: rest = ds' ++ '-' :: rest') :
    ds = ds' ∧ rest = rest' := by
  induction ds generalizing ds' with
  | nil =>
    cases ds' with
    | nil => exact ⟨rfl, (List.cons.inj h).2⟩
    | cons d ds' =>
      have hd := hds' d (List.mem_cons_self ..)
      rw [← (List.cons.inj h).1] at hd
      exact absurd hd (by decide)
  | cons d ds ih =>
    cases ds' with
    | nil =>
      have hd := hds d (List.mem_cons_self ..)
      rw [(List.cons.inj h).1] at hd
      exact absurd hd (by decide)
    | cons d' ds' =>
      obtain ⟨hhead, htail⟩ := List.cons.inj h
      obtain ⟨he, hrest⟩ := ih (fun c hc => hds c (List.mem_cons_of_mem _ hc))
        (fun c hc => hds' c (List.mem_cons_of_mem _ hc)) htail
      exact ⟨by rw [hhead, he], hrest⟩

theorem padded_ne_hyphen {width n : Nat} {rest rest' : List Char} :
    padded width n ++ rest ≠ '-' :: rest' := by
  have hne : padded width n ≠ [] := by
    intro hnil
    have hdigits : n.repr.toList = [] := (List.append_eq_nil_iff.mp hnil).2
    rw [Nat.toList_repr] at hdigits
    exact Nat.toDigits_ne_nil hdigits
  intro h
  cases hp : padded width n with
  | nil => exact hne hp
  | cons d ds =>
    have hd := padded_isDigit width n d (hp ▸ List.mem_cons_self ..)
    rw [hp] at h
    rw [(List.cons.inj h).1] at hd
    exact absurd hd (by decide)

/-- A number ends where the hyphen after it stands, whatever its width. -/
theorem pad_split {width width' : Nat} {n n' : Int} {rest rest' : List Char}
    (h : (pad width n).toList ++ '-' :: rest = (pad width' n').toList ++ '-' :: rest') : n = n' ∧ rest = rest' := by
  have hread : padded width n.natAbs ++ '-' :: rest = padded width' n'.natAbs ++ '-' :: rest' →
      n.natAbs = n'.natAbs ∧ rest = rest' := by
    intro he
    obtain ⟨hdigits, hrest⟩ := digits_split (padded_isDigit _ _) (padded_isDigit _ _) he
    refine ⟨?_, hrest⟩
    rw [← ofDigitChars_padded width n.natAbs, hdigits, ofDigitChars_padded]
  rw [toList_pad, toList_pad] at h
  by_cases hn : n < 0
  · by_cases hn' : n' < 0
    · rw [if_pos hn, if_pos hn'] at h
      obtain ⟨habs, hrest⟩ := hread (List.cons.inj h).2
      exact ⟨by omega, hrest⟩
    · rw [if_pos hn, if_neg hn'] at h
      exact absurd h.symm padded_ne_hyphen
  · by_cases hn' : n' < 0
    · rw [if_neg hn, if_pos hn'] at h
      exact absurd h padded_ne_hyphen
    · rw [if_neg hn, if_neg hn'] at h
      obtain ⟨habs, hrest⟩ := hread h
      exact ⟨by omega, hrest⟩

theorem pad_inj {width width' : Nat} {n n' : Int} (h : pad width n = pad width' n') : n = n' :=
  (@pad_split width width' n n' [] [] (by rw [h])).1

/-- The layout `2006-01-02` tells days apart. -/
theorem formatDay_iff {seconds seconds' : Int} :
    formatDay seconds = formatDay seconds' ↔ dayNumber seconds = dayNumber seconds' := by
  refine ⟨fun h => ?_, fun h => by unfold formatDay; rw [h]⟩
  have hlist := congrArg String.toList h
  unfold formatDay at hlist
  simp only [String.toList_append, List.append_assoc] at hlist
  obtain ⟨hyear, hrest⟩ := pad_split hlist
  obtain ⟨hmonth, hday⟩ := pad_split hrest
  exact civil_injective (date_eq hyear hmonth (pad_inj (String.toList_injective hday)))

/-- The layout `2006-01` tells months apart. -/
theorem formatMonth_iff {seconds seconds' : Int} :
    formatMonth seconds = formatMonth seconds' ↔
      monthIndex (dayNumber seconds) = monthIndex (dayNumber seconds') := by
  have hbound := civil_month (dayNumber seconds)
  have hbound' := civil_month (dayNumber seconds')
  refine ⟨fun h => ?_, fun h => ?_⟩
  · have hlist := congrArg String.toList h
    unfold formatMonth at hlist
    simp only [String.toList_append, List.append_assoc] at hlist
    obtain ⟨hyear, hrest⟩ := pad_split hlist
    have hmonth := pad_inj (String.toList_injective hrest)
    unfold monthIndex
    rw [hyear, hmonth]
  · unfold monthIndex at h
    have hyear : (civil (dayNumber seconds)).year = (civil (dayNumber seconds')).year := by omega
    have hmonth : (civil (dayNumber seconds)).month = (civil (dayNumber seconds')).month := by omega
    unfold formatMonth
    simp only [hyear, hmonth]

end Calendar
