import Mathlib.Data.List.Nodup
import Mathlib.Data.List.Basic

/- Tables as lists of rows, in rowid order: the `UPDATE … WHERE` statement, its
   count of affected rows, the keys of a unique index (partial ones included) and
   `ORDER BY … LIMIT 1`. Nothing here names a particular schema. The lemmas are
   what proofs about transactions need: which rows an update touches, that it
   keeps keys and filters it does not mention, and that a key names one row. -/
namespace Table

variable {α β : Type*}

/-- `UPDATE … SET f WHERE p`. -/
def updateWhere (p : α → Bool) (f : α → α) (rows : List α) : List α :=
  rows.map fun r => if p r then f r else r

/-- `INSERT … ON CONFLICT DO UPDATE SET f`, `p` being the conflict with `row`. -/
def upsert (p : α → Bool) (f : α → α) (row : α) (rows : List α) : List α :=
  if rows.any p then updateWhere p f rows else rows ++ [row]

/-- The keys a unique index holds: those of the rows in its `WHERE` clause. -/
def indexKeys (q : α → Bool) (key : α → β) (rows : List α) : List β :=
  (rows.filter q).map key

/-- `ORDER BY … LIMIT 1`: the earliest row under `before`, the first of equals. -/
def firstBy (before : α → α → Bool) : List α → Option α
  | [] => none
  | r :: rest =>
    match firstBy before rest with
    | none => some r
    | some best => if before best r then some best else some r

/-! ## Which rows an update touches -/

theorem mem_updateWhere {p : α → Bool} {f : α → α} {rows : List α} {r' : α} :
    r' ∈ updateWhere p f rows ↔ ∃ r ∈ rows, (if p r then f r else r) = r' := by
  simp [updateWhere]

theorem mem_updateWhere_cases {p : α → Bool} {f : α → α} {rows : List α} {r' : α}
    (h : r' ∈ updateWhere p f rows) :
    (∃ r ∈ rows, p r = true ∧ r' = f r) ∨ (r' ∈ rows ∧ p r' = false) := by
  obtain ⟨r, hr, he⟩ := mem_updateWhere.mp h
  cases hp : p r with
  | true => exact .inl ⟨r, hr, hp, by simpa [hp] using he.symm⟩
  | false =>
    have : r = r' := by simpa [hp] using he
    subst this
    exact .inr ⟨hr, hp⟩

theorem mem_updateWhere_hit {p : α → Bool} {f : α → α} {rows : List α} {r : α}
    (hr : r ∈ rows) (hp : p r = true) : f r ∈ updateWhere p f rows :=
  mem_updateWhere.mpr ⟨r, hr, by simp [hp]⟩

theorem mem_updateWhere_miss {p : α → Bool} {f : α → α} {rows : List α} {r : α}
    (hr : r ∈ rows) (hp : p r = false) : r ∈ updateWhere p f rows :=
  mem_updateWhere.mpr ⟨r, hr, by simp [hp]⟩

theorem updateWhere_miss {p : α → Bool} {f : α → α} {rows : List α}
    (h : ∀ r ∈ rows, p r = false) : updateWhere p f rows = rows := by
  have : ∀ r ∈ rows, (if p r then f r else r) = r := fun r hr => by simp [h r hr]
  simpa [updateWhere] using List.map_congr_left this

@[simp] theorem length_updateWhere (p : α → Bool) (f : α → α) (rows : List α) :
    (updateWhere p f rows).length = rows.length := by simp [updateWhere]

/-! ## What an update keeps -/

theorem map_updateWhere_mem {p : α → Bool} {f : α → α} {g : α → β} (rows : List α)
    (hg : ∀ r ∈ rows, p r = true → g (f r) = g r) :
    (updateWhere p f rows).map g = rows.map g := by
  rw [updateWhere, List.map_map]
  apply List.map_congr_left
  intro r hr
  cases hp : p r with
  | true => simpa [hp] using hg r hr hp
  | false => simp [hp]

theorem map_updateWhere {p : α → Bool} {f : α → α} {g : α → β} (rows : List α)
    (hg : ∀ r, g (f r) = g r) : (updateWhere p f rows).map g = rows.map g := by
  apply map_updateWhere_mem
  intro r _ _
  exact hg r

theorem filter_updateWhere {p q : α → Bool} {f : α → α} (rows : List α)
    (hq : ∀ r, q (f r) = q r) :
    (updateWhere p f rows).filter q = updateWhere p f (rows.filter q) := by
  induction rows with
  | nil => rfl
  | cons r rest ih =>
    simp only [updateWhere, List.map_cons, List.filter_cons] at ih ⊢
    have hr : q (if p r then f r else r) = q r := by cases p r <;> simp [hq]
    rw [hr]
    cases q r <;> simp [ih]

/-- A filter that keeps no touched row, before the update or after, does not see it. -/
theorem filter_updateWhere_miss {p q : α → Bool} {f : α → α} {rows : List α}
    (hq : ∀ r ∈ rows, p r = true → q r = false ∧ q (f r) = false) :
    (updateWhere p f rows).filter q = rows.filter q := by
  induction rows with
  | nil => rfl
  | cons r rest ih =>
    have ih := ih fun r' hr' => hq r' (List.mem_cons_of_mem r hr')
    have hr := hq r (List.mem_cons_self ..)
    show ((if p r then f r else r) :: updateWhere p f rest).filter q = _
    by_cases hp : p r = true
    · obtain ⟨hbefore, hafter⟩ := hr hp
      simp [hp, hbefore, hafter, ih]
    · simp only [hp, List.filter_cons, ih, Bool.false_eq_true, if_false]

theorem countP_updateWhere {p q : α → Bool} {f : α → α} (rows : List α) :
    (updateWhere p f rows).countP q = rows.countP fun r => if p r then q (f r) else q r := by
  induction rows with
  | nil => rfl
  | cons r rest ih =>
    simp only [updateWhere, List.map_cons, List.countP_cons] at ih ⊢
    rw [ih]
    cases p r <;> simp

/-- A count the update lowers: it touches a counted row and makes no row counted. -/
theorem countP_updateWhere_lt {p q : α → Bool} {f : α → α} {rows : List α}
    (hf : ∀ r, p r = true → q (f r) = false) {r : α} (hr : r ∈ rows) (hp : p r = true)
    (hq : q r = true) : (updateWhere p f rows).countP q < rows.countP q := by
  have hle : ∀ l : List α, (updateWhere p f l).countP q ≤ l.countP q := by
    intro l
    rw [countP_updateWhere]
    apply List.countP_mono_left
    intro x _ hx
    cases hpx : p x with
    | true => simp [hpx, hf x hpx] at hx
    | false => simpa [hpx] using hx
  obtain ⟨l₁, l₂, rfl⟩ := List.append_of_mem hr
  have h₁ := hle l₁
  have h₂ := hle l₂
  simp only [updateWhere, List.map_append, List.map_cons, List.countP_append, List.countP_cons,
    hp, if_true, hf r hp, hq] at h₁ h₂ ⊢
  simp only [Bool.false_eq_true, if_false]
  omega

theorem find?_updateWhere {p k : α → Bool} {f : α → α} (rows : List α)
    (hk : ∀ r, k (f r) = k r) :
    (updateWhere p f rows).find? k = (rows.find? k).map fun r => if p r then f r else r := by
  induction rows with
  | nil => rfl
  | cons r rest ih =>
    simp only [updateWhere, List.map_cons, List.find?_cons] at ih ⊢
    have hr : k (if p r then f r else r) = k r := by cases p r <;> simp [hk]
    rw [hr]
    cases k r <;> simp [ih]

/-- An update that brings no row into a partial index, and writes no key, leaves
the index without duplicates. -/
theorem indexKeys_updateWhere_nodup {p q : α → Bool} {f : α → α} {key : α → β} {rows : List α}
    (hq : ∀ r, p r = true → q (f r) = true → q r = true) (hk : ∀ r, key (f r) = key r)
    (h : (indexKeys q key rows).Nodup) : (indexKeys q key (updateWhere p f rows)).Nodup := by
  refine List.Nodup.sublist ?_ h
  clear h
  induction rows with
  | nil => exact List.Sublist.refl _
  | cons r rest ih =>
    simp only [indexKeys, updateWhere, List.map_cons, List.filter_cons] at ih ⊢
    cases hp : p r with
    | false => cases hqr : q r <;> simp [hqr, ih]
    | true =>
      cases hqf : q (f r) with
      | false => cases q r <;> simp [hqf, ih, List.Sublist.cons]
      | true => simp [hqf, hq r hp hqf, hk, ih]

/-! ## Keys -/

theorem nodup_snoc {l : List α} {a : α} (h : l.Nodup) (ha : a ∉ l) : (l ++ [a]).Nodup := by
  rw [List.nodup_append]
  refine ⟨h, List.nodup_singleton a, fun x hx y hy he => ?_⟩
  rw [List.mem_singleton] at hy
  exact ha (hy ▸ he ▸ hx)

/-- A row outside the `WHERE` clause of a partial index, or with a new key, can be
added. -/
theorem indexKeys_snoc_nodup {q : α → Bool} {key : α → β} {rows : List α} {r : α}
    (h : (indexKeys q key rows).Nodup) (hr : q r = true → key r ∉ indexKeys q key rows) :
    (indexKeys q key (rows ++ [r])).Nodup := by
  unfold indexKeys at *
  rw [List.filter_append, List.map_append]
  cases hq : q r with
  | false => simpa [hq] using h
  | true => simpa [hq] using nodup_snoc h (hr hq)

theorem eq_of_key {key : α → β} {rows : List α} (h : (rows.map key).Nodup) {r r' : α}
    (hr : r ∈ rows) (hr' : r' ∈ rows) (he : key r = key r') : r = r' :=
  List.inj_on_of_nodup_map h hr hr' he

/-- The same for a partial index, between rows of its `WHERE` clause. -/
theorem eq_of_indexKey {q : α → Bool} {key : α → β} {rows : List α}
    (h : (indexKeys q key rows).Nodup) {r r' : α} (hr : r ∈ rows) (hr' : r' ∈ rows)
    (hq : q r = true) (hq' : q r' = true) (he : key r = key r') : r = r' :=
  eq_of_key h (List.mem_filter.mpr ⟨hr, hq⟩) (List.mem_filter.mpr ⟨hr', hq'⟩) he

theorem indexKeys_nodup_iff {q : α → Bool} {key : α → β} {rows : List α} :
    (indexKeys q key rows).Nodup ↔
      rows.Pairwise fun a b => q a = true → q b = true → key a ≠ key b := by
  unfold indexKeys List.Nodup
  rw [List.pairwise_map, List.pairwise_filter]

/-- An update of one row, found by a unique column, leaves a partial index without
duplicates when the key it brings into the index is no other row's. -/
theorem indexKeys_updateWhere_one {γ : Type*} {p q : α → Bool} {f : α → α} {key : α → β} {id : α → γ}
    {rows : List α} (hid : (rows.map id).Nodup) (hp : ∀ r r', p r = true → p r' = true → id r = id r')
    (hk : ∀ r, key (f r) = key r) (h : (indexKeys q key rows).Nodup)
    (hfree : ∀ r ∈ rows, p r = true → q (f r) = true → ∀ r' ∈ rows, p r' = false → q r' = true →
      key r' ≠ key r) : (indexKeys q key (updateWhere p f rows)).Nodup := by
  rw [indexKeys_nodup_iff] at h ⊢
  have hids : rows.Pairwise fun a b => id a ≠ id b := List.pairwise_map.mp hid
  unfold updateWhere
  rw [List.pairwise_map]
  refine (h.and hids).imp_of_mem ?_
  intro a b ha hb hab
  obtain ⟨hkeys, hne⟩ := hab
  by_cases hpa : p a = true
  · by_cases hpb : p b = true
    · exact absurd (hp a b hpa hpb) hne
    · rw [if_pos hpa, if_neg hpb, hk]
      intro hqa hqb
      exact (hfree a ha hpa hqa b hb (by simpa using hpb) hqb).symm
  · rw [if_neg hpa]
    by_cases hpb : p b = true
    · rw [if_pos hpb, hk]
      intro hqa hqb
      exact hfree b hb hpb hqb a ha (by simpa using hpa) hqa
    · rw [if_neg hpb]
      exact hkeys

theorem find?_of_key {key : α → β} {k : α → Bool} {rows : List α} (h : (rows.map key).Nodup)
    (hk : ∀ r r', k r = true → k r' = true → key r = key r') {r : α}
    (hr : r ∈ rows) (hkr : k r = true) : rows.find? k = some r := by
  cases hf : rows.find? k with
  | none => exact absurd hkr (by simpa using List.find?_eq_none.mp hf r hr)
  | some r' =>
    have hr' := List.mem_of_find?_eq_some hf
    have hkr' := List.find?_some hf
    rw [eq_of_key h hr' hr (hk _ _ hkr' hkr)]

/-- A `WHERE` clause that pins a unique key touches one row when it touches any. -/
theorem countP_eq_one {key : α → β} {p : α → Bool} {rows : List α} (h : (rows.map key).Nodup)
    (hp : ∀ r r', p r = true → p r' = true → key r = key r') {r : α}
    (hr : r ∈ rows) (hpr : p r = true) : rows.countP p = 1 := by
  have hnd : (rows.filter p).Nodup := (List.Nodup.of_map key h).filter p
  have hmem : r ∈ rows.filter p := List.mem_filter.mpr ⟨hr, hpr⟩
  have hall : ∀ x ∈ rows.filter p, x = r := by
    intro x hx
    obtain ⟨hx, hpx⟩ := List.mem_filter.mp hx
    exact eq_of_key h hx hr (hp _ _ hpx hpr)
  rw [List.countP_eq_length_filter]
  match hl : rows.filter p, hnd, hmem, hall with
  | [_], _, _, _ => rfl
  | a :: b :: _, hnd, _, hall =>
    have hab : a = b := (hall a (by simp)).trans (hall b (by simp)).symm
    exact absurd hnd (by simp [hab])

theorem exists_of_countP_one {p : α → Bool} {rows : List α} (h : rows.countP p = 1) :
    ∃ r ∈ rows, p r = true :=
  List.countP_pos_iff.mp (by omega)

/-- A row after an upsert is a touched row's new value, an untouched row or the inserted one. -/
theorem mem_upsert_cases {p : α → Bool} {f : α → α} {row : α} {rows : List α} {r' : α}
    (h : r' ∈ upsert p f row rows) :
    (∃ r ∈ rows, p r = true ∧ r' = f r) ∨ (r' ∈ rows ∧ p r' = false) ∨ r' = row := by
  unfold upsert at h
  by_cases hany : rows.any p = true
  · rw [if_pos hany] at h
    obtain h | h := mem_updateWhere_cases h
    · exact .inl h
    · exact .inr (.inl h)
  · rw [if_neg hany] at h
    obtain h | h := List.mem_append.mp h
    · refine .inr (.inl ⟨h, ?_⟩)
      have hnone := List.any_eq_false.mp (eq_false_of_ne_true hany) r' h
      exact eq_false_of_ne_true hnone
    · exact .inr (.inr (List.mem_singleton.mp h))

/-- An upsert on a unique key, which its update keeps, keeps the key unique. -/
theorem upsert_nodup {key : α → β} {p : α → Bool} {f : α → α} {row : α} {rows : List α}
    (hp : ∀ r, p r = true ↔ key r = key row) (hf : ∀ r, key (f r) = key r)
    (h : (rows.map key).Nodup) : ((upsert p f row rows).map key).Nodup := by
  unfold upsert
  by_cases hany : rows.any p = true
  · rw [if_pos hany, map_updateWhere rows hf]
    exact h
  · rw [if_neg hany, List.map_append, List.map_singleton]
    apply nodup_snoc h
    intro hmem
    obtain ⟨r, hr, hkey⟩ := List.mem_map.mp hmem
    exact hany (List.any_eq_true.mpr ⟨r, hr, (hp r).mpr hkey⟩)

/-- The rows with one value of a unique key are at most one. -/
theorem length_filter_key_le_one {key : α → β} {p : α → Bool} {rows : List α}
    (h : (rows.map key).Nodup) (hp : ∀ r r', p r = true → p r' = true → key r = key r') :
    (rows.filter p).length ≤ 1 := by
  by_cases hany : ∃ r ∈ rows, p r = true
  · obtain ⟨r, hr, hpr⟩ := hany
    have hone := countP_eq_one h hp hr hpr
    rw [List.countP_eq_length_filter] at hone
    exact Nat.le_of_eq hone
  · have hnone : rows.filter p = [] := by
      apply List.filter_eq_nil_iff.mpr
      intro r hr hpr
      exact hany ⟨r, hr, hpr⟩
    rw [hnone]
    exact Nat.zero_le 1

/-- Two lists of rows read the same are the same when no two of their rows read the same. -/
theorem eq_of_map_eq {g : α → β} {rows rows' : List α}
    (hinj : ∀ r ∈ rows, ∀ r' ∈ rows', g r = g r' → r = r') (h : rows.map g = rows'.map g) :
    rows = rows' := by
  induction rows generalizing rows' with
  | nil => exact (List.map_eq_nil_iff.mp h.symm).symm
  | cons r rest ih =>
    cases rows' with
    | nil => cases h
    | cons r' rest' =>
      obtain ⟨hhead, htail⟩ := List.cons.inj h
      have hr : r = r' := hinj r (List.mem_cons_self ..) r' (List.mem_cons_self ..) hhead
      have hrest : rest = rest' := by
        apply ih _ htail
        intro x hx x' hx'
        exact hinj x (List.mem_cons_of_mem _ hx) x' (List.mem_cons_of_mem _ hx')
      rw [hr, hrest]

/-! ## A loop of statements in one transaction -/

/-- What every statement of the loop keeps, the loop keeps. -/
theorem foldlM_invariant {ε σ ι : Type*} {f : σ → ι → Except ε σ} {P : σ → Prop} {items : List ι}
    {s s' : σ} (h : items.foldlM f s = .ok s') (h0 : P s)
    (hstep : ∀ s s' i, i ∈ items → P s → f s i = .ok s' → P s') : P s' := by
  induction items generalizing s with
  | nil => cases h; exact h0
  | cons i rest ih =>
    rw [List.foldlM_cons] at h
    cases hi : f s i with
    | error e => rw [hi] at h; cases h
    | ok s₁ =>
      rw [hi] at h
      apply ih h
      · exact hstep s s₁ i (List.mem_cons_self ..) h0 hi
      · intro s s' i' hi'
        exact hstep s s' i' (List.mem_cons_of_mem _ hi')

/-! ## `ORDER BY … LIMIT 1` -/

theorem firstBy_mem {before : α → α → Bool} {rows : List α} {r : α}
    (h : firstBy before rows = some r) : r ∈ rows := by
  induction rows generalizing r with
  | nil => simp [firstBy] at h
  | cons a rest ih =>
    simp only [firstBy] at h
    cases hf : firstBy before rest with
    | none => rw [hf] at h; simp_all
    | some best =>
      rw [hf] at h
      simp only at h
      split at h
      · exact List.mem_cons_of_mem _ (ih (h ▸ hf))
      · simp_all

end Table
