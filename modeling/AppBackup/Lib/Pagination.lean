import Mathlib.Data.List.Chain
import Mathlib.Data.List.Infix
import Mathlib.Data.List.Sort
import Mathlib.Order.Defs.LinearOrder

/- Keyset pagination: a table sorted strictly by a key is read a page at a time, each
   page the rows whose key is above the one the last page's cursor stands for. What a
   cursor made from a row reads back as is a parameter (`resume`), so that the question
   when the pages together are the table has an exact answer: each cursor must lie
   between the row it was made from and the next one.

   What is proved:
     1. `follow_all`, `between_of_follow` -- over one table the pages are the table exactly when
        each cursor lies between its row and the next, already where only the order of the rows
        is compared (`between_of_follow_perm`);
     2. `walk_mem`, `walk_sorted`, `walk_complete`, `walk_ends` -- over tables that change
        between the fetches, no row comes twice and a row that stays is not missed. -/
namespace Pagination

variable {α K : Type*} [LinearOrder K] {key : α → K} {resume : α → Option K}

/-- `ORDER BY key`. -/
def orderBy (key : α → K) (rows : List α) : List α := rows.insertionSort fun r r' => key r ≤ key r'

/-- The rows above a cursor, all rows without one. -/
def above (key : α → K) (cursor : Option K) (rows : List α) : List α :=
  rows.filter fun r => match cursor with
    | none => true
    | some c => decide (c < key r)

/-- One page of `limit` rows, with its last row when there are more. -/
def page (key : α → K) (rows : List α) (limit : Nat) (cursor : Option K) : List α × Option α :=
  let items := (above key cursor rows).take (limit + 1)
  if limit < items.length then (items.take limit, items[limit - 1]?) else (items, none)

/-- The pages from a cursor on, the `k`-th with `limits k` rows; `none` when the fuel ends
or a cursor does not read back. -/
def follow (key : α → K) (resume : α → Option K) (rows : List α) (limits : Nat → Nat) :
    Nat → Nat → Option K → Option (List α)
  | 0, _, _ => none
  | fuel + 1, k, cursor =>
    match page key rows (limits k) cursor with
    | (items, none) => some items
    | (items, some last) =>
      match resume last with
      | none => none
      | some c => (follow key resume rows limits fuel (k + 1) (some c)).map (items ++ ·)

/-- The cursor made from `r` reads back between `r` and the next row. -/
def Between (key : α → K) (resume : α → Option K) (r next : α) : Prop :=
  ∃ c, resume r = some c ∧ key r ≤ c ∧ c < key next

/-! ## Order -/

theorem orderBy_perm (key : α → K) (rows : List α) : (orderBy key rows).Perm rows :=
  List.perm_insertionSort _ rows

theorem orderBy_le (key : α → K) (rows : List α) :
    (orderBy key rows).Pairwise fun r r' => key r ≤ key r' := by
  have : Std.Total fun r r' : α => key r ≤ key r' := ⟨fun r r' => le_total (key r) (key r')⟩
  have : IsTrans α fun r r' : α => key r ≤ key r' := ⟨fun _ _ _ h h' => le_trans h h'⟩
  exact List.pairwise_insertionSort _ rows

theorem orderBy_lt {rows : List α} (h : rows.Pairwise fun r r' => key r ≠ key r') :
    (orderBy key rows).Pairwise fun r r' => key r < key r' := by
  have hne : (orderBy key rows).Pairwise fun r r' => key r ≠ key r' :=
    ((orderBy_perm key rows).pairwise_iff Ne.symm).mpr h
  exact ((orderBy_le key rows).and hne).imp fun both => lt_of_le_of_ne both.1 both.2

theorem orderBy_map {β : Type*} (f : β → α) (rows : List β) :
    (orderBy (fun r => key (f r)) rows).map f = orderBy key (rows.map f) := by
  apply List.map_insertionSort
  intro r _ r' _
  rfl

theorem eq_of_perm_of_lt {rows rows' : List α} (hperm : rows.Perm rows')
    (h : rows.Pairwise fun r r' => key r < key r') (h' : rows'.Pairwise fun r r' => key r < key r') :
    rows = rows' := by
  refine hperm.eq_of_pairwise ?_ h h'
  intro r r' _ _ hlt hgt
  exact absurd hgt (lt_asymm hlt)

theorem orderBy_filter {rows : List α} (h : rows.Pairwise fun r r' => key r ≠ key r') (p : α → Bool) :
    orderBy key (rows.filter p) = (orderBy key rows).filter p := by
  refine eq_of_perm_of_lt ?_ (orderBy_lt (h.sublist List.filter_sublist))
    ((orderBy_lt h).sublist List.filter_sublist)
  exact (orderBy_perm key _).trans ((orderBy_perm key rows).symm.filter p)

/-! ## One page -/

theorem page_last {rows : List α} {limit : Nat} {cursor : Option K}
    (h : (above key cursor rows).length ≤ limit) :
    page key rows limit cursor = (above key cursor rows, none) := by
  have htake : (above key cursor rows).take (limit + 1) = above key cursor rows :=
    List.take_of_length_le (by omega)
  unfold page
  simp only [htake]
  rw [if_neg (by omega)]

theorem page_more {rows : List α} {limit : Nat} {cursor : Option K}
    (h : limit < (above key cursor rows).length) :
    page key rows limit cursor =
      ((above key cursor rows).take limit, (above key cursor rows)[limit - 1]?) := by
  have hlen : limit < ((above key cursor rows).take (limit + 1)).length := by
    rw [List.length_take]
    omega
  unfold page
  simp only
  rw [if_pos hlen, List.take_take, List.getElem?_take_of_lt (by omega), Nat.min_eq_left (by omega)]

/-- A cursor between two parts of a sorted table is followed by the second part. -/
theorem above_split {first rest : List α} {c : K} (hfirst : ∀ r ∈ first, key r ≤ c)
    (hrest : ∀ r ∈ rest, c < key r) : above key (some c) (first ++ rest) = rest := by
  unfold above
  rw [List.filter_append]
  have h₁ : first.filter (fun r => decide (c < key r)) = [] := by
    apply List.filter_eq_nil_iff.mpr
    intro r hr
    simpa using hfirst r hr
  have h₂ : rest.filter (fun r => decide (c < key r)) = rest := by
    apply List.filter_eq_self.mpr
    intro r hr
    simpa using hrest r hr
  rw [h₁, h₂, List.nil_append]

/-- In a sorted table the first part is at most its last row, the rest at least its first. -/
theorem above_between {first rest : List α} {last next : α} {c : K}
    (hsorted : (first ++ [last] ++ next :: rest).Pairwise fun r r' => key r < key r')
    (hlow : key last ≤ c) (hhigh : c < key next) :
    above key (some c) (first ++ [last] ++ next :: rest) = next :: rest := by
  obtain ⟨hfirst, hrest, -⟩ := List.pairwise_append.mp hsorted
  obtain ⟨-, -, hlast⟩ := List.pairwise_append.mp hfirst
  apply above_split
  · intro r hr
    obtain hr | hr := List.mem_append.mp hr
    · exact ((hlast r hr last (List.mem_singleton_self _)).le).trans hlow
    · rw [List.mem_singleton.mp hr]
      exact hlow
  · intro r hr
    obtain rfl | hr := List.mem_cons.mp hr
    · exact hhigh
    · exact hhigh.trans ((List.pairwise_cons.mp hrest).1 r hr)

/-! ## All pages -/

theorem follow_done {rows : List α} {limits : Nat → Nat} {fuel k : Nat} {cursor : Option K}
    (h : (above key cursor rows).length ≤ limits k) :
    follow key resume rows limits (fuel + 1) k cursor = some (above key cursor rows) := by
  rw [follow, page_last h]

theorem follow_more {rows : List α} {limits : Nat → Nat} {fuel k : Nat} {cursor : Option K} {last : α}
    (h : limits k < (above key cursor rows).length)
    (hlast : (above key cursor rows)[limits k - 1]? = some last) :
    follow key resume rows limits (fuel + 1) k cursor =
      (resume last).bind fun c => (follow key resume rows limits fuel (k + 1) (some c)).map
        ((above key cursor rows).take (limits k) ++ ·) := by
  rw [follow, page_more h, hlast]
  simp only
  cases resume last <;> rfl

theorem follow_mem {rows : List α} {limits : Nat → Nat} {fuel k : Nat} {cursor : Option K}
    {items : List α} (h : follow key resume rows limits fuel k cursor = some items) :
    ∀ r ∈ items, r ∈ rows := by
  have habove : ∀ c : Option K, ∀ r ∈ above key c rows, r ∈ rows :=
    fun c r hr => (List.mem_filter.mp hr).1
  induction fuel generalizing k cursor items with
  | zero => cases h
  | succ fuel ih =>
    intro r hr
    by_cases hfit : (above key cursor rows).length ≤ limits k
    · rw [follow_done hfit] at h
      obtain rfl := Option.some.inj h
      exact habove cursor r hr
    · obtain ⟨last, hlast⟩ : ∃ last, (above key cursor rows)[limits k - 1]? = some last :=
        ⟨_, List.getElem?_eq_getElem (by omega)⟩
      rw [follow_more (by omega) hlast] at h
      obtain ⟨c, -, h⟩ := Option.bind_eq_some_iff.mp h
      obtain ⟨tail, htail, rfl⟩ := Option.map_eq_some_iff.mp h
      obtain hr | hr := List.mem_append.mp hr
      · exact habove cursor r (List.mem_of_mem_take hr)
      · exact ih htail r hr

/-- From a cursor that stands before `rest`, the pages are `rest`: by induction on the rows
left, the last row of a page being followed by the next page's first. -/
theorem follow_rest {rows : List α} (hsorted : rows.Pairwise fun r r' => key r < key r')
    {limits : Nat → Nat} (hlimits : ∀ k, 0 < limits k) :
    ∀ n (rest first : List α) (k : Nat) (cursor : Option K), rest.length = n →
      rows = first ++ rest → above key cursor rows = rest →
      rest.IsChain (Between key resume) →
      ∃ fuel, follow key resume rows limits fuel k cursor = some rest := by
  intro n
  induction n using Nat.strongRecOn with
  | ind n ih =>
    intro rest first k cursor hlen hrows habove hchain
    by_cases hfit : rest.length ≤ limits k
    · refine ⟨1, ?_⟩
      rw [follow_done (by rw [habove]; exact hfit), habove]
    · have hk := hlimits k
      -- The page is `before` and `last`; the table goes on with `next`.
      obtain ⟨before, last, hpage⟩ : ∃ before last, rest.take (limits k) = before ++ [last] :=
        ⟨_, _, (List.dropLast_concat_getLast (by
          apply List.ne_nil_of_length_pos
          rw [List.length_take]
          omega)).symm⟩
      obtain ⟨next, after, hdrop⟩ : ∃ next after, rest.drop (limits k) = next :: after :=
        List.exists_cons_of_length_pos (by rw [List.length_drop]; omega)
      have hrest : rest = before ++ [last] ++ next :: after := by
        rw [← hpage, ← hdrop, List.take_append_drop]
      have hbefore : before.length + 1 = limits k := by
        have := congrArg List.length hpage
        rw [List.length_take, List.length_append, List.length_singleton] at this
        omega
      have hlast : (above key cursor rows)[limits k - 1]? = some last := by
        rw [habove, hrest, List.append_assoc, ← hbefore]
        simp
      have hsplit : rest = before ++ last :: next :: after := by
        rw [hrest, List.append_assoc, List.singleton_append]
      rw [hsplit] at hchain
      have htail := (List.isChain_append.mp hchain).2.1
      obtain ⟨c, hc, hlow, hhigh⟩ := (List.isChain_cons_cons.mp htail).1
      have hrows' : rows = (first ++ before) ++ [last] ++ next :: after := by
        rw [hrows, hrest]
        simp only [List.append_assoc]
      have habove' : above key (some c) rows = next :: after := by
        rw [hrows'] at hsorted ⊢
        exact above_between hsorted hlow hhigh
      have hshort : (next :: after).length < n := by
        rw [← hlen, hrest, List.length_append, List.length_append]
        simp
      obtain ⟨fuel, hfuel⟩ := ih _ hshort (next :: after) _ (k + 1) (some c) rfl hrows' habove'
        (List.isChain_cons_cons.mp htail).2
      refine ⟨fuel + 1, ?_⟩
      rw [follow_more (by rw [habove]; omega) hlast, hc, Option.bind_some, hfuel, habove, hpage,
        Option.map_some, ← hrest]

/-- Whatever the limits, the pages are the table when every cursor stands between its row
and the next one. -/
theorem follow_all {rows : List α} (hsorted : rows.Pairwise fun r r' => key r < key r')
    (hchain : rows.IsChain (Between key resume)) {limits : Nat → Nat} (hlimits : ∀ k, 0 < limits k) :
    ∃ fuel, follow key resume rows limits fuel 0 none = some rows := by
  have habove : above key none rows = rows := by simp [above]
  exact follow_rest hsorted hlimits rows.length rows [] 0 none rfl rfl habove hchain

/-- What the pages from a cursor on begin with is the first row above it. -/
theorem follow_head {rows : List α} {limits : Nat → Nat} (hlimits : ∀ k, 0 < limits k) {fuel k : Nat}
    {cursor : Option K} {r : α} {rest : List α}
    (h : follow key resume rows limits fuel k cursor = some (r :: rest)) :
    (above key cursor rows).head? = some r := by
  have hk := hlimits k
  cases fuel with
  | zero => simp [follow] at h
  | succ fuel =>
    by_cases hfit : (above key cursor rows).length ≤ limits k
    · rw [follow_done hfit] at h
      rw [Option.some.inj h, List.head?_cons]
    · obtain ⟨last, hlast⟩ : ∃ last, (above key cursor rows)[limits k - 1]? = some last :=
        ⟨_, List.getElem?_eq_getElem (by omega)⟩
      rw [follow_more (by omega) hlast] at h
      obtain ⟨c, -, h⟩ := Option.bind_eq_some_iff.mp h
      obtain ⟨tail, -, htail⟩ := Option.map_eq_some_iff.mp h
      have hne : 0 < ((above key cursor rows).take (limits k)).length := by
        rw [List.length_take]
        omega
      have hhead := congrArg List.head? htail
      obtain ⟨a, as, habove⟩ := List.exists_cons_of_length_pos (l := above key cursor rows) (by omega)
      obtain ⟨m, hm⟩ := Nat.exists_eq_succ_of_ne_zero (Nat.pos_iff_ne_zero.mp hk)
      rw [habove, hm] at hhead
      simpa [habove] using hhead

/-- Read one row a page, the pages are the rest of the table only when every cursor stands
between its row and the next one. -/
theorem between_of_follow {rows : List α} (hsorted : rows.Pairwise fun r r' => key r < key r')
    (rest : List α) : ∀ (first : List α) (fuel k : Nat) (cursor : Option K), rows = first ++ rest →
      follow key resume rows (fun _ => 1) fuel k cursor = some rest →
      rest.IsChain (Between key resume) := by
  induction rest with
  | nil =>
    intro _ _ _ _ _ _
    exact List.IsChain.nil
  | cons r rest ih =>
    intro first fuel k cursor hrows h
    have hhead := follow_head (fun _ => Nat.one_pos) h
    cases fuel with
    | zero => simp [follow] at h
    | succ fuel =>
      -- the last page, or a page of `r` alone and the cursor made from it
      by_cases hfit : (above key cursor rows).length ≤ 1
      · rw [follow_done hfit] at h
        rw [Option.some.inj h] at hfit
        obtain rfl : rest = [] := by
          apply List.length_eq_zero_iff.mp
          rw [List.length_cons] at hfit
          omega
        exact List.isChain_singleton r
      · have hlast : (above key cursor rows)[1 - 1]? = some r := by
          rw [← List.head?_eq_getElem?]
          exact hhead
        rw [follow_more (by omega) hlast] at h
        obtain ⟨c, hc, h⟩ := Option.bind_eq_some_iff.mp h
        obtain ⟨tail, hfollow, htail⟩ := Option.map_eq_some_iff.mp h
        obtain ⟨after, habove⟩ := List.head?_eq_some_iff.mp hhead
        obtain rfl : tail = rest := by
          rw [habove, List.take_succ_cons, List.take_zero, List.singleton_append] at htail
          exact (List.cons.inj htail).2
        have hrows' : rows = (first ++ [r]) ++ tail := by
          rw [hrows, List.append_assoc, List.singleton_append]
        have hchain := ih (first ++ [r]) fuel (k + 1) (some c) hrows' hfollow
        cases tail with
        | nil => exact List.isChain_singleton r
        | cons next tail =>
          refine List.isChain_cons_cons.mpr ⟨⟨c, hc, ?_, ?_⟩, hchain⟩
          all_goals have hnext := follow_head (fun _ => Nat.one_pos) hfollow
          · -- Were `r` above its own cursor, it would come before `next` again.
            by_contra hlow
            rw [not_le] at hlow
            obtain ⟨after', habove'⟩ := List.head?_eq_some_iff.mp hnext
            have hmem : r ∈ above key (some c) rows := by
              refine List.mem_filter.mpr ⟨?_, by simpa using hlow⟩
              rw [hrows]
              exact List.mem_append_right _ (List.mem_cons_self ..)
            have hafter : (next :: after').Pairwise fun r r' => key r < key r' := by
              rw [← habove']
              exact hsorted.sublist List.filter_sublist
            have hlt : key r < key next := by
              rw [hrows] at hsorted
              exact (List.pairwise_cons.mp (List.pairwise_append.mp hsorted).2.1).1 next
                (List.mem_cons_self ..)
            rw [habove'] at hmem
            obtain rfl | hmem := List.mem_cons.mp hmem
            · exact lt_irrefl _ hlt
            · exact lt_asymm hlt ((List.pairwise_cons.mp hafter).1 r hmem)
          · have hmem : next ∈ above key (some c) rows := List.mem_of_mem_head? hnext
            simpa using (List.mem_filter.mp hmem).2

/-! ## Pages of any size -/

/-- What is above a cursor ends a sorted table. -/
theorem above_suffix {rows : List α} (hsorted : rows.Pairwise fun r r' => key r < key r') (cursor : Option K) :
    above key cursor rows <:+ rows := by
  cases cursor with
  | none => simp [above]
  | some c =>
    induction rows with
    | nil => exact List.suffix_refl _
    | cons a rows ih =>
      obtain ⟨hfirst, htail⟩ := List.pairwise_cons.mp hsorted
      unfold above
      by_cases ha : c < key a
      · have hall : (a :: rows).filter (fun r => decide (c < key r)) = a :: rows := by
          refine List.filter_eq_self.mpr fun r hr => ?_
          obtain rfl | hr := List.mem_cons.mp hr
          · exact decide_eq_true ha
          · exact decide_eq_true (ha.trans (hfirst r hr))
        rw [hall]
      · rw [List.filter_cons_of_neg (by simpa using ha)]
        exact (ih htail).trans (List.suffix_cons a rows)

/-- Read one row a page: the only row, or the first of several and then the pages from its
cursor on. -/
theorem follow_one {rows : List α} {fuel k : Nat} {cursor : Option K} {r : α} {rest : List α}
    (h : follow key resume rows (fun _ => 1) fuel k cursor = some (r :: rest)) :
    (above key cursor rows = [r] ∧ rest = []) ∨
    ∃ next more c fuel', above key cursor rows = r :: next :: more ∧ resume r = some c ∧
      follow key resume rows (fun _ => 1) fuel' (k + 1) (some c) = some rest := by
  obtain ⟨after, habove⟩ := List.head?_eq_some_iff.mp (follow_head (fun _ => Nat.one_pos) h)
  cases fuel with
  | zero => simp [follow] at h
  | succ fuel =>
    cases after with
    | nil =>
      rw [follow_done (by rw [habove]; exact Nat.le_refl 1), habove] at h
      exact .inl ⟨habove, (List.cons.inj (Option.some.inj h)).2.symm⟩
    | cons next more =>
      have hlast : (above key cursor rows)[1 - 1]? = some r := by
        rw [habove]
        rfl
      rw [follow_more (by rw [habove]; simp) hlast] at h
      obtain ⟨c, hc, h⟩ := Option.bind_eq_some_iff.mp h
      obtain ⟨tail, hfollow, htail⟩ := Option.map_eq_some_iff.mp h
      rw [habove] at htail
      obtain rfl : tail = rest := (List.cons.inj htail).2
      exact .inr ⟨next, more, c, fuel, habove, hc, hfollow⟩

/-- A row that pages of one row show is the last one of the table, or a page of two rows in its
place shows the row next to it in the table. -/
theorem follow_two {rows : List α} (hsorted : rows.Pairwise fun r r' => key r < key r') {r : α} {tail : List α}
    (before : List α) : ∀ {fuel k : Nat} {cursor : Option K},
      follow key resume rows (fun _ => 1) fuel k cursor = some (before ++ r :: tail) →
      [r] <:+ rows ∨ ∃ first next rest, rows = first ++ r :: next :: rest ∧
        ∀ {limits : Nat → Nat}, limits (k + before.length) = 2 →
        (∀ j, j < k + before.length → limits j = 1) →
          ∀ {fuel' : Nat} {out : List α}, follow key resume rows limits fuel' k cursor = some out →
            ∃ more, out = before ++ r :: next :: more := by
  induction before with
  -- the page of two rows comes here
  | nil =>
    intro fuel k cursor h
    obtain ⟨first, hrows⟩ := above_suffix hsorted cursor
    obtain ⟨habove, -⟩ | ⟨next, rest, c, fuel, habove, -, -⟩ := follow_one h
    · rw [habove] at hrows
      exact .inl ⟨first, hrows⟩
    · rw [habove] at hrows
      refine .inr ⟨first, next, rest, hrows.symm, ?_⟩
      intro limits htwo _ fuel' out hout
      have htwo : limits k = 2 := htwo
      cases fuel' with
      | zero => cases hout
      | succ fuel' =>
        by_cases hfit : (above key cursor rows).length ≤ limits k
        · rw [follow_done hfit, habove] at hout
          exact ⟨rest, (Option.some.inj hout).symm⟩
        · obtain ⟨last, hlast⟩ : ∃ last, (above key cursor rows)[limits k - 1]? = some last :=
            ⟨_, List.getElem?_eq_getElem (by omega)⟩
          rw [follow_more (by omega) hlast] at hout
          obtain ⟨c, -, hout⟩ := Option.bind_eq_some_iff.mp hout
          obtain ⟨more, -, rfl⟩ := Option.map_eq_some_iff.mp hout
          rw [habove, htwo]
          exact ⟨more, rfl⟩
  -- the first page has one row either way
  | cons x before ih =>
    intro fuel k cursor h
    obtain ⟨-, hnil⟩ | ⟨y, rest, c, fuel, habove, hc, hfollow⟩ := follow_one h
    · exact absurd hnil (by simp)
    · obtain hlast | ⟨first, next, rest', hrows, hpages⟩ := ih hfollow
      · exact .inl hlast
      refine .inr ⟨first, next, rest', hrows, ?_⟩
      intro limits htwo hone fuel' out hout
      have hplace : k + (x :: before).length = k + 1 + before.length := by
        rw [List.length_cons]
        omega
      rw [hplace] at htwo hone
      have hk : limits k = 1 := hone k (by omega)
      cases fuel' with
      | zero => cases hout
      | succ fuel' =>
        have hlast : (above key cursor rows)[limits k - 1]? = some x := by
          rw [habove, hk]
          rfl
        rw [follow_more (by rw [habove, hk]; simp) hlast, hc] at hout
        obtain ⟨out', hout', rfl⟩ := Option.map_eq_some_iff.mp hout
        obtain ⟨more, rfl⟩ := hpages htwo hone hout'
        rw [habove, hk]
        exact ⟨more, rfl⟩

theorem follow_ne_nil {rows : List α} {limits : Nat → Nat} (hlimits : ∀ k, 0 < limits k) {fuel k : Nat}
    {cursor : Option K} {out : List α} (habove : above key cursor rows ≠ [])
    (h : follow key resume rows limits fuel k cursor = some out) : out ≠ [] := by
  intro hnil
  have hk := hlimits k
  have hpos := List.length_pos_iff.mpr habove
  cases fuel with
  | zero => cases h
  | succ fuel =>
    by_cases hfit : (above key cursor rows).length ≤ limits k
    · rw [follow_done hfit] at h
      exact habove ((Option.some.inj h).trans hnil)
    · obtain ⟨last, hlast⟩ : ∃ last, (above key cursor rows)[limits k - 1]? = some last :=
        ⟨_, List.getElem?_eq_getElem (by omega)⟩
      rw [follow_more (by omega) hlast] at h
      obtain ⟨c, -, h⟩ := Option.bind_eq_some_iff.mp h
      obtain ⟨more, -, hout⟩ := Option.map_eq_some_iff.mp h
      have htake := (List.append_eq_nil_iff.mp (hout.trans hnil)).1
      have hlen := congrArg List.length htake
      rw [List.length_take, List.length_nil] at hlen
      omega

theorem rest_unique {first first' rest rest' : List α} {r : α} (hnodup : (first ++ r :: rest).Nodup)
    (h : first ++ r :: rest = first' ++ r :: rest') : rest = rest' := by
  obtain ⟨-, hright, hapart⟩ := List.nodup_append.mp hnodup
  have hfirst : r ∉ first := fun hin => hapart r hin r (List.mem_cons_self ..) rfl
  exact ((List.append_cons_inj_of_notMem hfirst (List.nodup_cons.mp hright).1).mp h).2.2

/-- What follows a row in the table is shown after it, when pages of any sizes show the same
rows once. -/
theorem sublist_of_follow_perm {rows shown : List α} (hsorted : rows.Pairwise fun r r' => key r < key r')
    (hnodup : shown.Nodup) {fuel : Nat} (hones : follow key resume rows (fun _ => 1) fuel 0 none = some shown)
    (h : ∀ limits : Nat → Nat, (∀ k, limits k = 1 ∨ limits k = 2) →
      ∃ fuel out, follow key resume rows limits fuel 0 none = some out ∧ out.Perm shown)
    (after : List α) : ∀ (first before tail : List α) (r : α), rows = first ++ r :: after →
      shown = before ++ r :: tail → after.Sublist tail := by
  have hrowsNodup : rows.Nodup := hsorted.imp fun {a b} hlt heq => absurd (heq ▸ hlt) (lt_irrefl _)
  induction after with
  | nil =>
    intro _ _ tail _ _ _
    exact List.nil_sublist tail
  | cons b after ih =>
    intro first before tail r hrows hshown
    obtain ⟨init, hlast⟩ | ⟨first', next, rest, hrows', hpages⟩ := follow_two hsorted before (hshown ▸ hones)
    · have hrest := rest_unique (hlast ▸ hrowsNodup) (hlast.trans hrows)
      cases hrest
    · obtain ⟨rfl, -⟩ := List.cons.inj (rest_unique (hrows' ▸ hrowsNodup) (hrows'.symm.trans hrows))
      -- a page of two rows shows it right after `r`
      obtain ⟨fuel', out, hout, hperm⟩ := h (fun j => if j = before.length then 2 else 1) fun k => by
        by_cases hk : k = before.length
        · exact .inr (if_pos hk)
        · exact .inl (if_neg hk)
      obtain ⟨more, rfl⟩ := hpages (by simp) (fun j hj => if_neg (by omega)) hout
      have hin : next ∈ shown := hperm.mem_iff.mp (by simp)
      have houtNodup := hperm.nodup_iff.mpr hnodup
      have hnot : next ∉ before ++ [r] := by
        rw [← List.singleton_append, ← List.append_assoc] at houtNodup
        obtain ⟨-, -, hapart⟩ := List.nodup_append.mp houtNodup
        exact fun hbefore => hapart next hbefore next (List.mem_cons_self ..) rfl
      have htail : next ∈ tail := by
        rw [hshown, ← List.singleton_append, ← List.append_assoc] at hin
        exact (List.mem_append.mp hin).resolve_left hnot
      obtain ⟨skipped, tail, rfl⟩ := List.append_of_mem htail
      have hsub := ih (first ++ [r]) (before ++ r :: skipped) tail next
        (by rw [hrows, List.append_cons]) (by rw [hshown, List.append_assoc, List.cons_append])
      exact (hsub.cons_cons next).trans (List.sublist_append_right skipped _)

/-- Pages of any sizes show the same rows once only when every cursor stands between its row and
the next one; what they show is then the table. -/
theorem between_of_follow_perm {rows : List α} (hsorted : rows.Pairwise fun r r' => key r < key r') {all : List α}
    (hall : all.Nodup) (h : ∀ limits : Nat → Nat, (∀ k, limits k = 1 ∨ limits k = 2) →
      ∃ fuel out, follow key resume rows limits fuel 0 none = some out ∧ out.Perm all) :
    rows.IsChain (Between key resume) ∧ rows.Perm all := by
  obtain ⟨fuel, shown, hones, hshown⟩ := h (fun _ => 1) fun _ => .inl rfl
  have hnodup := hshown.nodup_iff.mpr hall
  have hsame : ∀ limits : Nat → Nat, (∀ k, limits k = 1 ∨ limits k = 2) →
      ∃ fuel out, follow key resume rows limits fuel 0 none = some out ∧ out.Perm shown := by
    intro limits hlimits
    obtain ⟨fuel, out, hout, hperm⟩ := h limits hlimits
    exact ⟨fuel, out, hout, hperm.trans hshown.symm⟩
  have habove : above key none rows = rows := by simp [above]
  have hle := (List.subperm_of_subset hnodup (follow_mem hones)).length_le
  have heq : rows = shown := by
    cases hrows : rows with
    | nil =>
      rw [hrows, List.length_nil] at hle
      exact (List.length_eq_zero_iff.mp (Nat.le_zero.mp hle)).symm
    | cons r after =>
      have hne := follow_ne_nil (fun _ => Nat.one_pos) (by rw [habove, hrows]; simp) hones
      obtain ⟨r', tail, hout⟩ := List.exists_cons_of_ne_nil hne
      have hhead := follow_head (fun _ => Nat.one_pos) (hout ▸ hones)
      rw [habove, hrows, List.head?_cons] at hhead
      obtain rfl := Option.some.inj hhead
      have hsub := sublist_of_follow_perm hsorted hnodup hones hsame after [] [] tail r hrows hout
      have hlong : (r :: after).Sublist shown := hout ▸ hsub.cons_cons r
      exact hlong.eq_of_length_le (hrows ▸ hle)
  rw [← heq] at hones hshown
  exact ⟨between_of_follow hsorted rows [] fuel 0 none rfl hones, hshown⟩

/-! ## A table that changes between the pages -/

/-- The first `n` pages from a cursor on, the `k`-th read from the rows the table has by then,
and whether the last of them was the last there is. -/
def walk (key : α → K) (rows : Nat → List α) (limits : Nat → Nat) :
    Nat → Nat → Option K → List α × Bool
  | 0, _, _ => ([], false)
  | n + 1, k, cursor =>
    match page key (orderBy key (rows k)) (limits k) cursor with
    | (items, none) => (items, true)
    | (items, some last) =>
      let more := walk key rows limits n (k + 1) (some (key last))
      (items ++ more.1, more.2)

/-- A page is all there is above the cursor, or it ends with the row its cursor is made from
and there is more. -/
theorem page_split (key : α → K) (rows : List α) {limit : Nat} (hlimit : 0 < limit)
    (cursor : Option K) :
    page key rows limit cursor = (above key cursor rows, none) ∨
      ∃ items last rest, page key rows limit cursor = (items ++ [last], some last) ∧ rest ≠ [] ∧
        above key cursor rows = items ++ [last] ++ rest := by
  by_cases hfit : (above key cursor rows).length ≤ limit
  · exact .inl (page_last hfit)
  · right
    have hlen : ((above key cursor rows).take limit).length = limit := by
      rw [List.length_take]
      omega
    have hne : (above key cursor rows).take limit ≠ [] := by
      apply List.ne_nil_of_length_pos
      omega
    refine ⟨((above key cursor rows).take limit).dropLast,
      ((above key cursor rows).take limit).getLast hne, (above key cursor rows).drop limit, ?_, ?_, ?_⟩
    · rw [page_more (by omega), List.dropLast_append_getLast hne, List.getLast_eq_getElem]
      rw [List.getElem?_eq_getElem (by omega)]
      simp only [hlen, List.getElem_take]
    · apply List.ne_nil_of_length_pos
      rw [List.length_drop]
      omega
    · rw [List.dropLast_append_getLast hne, List.take_append_drop]

theorem mem_above {rows : List α} {cursor : Option K} {r : α} :
    r ∈ above key cursor rows ↔ r ∈ rows ∧ ∀ c, cursor = some c → c < key r := by
  unfold above
  rw [List.mem_filter]
  cases cursor with
  | none => simp
  | some c => simp

theorem above_sorted {rows : List α} (hkeys : rows.Pairwise fun r r' => key r ≠ key r')
    (cursor : Option K) :
    (above key cursor (orderBy key rows)).Pairwise fun r r' => key r < key r' :=
  (orderBy_lt hkeys).sublist List.filter_sublist

section Walk
variable {rows : Nat → List α} {limits : Nat → Nat} (hlimits : ∀ k, 0 < limits k)
include hlimits

/-- What a walk returns was in the table at one of its pages. -/
theorem walk_mem (n : Nat) : ∀ (k : Nat) (cursor : Option K),
    ∀ r ∈ (walk key rows limits n k cursor).1, ∃ i < n, r ∈ rows (k + i) := by
  induction n with
  | zero =>
    intro k cursor r hr
    cases hr
  | succ n ih =>
    intro k cursor r hr
    have hpagerow : ∀ r ∈ above key cursor (orderBy key (rows k)), ∃ i < n + 1, r ∈ rows (k + i) :=
      fun r hr => ⟨0, Nat.succ_pos n, (orderBy_perm key (rows k)).mem_iff.mp (mem_above.mp hr).1⟩
    obtain hpage | ⟨items, last, rest, hpage, -, hsplit⟩ :=
      page_split key (orderBy key (rows k)) (hlimits k) cursor
    · rw [walk, hpage] at hr
      exact hpagerow r hr
    · rw [walk, hpage] at hr
      obtain hr | hr := List.mem_append.mp hr
      · apply hpagerow
        rw [hsplit]
        exact List.mem_append_left _ hr
      · obtain ⟨i, hi, hmem⟩ := ih (k + 1) (some (key last)) r hr
        refine ⟨i + 1, Nat.succ_lt_succ hi, ?_⟩
        rwa [show k + (i + 1) = k + 1 + i by omega]

variable (hkeys : ∀ k, (rows k).Pairwise fun r r' => key r ≠ key r')
include hkeys

/-- The pages are sorted strictly, one after the other, and lie above the cursor. -/
theorem walk_sorted (n : Nat) : ∀ (k : Nat) (cursor : Option K),
    ((walk key rows limits n k cursor).1.Pairwise fun r r' => key r < key r') ∧
      ∀ r ∈ (walk key rows limits n k cursor).1, ∀ c, cursor = some c → c < key r := by
  induction n with
  | zero =>
    intro k cursor
    exact ⟨List.Pairwise.nil, fun r hr => by cases hr⟩
  | succ n ih =>
    intro k cursor
    have hsorted := above_sorted (hkeys k) cursor
    have habove : ∀ r ∈ above key cursor (orderBy key (rows k)), ∀ c, cursor = some c → c < key r :=
      fun r hr => (mem_above.mp hr).2
    obtain hpage | ⟨items, last, rest, hpage, -, hsplit⟩ :=
      page_split key (orderBy key (rows k)) (hlimits k) cursor
    · rw [walk, hpage]
      exact ⟨hsorted, habove⟩
    · rw [walk, hpage]
      obtain ⟨hmore, hlast⟩ := ih (k + 1) (some (key last))
      rw [hsplit] at hsorted habove
      have hfirst := (List.pairwise_append.mp hsorted).1
      have hle : ∀ r ∈ items ++ [last], key r ≤ key last := by
        intro r hr
        obtain hr | hr := List.mem_append.mp hr
        · exact ((List.pairwise_append.mp hfirst).2.2 r hr last (List.mem_singleton_self _)).le
        · rw [List.mem_singleton.mp hr]
      refine ⟨List.pairwise_append.mpr ⟨hfirst, hmore, ?_⟩, ?_⟩
      · intro r hr r' hr'
        exact (hle r hr).trans_lt (hlast r' hr' _ rfl)
      · intro r hr c hc
        obtain hr | hr := List.mem_append.mp hr
        · exact habove r (List.mem_append_left _ hr) c hc
        · have hmem : last ∈ items ++ [last] ++ rest :=
            List.mem_append_left _ (List.mem_append_right _ (List.mem_singleton_self _))
          exact (habove last hmem c hc).trans (hlast r hr _ rfl)

/-- A walk that has come to its end has met every key above the cursor that was there at each
page. -/
theorem walk_complete (n : Nat) : ∀ (k : Nat) (cursor : Option K) (x : K),
    (walk key rows limits n k cursor).2 = true → (∀ c, cursor = some c → c < x) →
      (∀ i < n, ∃ r ∈ rows (k + i), key r = x) →
        ∃ r ∈ (walk key rows limits n k cursor).1, key r = x := by
  induction n with
  | zero =>
    intro k cursor x hend
    cases hend
  | succ n ih =>
    intro k cursor x hend hx hpresent
    obtain ⟨r, hr, hrx⟩ := hpresent 0 (Nat.succ_pos n)
    have hmem : r ∈ above key cursor (orderBy key (rows k)) := by
      refine mem_above.mpr ⟨(orderBy_perm key (rows k)).mem_iff.mpr hr, ?_⟩
      rw [hrx]
      exact hx
    obtain hpage | ⟨items, last, rest, hpage, -, hsplit⟩ :=
      page_split key (orderBy key (rows k)) (hlimits k) cursor
    · rw [walk, hpage]
      exact ⟨r, hmem, hrx⟩
    · rw [walk, hpage] at hend ⊢
      have hsorted := above_sorted (hkeys k) cursor
      rw [hsplit] at hmem hsorted
      obtain hr | hr := List.mem_append.mp hmem
      · exact ⟨r, List.mem_append_left _ hr, hrx⟩
      · -- the row comes after the last one of this page
        have hlt : key last < x := by
          rw [← hrx]
          exact (List.pairwise_append.mp hsorted).2.2 last
            (List.mem_append_right _ (List.mem_singleton_self _)) r hr
        obtain ⟨r', hr', hrx'⟩ := ih (k + 1) (some (key last)) x hend
          (fun c hc => Option.some.inj hc ▸ hlt) fun i hi => by
            have hlater := hpresent (i + 1) (Nat.succ_lt_succ hi)
            rwa [show k + (i + 1) = k + 1 + i by omega] at hlater
        exact ⟨r', List.mem_append_right _ hr', hrx'⟩

/-- A walk over a table that stays as it is comes to its end. -/
theorem walk_ends (hsame : ∀ k, rows k = rows 0) (m : Nat) : ∀ (k : Nat) (cursor : Option K),
    (above key cursor (orderBy key (rows 0))).length ≤ m →
      ∃ n, (walk key rows limits n k cursor).2 = true := by
  induction m with
  | zero =>
    intro k cursor hlen
    refine ⟨1, ?_⟩
    rw [walk, page_last (by rw [hsame k]; omega)]
  | succ m ih =>
    intro k cursor hlen
    obtain hpage | ⟨items, last, rest, hpage, -, hsplit⟩ :=
      page_split key (orderBy key (rows k)) (hlimits k) cursor
    · refine ⟨1, ?_⟩
      rw [walk, hpage]
    · have hsorted := above_sorted (hkeys k) cursor
      rw [hsplit] at hsorted
      have hlast : last ∈ items ++ [last] := List.mem_append_right _ (List.mem_singleton_self _)
      -- what is above the last row is the rest
      have hrest : above key (some (key last)) (orderBy key (rows 0)) = rest := by
        have hfilter : above key (some (key last)) (orderBy key (rows 0)) =
            above key (some (key last)) (above key cursor (orderBy key (rows 0))) := by
          have hall : ∀ r ∈ above key (some (key last)) (orderBy key (rows 0)),
              ∀ c, cursor = some c → c < key r := by
            intro r hr c hc
            have hmem : last ∈ above key cursor (orderBy key (rows k)) := by
              rw [hsplit]
              exact List.mem_append_left _ hlast
            exact ((mem_above.mp hmem).2 c hc).trans ((mem_above.mp hr).2 _ rfl)
          unfold above at hall ⊢
          rw [List.filter_filter]
          refine List.filter_congr fun r hr => ?_
          by_cases hlt : key last < key r
          · have hc := hall r (List.mem_filter.mpr ⟨hr, decide_eq_true hlt⟩)
            cases cursor with
            | none => simp
            | some c => simp [hlt, hc c rfl]
          · simp [hlt]
        rw [hfilter, ← hsame k, hsplit]
        refine above_split ?_ ?_
        · intro r hr
          have hfirst := (List.pairwise_append.mp hsorted).1
          obtain hr | hr := List.mem_append.mp hr
          · exact ((List.pairwise_append.mp hfirst).2.2 r hr last (List.mem_singleton_self _)).le
          · rw [List.mem_singleton.mp hr]
        · intro r hr
          exact (List.pairwise_append.mp hsorted).2.2 last hlast r hr
      have hshort : (above key (some (key last)) (orderBy key (rows 0))).length ≤ m := by
        have hcount := congrArg List.length hsplit
        rw [hsame k, List.length_append, List.length_append, List.length_singleton] at hcount
        rw [hrest]
        omega
      obtain ⟨n, hn⟩ := ih (k + 1) (some (key last)) hshort
      refine ⟨n + 1, ?_⟩
      rw [walk, hpage]
      exact hn

end Walk

end Pagination
