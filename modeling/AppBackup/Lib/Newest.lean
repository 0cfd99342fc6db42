import Mathlib.Data.Finset.Card
import Mathlib.Data.List.Pairwise

/- Lists with the newest first. `newer` is a strict order in which the list decreases, and
   a bucket is a number that newer items have no smaller one of. What a single pass over
   the list can tell of an item, from the items before it, are facts about the set of all
   items: its rank, and whether it is the newest of one of the largest buckets. -/
namespace Newest

variable {α κ : Type*} (newer : α → α → Prop)

/-- The item is among the `limit` newest. -/
def Latest [DecidableRel newer] (limit : Int) (l : List α) (x : α) : Prop :=
  (((l.filter fun y => newer y x).length : Nat) : Int) < limit

/-- The item is the newest of its bucket, which is one of the `limit` largest. -/
structure NewestOf (bucket : α → Int) (limit : Int) (l : List α) (x : α) : Prop where
  newest : ∀ y ∈ l, bucket y = bucket x → y = x ∨ newer x y
  recent : ((((l.map bucket).toFinset.filter fun b => bucket x < b).card : Nat) : Int) < limit

/-- The item is the newest with a property. -/
def NewestWith (p : α → Prop) (l : List α) (x : α) : Prop :=
  p x ∧ ∀ y ∈ l, p y → y = x ∨ newer x y

/-! ## Fewer items, and larger limits -/

section
variable {newer} {bucket : α → Int} {limit limit' : Int} {l l' : List α} {x : α}

theorem Latest.mono [DecidableRel newer] (h : Latest newer limit l x)
    (hle : limit ≤ limit') : Latest newer limit' l x :=
  lt_of_lt_of_le h hle

theorem Latest.sublist [DecidableRel newer] (h : Latest newer limit l x)
    (hs : l'.Sublist l) : Latest newer limit l' x := by
  have hle := (hs.filter fun y => decide (newer y x)).length_le
  unfold Latest at h ⊢
  omega

theorem NewestOf.mono (h : NewestOf newer bucket limit l x) (hle : limit ≤ limit') :
    NewestOf newer bucket limit' l x :=
  ⟨h.newest, lt_of_lt_of_le h.recent hle⟩

theorem NewestOf.sublist (h : NewestOf newer bucket limit l x) (hs : l'.Sublist l) :
    NewestOf newer bucket limit l' x := by
  refine ⟨fun y hy => h.newest y (hs.subset hy), ?_⟩
  have hle : ((l'.map bucket).toFinset.filter fun b => bucket x < b).card ≤
      ((l.map bucket).toFinset.filter fun b => bucket x < b).card := by
    apply Finset.card_le_card
    apply Finset.filter_subset_filter
    intro b hb
    rw [List.mem_toFinset] at hb ⊢
    exact (hs.map bucket).subset hb
  have hrecent := h.recent
  omega

theorem NewestWith.sublist {p : α → Prop} (h : NewestWith newer p l x) (hs : l'.Sublist l) :
    NewestWith newer p l' x :=
  ⟨h.1, fun y hy => h.2 y (hs.subset hy)⟩

end

/-! ## What a pass can tell -/

section
variable {newer} {l : List α}

/-- Two items of the list are the same, or one is newer. -/
theorem newer_total (h : l.Pairwise newer) {x y : α} (hx : x ∈ l)
    (hy : y ∈ l) : x = y ∨ newer x y ∨ newer y x := by
  induction h with
  | nil => cases hx
  | @cons a rest hfirst _ ih =>
    obtain hxa | hxrest := List.mem_cons.mp hx
    · obtain hya | hyrest := List.mem_cons.mp hy
      · exact .inl (hxa.trans hya.symm)
      · exact .inr (.inl (hxa ▸ hfirst y hyrest))
    · obtain hya | hyrest := List.mem_cons.mp hy
      · exact .inr (.inr (hya ▸ hfirst x hxrest))
      · exact ih hxrest hyrest

/-- The items before one are the newer ones. -/
theorem take_eq_filter [DecidableRel newer] (h : l.Pairwise newer) (hasymm : ∀ a b, newer a b → ¬newer b a)
    {i : Nat} {x : α}
    (hi : l[i]? = some x) : l.take i = l.filter fun y => newer y x := by
  induction h generalizing i with
  | nil => cases hi
  | @cons a rest hfirst _ ih =>
    cases i with
    | zero =>
      have hxa : a = x := Option.some.inj hi
      refine (List.filter_eq_nil_iff.mpr ?_).symm
      intro y hy hyx
      have hyx : newer y x := of_decide_eq_true hyx
      obtain hya | hyrest := List.mem_cons.mp hy
      · rw [hya, hxa] at hyx
        exact hasymm x x hyx hyx
      · exact hasymm y x hyx (hxa ▸ hfirst y hyrest)
    | succ i =>
      have hi : rest[i]? = some x := hi
      have hax : newer a x := hfirst x (List.mem_of_getElem? hi)
      rw [List.take_succ_cons, ih hi, List.filter_cons, if_pos (decide_eq_true hax)]

theorem card_keys [DecidableEq κ] {key : α → κ} {bucket : α → Int}
    (hkey : ∀ a b, key a = key b ↔ bucket a = bucket b) (l : List α) :
    (l.map key).toFinset.card = (l.map bucket).toFinset.card := by
  induction l with
  | nil => rfl
  | cons a l ih =>
    have hmem : key a ∈ (l.map key).toFinset ↔ bucket a ∈ (l.map bucket).toFinset := by
      simp only [List.mem_toFinset, List.mem_map]
      exact exists_congr fun b => and_congr_right fun _ => hkey b a
    rw [List.map_cons, List.map_cons, List.toFinset_cons, List.toFinset_cons]
    by_cases h : key a ∈ (l.map key).toFinset
    · rw [Finset.insert_eq_of_mem h, Finset.insert_eq_of_mem (hmem.mp h), ih]
    · rw [Finset.card_insert_of_notMem h, Finset.card_insert_of_notMem (fun hb => h (hmem.mpr hb)), ih]

/-- The first of its key, with fewer keys than the limit before it, is the newest of one of
the largest buckets. -/
theorem newestOf_iff [DecidableRel newer] [DecidableEq κ] {key : α → κ} {bucket : α → Int}
    (h : l.Pairwise newer)
    (hasymm : ∀ a b, newer a b → ¬newer b a) (hkey : ∀ a b, key a = key b ↔ bucket a = bucket b)
    (hbucket : ∀ a b, newer a b → bucket b ≤ bucket a) {i : Nat} {x : α} (hi : l[i]? = some x) (limit : Int) :
    (key x ∉ (l.take i).map key ∧ ((((l.take i).map key).toFinset.card : Nat) : Int) < limit) ↔
      NewestOf newer bucket limit l x := by
  have hx : x ∈ l := List.mem_of_getElem? hi
  rw [take_eq_filter h hasymm hi, card_keys hkey]
  have hfirst : key x ∉ (l.filter fun y => newer y x).map key ↔
      ∀ y ∈ l, bucket y = bucket x → y = x ∨ newer x y := by
    refine ⟨fun hnew y hy he => ?_, fun hnewest hmem => ?_⟩
    · obtain hsame | hyx | hxy := newer_total h hy hx
      · exact .inl hsame
      · exact absurd (List.mem_map.mpr ⟨y, List.mem_filter.mpr ⟨hy, decide_eq_true hyx⟩, (hkey y x).mpr he⟩)
          hnew
      · exact .inr hxy
    · obtain ⟨y, hy, he⟩ := List.mem_map.mp hmem
      obtain ⟨hy, hyx⟩ := List.mem_filter.mp hy
      have hyx : newer y x := of_decide_eq_true hyx
      obtain rfl | hxy := hnewest y hy ((hkey y x).mp he)
      · exact hasymm y y hyx hyx
      · exact hasymm y x hyx hxy
  have hlarger : (∀ y ∈ l, bucket y = bucket x → y = x ∨ newer x y) →
      ((l.filter fun y => newer y x).map bucket).toFinset =
        (l.map bucket).toFinset.filter fun b => bucket x < b := by
    intro hnewest
    ext b
    simp only [List.mem_toFinset, Finset.mem_filter, List.mem_map, List.mem_filter, decide_eq_true_eq]
    refine ⟨fun hb => ?_, fun hb => ?_⟩
    · obtain ⟨y, ⟨hy, hyx⟩, rfl⟩ := hb
      refine ⟨⟨y, hy, rfl⟩, lt_of_le_of_ne (hbucket y x hyx) (fun he => ?_)⟩
      obtain rfl | hxy := hnewest y hy he.symm
      · exact hasymm y y hyx hyx
      · exact hasymm y x hyx hxy
    · obtain ⟨⟨y, hy, rfl⟩, hlt⟩ := hb
      obtain rfl | hyx | hxy := newer_total h hy hx
      · exact absurd hlt (lt_irrefl _)
      · exact ⟨y, ⟨hy, hyx⟩, rfl⟩
      · exact absurd (hbucket x y hxy) (not_le_of_gt hlt)
  rw [hfirst]
  refine ⟨fun ⟨hnewest, hcard⟩ => ?_, fun hx => ?_⟩
  · rw [hlarger hnewest] at hcard
    exact ⟨hnewest, hcard⟩
  · rw [hlarger hx.newest]
    exact ⟨hx.newest, hx.recent⟩

/-- The first item with a property is the newest with it. -/
theorem find?_iff_newestWith (h : l.Pairwise newer) (hasymm : ∀ a b, newer a b → ¬newer b a) {p : α → Bool}
    {x : α}
    (hx : x ∈ l) : l.find? p = some x ↔ NewestWith newer (fun y => p y = true) l x := by
  refine ⟨fun hf => ⟨List.find?_some hf, fun y hy hp => ?_⟩, fun ⟨hpx, hnewest⟩ => ?_⟩
  · obtain ⟨-, before, after, hl, hmiss⟩ := List.find?_eq_some_iff_append.mp hf
    subst hl
    obtain hbefore | hafter := List.mem_append.mp hy
    · have hnot := hmiss y hbefore
      rw [hp] at hnot
      cases hnot
    · obtain rfl | hafter := List.mem_cons.mp hafter
      · exact .inl rfl
      · exact .inr ((List.pairwise_cons.mp (List.pairwise_append.mp h).2.1).1 y hafter)
  · cases hf : l.find? p with
    | none => exact absurd hpx (List.find?_eq_none.mp hf x hx)
    | some y =>
      obtain rfl | hxy := hnewest y (List.mem_of_find?_eq_some hf) (List.find?_some hf)
      · rfl
      · obtain ⟨-, before, after, hl, hmiss⟩ := List.find?_eq_some_iff_append.mp hf
        subst hl
        obtain hbefore | hafter := List.mem_append.mp hx
        · have hnot := hmiss x hbefore
          rw [hpx] at hnot
          cases hnot
        · obtain rfl | hafter := List.mem_cons.mp hafter
          · rfl
          · have hyx := (List.pairwise_cons.mp (List.pairwise_append.mp h).2.1).1 x hafter
            exact absurd hyx (hasymm x y hxy)

end

end Newest
