import AppBackup.Persistence.Instances
import Mathlib.Data.List.TakeWhile

/- The search of `ListInstances` (`persistence/store.go`): the query in lower case becomes a
   `LIKE` pattern without escapes, which is compared with `name_sort` and the ids; SQLite
   knows the lower case of ASCII letters only.

   What is shown: a search is exact, apart from the cursors between its pages, as long as the
   query holds no character that `LIKE` reads as more than itself and the names and ids no
   letter whose lower case SQLite does not know. Both conditions are about the texts alone, and
   neither can be dropped: every query that breaks the first is answered wrongly by some catalog
   of plain texts, and every character that breaks the second makes some plain search wrong.

   `unicode.ToLower` is the parameter `lower`; `LowersText` says what is used of it. -/
namespace AppBackup.Persistence
open Table Base64

/-- The characters of a pattern that match more than themselves, or end it. -/
def matchesMore (c : Char) : Bool := c == '%' || c == '_' || c == '\x00'

/-- What the proofs use of `unicode.ToLower`: it has the lower case of the ASCII letters, a
lower case is its own, spaces stay spaces, and no letter becomes a character of a pattern. -/
structure LowersText (lower : Char → Char) : Prop where
  ascii : ∀ c, c.toNat < 128 → lower c = c.toLower
  settled : ∀ c, lower (lower c) = lower c
  space : ∀ c, Text.isSpace (lower c) = Text.isSpace c
  special : ∀ c, matchesMore (lower c) = true → lower c = c

/-- The instances that satisfy the other filters. -/
def Store.candidates (lower : Char → Char) (s : Store) (tenant : String) (filter : ApplicationFilter) : List Joined :=
  s.listing lower tenant { filter with query := "" }

/-- The part occurs in the text, in letters of either case. -/
def containsFold (lower : Char → Char) (text part : String) : Bool :=
  Text.contains (toLower lower text) (toLower lower part)

/-- The texts a search is about. -/
def texts (r : Joined) : List String := [r.1.name, r.1.appId, r.2.deployId]

/-- The name or an id contains the trimmed query. -/
def sought (lower : Char → Char) (filter : ApplicationFilter) (r : Joined) : Bool :=
  (texts r).any fun text => containsFold lower text (Text.trimSpace filter.query)

/-- The texts the pattern is compared with. -/
def compared (r : Joined) : List String := [r.1.nameSort, sqlLower r.1.appId, sqlLower r.2.deployId]

/-- The condition `ListInstances` adds for a query. -/
def hits (lower : Char → Char) (filter : ApplicationFilter) (r : Joined) : Bool :=
  let text := queryText lower filter
  text == "" || (compared r).any (like ("%" ++ text ++ "%"))

/-- A text that is compared holds the query as it is, but for the case of ASCII letters. -/
def literally (lower : Char → Char) (filter : ApplicationFilter) (r : Joined) : Bool :=
  let text := queryText lower filter
  text == "" || (compared r).any fun t => like ("%" ++ text ++ "%") t && Text.contains (sqlLower t) text

/-- The characters of a text whose lower case `LIKE` does not know, or behind which it does not read. -/
def unreadBy (lower : Char → Char) (c : Char) : Bool := lower c != c.toLower || c == '\x00'

/-- The query has no character that a pattern reads as more than itself. -/
def PlainQuery (filter : ApplicationFilter) : Prop := filter.query.toList.any matchesMore = false

/-- `LIKE` knows the lower case of the name and the ids, and reads them to their end. -/
def PlainTexts (lower : Char → Char) (r : Joined) : Prop :=
  ∀ text ∈ texts r, text.toList.any (unreadBy lower) = false

instance (filter : ApplicationFilter) : Decidable (PlainQuery filter) :=
  inferInstanceAs (Decidable (_ = _))

instance (lower : Char → Char) (r : Joined) : Decidable (PlainTexts lower r) :=
  inferInstanceAs (Decidable (∀ _ ∈ _, _))

/-- Whatever the page limits, following the cursors gives the candidates that contain the query. -/
def FindsExactly (lower : Char → Char) (hash : List Byte → List Byte) (s : Store) (tenant : String)
    (filter : ApplicationFilter) : Prop :=
  ∀ limits : Nat → Int, ∃ (fuel : Nat) (rows : List Joined),
    s.followPages lower hash tenant filter limits fuel 0 "" = some (rows.map (scanInstance tenant)) ∧
    rows.Perm ((s.candidates lower tenant filter).filter (sought lower filter))

section
variable {lower : Char → Char} {hash : List Byte → List Byte} {s : Store} {tenant : String}
    {filter : ApplicationFilter}
  {r : Joined}

/-! ## The pages of a search -/

theorem listed_hits : listed lower s tenant filter r =
    (listed lower s tenant { filter with query := "" } r && hits lower filter r) := by
  have hempty : queryText lower { filter with query := "" } = "" := by
    simp [queryText, toLower, Text.trimSpace, Text.trim, Text.trimChars]
  unfold listed hits compared
  simp only [hempty, beq_self_eq_true, Bool.true_or, Bool.and_true, List.any_cons, List.any_nil, Bool.or_false,
    Bool.or_assoc]
  rw [← Bool.coe_iff_coe]
  simp only [Bool.and_eq_true]
  exact ⟨fun h => ⟨⟨⟨⟨⟨⟨h.1.1.1.1.1.1, h.1.1.1.1.2⟩, h.1.1.1.2⟩, h.1.1.2⟩, h.1.2⟩, h.2⟩,
    h.1.1.1.1.1.2⟩,
    fun h => ⟨⟨⟨⟨⟨⟨h.1.1.1.1.1.1, h.2⟩, h.1.1.1.1.1.2⟩, h.1.1.1.1.2⟩, h.1.1.1.2⟩, h.1.1.2⟩,
      h.1.2⟩⟩

theorem listing_hits : s.listing lower tenant filter = (s.candidates lower tenant filter).filter
    (hits lower filter) := by
  unfold Store.candidates Store.listing
  rw [List.filter_filter]
  refine List.filter_congr fun r _ => ?_
  rw [listed_hits, Bool.and_comm]

theorem filter_perm_iff {α : Type} {l : List α} {p q : α → Bool} :
    (l.filter p).Perm (l.filter q) ↔ ∀ a ∈ l, p a = q a := by
  refine ⟨?_, ?_⟩
  · intro h a ha
    have hmem := h.mem_iff (a := a)
    simp only [List.mem_filter, ha, true_and] at hmem
    exact Bool.eq_iff_iff.mpr hmem
  · intro h
    rw [List.filter_congr h]

/-- A search is exact when, and only when, its pages are, and the pattern is met by the
candidates that contain the query and no others. -/
theorem findsExactly_iff_hits (h : s.Keyed) : FindsExactly lower hash s tenant filter ↔
    (s.sorted lower tenant filter).IsChain (CursorBetween lower) ∧
      ∀ r ∈ s.candidates lower tenant filter, hits lower filter r = sought lower filter r := by
  have hsorted := Pagination.orderBy_lt (h.listing lower tenant filter)
  have hperm : (s.sorted lower tenant filter).Perm (s.listing lower tenant filter) := Pagination.orderBy_perm _ _
  have hstart : StandsFor lower (cursorScope lower hash tenant filter) "" none := rfl
  rw [← List.IsChain.iff fun _ _ => between_iff]
  refine ⟨?_, ?_⟩
  · intro hexact
    have hcandidates : (s.candidates lower tenant filter).Nodup :=
      (h.listing lower tenant _).imp fun {r r'} hne he => hne (congrArg sortKey he)
    have hpages : ∀ limits : Nat → Nat, (∀ k, limits k = 1 ∨ limits k = 2) → ∃ fuel out,
        Pagination.follow sortKey (resume lower) (s.sorted lower tenant filter) limits fuel 0 none = some out ∧
          out.Perm ((s.candidates lower tenant filter).filter (sought lower filter)) := by
      intro limits hlimits
      obtain ⟨fuel, rows, hfollow, hrows⟩ := hexact fun k => (limits k : Int)
      rw [followPages_eq h _ fuel 0 hstart] at hfollow
      obtain ⟨out, hout, he⟩ := Option.map_eq_some_iff.mp hfollow
      have hlimit : (fun k => pageLimit ((limits k : Nat) : Int)) = limits := by
        funext k
        obtain hk | hk := hlimits k
        · rw [hk]
          rfl
        · rw [hk]
          rfl
      rw [hlimit] at hout
      have hsame : out = rows := by
        refine eq_of_map_eq ?_ he
        intro r hr r' hr'
        have hr := hperm.mem_iff.mp (Pagination.follow_mem hout r hr)
        rw [listing_hits] at hr
        exact h.scanInstance_inj (List.mem_filter.mp hr).1 (List.mem_filter.mp (hrows.mem_iff.mp hr')).1
      exact ⟨fuel, out, hout, hsame ▸ hrows⟩
    obtain ⟨hchain, hall⟩ := Pagination.between_of_follow_perm hsorted (hcandidates.filter _) hpages
    refine ⟨hchain, filter_perm_iff.mp ?_⟩
    rw [← listing_hits]
    exact hperm.symm.trans hall
  · intro ⟨hchain, hsame⟩ limits
    obtain ⟨fuel, hfuel⟩ := Pagination.follow_all hsorted hchain fun k => pageLimit_pos (limits k)
    refine ⟨fuel, s.sorted lower tenant filter, ?_, ?_⟩
    · rw [followPages_eq h limits fuel 0 hstart]
      exact congrArg (Option.map _) hfuel
    · rw [listing_hits] at hperm
      exact hperm.trans (filter_perm_iff.mpr hsame)

/-! ## Letters -/

/-- `A` to `Z` move by 32 places, and no other character moves. -/
theorem toLower_cases (c : Char) : (c.toLower = c ∧ ¬(65 ≤ c.toNat ∧ c.toNat ≤ 90)) ∨
    (c.toLower.toNat = c.toNat + 32 ∧ 65 ≤ c.toNat ∧ c.toNat ≤ 90) := by
  have hrange : (c.val ≥ 'A'.val ∧ c.val ≤ 'Z'.val) ↔ 65 ≤ c.toNat ∧ c.toNat ≤ 90 := by
    simp [UInt32.le_iff_toNat_le]
  by_cases h : c.val ≥ 'A'.val ∧ c.val ≤ 'Z'.val
  · refine .inr ⟨?_, hrange.mp h⟩
    have hbound := hrange.mp h
    delta Char.toLower
    rw [dif_pos h]
    show (c.val + 32).toNat = c.val.toNat + 32
    have hval : c.val.toNat = c.toNat := rfl
    rw [UInt32.toNat_add]
    exact Nat.mod_eq_of_lt (by rw [hval]; show c.toNat + 32 < 2 ^ 32; omega)
  · refine .inl ⟨?_, fun hbound => h (hrange.mpr hbound)⟩
    delta Char.toLower
    rw [dif_neg h]

theorem toLower_idem (c : Char) : c.toLower.toLower = c.toLower := by
  obtain ⟨he, -⟩ | ⟨hshift, hlow, hhigh⟩ := toLower_cases c
  · rw [he]
    exact he
  · obtain ⟨he, -⟩ | ⟨-, -, hhigh'⟩ := toLower_cases c.toLower
    · exact he
    · omega

theorem toLower_ne_nul {c : Char} (h : c ≠ '\x00') : c.toLower ≠ '\x00' := by
  intro hnul
  obtain ⟨he, -⟩ | ⟨hshift, -⟩ := toLower_cases c
  · exact h (he ▸ hnul)
  · rw [hnul] at hshift
    exact absurd hshift (by show 0 ≠ c.toNat + 32; omega)

theorem toNat_of_matchesMore {c : Char} (h : matchesMore c = true) : c.toNat = 37 ∨ c.toNat = 95 ∨ c.toNat = 0 := by
  simp only [matchesMore, Bool.or_eq_true, beq_iff_eq] at h
  obtain (rfl | rfl) | rfl := h
  · exact .inl rfl
  · exact .inr (.inl rfl)
  · exact .inr (.inr rfl)

theorem LowersText.plain (hlower : LowersText lower) (c : Char) : (lower c).toLower = lower c := by
  by_cases hascii : (lower c).toNat < 128
  · rw [← hlower.ascii _ hascii]
    exact hlower.settled c
  · obtain ⟨he, -⟩ | ⟨-, -, hhigh⟩ := toLower_cases (lower c)
    · exact he
    · omega

theorem LowersText.of_toLower (hlower : LowersText lower) (c : Char) : lower c.toLower = lower c := by
  obtain ⟨he, -⟩ | ⟨hshift, -, hhigh⟩ := toLower_cases c
  · rw [he]
  · rw [hlower.ascii c (by omega), hlower.ascii c.toLower (by omega)]
    exact toLower_idem c

theorem LowersText.reads_ascii (hlower : LowersText lower) {text : String}
    (h : text.toList.all (fun c => decide (c.toNat < 128) && c != '\x00') = true) :
    text.toList.any (unreadBy lower) = false := by
  apply List.any_eq_false.mpr
  intro c hc
  have hc := List.all_eq_true.mp h c hc
  simp only [Bool.and_eq_true, decide_eq_true_eq, bne_iff_ne, ne_eq] at hc
  simp [unreadBy, hlower.ascii c hc.1, hc.2]

/-! ## Patterns without their wildcards -/

theorem toList_toLower (text : String) : (toLower lower text).toList = text.toList.map lower := by
  simp [toLower]

theorem toList_sqlLower (text : String) : (sqlLower text).toList = text.toList.map Char.toLower := by
  simp [sqlLower]

theorem toList_pattern (text : String) : ("%" ++ text ++ "%").toList = '%' :: (text.toList ++ ['%']) := by
  simp

theorem likeChars_plain {p : Char} (hpercent : p ≠ '%') (hany : p ≠ '_') (pattern : List Char) (c : Char)
    (text : List Char) : likeChars (p :: pattern) (c :: text) = (p.toLower == c.toLower && likeChars pattern text) := by
  rw [likeChars]
  · exact hpercent
  · exact hany

/-- A pattern met at a place where its own characters are. -/
theorem likeChars_of_prefix (q : List Char) : ∀ {text : List Char},
    q.map Char.toLower <+: text.map Char.toLower → likeChars (q ++ ['%']) text = true := by
  induction q with
  | nil =>
    intro text _
    show text.tails.any (likeChars []) = true
    exact List.any_eq_true.mpr ⟨[], (List.mem_tails _ _).mpr (List.nil_suffix), rfl⟩
  | cons c q ih =>
    intro text h
    cases text with
    | nil => exact absurd (List.prefix_nil.mp h) (by simp)
    | cons d text =>
      rw [List.map_cons, List.map_cons, List.cons_prefix_cons] at h
      have htail := ih h.2
      by_cases hpercent : c = '%'
      · subst hpercent
        show (d :: text).tails.any (likeChars (q ++ ['%'])) = true
        exact List.any_eq_true.mpr ⟨text, (List.mem_tails _ _).mpr (List.suffix_cons d text), htail⟩
      · by_cases hany : c = '_'
        · subst hany
          exact htail
        · rw [List.cons_append, likeChars_plain hpercent hany, htail, h.1]
          simp

/-- A pattern without wildcards is met only there. -/
theorem prefix_of_likeChars (q : List Char) (hplain : ∀ c ∈ q, c ≠ '%' ∧ c ≠ '_') : ∀ {text : List Char},
    likeChars (q ++ ['%']) text = true → q.map Char.toLower <+: text.map Char.toLower := by
  induction q with
  | nil =>
    intro text _
    exact List.nil_prefix
  | cons c q ih =>
    intro text h
    obtain ⟨hpercent, hany⟩ := hplain c (List.mem_cons_self ..)
    cases text with
    | nil =>
      have hnot : likeChars (c :: (q ++ ['%'])) [] = false := by
        rw [likeChars]
        · exact hpercent
        · exact hany
      rw [List.cons_append, hnot] at h
      cases h
    | cons d text =>
      rw [List.cons_append, likeChars_plain hpercent hany] at h
      obtain ⟨hc, htail⟩ := (Bool.and_eq_true _ _).mp h
      rw [List.map_cons, List.map_cons, List.cons_prefix_cons]
      exact ⟨by simpa using hc, ih (fun c hc => hplain c (List.mem_cons_of_mem _ hc)) htail⟩

theorem takeWhile_nulFree {l : List Char} (h : ∀ c ∈ l, c ≠ '\x00') : l.takeWhile (· ≠ '\x00') = l := by
  apply List.takeWhile_eq_self_iff.mpr
  intro c hc
  exact decide_eq_true (h c hc)

/-- A pattern without a NUL is looked for at every place of the text. -/
theorem like_eq {q : String} (hq : ∀ c ∈ q.toList, c ≠ '\x00') (t : String) : like ("%" ++ q ++ "%") t =
    (t.toList.takeWhile (· ≠ '\x00')).tails.any (likeChars (q.toList ++ ['%'])) := by
  unfold like
  have hnul : ∀ c ∈ '%' :: (q.toList ++ ['%']), c ≠ '\x00' := by
    intro c hc
    obtain rfl | hc := List.mem_cons.mp hc
    · decide
    · obtain hc | hc := List.mem_append.mp hc
      · exact hq c hc
      · obtain rfl := List.mem_singleton.mp hc
        decide
  rw [toList_pattern, takeWhile_nulFree hnul]
  rfl

theorem like_of_contains {q t : String} (hq : ∀ c ∈ q.toList, c ≠ '\x00') (ht : ∀ c ∈ t.toList, c ≠ '\x00')
    (h : Text.contains (sqlLower t) (sqlLower q) = true) : like ("%" ++ q ++ "%") t = true := by
  rw [Text.contains_iff, toList_sqlLower, toList_sqlLower] at h
  obtain ⟨before, after, h⟩ := h
  rw [List.append_assoc] at h
  obtain ⟨skipped, rest, htext, -, hrest⟩ := List.map_eq_append_iff.mp h.symm
  rw [like_eq hq, takeWhile_nulFree ht, List.any_eq_true]
  refine ⟨rest, (List.mem_tails _ _).mpr ⟨skipped, htext.symm⟩, ?_⟩
  apply likeChars_of_prefix
  rw [hrest]
  exact List.prefix_append _ _

theorem contains_of_like {q t : String} (hq : q.toList.any matchesMore = false)
    (h : like ("%" ++ q ++ "%") t = true) : Text.contains (sqlLower t) (sqlLower q) = true := by
  have hplain : ∀ c ∈ q.toList, (c ≠ '%' ∧ c ≠ '_') ∧ c ≠ '\x00' := by
    intro c hc
    have := List.any_eq_false.mp hq c hc
    simpa [matchesMore] using this
  rw [like_eq fun c hc => (hplain c hc).2, List.any_eq_true] at h
  obtain ⟨rest, hrest, hmet⟩ := h
  have hstart := prefix_of_likeChars q.toList (fun c hc => (hplain c hc).1) hmet
  have hread : rest <:+: t.toList :=
    ((List.mem_tails _ _).mp hrest).isInfix.trans (List.takeWhile_prefix _).isInfix
  rw [Text.contains_iff, toList_sqlLower, toList_sqlLower]
  exact hstart.isInfix.trans (hread.map _)

/-! ## The text of a query -/

theorem dropWhile_map_lower (hlower : LowersText lower) (l : List Char) :
    (l.map lower).dropWhile Text.isSpace = (l.dropWhile Text.isSpace).map lower := by
  rw [List.dropWhile_map]
  congr 2
  funext c
  exact hlower.space c

theorem queryText_eq (hlower : LowersText lower) :
    queryText lower filter = toLower lower (Text.trimSpace filter.query) := by
  apply String.toList_inj.mp
  rw [toList_toLower]
  show (String.ofList (Text.trimChars _ (toLower lower filter.query).toList)).toList =
    (String.ofList (Text.trimChars _ filter.query.toList)).toList.map lower
  rw [String.toList_ofList, String.toList_ofList, toList_toLower]
  unfold Text.trimChars
  rw [dropWhile_map_lower hlower, ← List.map_reverse, dropWhile_map_lower hlower, ← List.map_reverse]

theorem queryText_char (hlower : LowersText lower) {c : Char} (hc : c ∈ (queryText lower filter).toList) :
    lower c = c ∧ c.toLower = c := by
  rw [queryText_eq hlower, toList_toLower] at hc
  obtain ⟨c', -, rfl⟩ := List.mem_map.mp hc
  exact ⟨hlower.settled c', hlower.plain c'⟩

theorem queryText_plain (hlower : LowersText lower) (h : PlainQuery filter) :
    (queryText lower filter).toList.any matchesMore = false := by
  apply List.any_eq_false.mpr
  intro c hc hspecial
  rw [queryText_eq hlower, toList_toLower] at hc
  obtain ⟨c', hc', rfl⟩ := List.mem_map.mp hc
  rw [hlower.special c' hspecial] at hspecial
  have hmem : c' ∈ Text.trimChars Text.isSpace filter.query.toList := by
    simpa [Text.trimSpace, Text.trim] using hc'
  exact List.any_eq_false.mp h c' (Text.mem_of_mem_trimChars hmem) hspecial

theorem sqlLower_queryText (hlower : LowersText lower) :
    sqlLower (queryText lower filter) = queryText lower filter := by
  apply String.toList_inj.mp
  rw [toList_sqlLower]
  exact (List.map_congr_left fun c hc => (queryText_char hlower hc).2).trans (List.map_id _)

/-! ## The texts of a row -/

/-- After a synchronisation `name_sort` is the name, in lower case unless the row was there before. -/
theorem Synced.names (h : Synced lower s) :
    ∀ a ∈ s.applications, a.nameSort = toLower lower a.name ∨ a.nameSort = a.name := by
  induction h with
  | empty happs _ =>
    intro a ha
    rw [happs] at ha
    cases ha
  | @sync s s' tenant instances _ hsync ih =>
    have hall := foldlM_invariant hsync
      (P := fun s => ∀ a ∈ s.applications, a.nameSort = toLower lower a.name ∨ a.nameSort = a.name) ih ?_
    · exact hall
    · intro s s' x _ hs hstep a ha
      unfold Store.replaceInstance at hstep
      by_cases hten : x.tenantUid ≠ tenant
      · rw [if_pos hten] at hstep
        cases hstep
      · rw [if_neg hten] at hstep
        obtain rfl := Except.ok.inj hstep
        obtain ⟨old, -, -, rfl⟩ | ⟨hold, -⟩ | rfl := mem_upsert_cases ha
        · exact .inr rfl
        · exact hs a hold
        · exact .inl rfl
  | other _ happs _ ih =>
    intro a ha
    exact ih a (happs ▸ ha)

theorem joined_application {r : Joined} (h : r ∈ s.joined) : r.1 ∈ s.applications := by
  obtain ⟨i, -, hr⟩ := List.mem_flatMap.mp h
  obtain ⟨a, ha, rfl⟩ := List.mem_map.mp hr
  exact (List.mem_filter.mp ha).1

theorem toLower_toLower (hlower : LowersText lower) (text : String) :
    toLower lower (toLower lower text) = toLower lower text := by
  apply String.toList_inj.mp
  rw [toList_toLower, toList_toLower, List.map_map]
  exact List.map_congr_left fun c _ => hlower.settled c

theorem toLower_sqlLower (hlower : LowersText lower) (text : String) :
    toLower lower (sqlLower text) = toLower lower text := by
  apply String.toList_inj.mp
  rw [toList_toLower, toList_toLower, toList_sqlLower, List.map_map]
  exact List.map_congr_left fun c _ => hlower.of_toLower c

theorem toLower_eq_sqlLower {text : String} (h : text.toList.any (unreadBy lower) = false) :
    toLower lower text = sqlLower text := by
  apply String.toList_inj.mp
  rw [toList_toLower, toList_sqlLower]
  refine List.map_congr_left fun c hc => ?_
  have hc := List.any_eq_false.mp h c hc
  simp only [unreadBy, Bool.or_eq_true, bne_iff_ne, beq_iff_eq, not_or, ne_eq, not_not] at hc
  exact hc.1

theorem sought_iff (hlower : LowersText lower) : sought lower filter r = true ↔
    ∃ text ∈ texts r,
      Text.contains (toLower lower text) (queryText lower filter) = true := by
  unfold sought containsFold
  rw [← queryText_eq hlower, List.any_eq_true]

/-- What is compared is one of the texts, but for the case of its letters. -/
theorem compared_text (hlower : LowersText lower)
    (hname : r.1.nameSort = toLower lower r.1.name ∨ r.1.nameSort = r.1.name) {t : String} (ht : t ∈ compared r) :
    ∃ text ∈ texts r, toLower lower t = toLower lower text := by
  obtain rfl | rfl | rfl : t = r.1.nameSort ∨ t = sqlLower r.1.appId ∨ t = sqlLower r.2.deployId := by
    simpa [compared] using ht
  · refine ⟨r.1.name, by simp [texts], ?_⟩
    obtain hname | hname := hname
    · rw [hname]
      exact toLower_toLower hlower _
    · rw [hname]
  · exact ⟨r.1.appId, by simp [texts], toLower_sqlLower hlower _⟩
  · exact ⟨r.2.deployId, by simp [texts], toLower_sqlLower hlower _⟩

theorem text_compared (hname : r.1.nameSort = toLower lower r.1.name ∨ r.1.nameSort = r.1.name) {text : String}
    (htext : text ∈ texts r) (hread : text.toList.any (unreadBy lower) = false) :
    ∃ t ∈ compared r, t = text ∨ t = sqlLower text := by
  obtain rfl | rfl | rfl : text = r.1.name ∨ text = r.1.appId ∨ text = r.2.deployId := by
    simpa [texts] using htext
  · refine ⟨r.1.nameSort, by simp [compared], ?_⟩
    rw [← toLower_eq_sqlLower hread]
    exact hname.symm
  · exact ⟨sqlLower r.1.appId, by simp [compared], .inr rfl⟩
  · exact ⟨sqlLower r.2.deployId, by simp [compared], .inr rfl⟩

/-! ## What is found -/

theorem hits_iff : hits lower filter r = true ↔ queryText lower filter = "" ∨
    ∃ t ∈ compared r, like ("%" ++ queryText lower filter ++ "%") t = true := by
  simp only [hits, Bool.or_eq_true, beq_iff_eq, List.any_eq_true]

theorem literally_iff : literally lower filter r = true ↔ queryText lower filter = "" ∨
    ∃ t ∈ compared r, like ("%" ++ queryText lower filter ++ "%") t = true ∧
      Text.contains (sqlLower t) (queryText lower filter) = true := by
  simp only [literally, Bool.or_eq_true, beq_iff_eq, List.any_eq_true, Bool.and_eq_true]

theorem literally_hits (h : literally lower filter r = true) : hits lower filter r = true := by
  apply hits_iff.mpr
  obtain hempty | ⟨t, ht, hlike, -⟩ := literally_iff.mp h
  · exact .inl hempty
  · exact .inr ⟨t, ht, hlike⟩

theorem literally_sought (hlower : LowersText lower)
    (hname : r.1.nameSort = toLower lower r.1.name ∨ r.1.nameSort = r.1.name)
    (h : literally lower filter r = true) : sought lower filter r = true := by
  rw [sought_iff hlower]
  obtain hempty | ⟨t, ht, -, hin⟩ := literally_iff.mp h
  · refine ⟨r.1.name, by simp [texts], ?_⟩
    rw [hempty, Text.contains_iff]
    exact List.nil_infix
  · obtain ⟨text, htext, hsame⟩ := compared_text hlower hname ht
    refine ⟨text, htext, ?_⟩
    have hquery : (queryText lower filter).toList.map lower = (queryText lower filter).toList :=
      (List.map_congr_left fun c hc => (queryText_char hlower hc).1).trans (List.map_id _)
    rw [← hsame, ← toLower_sqlLower hlower, Text.contains_iff, toList_toLower, ← hquery]
    exact (Text.contains_iff.mp hin).map lower

theorem hits_literally (hlower : LowersText lower)
    (hquery : (queryText lower filter).toList.any matchesMore = false)
    (h : hits lower filter r = true) : literally lower filter r = true := by
  apply literally_iff.mpr
  obtain hempty | ⟨t, ht, hlike⟩ := hits_iff.mp h
  · exact .inl hempty
  · refine .inr ⟨t, ht, hlike, ?_⟩
    have hin := contains_of_like hquery hlike
    rw [sqlLower_queryText hlower] at hin
    exact hin

/-- Only letters SQLite does not know, or a NUL, hide a query from the pattern. -/
theorem sought_literally (hlower : LowersText lower)
    (hname : r.1.nameSort = toLower lower r.1.name ∨ r.1.nameSort = r.1.name)
    (hquery : (queryText lower filter).toList.any matchesMore = false) (hread : PlainTexts lower r)
    (h : sought lower filter r = true) : literally lower filter r = true := by
  have hqueryNul : ∀ c ∈ (queryText lower filter).toList, c ≠ '\x00' := by
    rintro c hc rfl
    exact List.any_eq_false.mp hquery _ hc rfl
  obtain ⟨text, htext, hin⟩ := (sought_iff hlower).mp h
  have htextread := hread text htext
  have htextNul : ∀ c ∈ text.toList, c ≠ '\x00' := by
    intro c hc
    have := List.any_eq_false.mp htextread c hc
    simp only [unreadBy, Bool.or_eq_true, beq_iff_eq, not_or] at this
    exact this.2
  obtain ⟨t, ht, hsame⟩ := text_compared hname htext htextread
  have hlowered : sqlLower t = sqlLower text := by
    obtain rfl | rfl := hsame
    · rfl
    · apply String.toList_inj.mp
      rw [toList_sqlLower, toList_sqlLower, List.map_map]
      exact List.map_congr_left fun c _ => toLower_idem c
  have htnul : ∀ c ∈ t.toList, c ≠ '\x00' := by
    obtain rfl | rfl := hsame
    · exact htextNul
    · intro c hc
      rw [toList_sqlLower] at hc
      obtain ⟨c', hc', rfl⟩ := List.mem_map.mp hc
      exact toLower_ne_nul (htextNul c' hc')
  rw [toLower_eq_sqlLower htextread, ← hlowered] at hin
  refine literally_iff.mpr (.inr ⟨t, ht, ?_, hin⟩)
  apply like_of_contains hqueryNul htnul
  rw [sqlLower_queryText hlower]
  exact hin

theorem hits_eq_sought (hlower : LowersText lower)
    (hname : r.1.nameSort = toLower lower r.1.name ∨ r.1.nameSort = r.1.name)
    (hquery : PlainQuery filter) (hread : PlainTexts lower r) : hits lower filter r = sought lower filter r := by
  have hplain := queryText_plain hlower hquery
  apply Bool.eq_iff_iff.mpr
  refine ⟨?_, ?_⟩
  · intro h
    exact literally_sought hlower hname (hits_literally hlower hplain h)
  · intro h
    exact literally_hits (sought_literally hlower hname hplain hread h)

theorem mem_joined_of_candidates (h : r ∈ s.candidates lower tenant filter) : r ∈ s.joined :=
  (List.mem_filter.mp h).1

theorem findsExactly_iff_chain (hlower : LowersText lower) (h : Synced lower s) (hquery : PlainQuery filter)
    (hread : ∀ r ∈ s.candidates lower tenant filter, PlainTexts lower r) :
    FindsExactly lower hash s tenant filter ↔ (s.sorted lower tenant filter).IsChain (CursorBetween lower) := by
  rw [findsExactly_iff_hits h.keyed]
  refine and_iff_left fun r hr => ?_
  exact hits_eq_sought hlower (h.names r.1 (joined_application (mem_joined_of_candidates hr))) hquery (hread r hr)

/-! ## Neither condition can be dropped

A catalog of one application shows it, whose name is made for the search. -/

/-- The row of the one application, with its `name_sort`. -/
def onlyRow (tenant name nameSort : String) : Joined :=
  (⟨tenant, "cloud.a", name, "1.0", nameSort⟩, ⟨tenant, "cloud.a", "deploy-a", false, .backupable, true⟩)

def onlyNamed (tenant name nameSort : String) : Store :=
  { Store.empty with
    applications := [(onlyRow tenant name nameSort).1]
    instances := [(onlyRow tenant name nameSort).2] }

def searchFor (query : String) : ApplicationFilter := ⟨query, "", "", "", "", 0⟩

/-- After its second synchronisation the application is in `name_sort` as it is named. -/
theorem onlyNamed_synced (lower : Char → Char) (tenant name : String) :
    Synced lower (onlyNamed tenant name name) := by
  let instances : List ApplicationInstance := [⟨tenant, "cloud.a", name, "1.0", "deploy-a", false, .backupable⟩]
  have hfirst : Store.empty.replaceInstances lower tenant instances =
      .ok (onlyNamed tenant name (toLower lower name)) := by
    simp [instances, Store.replaceInstances, Store.replaceInstance, upsert, updateWhere, Store.empty, onlyNamed,
      onlyRow]
  have hsecond : (onlyNamed tenant name (toLower lower name)).replaceInstances lower tenant instances =
      .ok (onlyNamed tenant name name) := by
    simp [instances, Store.replaceInstances, Store.replaceInstance, upsert, updateWhere, applicationIn, deployedAs,
      Store.empty, onlyNamed, onlyRow]
  exact .sync (.sync (.empty rfl rfl) hfirst) hsecond

theorem onlyNamed_candidates (lower : Char → Char) (tenant name nameSort query : String) :
    (onlyNamed tenant name nameSort).candidates lower tenant (searchFor query) = [onlyRow tenant name nameSort] := by
  simp [Store.candidates, Store.listing, Store.joined, listed, queryText, toLower, searchFor, onlyNamed, onlyRow,
    applicationIn, Store.empty, Text.trimSpace, Text.trim, Text.trimChars]

theorem onlyNamed_chain (lower : Char → Char) (tenant name nameSort query : String) :
    ((onlyNamed tenant name nameSort).sorted lower tenant (searchFor query)).IsChain (CursorBetween lower) := by
  have hperm : ((onlyNamed tenant name nameSort).sorted lower tenant (searchFor query)).Perm
      ((onlyNamed tenant name nameSort).listing lower tenant (searchFor query)) := Pagination.orderBy_perm _ _
  have hlength := hperm.length_eq
  rw [listing_hits, onlyNamed_candidates] at hlength
  have hone : ([onlyRow tenant name nameSort].filter (hits lower (searchFor query))).length ≤ 1 :=
    List.length_filter_le _ _
  generalize (onlyNamed tenant name nameSort).sorted lower tenant (searchFor query) = rows at hlength
  cases rows with
  | nil => exact .nil
  | cons r rest =>
    cases rest with
    | nil => exact .singleton r
    | cons r' rest =>
      rw [← hlength] at hone
      exact absurd hone (by simp)

theorem onlyNamed_not_exact {name query : String}
    (h : hits lower (searchFor query) (onlyRow tenant name name) ≠ sought lower (searchFor query)
      (onlyRow tenant name name)) :
    ¬FindsExactly lower hash (onlyNamed tenant name name) tenant (searchFor query) := by
  intro hexact
  have hsame := ((findsExactly_iff_hits (onlyNamed_synced lower tenant name).keyed).mp hexact).2
  rw [onlyNamed_candidates] at hsame
  exact h (hsame _ (List.mem_singleton_self _))

/-! ### Queries with special characters -/

/-- A character that is met by the character of the pattern, and is not special itself. -/
def metBy (c : Char) : Char := if c = '%' ∨ c = '_' then 'x' else c

/-- The name a query finds without being in it. -/
def metName (q : String) : String := String.ofList ((q.toList.takeWhile (· ≠ '\x00')).map metBy)

theorem likeChars_metBy {rest : List Char} (hrest : likeChars rest [] = true) (q : List Char) :
    likeChars (q ++ rest) (q.map metBy) = true := by
  induction q with
  | nil => exact hrest
  | cons c q ih =>
    rw [List.cons_append, List.map_cons]
    by_cases hpercent : c = '%'
    · subst hpercent
      show (metBy '%' :: q.map metBy).tails.any (likeChars (q ++ rest)) = true
      exact List.any_eq_true.mpr ⟨_, (List.mem_tails _ _).mpr (List.suffix_cons _ _), ih⟩
    · by_cases hany : c = '_'
      · subst hany
        exact ih
      · rw [likeChars_plain hpercent hany, ih]
        simp [metBy, hpercent, hany]

/-- What is left of the pattern behind the query: the second `%`, unless a NUL cut it off. -/
theorem pattern_takeWhile (q : List Char) : ∃ rest, likeChars rest [] = true ∧
    ('%' :: (q ++ ['%'])).takeWhile (· ≠ '\x00') = '%' :: (q.takeWhile (· ≠ '\x00') ++ rest) := by
  rw [List.takeWhile_cons_of_pos (by decide), List.takeWhile_append]
  by_cases h : (q.takeWhile (· ≠ '\x00')).length = q.length
  · refine ⟨['%'], rfl, ?_⟩
    rw [if_pos h, (List.takeWhile_prefix _).eq_of_length h]
    rfl
  · refine ⟨[], rfl, ?_⟩
    rw [if_neg h, List.append_nil]

theorem like_metName (q : String) : like ("%" ++ q ++ "%") (metName q) = true := by
  obtain ⟨rest, hrest, hpattern⟩ := pattern_takeWhile q.toList
  have hname : ∀ c ∈ (metName q).toList, c ≠ '\x00' := by
    intro c hc
    rw [metName, String.toList_ofList] at hc
    obtain ⟨c', hc', rfl⟩ := List.mem_map.mp hc
    have hread := List.mem_takeWhile_imp hc'
    unfold metBy
    split
    · decide
    · simpa using hread
  unfold like
  rw [toList_pattern, hpattern, takeWhile_nulFree hname, metName, String.toList_ofList]
  show List.any (List.tails _) (likeChars _) = true
  exact List.any_eq_true.mpr ⟨_, (List.mem_tails _ _).mpr List.suffix_rfl, likeChars_metBy hrest _⟩

/-- A character of the name is one of the query, or the letter that stands for a wildcard. -/
theorem mem_metName {q : String} {c : Char} (h : c ∈ (metName q).toList) :
    (c ∈ q.toList ∧ matchesMore c = false) ∨ c = 'x' := by
  rw [metName, String.toList_ofList] at h
  obtain ⟨c', hc', rfl⟩ := List.mem_map.mp h
  have hread : c' ≠ '\x00' := by simpa using List.mem_takeWhile_imp hc'
  unfold metBy
  split
  next => exact .inr rfl
  next hplain =>
    refine .inl ⟨(List.takeWhile_prefix _).subset hc', ?_⟩
    rw [not_or] at hplain
    simp [matchesMore, hplain.1, hplain.2, hread]

theorem onlyRow_texts (hlower : LowersText lower) {name nameSort : String} {c : Char}
    (hname : ∀ c' ∈ name.toList, unreadBy lower c' = true → c' = c) :
    ∀ text ∈ texts (onlyRow tenant name nameSort), ∀ c' ∈ text.toList, unreadBy lower c' = true → c' = c := by
  intro text htext c' hc' hunread
  obtain rfl | rfl | rfl : text = name ∨ text = "cloud.a" ∨ text = "deploy-a" := by
    simpa [texts, onlyRow] using htext
  · exact hname c' hc' hunread
  · exact absurd hunread (List.any_eq_false.mp (hlower.reads_ascii (by decide +kernel)) c' hc')
  · exact absurd hunread (List.any_eq_false.mp (hlower.reads_ascii (by decide +kernel)) c' hc')

/-- `LIKE` reads the whole made name. -/
theorem metName_plain (hlower : LowersText lower) (query nameSort : String) :
    PlainTexts lower (onlyRow tenant (metName (queryText lower (searchFor query))) nameSort) := by
  intro text htext
  obtain rfl | rfl | rfl : text = metName (queryText lower (searchFor query)) ∨ text = "cloud.a" ∨
      text = "deploy-a" := by
    simpa [texts, onlyRow] using htext
  · apply List.any_eq_false.mpr
    intro c hc hunread
    obtain ⟨hquery, hplain⟩ | rfl := mem_metName hc
    · obtain ⟨hsettled, hascii⟩ := queryText_char hlower hquery
      have hnul : c ≠ '\x00' := by
        rintro rfl
        exact absurd hplain (by decide)
      simp [unreadBy, hsettled, hascii, hnul] at hunread
    · simp [unreadBy, hlower.ascii 'x' (by decide)] at hunread
  · exact hlower.reads_ascii (by decide +kernel)
  · exact hlower.reads_ascii (by decide +kernel)

/-- No text of the row has a special character, so none holds a query that has one. -/
theorem metName_not_sought (hlower : LowersText lower) {query nameSort : String} {c : Char}
    (hc : c ∈ (queryText lower (searchFor query)).toList) (hspecial : matchesMore c = true) :
    sought lower (searchFor query) (onlyRow tenant (metName (queryText lower (searchFor query))) nameSort) = false := by
  apply eq_false_of_ne_true
  intro hsought
  obtain ⟨text, htext, hin⟩ := (sought_iff hlower).mp hsought
  have hmem : c ∈ (toLower lower text).toList := (Text.contains_iff.mp hin).subset hc
  rw [toList_toLower] at hmem
  obtain ⟨c', hc', rfl⟩ := List.mem_map.mp hmem
  rw [hlower.special c' hspecial] at hspecial
  obtain rfl | rfl | rfl : text = metName (queryText lower (searchFor query)) ∨ text = "cloud.a" ∨
      text = "deploy-a" := by
    simpa [texts, onlyRow] using htext
  · obtain ⟨-, hplain⟩ | rfl := mem_metName hc'
    · rw [hplain] at hspecial
      cases hspecial
    · exact absurd hspecial (by decide)
  · exact absurd hspecial (List.any_eq_false.mp (by decide +kernel) c' hc')
  · exact absurd hspecial (List.any_eq_false.mp (by decide +kernel) c' hc')

/-- A special character of the query is in the pattern. -/
theorem special_in_queryText (hlower : LowersText lower) (h : ¬PlainQuery filter) :
    ∃ c ∈ (queryText lower filter).toList, matchesMore c = true := by
  obtain ⟨c, hc, hspecial⟩ := List.any_eq_true.mp (eq_true_of_ne_false h)
  refine ⟨c, ?_, hspecial⟩
  have hnumber := toNat_of_matchesMore hspecial
  have hself : lower c = c := by
    rw [hlower.ascii c (by omega)]
    obtain ⟨he, -⟩ | ⟨-, hlow, hhigh⟩ := toLower_cases c
    · exact he
    · omega
  have hspace : Text.isSpace c = false := by
    obtain hn | hn | hn := hnumber
    · simp [Text.isSpace, hn]
    · simp [Text.isSpace, hn]
    · simp [Text.isSpace, hn]
  rw [queryText_eq hlower, toList_toLower]
  refine List.mem_map.mpr ⟨c, ?_, hself⟩
  show c ∈ (String.ofList (Text.trimChars Text.isSpace filter.query.toList)).toList
  rw [String.toList_ofList]
  exact Text.mem_trimChars hspace hc

theorem special_query_fails (hlower : LowersText lower) {query : String} (h : ¬PlainQuery (searchFor query)) :
    ¬FindsExactly lower hash
      (onlyNamed tenant (metName (queryText lower (searchFor query))) (metName (queryText lower (searchFor query))))
      tenant (searchFor query) := by
  obtain ⟨c, hc, hspecial⟩ := special_in_queryText hlower h
  apply onlyNamed_not_exact
  have hhits : ∀ name, name = metName (queryText lower (searchFor query)) →
      hits lower (searchFor query) (onlyRow tenant name name) = true := by
    rintro name rfl
    apply hits_iff.mpr
    refine .inr ⟨_, ?_, like_metName _⟩
    simp [compared, onlyRow]
  rw [hhits _ rfl, metName_not_sought hlower hc hspecial]
  decide

/-! ### Letters `LIKE` does not know -/

/-- A name with the character in it. -/
def unreadName (c : Char) : String := String.ofList ['a', c, 'b']

/-- A query the name holds and the pattern does not find: the name in lower case, or what
stands behind a NUL. -/
def unreadQuery (lower : Char → Char) (c : Char) : String :=
  String.ofList (if c = '\x00' then ['b'] else ['a', lower c, 'b'])

theorem toList_unreadName (c : Char) : (unreadName c).toList = ['a', c, 'b'] := String.toList_ofList

theorem toList_unreadQuery (lower : Char → Char) (c : Char) :
    (unreadQuery lower c).toList = if c = '\x00' then ['b'] else ['a', lower c, 'b'] := String.toList_ofList

theorem unreadName_texts (hlower : LowersText lower) (c : Char) (nameSort : String) :
    ∀ text ∈ texts (onlyRow tenant (unreadName c) nameSort), ∀ c' ∈ text.toList, unreadBy lower c' = true →
    c' = c := by
  apply onlyRow_texts hlower
  intro c' hc' hunread
  rw [toList_unreadName] at hc'
  obtain rfl | rfl | rfl : c' = 'a' ∨ c' = c ∨ c' = 'b' := by simpa using hc'
  · simp [unreadBy, hlower.ascii 'a' (by decide)] at hunread
  · rfl
  · simp [unreadBy, hlower.ascii 'b' (by decide)] at hunread

/-- The lower case of a letter beyond ASCII is no special character. -/
theorem unreadQuery_plain (hlower : LowersText lower) {c : Char} (h : unreadBy lower c = true) :
    PlainQuery (searchFor (unreadQuery lower c)) := by
  show (unreadQuery lower c).toList.any matchesMore = false
  rw [toList_unreadQuery]
  split
  next => decide
  next hnul =>
    have hspecial : matchesMore (lower c) = false := by
      apply eq_false_of_ne_true
      intro hspecial
      have hself := hlower.special c hspecial
      rw [hself] at hspecial
      have hnumber := toNat_of_matchesMore hspecial
      have hascii := hlower.ascii c (by omega)
      simp [unreadBy, hascii, hnul] at h
    simp only [List.any_cons, List.any_nil, hspecial]
    decide

theorem queryText_unread (hlower : LowersText lower) (c : Char) :
    queryText lower (searchFor (unreadQuery lower c)) = unreadQuery lower c := by
  have ha : lower 'a' = 'a' := hlower.ascii 'a' (by decide)
  have hb : lower 'b' = 'b' := hlower.ascii 'b' (by decide)
  have hlowered : (toLower lower (unreadQuery lower c)).toList = (unreadQuery lower c).toList := by
    rw [toList_toLower, toList_unreadQuery]
    split
    · simp [hb]
    · simp [ha, hb, hlower.settled]
  apply String.toList_inj.mp
  show (String.ofList (Text.trimChars Text.isSpace (toLower lower (unreadQuery lower c)).toList)).toList = _
  rw [String.toList_ofList, hlowered]
  -- the first and the last character are letters
  have hspaces : Text.isSpace 'a' = false ∧ Text.isSpace 'b' = false := by decide
  apply Text.trimChars_eq_self
  · rw [toList_unreadQuery]
    split
    · simp [hspaces]
    · simp [hspaces]
  · rw [toList_unreadQuery]
    split
    · simp [hspaces]
    · simp [hspaces]

theorem unreadName_sought (hlower : LowersText lower) (c : Char) (nameSort : String) :
    sought lower (searchFor (unreadQuery lower c)) (onlyRow tenant (unreadName c) nameSort) = true := by
  have ha : lower 'a' = 'a' := hlower.ascii 'a' (by decide)
  have hb : lower 'b' = 'b' := hlower.ascii 'b' (by decide)
  refine (sought_iff hlower).mpr ⟨unreadName c, List.mem_cons_self .., ?_⟩
  rw [queryText_unread hlower, Text.contains_iff, toList_toLower, toList_unreadName, toList_unreadQuery]
  split
  · exact ⟨[lower 'a', lower c], [], by simp [hb]⟩
  · exact ⟨[], [], by simp [ha, hb]⟩

/-- Only the ids are left to be found, and `b` is in neither. -/
theorem unreadName_like (hlower : LowersText lower) {c : Char} (h : unreadBy lower c = true) :
    like ("%" ++ unreadQuery lower c ++ "%") (unreadName c) = false := by
  have hplain := queryText_plain hlower (unreadQuery_plain hlower h)
  have hsettled : sqlLower (queryText lower (searchFor (unreadQuery lower c))) =
      queryText lower (searchFor (unreadQuery lower c)) := sqlLower_queryText hlower
  rw [queryText_unread hlower] at hplain hsettled
  by_cases hnul : c = '\x00'
  · subst hnul
    -- `LIKE` reads the name up to the NUL, and `b` is behind it
    unfold like
    rw [toList_pattern, toList_unreadName, toList_unreadQuery, if_pos rfl]
    decide
  · apply eq_false_of_ne_true
    intro hlike
    have hin := contains_of_like hplain hlike
    rw [hsettled, Text.contains_iff, toList_sqlLower, toList_unreadName, toList_unreadQuery, if_neg hnul] at hin
    have hsame := hin.eq_of_length rfl
    have hletter : lower c = c.toLower := by
      simp at hsame
      exact hsame
    simp [unreadBy, hletter, hnul] at h

theorem unreadName_not_hit (hlower : LowersText lower) {c : Char} (h : unreadBy lower c = true) :
    hits lower (searchFor (unreadQuery lower c)) (onlyRow tenant (unreadName c) (unreadName c)) = false := by
  have hplain := queryText_plain hlower (unreadQuery_plain hlower h)
  have hsettled : sqlLower (queryText lower (searchFor (unreadQuery lower c))) =
      queryText lower (searchFor (unreadQuery lower c)) := sqlLower_queryText hlower
  rw [queryText_unread hlower] at hplain hsettled
  have hb : 'b' ∈ (unreadQuery lower c).toList := by
    rw [toList_unreadQuery]
    split
    · simp
    · simp
  have hid : ∀ id : String, 'b' ∉ (sqlLower id).toList →
      like ("%" ++ unreadQuery lower c ++ "%") id ≠ true := by
    intro id hnot hlike
    have hin := Text.contains_iff.mp (contains_of_like hplain hlike)
    rw [hsettled] at hin
    exact hnot (hin.subset hb)
  apply eq_false_of_ne_true
  intro hhits
  obtain hempty | ⟨t, ht, hlike⟩ := hits_iff.mp hhits
  · rw [queryText_unread hlower] at hempty
    rw [hempty] at hb
    exact absurd hb (by decide)
  · rw [queryText_unread hlower] at hlike
    obtain rfl | rfl | rfl : t = unreadName c ∨ t = sqlLower "cloud.a" ∨ t = sqlLower "deploy-a" := by
      simpa [compared, onlyRow] using ht
    · rw [unreadName_like hlower h] at hlike
      cases hlike
    · exact hid _ (by decide +kernel) hlike
    · exact hid _ (by decide +kernel) hlike

theorem unread_letter_fails (hlower : LowersText lower) {c : Char} (h : unreadBy lower c = true) :
    ¬FindsExactly lower hash (onlyNamed tenant (unreadName c) (unreadName c)) tenant
      (searchFor (unreadQuery lower c)) := by
  apply onlyNamed_not_exact
  rw [unreadName_not_hit hlower h, unreadName_sought hlower]
  decide

end

/-- A lower case that knows one letter more than SQLite's. -/
def lowerUmlaut (c : Char) : Char := if c = 'Ä' then 'ä' else c.toLower

theorem lowersText_umlaut : LowersText lowerUmlaut where
  ascii c hc := by
    unfold lowerUmlaut
    rw [if_neg]
    rintro rfl
    exact absurd hc (by decide)
  settled c := by
    unfold lowerUmlaut
    by_cases h : c = 'Ä'
    · rw [if_pos h]
      decide
    · rw [if_neg h]
      split
      next he =>
        -- No letter becomes `Ä`, a capital.
        obtain ⟨hself, -⟩ | ⟨hshift, hlow, hhigh⟩ := toLower_cases c
        · exact absurd (hself ▸ he) h
        · rw [he] at hshift
          exact absurd hshift (by show (196 : Nat) ≠ c.toNat + 32; omega)
      next => exact toLower_idem c
  space c := by
    unfold lowerUmlaut
    split
    next h =>
      subst h
      decide
    next =>
      obtain ⟨he, -⟩ | ⟨hshift, hlow, hhigh⟩ := toLower_cases c
      · rw [he]
      · unfold Text.isSpace
        rw [hshift]
        grind
  special c h := by
    unfold lowerUmlaut at h ⊢
    split
    next hc =>
      rw [if_pos hc] at h
      exact absurd h (by decide)
    next hc =>
      rw [if_neg hc] at h
      obtain ⟨he, -⟩ | ⟨hshift, hlow, hhigh⟩ := toLower_cases c
      · exact he
      · have := toNat_of_matchesMore h
        omega

end AppBackup.Persistence
