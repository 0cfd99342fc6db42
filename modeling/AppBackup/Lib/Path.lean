import AppBackup.Lib.Fields
import AppBackup.Lib.Text

/- Slash-separated paths. `clean` is the lexical normalisation of `path.Clean`: empty and
   `.` elements go, `..` takes the element before it. A path that is its own normal form and
   does not lead upwards is a sequence of proper names, and every such sequence is in normal
   form.

   Only `/` and `.` are told apart from other characters here, so a path may be read in
   either of two ways. A path of a file system is the text of its bytes, one character a
   byte, since a Linux name is any sequence of bytes but NUL and `/`; this is how the probe's
   pages and the archive entries read theirs. A path that comes out of JSON, as in the scope
   of a plan, is Unicode, and its length is that of its UTF-8 form (`String.utf8ByteSize`). -/
namespace Path
open Text

/-- The elements between the slashes, empty ones included. -/
def split (p : String) : List String := (p.toList.splitOn '/').map String.ofList

def join (names : List String) : String := String.ofList (['/'].intercalate (names.map String.toList))

/-- A name an object of a directory can have. -/
def Proper (name : String) : Prop := name ≠ "" ∧ name ≠ "." ∧ name ≠ ".." ∧ '/' ∉ name.toList

instance (name : String) : Decidable (Proper name) := inferInstanceAs (Decidable (_ ∧ _ ∧ _ ∧ _))

/-- `p` lies below the directory `root`. -/
def below (root p : String) : Bool := hasPrefix p (root ++ "/")

/-- One element on the stack of the elements kept so far, the last one first. -/
def pushName (rooted : Bool) (stack : List String) (name : String) : List String :=
  if name = "" ∨ name = "." then stack
  else if name = ".." then
    match stack with
    | [] => if rooted then [] else [".."]
    | top :: rest => if top = ".." then ".." :: stack else rest
  else name :: stack

/-- `path.Clean`. -/
def clean (p : String) : String :=
  let rooted := hasPrefix p "/"
  let names := ((split p).foldl (pushName rooted) []).reverse
  if rooted then "/" ++ join names
  else if names = [] then "."
  else join names

/-! ## Splitting and joining -/

theorem toList_join (names : List String) :
    (join names).toList = ['/'].intercalate (names.map String.toList) := by
  simp [join]

theorem join_split (p : String) : join (split p) = p := by
  have hmap : ((p.toList.splitOn '/').map String.ofList).map String.toList = p.toList.splitOn '/' := by
    rw [List.map_map]
    simp [Function.comp_def]
  unfold join split
  rw [hmap, List.intercalate_splitOn, String.ofList_toList]

theorem split_join {names : List String} (hne : names ≠ []) (hslash : ∀ n ∈ names, '/' ∉ n.toList) :
    split (join names) = names := by
  have hsplit : (['/'].intercalate (names.map String.toList)).splitOn '/' = names.map String.toList := by
    apply List.splitOn_intercalate
    · intro l hl
      obtain ⟨n, hn, rfl⟩ := List.mem_map.mp hl
      exact hslash n hn
    · simpa using hne
  unfold split
  rw [toList_join, hsplit, List.map_map]
  simp [Function.comp_def]

theorem split_ne_nil (p : String) : split p ≠ [] := by
  unfold split
  simp

theorem slash_notMem_split {p name : String} (h : name ∈ split p) : '/' ∉ name.toList := by
  unfold split at h
  obtain ⟨l, hl, rfl⟩ := List.mem_map.mp h
  rw [String.toList_ofList]
  have hlen : ((['/'].intercalate (p.toList.splitOn '/')).splitOn '/').length =
      (p.toList.splitOn '/').length := by
    rw [List.intercalate_splitOn]
  exact Fields.notMem_of_length_splitOn (List.splitOn_ne_nil '/' p.toList) hlen l hl

theorem join_inj {a b : List String} (ha : a ≠ []) (hb : b ≠ []) (hsa : ∀ n ∈ a, '/' ∉ n.toList)
    (hsb : ∀ n ∈ b, '/' ∉ n.toList) (h : join a = join b) : a = b := by
  rw [← split_join ha hsa, ← split_join hb hsb, h]

theorem join_singleton (name : String) : join [name] = name := by
  simp [join]

theorem join_cons_cons (name next : String) (rest : List String) :
    join (name :: next :: rest) = name ++ "/" ++ join (next :: rest) := by
  apply String.toList_injective
  simp [toList_join, List.intercalate_cons_cons]

theorem join_ne_empty {names : List String} (hne : names ≠ [])
    (h : ∀ n ∈ names, n ≠ "") : join names ≠ "" := by
  obtain ⟨name, rest, rfl⟩ := List.exists_cons_of_ne_nil hne
  cases rest with
  | nil =>
    rw [join_singleton]
    exact h name (List.mem_singleton_self name)
  | cons next rest =>
    rw [join_cons_cons]
    intro hempty
    have hlist := congrArg String.toList hempty
    simp at hlist

/-! ## Below a directory -/

theorem below_iff {root p : String} :
    below root p = true ↔ ∃ rest : List Char, p.toList = root.toList ++ '/' :: rest := by
  unfold below
  rw [hasPrefix_iff]
  constructor
  · intro ⟨rest, h⟩
    exact ⟨rest, by simpa using h.symm⟩
  · intro ⟨rest, h⟩
    exact ⟨rest, by simpa using h.symm⟩

theorem below_length {root p : String} (h : below root p = true) : root.toList.length < p.toList.length := by
  obtain ⟨rest, h⟩ := below_iff.mp h
  rw [h, List.length_append, List.length_cons]
  omega

theorem below_size {root p : String} (h : below root p = true) : root.utf8ByteSize < p.utf8ByteSize := by
  obtain ⟨rest, hrest⟩ := below_iff.mp h
  have hp : p = root ++ "/" ++ String.ofList rest := by
    apply String.toList_injective
    simp [hrest]
  rw [hp, String.utf8ByteSize_append, String.utf8ByteSize_append]
  have hslash : "/".utf8ByteSize = 1 := by decide
  omega

theorem below_trans {a b c : String} (hab : below a b = true) (hbc : below b c = true) :
    below a c = true := by
  obtain ⟨rest, hb⟩ := below_iff.mp hab
  obtain ⟨rest', hc⟩ := below_iff.mp hbc
  apply below_iff.mpr
  exact ⟨rest ++ '/' :: rest', by rw [hc, hb, List.append_assoc, List.cons_append]⟩

/-- `p` is the directory `root` or lies below it. -/
def Covers (root p : String) : Prop := p = root ∨ below root p = true

theorem Covers.trans {a b c : String} (hab : Covers a b) (hbc : Covers b c) : Covers a c := by
  obtain rfl | hbc := hbc
  · exact hab
  obtain rfl | hab := hab
  · exact .inr hbc
  · exact .inr (below_trans hab hbc)

theorem Covers.below {a b c : String} (hab : Covers a b) (hbc : below b c = true) :
    Path.below a c = true := by
  obtain rfl | hab := hab
  · exact hbc
  · exact below_trans hab hbc

theorem Covers.below_of_ne {root p : String} (h : Covers root p) (hne : p ≠ root) :
    Path.below root p = true := h.resolve_left hne

/-- Among some paths each is below one, or is one, that none of them is above. -/
theorem exists_root {paths : List String} {p : String} (hp : p ∈ paths) :
    ∃ root ∈ paths, (∀ q ∈ paths, below q root = false) ∧ (root = p ∨ below root p = true) := by
  generalize hn : p.toList.length = n
  induction n using Nat.strongRecOn generalizing p with
  | ind n ih =>
    by_cases h : ∃ q ∈ paths, below q p = true
    · obtain ⟨q, hq, hqp⟩ := h
      obtain ⟨root, hroot, hnone, hrq⟩ := ih q.toList.length (hn ▸ below_length hqp) hq rfl
      refine ⟨root, hroot, hnone, .inr ?_⟩
      obtain rfl | hrq := hrq
      · exact hqp
      · exact below_trans hrq hqp
    · refine ⟨p, hp, ?_, .inl rfl⟩
      intro q hq
      by_contra hb
      exact h ⟨q, hq, by simpa using hb⟩

theorem join_append {names more : List String} (hne : names ≠ []) (hmore : more ≠ []) :
    join (names ++ more) = join names ++ "/" ++ join more := by
  induction names with
  | nil => exact absurd rfl hne
  | cons first rest ih =>
    cases rest with
    | nil =>
      obtain ⟨next, tail, rfl⟩ := List.exists_cons_of_ne_nil hmore
      rw [List.singleton_append, join_cons_cons, join_singleton]
    | cons second rest =>
      rw [List.cons_append, List.cons_append, join_cons_cons, ← List.cons_append,
        ih (List.cons_ne_nil _ _), join_cons_cons]
      simp only [String.append_assoc]

/-- Below a directory in the texts is below it in the names. -/
theorem below_join {a b : List String} (ha : a ≠ []) (hb : b ≠ []) (hsa : ∀ n ∈ a, '/' ∉ n.toList)
    (hsb : ∀ n ∈ b, '/' ∉ n.toList) : below (join a) (join b) = true ↔ a <+: b ∧ a ≠ b := by
  rw [below_iff]
  refine ⟨?_, ?_⟩
  · intro h
    obtain ⟨rest, hrest⟩ := h
    have hsplit := split_ne_nil (String.ofList rest)
    have hjoin : join b = join (a ++ split (String.ofList rest)) := by
      rw [join_append ha hsplit, join_split]
      apply String.toList_injective
      simpa using hrest
    have hnames : b = a ++ split (String.ofList rest) := by
      refine join_inj hb (List.append_ne_nil_of_left_ne_nil ha _) hsb ?_ hjoin
      intro n hn
      obtain hn | hn := List.mem_append.mp hn
      · exact hsa n hn
      · exact slash_notMem_split hn
    rw [hnames]
    refine ⟨List.prefix_append a _, fun he => hsplit ?_⟩
    exact List.self_eq_append_right.mp he
  · intro h
    obtain ⟨⟨more, hmore⟩, hne⟩ := h
    have hmore_ne : more ≠ [] := by
      intro he
      rw [he, List.append_nil] at hmore
      exact hne hmore
    refine ⟨(join more).toList, ?_⟩
    rw [← hmore, join_append ha hmore_ne]
    simp

/-! ## Normal forms -/

theorem hasPrefix_join {name : String} (h : Proper name) (rest : List String) :
    hasPrefix (join (name :: rest)) "/" = false := by
  obtain ⟨hne, -, -, hslash⟩ := h
  rw [Bool.eq_false_iff]
  intro hprefix
  rw [hasPrefix_iff, toList_join] at hprefix
  have hname : name.toList ≠ [] := by simpa using hne
  obtain ⟨c, cs, hc⟩ := List.exists_cons_of_ne_nil hname
  obtain ⟨more, hmore⟩ : ∃ more, ['/'].intercalate ((name :: rest).map String.toList) = c :: more := by
    cases rest with
    | nil => exact ⟨cs, by simp [hc]⟩
    | cons next rest => exact ⟨_, by rw [List.map_cons, List.map_cons, List.intercalate_cons_cons, hc]; rfl⟩
  obtain ⟨tail, htail⟩ := hprefix
  rw [hmore] at htail
  have hslash' : '/' = c := (List.cons.inj htail).1
  apply hslash
  rw [hc, hslash']
  exact List.mem_cons_self ..

theorem foldl_pushName_proper {rooted : Bool} {names : List String} (h : ∀ n ∈ names, Proper n) :
    ∀ stack, names.foldl (pushName rooted) stack = names.reverse ++ stack := by
  induction names with
  | nil =>
    intro stack
    rfl
  | cons name rest ih =>
    intro stack
    obtain ⟨hne, hdot, hup, -⟩ := h name (List.mem_cons_self ..)
    have hpush : pushName rooted stack name = name :: stack := by
      unfold pushName
      rw [if_neg (by simp [hne, hdot]), if_neg hup]
    rw [List.foldl_cons, hpush, ih (fun n hn => h n (List.mem_cons_of_mem _ hn)), List.reverse_cons,
      List.append_assoc, List.singleton_append]

theorem clean_join {names : List String} (hne : names ≠ []) (h : ∀ n ∈ names, Proper n) :
    clean (join names) = join names := by
  obtain ⟨name, rest, rfl⟩ := List.exists_cons_of_ne_nil hne
  have hfold : (name :: rest).foldl (pushName false) [] = (name :: rest).reverse := by
    rw [foldl_pushName_proper h, List.append_nil]
  unfold clean
  rw [hasPrefix_join (h name (List.mem_cons_self ..)), split_join hne fun n hn => (h n hn).2.2.2]
  simp only [hfold]
  simp

/-- The stack of a relative path: no empty element, and `..` at the bottom when there is one. -/
structure Upwards (stack : List String) : Prop where
  names : ∀ n ∈ stack, n ≠ "" ∧ n ≠ "." ∧ '/' ∉ n.toList
  bottom : ".." ∈ stack → stack.getLast? = some ".."

theorem Upwards.push {stack : List String} (h : Upwards stack) {name : String}
    (hslash : '/' ∉ name.toList) : Upwards (pushName false stack name) := by
  unfold pushName
  by_cases hskip : name = "" ∨ name = "."
  · rw [if_pos hskip]
    exact h
  rw [if_neg hskip]
  by_cases hup : name = ".."
  · rw [if_pos hup]
    cases stack with
    | nil => exact ⟨by simp, by simp⟩
    | cons top rest =>
      by_cases htop : top = ".."
      · simp only [if_pos htop]
        refine ⟨?_, ?_⟩
        · intro n hn
          obtain rfl | hn := List.mem_cons.mp hn
          · decide
          · exact h.names n hn
        · intro _
          rw [List.getLast?_cons_cons]
          exact h.bottom (by rw [htop]; exact List.mem_cons_self ..)
      · simp only [if_neg htop]
        refine ⟨fun n hn => h.names n (List.mem_cons_of_mem _ hn), ?_⟩
        intro hmem
        have hbottom := h.bottom (List.mem_cons_of_mem _ hmem)
        obtain ⟨n, ns, rfl⟩ := List.exists_cons_of_ne_nil (List.ne_nil_of_mem hmem)
        rwa [List.getLast?_cons_cons] at hbottom
  · rw [if_neg hup]
    rw [not_or] at hskip
    refine ⟨?_, ?_⟩
    · intro n hn
      obtain rfl | hn := List.mem_cons.mp hn
      · exact ⟨hskip.1, hskip.2, hslash⟩
      · exact h.names n hn
    · intro hmem
      obtain he | hmem := List.mem_cons.mp hmem
      · exact absurd he.symm hup
      · obtain ⟨n, ns, rfl⟩ := List.exists_cons_of_ne_nil (List.ne_nil_of_mem hmem)
        rw [List.getLast?_cons_cons]
        exact h.bottom hmem

theorem Upwards.foldl {names : List String} (hnames : ∀ n ∈ names, '/' ∉ n.toList) :
    ∀ {stack : List String}, Upwards stack → Upwards (names.foldl (pushName false) stack) := by
  induction names with
  | nil =>
    intro stack h
    exact h
  | cons name rest ih =>
    intro stack h
    exact ih (fun n hn => hnames n (List.mem_cons_of_mem _ hn))
      (h.push (hnames name (List.mem_cons_self ..)))

/-- A relative path in normal form that does not lead upwards is the current directory or a
sequence of proper names. -/
theorem proper_of_clean {p : String} (hroot : hasPrefix p "/" = false) (hclean : clean p = p)
    (hup : p ≠ "..") (hbelow : hasPrefix p "../" = false) : p = "." ∨ ∀ n ∈ split p, Proper n := by
  have hstack : Upwards ((split p).foldl (pushName false) []) :=
    Upwards.foldl (fun n hn => slash_notMem_split hn) ⟨by simp, by simp⟩
  unfold clean at hclean
  rw [hroot] at hclean
  simp only [Bool.false_eq_true, if_false] at hclean
  generalize (split p).foldl (pushName false) [] = stack at hstack hclean
  by_cases hempty : stack.reverse = []
  · rw [if_pos hempty] at hclean
    exact .inl hclean.symm
  · rw [if_neg hempty] at hclean
    right
    have hnames : ∀ n ∈ stack.reverse, '/' ∉ n.toList :=
      fun n hn => (hstack.names n (List.mem_reverse.mp hn)).2.2
    have hsplit : split p = stack.reverse := by
      rw [← hclean, split_join hempty hnames]
    rw [hsplit]
    intro n hn
    obtain ⟨hne, hdot, hslash⟩ := hstack.names n (List.mem_reverse.mp hn)
    refine ⟨hne, hdot, ?_, hslash⟩
    -- A `..` would be the first element, and the path `..` or below it.
    intro hdots
    subst hdots
    have hfirst : stack.reverse.head? = some ".." := by
      rw [List.head?_reverse]
      exact hstack.bottom (List.mem_reverse.mp hn)
    obtain ⟨rest, hrest⟩ := List.head?_eq_some_iff.mp hfirst
    rw [hrest] at hclean
    cases rest with
    | nil =>
      rw [join_singleton] at hclean
      exact hup hclean.symm
    | cons next rest =>
      rw [join_cons_cons] at hclean
      have hprefix : hasPrefix p "../" = true := by
        rw [hasPrefix_iff, ← hclean]
        exact ⟨(join (next :: rest)).toList, by simp⟩
      rw [hbelow] at hprefix
      cases hprefix

end Path
