import AppBackup.Lib.Path
import AppBackup.Lib.Table
import AppBackup.Probe.Scope
import Mathlib.Data.List.Nodup

/- The tree of the scope dialog (`web/src/ui/dialogs.tsx`, `buildScopeTree`): nodes are made
   on demand for the prefixes of the entries' paths and kept in a map, and a node refers to
   its children. The map is a list in the order its nodes were made, a reference is the path
   of the node it leads to; `localeCompare` is a parameter.

   What is proved:
     1. `Holds.ensureNode`, `Holds.setEntry`, `Holds.addEntry` -- the map holds a node for each
        prefix of a path so far, with its entry where it has one, and the children of a node
        are the nodes of the paths one name longer (`Holds`);
     2. `holds_entries` -- hence after all entries, in any order;
     3. `Holds.listed_sorted`, `buildScopeTree_shows` -- sorting the children and following the
        references shows each node once;
     4. `buildScopeTree_isTrie` -- so the tree is the trie of the entries. -/
namespace AppBackup.Web
open Path Text Table Probe

/-- `path.split("/").filter(Boolean)`. -/
def partsOf (path : String) : List String := (split path).filter (· != "")

/-- `String(entry.path || "").replace(/^\/+|\/+$/g, "")`. -/
def stripSlashes (path : String) : String := trim (· == '/') path

/-- A node, as the map holds it. -/
structure MapNode where
  path : String
  name : String
  type : String
  entry : Option ScopeEntry
  children : List String

def rootNode : MapNode := ⟨"", "", "directory", none, []⟩

/-- Where the parts of a path have led so far. -/
structure Descent where
  byPath : List MapNode
  parent : String
  currentPath : String

/-- The node of a path: the one the map has, or a new one below its parent. -/
def ensureNode (type : String) (last : Bool) (part : String) (parent currentPath : String) (byPath : List MapNode) :
    List MapNode :=
  match byPath.find? (·.path == currentPath) with
  | some _ => byPath
  | none =>
    updateWhere (·.path == parent) (fun n => { n with children := n.children ++ [currentPath] }) byPath ++
      [⟨currentPath, part, if last then type else "directory", none, []⟩]

/-- One turn of `parts.forEach`. -/
def addPart (entry : ScopeEntry) (last : Bool) (d : Descent) (part : String) : Descent :=
  let currentPath := if d.currentPath ≠ "" then d.currentPath ++ "/" ++ part else part
  let byPath := ensureNode entry.type last part d.parent currentPath d.byPath
  let byPath :=
    if last then
      updateWhere (·.path == currentPath) (fun n => { n with type := entry.type, entry := some entry }) byPath
    else byPath
  ⟨byPath, currentPath, currentPath⟩

def addParts (entry : ScopeEntry) : Descent → List String → List MapNode
  | d, [] => d.byPath
  | d, part :: rest => addParts entry (addPart entry rest.isEmpty d part) rest

def addEntry (byPath : List MapNode) (entry : ScopeEntry) : List MapNode :=
  let path := stripSlashes entry.path
  if path = "" then byPath else addParts entry ⟨byPath, "", ""⟩ (partsOf path)

inductive ScopeTreeNode where
  | node (path name type : String) (entry : Option ScopeEntry) (children : List ScopeTreeNode)

namespace ScopeTreeNode

def path : ScopeTreeNode → String
  | node path _ _ _ _ => path

def name : ScopeTreeNode → String
  | node _ name _ _ _ => name

def entry : ScopeTreeNode → Option ScopeEntry
  | node _ _ _ entry _ => entry

end ScopeTreeNode

/-- Directories first, then by name. -/
def nodeBefore (localeCompare : String → String → Int) (left right : MapNode) : Bool :=
  if left.type != right.type then left.type == "directory"
  else localeCompare left.name right.name ≤ 0

/-- The nodes of some references, sorted, with their children, as deep as the number of nodes allows. -/
def sorted (localeCompare : String → String → Int)
    (byPath : List MapNode) : Nat → List String → List ScopeTreeNode
  | 0, _ => []
  | n + 1, refs =>
    ((refs.filterMap fun p => byPath.find? (·.path == p)).mergeSort (nodeBefore localeCompare)).map fun m =>
      .node m.path m.name m.type m.entry (sorted localeCompare byPath n m.children)

def buildScopeTree (localeCompare : String → String → Int) (entries : List ScopeEntry) : List ScopeTreeNode :=
  let byPath := entries.foldl addEntry [rootNode]
  match byPath.find? (·.path == "") with
  | some root => sorted localeCompare byPath byPath.length root.children
  | none => []

/-- The nodes of a forest, each with the path of the node that holds it. -/
def listed (holder : String) : List ScopeTreeNode → List (String × ScopeTreeNode)
  | [] => []
  | .node path name type entry children :: rest =>
    (holder, .node path name type entry children) :: (listed path children ++ listed holder rest)

/-! ## Names -/

/-- Parts a path can have. -/
def Names (ps : List String) : Prop := ∀ n ∈ ps, n ≠ "" ∧ '/' ∉ n.toList

/-- The parts of an entry's normalised path. -/
def entryParts (e : ScopeEntry) : List String := partsOf (stripSlashes e.path)

/-- The normalised path. -/
def normalised (e : ScopeEntry) : String := join (entryParts e)

section
variable {ps qs : List String}

theorem names_partsOf (path : String) : Names (partsOf path) := by
  intro n hn
  obtain ⟨hn, hne⟩ := List.mem_filter.mp hn
  exact ⟨by simpa using hne, slash_notMem_split hn⟩

theorem Names.sublist (h : Names qs) (hsub : ps.Sublist qs) : Names ps := fun n hn => h n (hsub.subset hn)

theorem Names.dropLast (h : Names ps) : Names ps.dropLast := h.sublist (List.dropLast_sublist ps)

theorem Names.above (h : Names qs) (hp : ps <+: qs) : Names ps := h.sublist hp.sublist

theorem Names.join_eq_empty (h : Names ps) : join ps = "" ↔ ps = [] := by
  refine ⟨fun hjoin => ?_, fun hnil => by rw [hnil]; rfl⟩
  by_cases hne : ps = []
  · exact hne
  · exact absurd hjoin (join_ne_empty hne fun n hn => (h n hn).1)

theorem Names.partsOf_join (h : Names ps) : partsOf (join ps) = ps := by
  by_cases hne : ps = []
  · rw [hne]
    decide
  · unfold partsOf
    rw [split_join hne fun n hn => (h n hn).2]
    exact List.filter_eq_self.mpr fun n hn => by simpa using (h n hn).1

theorem Names.join_inj (h : Names ps) (h' : Names qs) : join ps = join qs ↔ ps = qs := by
  refine ⟨fun hjoin => ?_, fun heq => by rw [heq]⟩
  rw [← h.partsOf_join, ← h'.partsOf_join, hjoin]

theorem Names.join_snoc (h : Names ps) (part : String) :
    (if join ps ≠ "" then join ps ++ "/" ++ part else part) = join (ps ++ [part]) := by
  by_cases hne : ps = []
  · subst hne
    rw [if_neg (not_not.mpr (h.join_eq_empty.mpr rfl)), List.nil_append, join_singleton]
  · rw [if_pos (fun hempty => hne (h.join_eq_empty.mp hempty)), join_append hne (List.cons_ne_nil _ _),
      join_singleton]

end

/-! ## What the map holds -/

/-- The second path is that of a child of the first. -/
def childOf (path child : String) : Bool := child != "" && join (partsOf child).dropLast == path

/-- The entry listed last for a path. -/
def lastAt (entries : List ScopeEntry) (path : String) : Option ScopeEntry :=
  entries.reverse.find? (normalised · == path)

/-- The map has one node for each of the paths `K`, which are closed under parents, and each
refers to its children and has its last entry. -/
structure Holds (K : List String → Prop) (entries : List ScopeEntry) (byPath : List MapNode) : Prop where
  root : K []
  closed : ∀ ps part, K (ps ++ [part]) → K ps
  entered : ∀ e ∈ entries, K (entryParts e)
  distinct : (byPath.map (·.path)).Nodup
  named : ∀ n ∈ byPath, ∃ ps, Names ps ∧ n.path = join ps ∧ n.name = ps.getLastD ""
  known : ∀ ps, Names ps → ((∃ n ∈ byPath, n.path = join ps) ↔ K ps)
  carried : ∀ n ∈ byPath, n.path ≠ "" → n.entry = lastAt entries n.path
  children : ∀ n ∈ byPath, n.children = (byPath.map (·.path)).filter (childOf n.path)

section
variable {K : List String → Prop} {entries : List ScopeEntry} {byPath : List MapNode} {ps : List String}
    {part : String}

theorem Holds.congr {K' : List String → Prop} (h : Holds K entries byPath) (hK : ∀ ps, K ps ↔ K' ps) :
    Holds K' entries byPath := by
  obtain rfl : K = K' := funext fun ps => propext (hK ps)
  exact h

theorem Holds.above (h : Holds K entries byPath) {qs : List String} (hqs : K qs) (hp : ps <+: qs) : K ps := by
  obtain ⟨more, rfl⟩ := hp
  induction more using List.reverseRecOn with
  | nil => rwa [List.append_nil] at hqs
  | append_singleton more last ih =>
    rw [← List.append_assoc] at hqs
    exact ih (h.closed _ _ hqs)

theorem holds_empty : Holds (· = []) [] [rootNode] := by
  refine ⟨rfl, fun ps part h => absurd h (by simp), fun e he => absurd he List.not_mem_nil, by simp, ?_, ?_, ?_, ?_⟩
  · intro n hn
    obtain rfl := List.mem_singleton.mp hn
    exact ⟨[], fun _ hin => absurd hin List.not_mem_nil, rfl, rfl⟩
  · intro ps hps
    refine ⟨?_, ?_⟩
    · intro ⟨n, hn, hpath⟩
      rw [List.mem_singleton.mp hn] at hpath
      exact hps.join_eq_empty.mp hpath.symm
    · intro hnil
      exact ⟨rootNode, List.mem_singleton_self _, (hps.join_eq_empty.mpr hnil).symm⟩
  · intro n hn hne
    obtain rfl := List.mem_singleton.mp hn
    exact absurd rfl hne
  · intro n hn
    obtain rfl := List.mem_singleton.mp hn
    rfl

theorem find?_path {p : String} : (∃ n, byPath.find? (·.path == p) = some n) ↔ ∃ n ∈ byPath, n.path = p := by
  refine ⟨?_, ?_⟩
  · intro ⟨n, hn⟩
    exact ⟨n, List.mem_of_find?_eq_some hn, by simpa using List.find?_some hn⟩
  · intro ⟨n, hn, hpath⟩
    exact Option.isSome_iff_exists.mp (List.find?_isSome.mpr ⟨n, hn, by simpa using hpath⟩)

theorem childOf_iff {qs : List String} (hps : Names ps) (hqs : Names qs) :
    childOf (join ps) (join qs) = true ↔ ∃ part, qs = ps ++ [part] := by
  unfold childOf
  rw [Bool.and_eq_true, bne_iff_ne, beq_iff_eq, hqs.partsOf_join, hqs.dropLast.join_inj hps, ne_eq, hqs.join_eq_empty]
  refine ⟨?_, ?_⟩
  · intro ⟨hne, hdrop⟩
    exact ⟨qs.getLast hne, by rw [← hdrop, List.dropLast_append_getLast]⟩
  · intro ⟨part, hqs⟩
    rw [hqs, List.dropLast_concat]
    exact ⟨by simp, rfl⟩

theorem Holds.eq_of_path (h : Holds K entries byPath) {n m : MapNode} (hn : n ∈ byPath) (hm : m ∈ byPath)
    (hpath : n.path = m.path) : n = m :=
  List.inj_on_of_nodup_map h.distinct hn hm hpath

/-- What is added to the paths when the node of one more is there. -/
def Reached (K : List String → Prop) (ps : List String) (qs : List String) : Prop := K qs ∨ qs = ps

theorem Holds.reached_closed (h : Holds K entries byPath) (hK : K ps) (qs : List String) (last : String)
    (hqs : Reached K (ps ++ [part]) (qs ++ [last])) : Reached K (ps ++ [part]) qs := by
  obtain hold | hnew := hqs
  · exact .inl (h.closed qs last hold)
  · obtain rfl := (List.append_inj' hnew rfl).1
    exact .inl hK

theorem childOf_snoc (hnames : Names (ps ++ [part])) {qs : List String} (hqs : Names qs) :
    childOf (join qs) (join (ps ++ [part])) = true ↔ qs = ps := by
  rw [childOf_iff hqs hnames]
  exact ⟨fun ⟨_, he⟩ => (List.append_inj' he rfl).1.symm, fun he => ⟨part, by rw [he]⟩⟩

/-- No node is a child of a path without a node: it would have been there before its parent. -/
theorem Holds.childless (h : Holds K entries byPath) (hps : Names ps) (hnew : ¬K ps) :
    (byPath.map (·.path)).filter (childOf (join ps)) = [] := by
  refine List.filter_eq_nil_iff.mpr fun p hp => ?_
  obtain ⟨n, hn, rfl⟩ := List.mem_map.mp hp
  obtain ⟨qs, hqs, hpath, -⟩ := h.named n hn
  rw [hpath, childOf_iff hps hqs]
  intro ⟨last, hlast⟩
  exact hnew (h.closed _ last (hlast ▸ (h.known qs hqs).mp ⟨n, hn, hpath⟩))

theorem Holds.entryless (h : Holds K entries byPath) (hps : Names ps) (hnew : ¬K ps) :
    lastAt entries (join ps) = none := by
  refine List.find?_eq_none.mpr fun e he => ?_
  intro hsame
  have hparts : Names (entryParts e) := names_partsOf _
  have hpath : entryParts e = ps := (hparts.join_inj hps).mp (by simpa [normalised] using hsame)
  exact hnew (hpath ▸ h.entered e (List.mem_reverse.mp he))

/-- The node of a new path, in the list of its parent. -/
theorem Holds.newNode (h : Holds K entries byPath) (hnames : Names (ps ++ [part])) (hK : K ps)
    (hnew : ¬K (ps ++ [part])) (type : String) :
    Holds (Reached K (ps ++ [part])) entries
      (updateWhere (·.path == join ps) (fun n => { n with children := n.children ++ [join (ps ++ [part])] }) byPath ++
        [⟨join (ps ++ [part]), part, type, none, []⟩]) := by
  have hps : Names ps := hnames.above (List.prefix_append ps [part])
  have hfresh : ∀ n ∈ byPath, n.path ≠ join (ps ++ [part]) :=
      fun n hn hpath => hnew ((h.known _ hnames).mp ⟨n, hn, hpath⟩)
  have hpaths : (updateWhere (·.path == join ps)
      (fun n => { n with children := n.children ++ [join (ps ++ [part])] }) byPath).map (·.path) = byPath.map
      (·.path) :=
    map_updateWhere byPath fun _ => rfl
  -- an old node, as it is now
  have hold : ∀ m ∈ updateWhere (·.path == join ps)
      (fun n => { n with children := n.children ++ [join (ps ++ [part])] })
      byPath, ∃ n ∈ byPath, m = if n.path == join ps then
        { n with children := n.children ++ [join (ps ++ [part])] } else n := by
    intro m hm
    obtain ⟨n, hn, he⟩ := mem_updateWhere.mp hm
    exact ⟨n, hn, he.symm⟩
  refine ⟨.inl h.root, h.reached_closed hK, fun e he => .inl (h.entered e he), ?_, ?_, ?_, ?_, ?_⟩
  · rw [List.map_append, hpaths]
    refine List.nodup_append.mpr ⟨h.distinct, List.nodup_singleton _, ?_⟩
    intro p hp q hq hsame
    obtain ⟨n, hn, rfl⟩ := List.mem_map.mp hp
    rw [List.map_singleton, List.mem_singleton] at hq
    exact hfresh n hn (hsame.trans hq)
  · intro m hm
    obtain hm | hm := List.mem_append.mp hm
    · obtain ⟨n, hn, rfl⟩ := hold m hm
      obtain ⟨qs, hqs, hpath, hname⟩ := h.named n hn
      refine ⟨qs, hqs, ?_, ?_⟩
      · split <;> exact hpath
      · split <;> exact hname
    · obtain rfl := List.mem_singleton.mp hm
      exact ⟨ps ++ [part], hnames, rfl, by simp⟩
  · intro qs hqs
    refine ⟨?_, ?_⟩
    · intro ⟨m, hm, hpath⟩
      obtain hm | hm := List.mem_append.mp hm
      · have hin : m.path ∈ byPath.map (·.path) := hpaths ▸ List.mem_map_of_mem hm
        obtain ⟨n, hn, hsame⟩ := List.mem_map.mp hin
        exact .inl ((h.known qs hqs).mp ⟨n, hn, hsame.trans hpath⟩)
      · rw [List.mem_singleton.mp hm] at hpath
        exact .inr ((hqs.join_inj hnames).mp hpath.symm)
    · intro hreached
      obtain hqsK | rfl := hreached
      · obtain ⟨n, hn, hpath⟩ := (h.known qs hqs).mpr hqsK
        have hin : n.path ∈ (updateWhere (·.path == join ps)
            (fun n => { n with children := n.children ++ [join (ps ++ [part])] }) byPath).map (·.path) :=
          hpaths ▸ List.mem_map_of_mem hn
        obtain ⟨m, hm, hsame⟩ := List.mem_map.mp hin
        exact ⟨m, List.mem_append_left _ hm, hsame.trans hpath⟩
      · exact ⟨_, List.mem_append_right _ (List.mem_singleton_self _), rfl⟩
  · intro m hm hne
    obtain hm | hm := List.mem_append.mp hm
    · obtain ⟨n, hn, rfl⟩ := hold m hm
      have hcarried := h.carried n hn
      by_cases hparent : (n.path == join ps) = true
      · rw [if_pos hparent] at hne ⊢
        exact hcarried hne
      · rw [if_neg hparent] at hne ⊢
        exact hcarried hne
    · obtain rfl := List.mem_singleton.mp hm
      exact (h.entryless hnames hnew).symm
  · intro m hm
    rw [List.map_append, hpaths, List.filter_append, List.map_singleton]
    obtain hm | hm := List.mem_append.mp hm
    · obtain ⟨n, hn, rfl⟩ := hold m hm
      obtain ⟨qs, hqs, hpath, -⟩ := h.named n hn
      have hchildren := h.children n hn
      by_cases hparent : (n.path == join ps) = true
      · obtain rfl : qs = ps := (hqs.join_inj hps).mp (hpath.symm.trans (by simpa using hparent))
        rw [if_pos hparent]
        show n.children ++ [join (qs ++ [part])] = _
        rw [List.filter_singleton, hpath, (childOf_snoc hnames hqs).mpr rfl, hchildren, hpath]
        rfl
      · rw [if_neg hparent, List.filter_singleton, hpath]
        have hother : childOf (join qs) (join (ps ++ [part])) = false := by
          rw [Bool.eq_false_iff, ne_eq, childOf_snoc hnames hqs]
          intro hsame
          apply hparent
          rw [hpath, hsame]
          exact beq_self_eq_true _
        rw [hother, hchildren, hpath]
        simp
    · obtain rfl := List.mem_singleton.mp hm
      have hself : childOf (join (ps ++ [part])) (join (ps ++ [part])) = false := by
        rw [Bool.eq_false_iff, ne_eq, childOf_snoc hnames hnames]
        simp
      rw [h.childless hnames hnew, List.filter_singleton, hself]
      rfl

theorem Holds.ensureNode (h : Holds K entries byPath) (hnames : Names (ps ++ [part])) (hK : K ps) (type : String)
    (last : Bool) :
    Holds (Reached K (ps ++ [part])) entries
      (ensureNode type last part (join ps) (join (ps ++ [part])) byPath) := by
  unfold Web.ensureNode
  cases hfind : byPath.find? (·.path == join (ps ++ [part])) with
  | some n =>
    have hin : K (ps ++ [part]) := (h.known _ hnames).mp (find?_path.mp ⟨n, hfind⟩)
    exact h.congr fun qs => ⟨.inl, fun hqs => hqs.elim id fun he => he ▸ hin⟩
  | none =>
    refine h.newNode hnames hK ?_ _
    intro hin
    obtain ⟨n, hn⟩ := find?_path.mpr ((h.known _ hnames).mpr hin)
    rw [hfind] at hn
    cases hn

/-- The last node of a way is given its entry. -/
theorem Holds.setEntry (h : Holds K entries byPath) {e : ScopeEntry} (hK : K (entryParts e)) :
    Holds K (entries ++ [e])
      (updateWhere (·.path == normalised e) (fun n => { n with type := e.type, entry := some e }) byPath) := by
  have hpaths : (updateWhere (·.path == normalised e) (fun n => { n with type := e.type, entry := some e }) byPath).map
      (·.path) = byPath.map (·.path) := map_updateWhere byPath fun _ => rfl
  have hold : ∀ m ∈ updateWhere (·.path == normalised e)
      (fun n => { n with type := e.type, entry := some e }) byPath,
      ∃ n ∈ byPath, m.path = n.path ∧ m.name = n.name ∧ m.children = n.children ∧
        m.entry = if n.path == normalised e then some e else n.entry := by
    intro m hm
    obtain ⟨n, hn, rfl⟩ := mem_updateWhere.mp hm
    refine ⟨n, hn, ?_⟩
    by_cases hsame : (n.path == normalised e) = true
    · rw [if_pos hsame, if_pos hsame]
      exact ⟨rfl, rfl, rfl, rfl⟩
    · rw [if_neg hsame, if_neg hsame]
      exact ⟨rfl, rfl, rfl, rfl⟩
  refine ⟨h.root, h.closed, ?_, hpaths ▸ h.distinct, ?_, ?_, ?_, ?_⟩
  · intro e' he'
    obtain he' | he' := List.mem_append.mp he'
    · exact h.entered e' he'
    · rw [List.mem_singleton.mp he']
      exact hK
  · intro m hm
    obtain ⟨n, hn, hpath, hname, -⟩ := hold m hm
    rw [hpath, hname]
    exact h.named n hn
  · intro qs hqs
    rw [← h.known qs hqs]
    have hmem : ∀ l : List MapNode, (∃ n ∈ l, n.path = join qs) ↔ join qs ∈ l.map (·.path) :=
      fun l => List.mem_map.symm
    rw [hmem, hmem, hpaths]
  · intro m hm hne
    obtain ⟨n, hn, hpath, -, -, hentry⟩ := hold m hm
    rw [hentry, hpath]
    unfold lastAt
    rw [List.reverse_append, List.reverse_singleton, List.singleton_append, List.find?_cons]
    by_cases hsame : n.path = normalised e
    · rw [if_pos (by simpa using hsame), hsame, beq_self_eq_true]
    · rw [if_neg (by simpa using hsame), beq_false_of_ne fun he => hsame he.symm]
      exact h.carried n hn (hpath ▸ hne)
  · intro m hm
    obtain ⟨n, hn, hpath, -, hchildren, -⟩ := hold m hm
    rw [hpaths, hchildren, hpath]
    exact h.children n hn

theorem Holds.skip (h : Holds K entries byPath) {e : ScopeEntry} (hparts : entryParts e = []) :
    Holds K (entries ++ [e]) byPath := by
  refine ⟨h.root, h.closed, ?_, h.distinct, h.named, h.known, ?_, h.children⟩
  · intro e' he'
    obtain he' | he' := List.mem_append.mp he'
    · exact h.entered e' he'
    · rw [List.mem_singleton.mp he', hparts]
      exact h.root
  · intro n hn hne
    have hother : (normalised e == n.path) = false := by
      rw [beq_eq_false_iff_ne, normalised, hparts]
      exact fun he => hne he.symm
    unfold lastAt
    rw [List.reverse_append, List.reverse_singleton, List.singleton_append, List.find?_cons, hother]
    exact h.carried n hn hne

/-- The parts of an entry, one after the other. -/
theorem Holds.addParts {e : ScopeEntry} {rest : List String} (h : Holds K entries byPath)
    (hparts : entryParts e = ps ++ rest) (hrest : rest ≠ []) (hK : K ps) :
    Holds (fun qs => K qs ∨ qs <+: entryParts e) (entries ++ [e])
      (addParts e ⟨byPath, join ps, join ps⟩ rest) := by
  induction rest generalizing K byPath ps with
  | nil => exact absurd rfl hrest
  | cons part rest ih =>
    have hall : Names (entryParts e) := names_partsOf _
    have hnames : Names (ps ++ [part]) := by
      refine hall.above ?_
      rw [hparts]
      exact ⟨rest, by simp⟩
    have hps : Names ps := hnames.above (List.prefix_append ps [part])
    have hnode := h.ensureNode hnames hK e.type rest.isEmpty
    have hjoin := hps.join_snoc part
    cases rest with
    | nil =>
      have hlast := hnode.setEntry (e := e) (.inr hparts)
      have hstep : addParts e ⟨byPath, join ps, join ps⟩ [part] =
          updateWhere (·.path == normalised e) (fun n => { n with type := e.type, entry := some e })
            (Web.ensureNode e.type true part (join ps) (join (ps ++ [part])) byPath) := by
        show (addPart e true ⟨byPath, join ps, join ps⟩ part).byPath = _
        unfold addPart normalised
        simp only [hjoin, hparts, if_true]
      rw [hstep]
      refine hlast.congr fun qs => ?_
      refine ⟨fun hqs => hqs.imp id fun he => by rw [he, hparts], fun hqs => ?_⟩
      obtain hqs | hqs := hqs
      · exact .inl hqs
      · rw [hparts] at hqs
        obtain rfl | hqs := List.prefix_concat_iff.mp hqs
        · exact .inr rfl
        · exact .inl (h.above hK hqs)
    | cons next rest =>
      have hmore := ih hnode (by rw [hparts]; simp) (List.cons_ne_nil _ _) (.inr rfl)
      have hstep : addParts e ⟨byPath, join ps, join ps⟩ (part :: next :: rest) =
          addParts e ⟨Web.ensureNode e.type false part (join ps) (join (ps ++ [part])) byPath, join (ps ++ [part]),
            join (ps ++ [part])⟩ (next :: rest) := by
        show addParts e (addPart e false ⟨byPath, join ps, join ps⟩ part) (next :: rest) = _
        unfold addPart
        simp only [hjoin, Bool.false_eq_true, if_false]
      rw [hstep]
      refine hmore.congr fun qs => ?_
      refine ⟨fun hqs => hqs.elim (fun hqs => hqs.imp id fun he => ?_) .inr, fun hqs => hqs.imp .inl id⟩
      rw [he, hparts]
      exact ⟨next :: rest, by simp⟩

end

/-- A path that is more than slashes has a part. -/
theorem parts_ne_nil {path : String} (h : stripSlashes path ≠ "") : partsOf (stripSlashes path) ≠ [] := by
  have hslashes : ∀ names : List String, (∀ n ∈ names, n = "") → ∀ c ∈ (join names).toList, c = '/' := by
    intro names hall
    induction names with
    | nil => exact fun c hc => absurd hc (by simp [toList_join])
    | cons name rest ih =>
      obtain rfl := hall name (List.mem_cons_self ..)
      have hrest := ih fun n hn => hall n (List.mem_cons_of_mem _ hn)
      cases rest with
      | nil => exact fun c hc => absurd hc (by simp [join_singleton])
      | cons next rest =>
        intro c hc
        rw [join_cons_cons] at hc
        simp only [String.toList_append, List.mem_append] at hc
        obtain (hc | hc) | hc := hc
        · simp at hc
        · simpa using hc
        · exact hrest c hc
  intro hnil
  have hall : ∀ n ∈ split (stripSlashes path), n = "" := by
    intro n hn
    have hnot := List.filter_eq_nil_iff.mp hnil n hn
    simpa using hnot
  have hchars := hslashes _ hall
  rw [join_split] at hchars
  obtain ⟨c, rest, hc⟩ := List.exists_cons_of_ne_nil (fun hnil => h (String.toList_eq_nil_iff.mp hnil))
  have hends := (trimChars_ends (· == '/') path.toList).1
  have hlist : (stripSlashes path).toList = trimChars (· == '/') path.toList := by simp [stripSlashes, trim]
  rw [← hlist, hc] at hends
  have hslash := hchars c (hc ▸ List.mem_cons_self ..)
  have hcut := hends c rfl
  rw [hslash] at hcut
  exact absurd hcut (by decide)

/-- The paths of the entries and of what is above them. -/
def Prefixes (entries : List ScopeEntry) (ps : List String) : Prop := ps = [] ∨ ∃ e ∈ entries, ps <+: entryParts e

theorem Holds.addEntry {entries : List ScopeEntry} {byPath : List MapNode} (h : Holds (Prefixes entries) entries byPath)
    (e : ScopeEntry) : Holds (Prefixes (entries ++ [e])) (entries ++ [e]) (addEntry byPath e) := by
  have hsnoc : ∀ qs, (Prefixes entries qs ∨ qs <+: entryParts e) ↔ Prefixes (entries ++ [e]) qs := by
    intro qs
    unfold Prefixes
    simp [or_and_right, exists_or, or_assoc]
  unfold Web.addEntry
  simp only
  by_cases hempty : stripSlashes e.path = ""
  · have hparts : entryParts e = [] := by
      unfold entryParts
      rw [hempty]
      decide
    rw [if_pos hempty]
    exact (h.skip hparts).congr fun qs => by
      rw [← hsnoc, hparts, List.prefix_nil]
      exact ⟨.inl, fun hqs => hqs.elim id .inl⟩
  · rw [if_neg hempty]
    exact (h.addParts (List.nil_append _).symm (parts_ne_nil hempty) (.inl rfl)).congr hsnoc

theorem holds_entries (entries : List ScopeEntry) :
    Holds (Prefixes entries) entries (entries.foldl addEntry [rootNode]) := by
  induction entries using List.reverseRecOn with
  | nil => exact holds_empty.congr fun qs => by simp [Prefixes]
  | append_singleton entries e ih =>
    rw [List.foldl_append]
    exact ih.addEntry e

/-! ## What is shown of it -/

section
variable {K : List String → Prop} {entries : List ScopeEntry} {byPath : List MapNode} {m : MapNode} {ps : List String}

theorem Holds.mem_children (h : Holds K entries byPath) (hm : m ∈ byPath) (hps : Names ps) (hpath : m.path = join ps)
    {r : String} : r ∈ m.children ↔ ∃ part, Names (ps ++ [part]) ∧ K (ps ++ [part]) ∧
    r = join (ps ++ [part]) := by
  rw [h.children m hm, List.mem_filter, hpath]
  refine ⟨?_, ?_⟩
  · intro ⟨hr, hchild⟩
    obtain ⟨n, hn, rfl⟩ := List.mem_map.mp hr
    obtain ⟨qs, hqs, hnpath, -⟩ := h.named n hn
    rw [hnpath, childOf_iff hps hqs] at hchild
    obtain ⟨part, rfl⟩ := hchild
    exact ⟨part, hqs, (h.known _ hqs).mp ⟨n, hn, hnpath⟩, hnpath⟩
  · intro ⟨part, hnames, hK, hr⟩
    obtain ⟨n, hn, hnpath⟩ := (h.known _ hnames).mpr hK
    rw [hr]
    exact ⟨hnpath ▸ List.mem_map_of_mem hn, (childOf_iff hps hnames).mpr ⟨part, rfl⟩⟩

/-- The children of a node, sorted. -/
def kids (localeCompare : String → String → Int) (byPath : List MapNode) (m : MapNode) : List MapNode :=
  (m.children.filterMap fun p => byPath.find? (·.path == p)).mergeSort (nodeBefore localeCompare)

theorem Holds.find?_eq (h : Holds K entries byPath) (hm : m ∈ byPath) {p : String} (hpath : m.path = p) :
    byPath.find? (·.path == p) = some m := by
  obtain ⟨n, hn⟩ := find?_path.mpr ⟨m, hm, hpath⟩
  have hnpath : n.path = p := by simpa using List.find?_some hn
  rw [hn, h.eq_of_path (List.mem_of_find?_eq_some hn) hm (hnpath.trans hpath.symm)]

variable (localeCompare : String → String → Int)

theorem Holds.mem_kids (h : Holds K entries byPath) (hm : m ∈ byPath) (hps : Names ps) (hpath : m.path = join ps)
    {c : MapNode} : c ∈ kids localeCompare byPath m ↔
    c ∈ byPath ∧ ∃ part, Names (ps ++ [part]) ∧ c.path = join (ps ++ [part]) := by
  unfold kids
  rw [(List.mergeSort_perm _ _).mem_iff, List.mem_filterMap]
  refine ⟨?_, ?_⟩
  · intro ⟨r, hr, hfind⟩
    obtain ⟨part, hnames, -, rfl⟩ := (h.mem_children hm hps hpath).mp hr
    exact ⟨List.mem_of_find?_eq_some hfind, part, hnames, by simpa using List.find?_some hfind⟩
  · intro ⟨hc, part, hnames, hcpath⟩
    have hK := (h.known _ hnames).mp ⟨c, hc, hcpath⟩
    exact ⟨_, (h.mem_children hm hps hpath).mpr ⟨part, hnames, hK, rfl⟩, h.find?_eq hc hcpath⟩

theorem Holds.kids_nodup (h : Holds K entries byPath) (hm : m ∈ byPath) : (kids localeCompare byPath m).Nodup := by
  have hchildren : m.children.Nodup := by
    rw [h.children m hm]
    exact h.distinct.filter _
  unfold kids
  rw [(List.mergeSort_perm _ _).nodup_iff]
  refine hchildren.filterMap fun p q n hp hq => ?_
  have hp : n.path = p := by simpa using List.find?_some hp
  have hq : n.path = q := by simpa using List.find?_some hq
  exact hp.symm.trans hq

theorem sorted_succ (n : Nat) : sorted localeCompare byPath (n + 1) m.children =
    (kids localeCompare byPath m).map fun c =>
      .node c.path c.name c.type c.entry (sorted localeCompare byPath n c.children) := rfl

theorem listed_map (holder : String) (f : MapNode → List ScopeTreeNode) (l : List MapNode) :
    listed holder (l.map fun c => .node c.path c.name c.type c.entry (f c)) =
      l.flatMap fun c => (holder, .node c.path c.name c.type c.entry (f c)) :: listed c.path (f c) := by
  induction l with
  | nil => simp [listed]
  | cons c l ih =>
    rw [List.map_cons, listed, ih]
    rfl

/-- A shown node is that of a path, with its holder. -/
structure Shows (byPath : List MapNode) (qs : List String) (x : String × ScopeTreeNode) : Prop where
  names : Names qs
  node : ∃ c ∈ byPath, c.path = join qs ∧ x.2.path = c.path ∧ x.2.name = c.name ∧ x.2.entry = c.entry
  holder : x.1 = join qs.dropLast

/-- Below a node each path is shown once, when the recursion goes deep enough. -/
theorem Holds.listed_sorted (h : Holds K entries byPath) (n : Nat) : ∀ {m : MapNode}
    {ps : List String}, m ∈ byPath →
    Names ps → m.path = join ps → (∀ qs, K qs → Names qs → ps <+: qs → qs.length ≤ ps.length + n) →
    (∀ x ∈ listed (join ps) (sorted localeCompare byPath n m.children), ∃ qs, ps <+: qs ∧ ps ≠ qs ∧
      Shows byPath qs x) ∧
    (∀ qs, K qs → Names qs → ps <+: qs → ps ≠ qs →
      ∃ x ∈ listed (join ps) (sorted localeCompare byPath n m.children), x.2.path = join qs) ∧
    ((listed (join ps) (sorted localeCompare byPath n m.children)).map (·.2.path)).Nodup := by
  induction n with
  | zero =>
    intro m ps _ _ _ hdeep
    rw [show listed (join ps) (sorted localeCompare byPath 0 m.children) = [] by simp [listed, sorted]]
    refine ⟨fun x hx => absurd hx List.not_mem_nil, fun qs hqs hnames hstart hne => ?_, List.nodup_nil⟩
    exact absurd (hstart.eq_of_length_le (hdeep qs hqs hnames hstart)) hne
  | succ n ih =>
    intro m ps hm hps hpath hdeep
    rw [sorted_succ, listed_map]
    -- each child with the lists below it
    have hbelow : ∀ {c : MapNode} {part : String}, c ∈ byPath → Names (ps ++ [part]) →
        c.path = join (ps ++ [part]) →
        ∀ qs, K qs → Names qs → ps ++ [part] <+: qs → qs.length ≤ (ps ++ [part]).length + n := by
      intro c part _ _ _ qs hqs hnames hstart
      have hlen := hdeep qs hqs hnames ((List.prefix_append ps [part]).trans hstart)
      rw [List.length_append, List.length_singleton]
      omega
    refine ⟨?_, ?_, ?_⟩
    · intro x hx
      obtain ⟨c, hc, hx⟩ := List.mem_flatMap.mp hx
      obtain ⟨hcin, part, hnames, hcpath⟩ := (h.mem_kids localeCompare hm hps hpath).mp hc
      obtain rfl | hx := List.mem_cons.mp hx
      · refine ⟨ps ++ [part], List.prefix_append ps [part], by simp, hnames, ⟨c, hcin, hcpath, rfl, rfl, rfl⟩,
          ?_⟩
        rw [List.dropLast_concat]
      · rw [hcpath] at hx
        obtain ⟨qs, hstart, hne, hshows⟩ := (ih hcin hnames hcpath (hbelow hcin hnames hcpath)).1 x hx
        refine ⟨qs, (List.prefix_append ps [part]).trans hstart, ?_, hshows⟩
        intro heq
        have hlen := hstart.length_le
        rw [← heq, List.length_append, List.length_singleton] at hlen
        omega
    · intro qs hqs hnames hstart hne
      obtain ⟨more, rfl⟩ := hstart
      obtain ⟨part, more, rfl⟩ := List.exists_cons_of_ne_nil
          (show more ≠ [] from fun hnil => hne (by rw [hnil]; simp))
      have hin : ps ++ [part] <+: ps ++ part :: more := ⟨more, by simp⟩
      have hpart := hnames.above hin
      obtain ⟨c, hc, hcpath⟩ := (h.known _ hpart).mpr (h.above hqs hin)
      have hkid := (h.mem_kids localeCompare hm hps hpath).mpr ⟨hc, part, hpart, hcpath⟩
      by_cases hself : ps ++ [part] = ps ++ part :: more
      · exact ⟨_, List.mem_flatMap.mpr ⟨c, hkid, List.mem_cons_self ..⟩, by rw [← hself]; exact hcpath⟩
      · obtain ⟨x, hx, hxpath⟩ := (ih hc hpart hcpath (hbelow hc hpart hcpath)).2.1 _ hqs hnames hin hself
        rw [← hcpath] at hx
        exact ⟨x, List.mem_flatMap.mpr ⟨c, hkid, List.mem_cons_of_mem _ hx⟩, hxpath⟩
    · rw [List.map_flatMap, List.nodup_flatMap]
      -- the paths at and below a child
      have hpaths : ∀ {c : MapNode} {part : String}, c ∈ byPath → Names (ps ++ [part]) →
          c.path = join (ps ++ [part]) →
          ∀ p ∈ (listed c.path (sorted localeCompare byPath n c.children)).map (·.2.path),
            ∃ qs, Names qs ∧ p = join qs ∧ ps ++ [part] <+: qs ∧ ps ++ [part] ≠ qs := by
        intro c part hcin hnames hcpath p hp
        obtain ⟨x, hx, rfl⟩ := List.mem_map.mp hp
        rw [hcpath] at hx
        obtain ⟨qs, hstart, hne, hqs, ⟨_, _, hnode, hxpath, -⟩, -⟩ :=
          (ih hcin hnames hcpath (hbelow hcin hnames hcpath)).1 x hx
        exact ⟨qs, hqs, hxpath.trans hnode, hstart, hne⟩
      refine ⟨?_, ?_⟩
      · intro c hc
        obtain ⟨hcin, part, hnames, hcpath⟩ := (h.mem_kids localeCompare hm hps hpath).mp hc
        have hrest := (ih hcin hnames hcpath (hbelow hcin hnames hcpath)).2.2
        rw [← hcpath] at hrest
        refine List.nodup_cons.mpr ⟨?_, hrest⟩
        intro hin
        obtain ⟨qs, hqs, hjoin, -, hne⟩ := hpaths hcin hnames hcpath _ hin
        exact hne ((hnames.join_inj hqs).mp (hcpath.symm.trans hjoin))
      · refine (h.kids_nodup localeCompare hm).imp_of_mem ?_
        intro c c' hc hc' hne p hp hp'
        obtain ⟨hcin, part, hnames, hcpath⟩ := (h.mem_kids localeCompare hm hps hpath).mp hc
        obtain ⟨hcin', part', hnames', hcpath'⟩ := (h.mem_kids localeCompare hm hps hpath).mp hc'
        have hat : ∀ {c : MapNode} {part : String}, c ∈ byPath → Names (ps ++ [part]) →
            c.path = join (ps ++ [part]) →
            p ∈ c.path :: (listed c.path (sorted localeCompare byPath n c.children)).map (·.2.path) →
              ∃ qs, Names qs ∧ p = join qs ∧ ps ++ [part] <+: qs := by
          intro c part hcin hnames hcpath hp
          obtain rfl | hp := List.mem_cons.mp hp
          · exact ⟨_, hnames, hcpath, List.prefix_refl _⟩
          · obtain ⟨qs, hqs, hjoin, hstart, -⟩ := hpaths hcin hnames hcpath p hp
            exact ⟨qs, hqs, hjoin, hstart⟩
        obtain ⟨qs, hqs, hjoin, hstart⟩ := hat hcin hnames hcpath (by simpa [ScopeTreeNode.path] using hp)
        obtain ⟨qs', hqs', hjoin', hstart'⟩ := hat hcin' hnames' hcpath' (by simpa [ScopeTreeNode.path] using hp')
        obtain rfl := (hqs.join_inj hqs').mp (hjoin.symm.trans hjoin')
        have hsame : ps ++ [part] = ps ++ [part'] :=
          (List.prefix_of_prefix_length_le hstart hstart' (by simp)).eq_of_length (by simp)
        exact hne (h.eq_of_path hcin hcin' (by rw [hcpath, hcpath', hsame]))

end

/-! ## The trie of the entries -/

/-- Every path is shorter than the list of nodes: each of its prefixes has one. -/
theorem Holds.length_lt {K : List String → Prop} {entries : List ScopeEntry} {byPath : List MapNode}
    (h : Holds K entries byPath) {qs : List String} (hqs : K qs) (hnames : Names qs) : qs.length < byPath.length := by
  have hinits : ((List.range (qs.length + 1)).map fun k => join (qs.take k)).Nodup := by
    refine (List.nodup_map_iff_inj_on List.nodup_range).mpr fun i hi j hj hjoin => ?_
    have hi := List.mem_range.mp hi
    have hj := List.mem_range.mp hj
    have htake := ((hnames.above (List.take_prefix i qs)).join_inj (hnames.above (List.take_prefix j qs))).mp hjoin
    have hlen := congrArg List.length htake
    rw [List.length_take, List.length_take] at hlen
    omega
  have hsubset : ((List.range (qs.length + 1)).map fun k => join (qs.take k)) ⊆ byPath.map (·.path) := by
    intro p hp
    obtain ⟨k, -, rfl⟩ := List.mem_map.mp hp
    have hstart := List.take_prefix k qs
    obtain ⟨n, hn, hpath⟩ := (h.known _ (hnames.above hstart)).mpr (h.above hqs hstart)
    exact List.mem_map.mpr ⟨n, hn, hpath⟩
  have hle := (List.subperm_of_subset hinits hsubset).length_le
  rw [List.length_map, List.length_map, List.length_range] at hle
  omega

/-- The nodes shown are those of the prefixes, each once. -/
theorem buildScopeTree_shows (localeCompare : String → String → Int) (entries : List ScopeEntry) :
    (∀ x ∈ listed "" (buildScopeTree localeCompare entries),
      ∃ qs, qs ≠ [] ∧ Shows (entries.foldl addEntry [rootNode]) qs x) ∧
    (∀ qs, Prefixes entries qs → Names qs → qs ≠ [] →
      ∃ x ∈ listed "" (buildScopeTree localeCompare entries), x.2.path = join qs) ∧
    ((listed "" (buildScopeTree localeCompare entries)).map (·.2.path)).Nodup := by
  have h := holds_entries entries
  have hnil : Names [] := fun n hn => absurd hn List.not_mem_nil
  obtain ⟨root, hroot, hpath⟩ := (h.known [] hnil).mpr h.root
  have hfind := h.find?_eq hroot (show root.path = "" from hpath)
  have hbuild : buildScopeTree localeCompare entries =
      sorted localeCompare (entries.foldl addEntry [rootNode])
        (entries.foldl addEntry [rootNode]).length root.children := by
    unfold buildScopeTree
    simp only [hfind]
  obtain ⟨hshown, hall, honce⟩ := h.listed_sorted localeCompare
      (entries.foldl addEntry [rootNode]).length hroot hnil
    hpath fun qs hqs hnames _ => by
      have hlt := h.length_lt hqs hnames
      omega
  rw [show join [] = "" from rfl] at hshown hall honce
  rw [hbuild]
  refine ⟨?_, ?_, honce⟩
  · intro x hx
    obtain ⟨qs, -, hne, hshows⟩ := hshown x hx
    exact ⟨qs, Ne.symm hne, hshows⟩
  · intro qs hqs hnames hne
    exact hall qs hqs hnames List.nil_prefix (Ne.symm hne)

section
variable (localeCompare : String → String → Int) {entries : List ScopeEntry} {x : String × ScopeTreeNode}

theorem shown_placed (hx : x ∈ listed "" (buildScopeTree localeCompare entries)) : ∃ ps, Names ps ∧ ps ≠ [] ∧
    Prefixes entries ps ∧ x.2.path = join ps ∧ x.1 = join ps.dropLast ∧ x.2.name = ps.getLastD "" := by
  have h := holds_entries entries
  obtain ⟨qs, hne, hnames, ⟨c, hc, hcpath, hxpath, hxname, -⟩, hholder⟩ :=
      (buildScopeTree_shows localeCompare entries).1 x hx
  obtain ⟨ps, hps, hps', hname⟩ := h.named c hc
  obtain rfl := (hps.join_inj hnames).mp (hps'.symm.trans hcpath)
  exact ⟨ps, hnames, hne, (h.known ps hnames).mp ⟨c, hc, hcpath⟩, hxpath.trans hcpath, hholder,
    hxname.trans hname⟩

theorem shown_entry (hx : x ∈ listed "" (buildScopeTree localeCompare entries)) :
    x.2.entry = lastAt entries x.2.path := by
  obtain ⟨qs, hne, hnames, ⟨c, hc, hcpath, hxpath, -, hxentry⟩, -⟩ :=
      (buildScopeTree_shows localeCompare entries).1 x hx
  have hnonempty : c.path ≠ "" := fun hempty => hne (hnames.join_eq_empty.mp (hcpath.symm.trans hempty))
  rw [hxentry, hxpath]
  exact (holds_entries entries).carried c hc hnonempty

theorem shown_iff {path : String} : path ∈ (listed "" (buildScopeTree localeCompare entries)).map (·.2.path) ↔
    ∃ e ∈ entries, ∃ ps, ps ≠ [] ∧ ps <+: entryParts e ∧ path = join ps := by
  refine ⟨?_, ?_⟩
  · intro hin
    obtain ⟨x, hx, rfl⟩ := List.mem_map.mp hin
    obtain ⟨ps, -, hne, hstartes, hpath, -⟩ := shown_placed localeCompare hx
    obtain hnil | ⟨e, he, hps⟩ := hstartes
    · exact absurd hnil hne
    · exact ⟨e, he, ps, hne, hps, hpath⟩
  · intro ⟨e, he, ps, hne, hps, hjoin⟩
    have hnames : Names ps := (names_partsOf _).above hps
    obtain ⟨x, hx, hxpath⟩ := (buildScopeTree_shows localeCompare entries).2.1 ps (.inr ⟨e, he, hps⟩) hnames hne
    exact List.mem_map.mpr ⟨x, hx, hxpath.trans hjoin.symm⟩

end

/-- A forest with one node for each non-empty prefix of the entries' paths, below that of its
parent and with the entry listed last for it. -/
structure IsTrie (entries : List ScopeEntry) (forest : List ScopeTreeNode) : Prop where
  nodes : ∀ path, path ∈ (listed "" forest).map (·.2.path) ↔
    ∃ e ∈ entries, ∃ ps, ps ≠ [] ∧ ps <+: entryParts e ∧ path = join ps
  once : ((listed "" forest).map (·.2.path)).Nodup
  placed : ∀ x ∈ listed "" forest,
    ∃ ps, Names ps ∧ ps ≠ [] ∧ x.2.path = join ps ∧ x.1 = join ps.dropLast ∧ x.2.name = ps.getLastD ""
  carried : ∀ x ∈ listed "" forest, x.2.entry = lastAt entries x.2.path

/-- In whatever order the entries come, parents before their children or after, missing or
listed twice, the tree is their trie. -/
theorem buildScopeTree_isTrie (localeCompare : String → String → Int) (entries : List ScopeEntry) :
    IsTrie entries (buildScopeTree localeCompare entries) := by
  refine ⟨fun path => shown_iff localeCompare, (buildScopeTree_shows localeCompare entries).2.2, ?_,
    fun x hx => shown_entry localeCompare hx⟩
  intro x hx
  obtain ⟨ps, hnames, hne, -, hpath, hholder, hname⟩ := shown_placed localeCompare hx
  exact ⟨ps, hnames, hne, hpath, hholder, hname⟩

end AppBackup.Web
