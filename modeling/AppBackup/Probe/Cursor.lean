import AppBackup.Lib.Pagination
import AppBackup.Lib.Quote
import AppBackup.Probe.Partition
import AppBackup.Probe.Scope
import Mathlib.Data.Prod.Lex

/- The pages of the range picker (`probe/probe.go`, `ScopeCatalog`). Every page scans the
   tree anew and collects its entries in a map, whose order is not fixed; the cursor holds
   the path and type of the last item, the path quoted, behind a hash of the deploy id and
   the query. Paths, deploy ids and queries are texts of bytes.

   What is proved:
     1. `catalogItems_eq` -- the items of a page are the planned entries that match, in order,
        whatever the order of the map;
     2. `decodeScopeCursor_encodeScopeCursor` -- a cursor is read back for every path of bytes;
     3. `follow_catalogued`, with `decodeScopeCursor_other` for foreign cursors: this is
        `scope_catalog_paginated`. -/
namespace AppBackup.Probe.Cursor
open Base64 Bytes Path

/-- The tables and the hash of the standard library. -/
structure Library where
  lower : String → String
  printable : Nat → Bool
  sha256 : List Byte → List Byte

inductive CursorFault where
  | encoding
  | shape
  | path

inductive CatalogError where
  | probe (e : ProbeError)
  | invalidCursor (fault : CursorFault)

/-- `domain.BackupScopeCatalog`. -/
structure BackupScopeCatalog where
  items : List ScopeEntry
  nextCursor : String

variable (lib : Library)

/-- What `scopeCursorBinding` hashes. -/
def bindingText (deployId query : String) : List Byte :=
  utf8 "mimi-scope-cursor-v2" ++ 0 :: (ofText deployId ++ 0 :: ofText query)

def scopeCursorBinding (deployId query : String) : String := encode (lib.sha256 (bindingText deployId query))

def encodeScopeCursor (scope path type : String) : String :=
  encode (utf8 scope ++ 0 :: (Quote.quote lib.printable (ofText path) ++ 0 :: ofText type))

def decodeScopeCursor (value scope : String) : Except CursorFault (String × String) :=
  if value = "" then .ok ("", "")
  else
    match decode value with
    | none => .error .encoding
    | some decoded =>
      match decoded.splitOn 0 with
      | [first, path, type] =>
        if first = utf8 scope ∧ (type = ofText "directory" ∨ type = ofText "file") then
          match Quote.unquote path with
          | none => .error .path
          | some path => if path = [] then .error .path else .ok (toText path, toText type)
        else .error .shape
      | _ => .error .shape

/-- The query as it is compared and bound. -/
def normalise (query : String) : String := lib.lower (toText (Utf8.trimSpace (ofText query)))

/-- A page of the catalog; `visit` is the order in which the map is ranged over. -/
def scopeCatalog (visit : List ScopeEntry → List ScopeEntry) (tree : SourceTree) (deployId : String)
    (multiInstance : Bool) (query cursor : String) (limit : Int) : Except CatalogError BackupScopeCatalog :=
  let query := normalise lib query
  match buildPlan lib.lower tree multiInstance with
  | .error e => .error (.probe e)
  | .ok plan =>
    let cursorScope := scopeCursorBinding lib deployId query
    match decodeScopeCursor cursor cursorScope with
    | .error fault => .error (.invalidCursor fault)
    | .ok after =>
      let items := (visit (catalogItems lib.lower plan query)).filter
        (followsItem (if cursor = "" then none else some after))
      let page := cutCatalog limit items
      .ok ⟨page.items, match page.nextAfter with
        | none => ""
        | some (path, type) => encodeScopeCursor lib cursorScope path type⟩

/-- The first `n` pages from a cursor on, and whether the last of them has no next one. -/
def follow (call : Nat → String → Except CatalogError BackupScopeCatalog) :
    Nat → Nat → String → Except CatalogError (List ScopeEntry × Bool)
  | 0, _, _ => .ok ([], false)
  | n + 1, k, cursor =>
    match call k cursor with
    | .error e => .error e
    | .ok page =>
      if page.nextCursor = "" then .ok (page.items, true)
      else
        match follow call n (k + 1) page.nextCursor with
        | .error e => .error e
        | .ok (items, ended) => .ok (page.items ++ items, ended)

/-! ## What is offered -/

/-- The path of an entry has the query in it. -/
def matching (lower : String → String) (query : String) (e : Entry) : Bool := Text.contains (lower e.relative) query

def offer (type : String) (sqlite : Bool) (e : Entry) : ScopeEntry := ⟨e.relative, type, e.size, sqlite, true⟩

/-- The items of a plan are those of its entries whose path has the query in it, each once
and in strictly increasing order of path and type; the databases are marked. -/
structure Catalogued (lower : String → String) (plan : Plan) (query : String) (items : List ScopeEntry) : Prop where
  directories : ∀ e ∈ plan.directories, matching lower query e = true → offer "directory" false e ∈ items
  files : ∀ e ∈ plan.files, matching lower query e = true → offer "file" false e ∈ items
  sqlite : ∀ e ∈ plan.sqlite, matching lower query e = true → offer "file" true e ∈ items
  planned : ∀ i ∈ items, (∃ e ∈ plan.directories, matching lower query e = true ∧
    i = offer "directory" false e) ∨
    (∃ e ∈ plan.files, matching lower query e = true ∧ i = offer "file" false e) ∨
      ∃ e ∈ plan.sqlite, matching lower query e = true ∧ i = offer "file" true e
  increasing : items.Pairwise fun i i' => i.path < i'.path ∨ (i.path = i'.path ∧ i.type < i'.type)
  once : (items.map fun i => (i.path, i.type)).Nodup

section
variable {lower : String → String} {query type : String} {sqlite : Bool}

/-- An entry that is not there yet comes last. -/
theorem appendEntry_fresh {items : List ScopeEntry} {e : Entry}
    (h : ∀ i ∈ items, i.path ≠ e.relative ∨ i.type ≠ type) :
    appendEntry lower query type sqlite items e =
      if matching lower query e = true then items ++ [offer type sqlite e] else items := by
  have hempty : query = "" → matching lower query e = true := by
    intro hq
    unfold matching
    rw [Text.contains_iff, hq]
    exact List.nil_infix
  have hnone : items.find? (fun i => i.path == e.relative && i.type == type) = none := by
    rw [List.find?_eq_none]
    intro i hi
    obtain hpath | htype := h i hi
    · simp [hpath]
    · simp [htype]
  unfold appendEntry
  by_cases hmatch : matching lower query e = true
  · have hkeep : ¬(query ≠ "" ∧ Text.contains (lower e.relative) query = false) := by
      intro hskip
      rw [show Text.contains (lower e.relative) query = true from hmatch] at hskip
      cases hskip.2
    rw [if_pos hmatch, if_neg hkeep]
    simp only [hnone]
    rfl
  · rw [if_neg hmatch, if_pos]
    exact ⟨fun hq => hmatch (hempty hq), by simpa [matching] using hmatch⟩

theorem foldl_appendEntry {entries : List Entry} (hnodup : (entries.map (·.relative)).Nodup) (items : List ScopeEntry)
    (h : ∀ e ∈ entries, ∀ i ∈ items, i.path ≠ e.relative ∨ i.type ≠ type) :
    entries.foldl (appendEntry lower query type sqlite) items =
      items ++ (entries.filter (matching lower query)).map (offer type sqlite) := by
  induction entries generalizing items with
  | nil => simp
  | cons e entries ih =>
    obtain ⟨hnew, hnodup⟩ := List.nodup_cons.mp hnodup
    have hnext : ∀ e' ∈ entries, ∀ i ∈ items ++ [offer type sqlite e], i.path ≠ e'.relative ∨
        i.type ≠ type := by
      intro e' he' i hi
      obtain hi | hi := List.mem_append.mp hi
      · exact h e' (List.mem_cons_of_mem _ he') i hi
      · rw [List.mem_singleton.mp hi]
        left
        intro hsame
        exact hnew (List.mem_map.mpr ⟨e', he', Eq.symm hsame⟩)
    rw [List.foldl_cons, appendEntry_fresh (h e (List.mem_cons_self ..)), List.filter_cons]
    by_cases hmatch : matching lower query e = true
    · rw [if_pos hmatch, if_pos hmatch, ih hnodup _ hnext, List.map_cons, List.append_assoc, List.singleton_append]
    · rw [if_neg hmatch, if_neg hmatch]
      exact ih hnodup items fun e' he' => h e' (List.mem_cons_of_mem _ he')

end

section
variable {lower : String → String} {query : String} {tree : SourceTree} {multiInstance : Bool} {plan : Plan}

theorem buildPlan_relative_nodup (h : buildPlan lower tree multiInstance = .ok plan) :
    ((plan.directories ++ (plan.files ++ plan.sqlite)).map (·.relative)).Nodup := by
  have honce := (buildPlan_partitioned h).once
  apply List.Nodup.map_on ?_ honce.of_map
  intro e he e' he' hrel
  exact List.inj_on_of_nodup_map honce he he' ((buildPlan_named h he).path_eq (buildPlan_named h he') hrel)

/-- The map of the catalog, entry by entry. -/
theorem catalogItems_eq (h : buildPlan lower tree multiInstance = .ok plan) :
    catalogItems lower plan query =
      (plan.directories.filter (matching lower query)).map (offer "directory" false) ++
        (plan.files.filter (matching lower query)).map (offer "file" false) ++
          (plan.sqlite.filter (matching lower query)).map (offer "file" true) := by
  have hnodup := buildPlan_relative_nodup h
  rw [List.map_append, List.map_append] at hnodup
  obtain ⟨hdirectories, hfiles, -⟩ := List.nodup_append.mp hnodup
  obtain ⟨hfiles, hsqlite, hdisjoint⟩ := List.nodup_append.mp hfiles
  have hdirectory : ∀ i ∈ (plan.directories.filter (matching lower query)).map (offer "directory" false),
      i.type ≠ "file" := by
    intro i hi
    obtain ⟨e, -, rfl⟩ := List.mem_map.mp hi
    show "directory" ≠ "file"
    decide
  unfold catalogItems
  simp only
  rw [foldl_appendEntry hdirectories [] (fun _ _ i hi => absurd hi List.not_mem_nil), List.nil_append,
    foldl_appendEntry hfiles _ (fun _ _ i hi => .inr (hdirectory i hi)), foldl_appendEntry hsqlite]
  intro e he i hi
  obtain hi | hi := List.mem_append.mp hi
  · exact .inr (hdirectory i hi)
  · obtain ⟨f, hf, rfl⟩ := List.mem_map.mp hi
    exact .inl (hdisjoint _ (List.mem_map_of_mem (List.mem_filter.mp hf).1) _ (List.mem_map_of_mem he))

/-- A place in the catalog: a path and a type. -/
abbrev Place := String ×ₗ String

def place (i : ScopeEntry) : Place := toLex (i.path, i.type)

theorem place_lt {i i' : ScopeEntry} :
    place i < place i' ↔ i.path < i'.path ∨ (i.path = i'.path ∧ i.type < i'.type) :=
  Prod.Lex.toLex_lt_toLex

theorem catalogBefore_iff {i i' : ScopeEntry} : catalogBefore i i' ↔ place i ≤ place i' := by
  have hle : place i ≤ place i' ↔ i.path < i'.path ∨ (i.path = i'.path ∧ i.type ≤ i'.type) :=
    Prod.Lex.toLex_le_toLex
  exact hle.symm

theorem mem_catalogItems (h : buildPlan lower tree multiInstance = .ok plan) {i : ScopeEntry} :
    i ∈ catalogItems lower plan query ↔
      (∃ e ∈ plan.directories, matching lower query e = true ∧ i = offer "directory" false e) ∨
        (∃ e ∈ plan.files, matching lower query e = true ∧ i = offer "file" false e) ∨
          ∃ e ∈ plan.sqlite, matching lower query e = true ∧ i = offer "file" true e := by
  rw [catalogItems_eq h]
  simp only [List.mem_append, List.mem_map, List.mem_filter, or_assoc, and_assoc, eq_comm (a := i)]

theorem catalogItems_distinct (h : buildPlan lower tree multiInstance = .ok plan) :
    (catalogItems lower plan query).Pairwise fun i i' => place i ≠ place i' := by
  have hpaths : ((catalogItems lower plan query).map (·.path)).Nodup := by
    have hsub : ((catalogItems lower plan query).map (·.path)).Sublist
        ((plan.directories ++ (plan.files ++ plan.sqlite)).map (·.relative)) := by
      have hpart : ∀ (type : String) (sqlite : Bool) (entries : List Entry),
          (((entries.filter (matching lower query)).map (offer type sqlite)).map (·.path)).Sublist
            (entries.map (·.relative)) := by
        intro type sqlite entries
        rw [List.map_map]
        exact List.filter_sublist.map _
      rw [catalogItems_eq h, List.append_assoc, List.map_append, List.map_append, List.map_append, List.map_append]
      exact (hpart _ _ _).append ((hpart _ _ _).append (hpart _ _ _))
    exact (buildPlan_relative_nodup h).sublist hsub
  rw [List.nodup_iff_pairwise_ne, List.pairwise_map] at hpaths
  refine hpaths.imp ?_
  intro i i' hne he
  have hpath : (ofLex (place i)).1 = (ofLex (place i')).1 := by rw [he]
  exact hne hpath

/-- All the pages together, read from the map in whatever order. -/
theorem catalogued (h : buildPlan lower tree multiInstance = .ok plan) {items : List ScopeEntry}
    (hmem : ∀ i, i ∈ items ↔ i ∈ catalogItems lower plan query)
    (hsorted : items.Pairwise fun i i' => place i < place i') : Catalogued lower plan query items := by
  refine ⟨?_, ?_, ?_, ?_, hsorted.imp place_lt.mp, ?_⟩
  · intro e he hmatch
    exact (hmem _).mpr ((mem_catalogItems h).mpr (.inl ⟨e, he, hmatch, rfl⟩))
  · intro e he hmatch
    exact (hmem _).mpr ((mem_catalogItems h).mpr (.inr (.inl ⟨e, he, hmatch, rfl⟩)))
  · intro e he hmatch
    exact (hmem _).mpr ((mem_catalogItems h).mpr (.inr (.inr ⟨e, he, hmatch, rfl⟩)))
  · intro i hi
    exact (mem_catalogItems h).mp ((hmem i).mp hi)
  · rw [List.nodup_iff_pairwise_ne, List.pairwise_map]
    refine hsorted.imp ?_
    intro i i' hlt heq
    rw [show place i = place i' from congrArg toLex heq] at hlt
    exact lt_irrefl _ hlt

end

/-! ## The cursor -/

section
variable {lib : Library}

theorem encodeScopeCursor_ne_empty (scope path type : String) : encodeScopeCursor lib scope path type ≠ "" :=
  encode_ne_empty (by simp)

/-- A type an item has. -/
def ItemType (type : String) : Prop := type = "directory" ∨ type = "file"

theorem itemType_bytes {type : String} (h : ItemType type) : IsBytes type ∧ 0 ∉ ofText type := by
  obtain rfl | rfl := h
  · exact ⟨by decide, by decide⟩
  · exact ⟨by decide, by decide⟩

/-- A cursor gives back the path and the type it was made from. -/
theorem decodeScopeCursor_encodeScopeCursor {scope path type : String} (hscope : 0 ∉ utf8 scope)
    (hpath : IsBytes path) (hne : path ≠ "") (htype : ItemType type) :
    decodeScopeCursor (encodeScopeCursor lib scope path type) scope = .ok (path, type) := by
  obtain ⟨htypeBytes, htypeNul⟩ := itemType_bytes htype
  have hsplit : (utf8 scope ++ 0 :: (Quote.quote lib.printable (ofText path) ++ 0 :: ofText type)).splitOn 0 =
      [utf8 scope, Quote.quote lib.printable (ofText path), ofText type] := by
    rw [List.splitOn_append_cons_self_of_not_mem hscope,
      List.splitOn_append_cons_self_of_not_mem (Quote.nul_notMem_quote _ _), List.splitOn_eq_singleton htypeNul]
  have htypes : ofText type = ofText "directory" ∨ ofText type = ofText "file" :=
    htype.imp (congrArg ofText) (congrArg ofText)
  unfold decodeScopeCursor
  rw [if_neg (encodeScopeCursor_ne_empty scope path type)]
  unfold encodeScopeCursor
  rw [decode_encode]
  simp only [hsplit]
  rw [if_pos ⟨trivial, htypes⟩, Quote.unquote_quote]
  simp only
  rw [if_neg fun hnil => hne (ofText_eq_nil.mp hnil), toText_ofText hpath, toText_ofText htypeBytes]

/-- A cursor made under another binding is refused. -/
theorem decodeScopeCursor_other {scope scope' : String} (hscope : 0 ∉ utf8 scope) (hne : scope ≠ scope')
    (path type : String) :
    decodeScopeCursor (encodeScopeCursor lib scope path type) scope' = .error .shape := by
  have hfirst : utf8 scope ≠ utf8 scope' := fun h => hne (utf8_injective h)
  unfold decodeScopeCursor
  rw [if_neg (encodeScopeCursor_ne_empty scope path type)]
  unfold encodeScopeCursor
  rw [decode_encode]
  simp only [List.splitOn_append_cons_self_of_not_mem hscope]
  generalize (Quote.quote lib.printable (ofText path) ++ 0 :: ofText type).splitOn 0 = parts
  match parts with
  | [] => rfl
  | [_] => rfl
  | [_, _] => exact if_neg fun h => hfirst h.1
  | _ :: _ :: _ :: _ => rfl

theorem nul_notMem_scopeCursorBinding (deployId query : String) :
    0 ∉ utf8 (scopeCursorBinding lib deployId query) :=
  nul_notMem_encode _

/-- The hash tells the two bindings apart. -/
def CollisionFree (lib : Library) (deployId query deployId' query' : String) : Prop :=
  lib.sha256 (bindingText deployId query) = lib.sha256 (bindingText deployId' query') →
    bindingText deployId query = bindingText deployId' query'

theorem bindingText_inj {deployId query deployId' query' : String} (hnul : 0 ∉ ofText deployId)
    (hnul' : 0 ∉ ofText deployId') (h : bindingText deployId query = bindingText deployId' query') :
    ofText deployId = ofText deployId' ∧ ofText query = ofText query' := by
  have hrest := (List.cons.inj (List.append_cancel_left h)).2
  have hsplit := congrArg (List.splitOn 0) hrest
  rw [List.splitOn_append_cons_self_of_not_mem hnul, List.splitOn_append_cons_self_of_not_mem hnul'] at hsplit
  have hdeploy := (List.cons.inj hsplit).1
  rw [hdeploy] at hrest
  exact ⟨hdeploy, (List.cons.inj (List.append_cancel_left hrest)).2⟩

theorem scopeCursorBinding_ne {deployId query deployId' query' : String} (hnul : 0 ∉ ofText deployId)
    (hnul' : 0 ∉ ofText deployId') (hfree : CollisionFree lib deployId query deployId' query')
    (hother : ofText deployId ≠ ofText deployId' ∨ ofText query ≠ ofText query') :
    scopeCursorBinding lib deployId query ≠ scopeCursorBinding lib deployId' query' := by
  intro h
  have hdecode := congrArg decode h
  unfold scopeCursorBinding at hdecode
  rw [decode_encode, decode_encode] at hdecode
  obtain ⟨hdeploy, hquery⟩ := bindingText_inj hnul hnul' (hfree (Option.some.inj hdecode))
  obtain hne | hne := hother
  · exact hne hdeploy
  · exact hne hquery

end

/-! ## Pages -/

section
variable {lib : Library} {tree : SourceTree} {multiInstance : Bool} {plan : Plan} {deployId query : String}

/-- A page's limit. -/
def limitOf (limit : Int) : Nat := if limit ≤ 0 ∨ 200 < limit then 200 else limit.toNat

theorem limitOf_pos (limit : Int) : 0 < limitOf limit := by
  unfold limitOf
  split_ifs with h
  · decide
  · omega

/-- What a cursor stands for: the empty one for none, one made from a path and a type for them. -/
def CursorFor (lib : Library) (scope cursor : String) : Option Place → Prop
  | none => cursor = ""
  | some c => ∃ path type, IsBytes path ∧ path ≠ "" ∧ ItemType type ∧
      cursor = encodeScopeCursor lib scope path type ∧ c = toLex (path, type)

theorem followsItem_none (i : ScopeEntry) : followsItem none i = true := rfl

theorem followsItem_some (path type : String) (i : ScopeEntry) :
    followsItem (some (path, type)) i = decide (toLex (path, type) < place i) := by
  rw [Bool.eq_iff_iff, decide_eq_true_iff, place, Prod.Lex.toLex_lt_toLex]
  show (!(decide (i.path < path) || (i.path == path && decide (i.type ≤ type)))) = true ↔
    path < i.path ∨ (path = i.path ∧ type < i.type)
  simp only [Bool.not_eq_true', Bool.or_eq_false_iff, decide_eq_false_iff_not, Bool.and_eq_false_iff,
    beq_eq_false_iff_ne, not_lt, not_le]
  refine ⟨?_, ?_⟩
  · intro h
    obtain hlt | heq := lt_or_eq_of_le h.1
    · exact .inl hlt
    · exact .inr ⟨heq, h.2.resolve_left fun hne => hne heq.symm⟩
  · intro h
    obtain hlt | ⟨heq, htype⟩ := h
    · exact ⟨hlt.le, .inl hlt.ne'⟩
    · exact ⟨heq.le, .inr htype⟩

/-- The items behind a cursor, sorted, whatever the order they are ranged over. -/
theorem sorted_items {rows : List ScopeEntry} (hkeys : rows.Pairwise fun i i' => place i ≠ place i')
    {items : List ScopeEntry} (hperm : items.Perm rows) {follows : ScopeEntry → Bool} {c : Option Place}
    (hfollows : ∀ i, follows i = true ↔ ∀ p, c = some p → p < place i) :
    (items.filter follows).insertionSort catalogBefore = Pagination.above place c (Pagination.orderBy place rows) := by
  have hsame : Pagination.above place c (Pagination.orderBy place rows) =
      (Pagination.orderBy place rows).filter follows := by
    refine List.filter_congr fun i _ => ?_
    rw [Bool.eq_iff_iff, hfollows]
    cases c with
    | none => simp
    | some p => simp
  have htotal : Std.Total catalogBefore :=
    ⟨fun i i' => (le_total (place i) (place i')).imp catalogBefore_iff.mpr catalogBefore_iff.mpr⟩
  have htrans : IsTrans ScopeEntry catalogBefore :=
    ⟨fun _ _ _ h h' => catalogBefore_iff.mpr (le_trans (catalogBefore_iff.mp h) (catalogBefore_iff.mp h'))⟩
  have hitems : (items.filter follows).Pairwise fun i i' => place i ≠ place i' :=
    ((hperm.pairwise_iff Ne.symm).mpr hkeys).sublist List.filter_sublist
  have hsort := List.perm_insertionSort catalogBefore (items.filter follows)
  rw [hsame]
  refine @Pagination.eq_of_perm_of_lt _ _ _ place _ _ ?_ ?_ ((Pagination.orderBy_lt hkeys).sublist List.filter_sublist)
  · exact hsort.trans ((hperm.trans (Pagination.orderBy_perm place rows).symm).filter follows)
  · have hle := List.pairwise_insertionSort catalogBefore (items.filter follows)
    have hne := (hsort.pairwise_iff Ne.symm).mpr hitems
    exact (hle.and hne).imp fun both => lt_of_le_of_ne (catalogBefore_iff.mp both.1) both.2

theorem cutCatalog_last {items sorted : List ScopeEntry} {limit : Int}
    (hsorted : items.insertionSort catalogBefore = sorted) (h : sorted.length ≤ limitOf limit) :
    cutCatalog limit items = ⟨sorted, none⟩ := by
  subst hsorted
  exact if_neg (not_lt.mpr h)

theorem cutCatalog_more {items sorted : List ScopeEntry} {limit : Int}
    (hsorted : items.insertionSort catalogBefore = sorted) (h : limitOf limit < sorted.length) :
    cutCatalog limit items = ⟨sorted.take (limitOf limit),
      sorted[limitOf limit - 1]?.map fun last => (last.path, last.type)⟩ := by
  subst hsorted
  exact if_pos h

/-- A page of the catalog with its cursor. -/
def pageOf (lib : Library) (scope : String) : List ScopeEntry × Option ScopeEntry → BackupScopeCatalog
  | (items, none) => ⟨items, ""⟩
  | (items, some last) => ⟨items, encodeScopeCursor lib scope last.path last.type⟩

theorem scopeCatalog_page (hplan : buildPlan lib.lower tree multiInstance = .ok plan)
    {visit : List ScopeEntry → List ScopeEntry} (hvisit : ∀ items, (visit items).Perm items) {cursor : String}
    {c : Option Place} (hc : CursorFor lib (scopeCursorBinding lib deployId (normalise lib query)) cursor c)
    (limit : Int) :
    scopeCatalog lib visit tree deployId multiInstance query cursor limit =
      .ok (pageOf lib (scopeCursorBinding lib deployId (normalise lib query))
        (Pagination.page place (Pagination.orderBy place (catalogItems lib.lower plan (normalise lib query)))
          (limitOf limit) c)) := by
  set scope := scopeCursorBinding lib deployId (normalise lib query) with hscope
  obtain ⟨after, hafter, hfollows⟩ : ∃ after, decodeScopeCursor cursor scope = .ok after ∧
      ∀ i, followsItem (if cursor = "" then none else some after) i = true ↔ ∀ p, c = some p → p < place i := by
    cases c with
    | none =>
      obtain rfl : cursor = "" := hc
      exact ⟨("", ""), rfl, fun i => by simp [followsItem_none]⟩
    | some c =>
      obtain ⟨path, type, hpath, hne, htype, rfl, rfl⟩ := hc
      refine ⟨(path, type), decodeScopeCursor_encodeScopeCursor (nul_notMem_scopeCursorBinding _ _) hpath hne htype,
        ?_⟩
      intro i
      rw [if_neg (encodeScopeCursor_ne_empty scope path type), followsItem_some]
      simp
  have hkeys : (catalogItems lib.lower plan (normalise lib query)).Pairwise fun i i' => place i ≠ place i' :=
    catalogItems_distinct hplan
  have hsorted := sorted_items hkeys (hvisit _) hfollows
  unfold scopeCatalog
  simp only [hplan, ← hscope, hafter]
  by_cases hfit : (Pagination.above place c (Pagination.orderBy place
      (catalogItems lib.lower plan (normalise lib query)))).length ≤ limitOf limit
  · rw [Pagination.page_last hfit, cutCatalog_last hsorted hfit]
    rfl
  · have hmore := not_le.mp hfit
    have hlimit := limitOf_pos limit
    rw [Pagination.page_more hmore, cutCatalog_more hsorted hmore, List.getElem?_eq_getElem (by omega)]
    rfl

/-- No cursor of a walk is refused, and its pages are those of the sorted catalog. -/
theorem follow_eq (hplan : buildPlan lib.lower tree multiInstance = .ok plan)
    (hbytes : ∀ i ∈ catalogItems lib.lower plan (normalise lib query), IsBytes i.path ∧ i.path ≠ "" ∧
      ItemType i.type)
    {visits : Nat → List ScopeEntry → List ScopeEntry} (hvisits : ∀ k items, (visits k items).Perm items)
    (limits : Nat → Int) (n : Nat) : ∀ (k : Nat) {cursor : String} {c : Option Place},
      CursorFor lib (scopeCursorBinding lib deployId (normalise lib query)) cursor c →
        follow (fun k cursor => scopeCatalog lib (visits k) tree deployId multiInstance query cursor (limits k))
            n k cursor =
          .ok (Pagination.walk place (fun _ => catalogItems lib.lower plan (normalise lib query))
            (fun k => limitOf (limits k)) n k c) := by
  induction n with
  | zero =>
    intro k cursor c _
    rfl
  | succ n ih =>
    intro k cursor c hc
    rw [follow, Pagination.walk]
    simp only [scopeCatalog_page hplan (hvisits k) hc]
    obtain hpage | ⟨items, last, rest, hpage, -, hsplit⟩ := Pagination.page_split place
      (Pagination.orderBy place (catalogItems lib.lower plan (normalise lib query))) (limitOf_pos (limits k)) c
    · rw [hpage]
      rfl
    · have hlast : last ∈ catalogItems lib.lower plan (normalise lib query) := by
        have hmem : last ∈ Pagination.above place c
            (Pagination.orderBy place (catalogItems lib.lower plan (normalise lib query))) := by
          rw [hsplit]
          simp
        exact (Pagination.orderBy_perm place _).mem_iff.mp (Pagination.mem_above.mp hmem).1
      obtain ⟨hpath, hne, htype⟩ := hbytes last hlast
      have hmore := ih (k + 1) (c := some (place last)) ⟨last.path, last.type, hpath, hne, htype, rfl, rfl⟩
      rw [hpage]
      show (if encodeScopeCursor lib _ last.path last.type = "" then _ else _) = _
      rw [if_neg (encodeScopeCursor_ne_empty _ _ _)]
      show (match follow _ n (k + 1) (encodeScopeCursor lib _ last.path last.type) with
        | Except.error e => Except.error e
        | Except.ok (more, ended) => Except.ok ((items ++ [last]) ++ more, ended)) = _
      rw [hmore]

/-- A tree whose names are texts of bytes, as those of a file system are. -/
structure ByteTree extends SourceTree where
  bytes : ∀ found ∈ listing.walk [], ∀ name ∈ found.1, IsBytes name

theorem isBytes_join {names : List String} (h : ∀ name ∈ names, IsBytes name) : IsBytes (join names) := by
  induction names with
  | nil => exact fun c hc => absurd hc (by simp [toList_join])
  | cons name rest ih =>
    have hname := h name (List.mem_cons_self ..)
    cases rest with
    | nil =>
      rw [join_singleton]
      exact hname
    | cons next rest =>
      rw [join_cons_cons]
      exact isBytes_append (isBytes_append hname (by decide)) (ih fun n hn => h n (List.mem_cons_of_mem _ hn))

/-- The path of a planned entry is a text of bytes, and not empty. -/
theorem ByteTree.relative_bytes (tree : ByteTree)
    (hplan : buildPlan lib.lower tree.toSourceTree multiInstance = .ok plan)
    {e : Entry} (he : e ∈ plan.directories ++ (plan.files ++ plan.sqlite)) :
    IsBytes e.relative ∧ e.relative ≠ "" := by
  obtain ⟨hne, hproper, hrel⟩ := buildPlan_named hplan he
  have hparts := buildPlan_partitioned hplan
  obtain ⟨found, hfound, hpath⟩ : ∃ found ∈ tree.listing.walk [], e.path = found.1 := by
    obtain he | he := List.mem_append.mp he
    · obtain ⟨found, hfound, he⟩ := (hparts.directories e).mp he
      exact ⟨found, hfound, congrArg Entry.path (directoryEntry_eq_some he).1⟩
    · obtain he | he := List.mem_append.mp he
      · obtain ⟨found, hfound, he, -⟩ := (hparts.files e).mp he
        exact ⟨found, hfound, (regularEntry_path he).1⟩
      · obtain ⟨found, hfound, he, -⟩ := (hparts.sqlite e).mp he
        exact ⟨found, hfound, (regularEntry_path he).1⟩
  rw [hrel]
  refine ⟨isBytes_join ?_, join_ne_empty hne fun n hn => (hproper n hn).1⟩
  rw [hpath]
  exact tree.bytes found hfound

theorem ByteTree.items_bytes (tree : ByteTree)
    (hplan : buildPlan lib.lower tree.toSourceTree multiInstance = .ok plan) :
    ∀ i ∈ catalogItems lib.lower plan query, IsBytes i.path ∧ i.path ≠ "" ∧ ItemType i.type := by
  intro i hi
  obtain ⟨e, he, -, rfl⟩ | ⟨e, he, -, rfl⟩ | ⟨e, he, -, rfl⟩ := (mem_catalogItems hplan).mp hi
  · obtain ⟨hbytes, hne⟩ := tree.relative_bytes hplan (List.mem_append_left _ he)
    exact ⟨hbytes, hne, .inl rfl⟩
  · obtain ⟨hbytes, hne⟩ := tree.relative_bytes hplan (List.mem_append_right _ (List.mem_append_left _ he))
    exact ⟨hbytes, hne, .inr rfl⟩
  · obtain ⟨hbytes, hne⟩ := tree.relative_bytes hplan (List.mem_append_right _ (List.mem_append_right _ he))
    exact ⟨hbytes, hne, .inr rfl⟩

/-- Followed from the empty cursor, the pages come to an end and are the catalog. -/
theorem follow_catalogued (tree : ByteTree) (hplan : buildPlan lib.lower tree.toSourceTree multiInstance = .ok plan)
    {visits : Nat → List ScopeEntry → List ScopeEntry} (hvisits : ∀ k items, (visits k items).Perm items)
    (limits : Nat → Int) :
    ∃ n items, follow (fun k cursor =>
        scopeCatalog lib (visits k) tree.toSourceTree deployId multiInstance query cursor (limits k)) n 0 "" =
          .ok (items, true) ∧ Catalogued lib.lower plan (normalise lib query) items := by
  have hlimits : ∀ k, 0 < limitOf (limits k) := fun k => limitOf_pos (limits k)
  have hkeys : (catalogItems lib.lower plan (normalise lib query)).Pairwise fun i i' => place i ≠ place i' :=
    catalogItems_distinct hplan
  obtain ⟨n, hn⟩ := Pagination.walk_ends hlimits (fun _ => hkeys) (fun _ => rfl) _ 0 none (Nat.le_refl _)
  have hfollow : follow (fun k cursor =>
      scopeCatalog lib (visits k) tree.toSourceTree deployId multiInstance query cursor (limits k)) n 0 "" =
        .ok (Pagination.walk place (fun _ => catalogItems lib.lower plan (normalise lib query))
          (fun k => limitOf (limits k)) n 0 none) :=
    follow_eq hplan (tree.items_bytes hplan) hvisits limits n 0 rfl
  have hmem : ∀ i ∈ (Pagination.walk place (fun _ => catalogItems lib.lower plan (normalise lib query))
      (fun k => limitOf (limits k)) n 0 none).1, ∃ k < n, i ∈ catalogItems lib.lower plan (normalise lib query) :=
    Pagination.walk_mem hlimits n 0 none
  have hsorted := (Pagination.walk_sorted hlimits (fun _ => hkeys) n 0 none).1
  have hcomplete := Pagination.walk_complete hlimits (fun _ => hkeys) n 0 none
  revert hn hfollow hmem hsorted hcomplete
  generalize Pagination.walk place (fun _ => catalogItems lib.lower plan (normalise lib query))
    (fun k => limitOf (limits k)) n 0 none = walk
  obtain ⟨items, ended⟩ := walk
  intro hn hfollow hmem hsorted hcomplete
  obtain rfl : ended = true := hn
  refine ⟨n, items, hfollow, catalogued hplan ?_ hsorted⟩
  intro i
  refine ⟨?_, ?_⟩
  · intro hi
    obtain ⟨_, -, hrow⟩ := hmem i hi
    exact hrow
  · intro hi
    obtain ⟨i', hi', hplace⟩ := hcomplete (place i) rfl (fun _ h => by cases h) fun _ _ => ⟨i, hi, rfl⟩
    have hrow : i' ∈ catalogItems lib.lower plan (normalise lib query) := by
      obtain ⟨_, -, hrow⟩ := hmem i' hi'
      exact hrow
    have hnodup : ((catalogItems lib.lower plan (normalise lib query)).map place).Nodup := by
      rw [List.nodup_iff_pairwise_ne, List.pairwise_map]
      exact hkeys
    exact List.inj_on_of_nodup_map hnodup hrow hi hplace ▸ hi'

end

/-- The pages of the range picker: over a tree that stays as it is they come to an end
whatever their limits are, and are the planned entries that match, in order and each once; a
cursor is read back for every path of a file system; and one issued for another deploy or
another query is refused. -/
theorem scope_catalog_paginated (lib : Library) (tree : ByteTree) (deployId query : String) (multiInstance : Bool)
    {plan : Plan} (hplan : buildPlan lib.lower tree.toSourceTree multiInstance = .ok plan)
    (visits : Nat → List ScopeEntry → List ScopeEntry) (hvisits : ∀ k items, (visits k items).Perm items)
    (limits : Nat → Int) :
    (∃ n items, follow (fun k cursor =>
        scopeCatalog lib (visits k) tree.toSourceTree deployId multiInstance query cursor (limits k)) n 0 "" =
          .ok (items, true) ∧ Catalogued lib.lower plan (normalise lib query) items) ∧
    (∀ path type, IsBytes path → path ≠ "" → ItemType type →
      decodeScopeCursor (encodeScopeCursor lib (scopeCursorBinding lib deployId (normalise lib query)) path type)
        (scopeCursorBinding lib deployId (normalise lib query)) = .ok (path, type)) ∧
    (∀ deployId' query', 0 ∉ ofText deployId → 0 ∉ ofText deployId' →
      CollisionFree lib deployId' (normalise lib query') deployId (normalise lib query) →
      (ofText deployId' ≠ ofText deployId ∨ ofText (normalise lib query') ≠ ofText (normalise lib query)) →
        ∀ path type k limit, scopeCatalog lib (visits k) tree.toSourceTree deployId multiInstance query
          (encodeScopeCursor lib (scopeCursorBinding lib deployId' (normalise lib query')) path type) limit =
            .error (.invalidCursor .shape)) := by
  refine ⟨follow_catalogued tree hplan hvisits limits, ?_, ?_⟩
  · intro path type hpath hne htype
    exact decodeScopeCursor_encodeScopeCursor (nul_notMem_scopeCursorBinding _ _) hpath hne htype
  · intro deployId' query' hnul hnul' hfree hother path type k limit
    have hbinding := scopeCursorBinding_ne hnul' hnul hfree hother
    have hrefused : decodeScopeCursor
        (encodeScopeCursor lib (scopeCursorBinding lib deployId' (normalise lib query')) path type)
        (scopeCursorBinding lib deployId (normalise lib query)) = .error .shape :=
      decodeScopeCursor_other (nul_notMem_scopeCursorBinding _ _) hbinding path type
    unfold scopeCatalog
    simp only [hplan, hrefused]

/-- The tree with a database in a directory, its names being ASCII. -/
def siblingsBytes : ByteTree where
  toSourceTree := siblingsTree
  bytes := by decide

def plainLibrary : Library where
  lower := id
  printable := fun _ => true
  sha256 := id

theorem scope_catalog_paginated_siblings :
    (∃ n items,
      follow (fun _ cursor => scopeCatalog plainLibrary List.reverse siblingsTree "a" true "" cursor 1) n 0 "" =
        .ok (items, true) ∧ Catalogued id siblingsPlan (normalise plainLibrary "") items) ∧
    decodeScopeCursor (encodeScopeCursor plainLibrary
        (scopeCursorBinding plainLibrary "a" (normalise plainLibrary "")) "a/db" "file")
      (scopeCursorBinding plainLibrary "a" (normalise plainLibrary "")) = .ok ("a/db", "file") ∧
    scopeCatalog plainLibrary List.reverse siblingsTree "a" true ""
      (encodeScopeCursor plainLibrary (scopeCursorBinding plainLibrary "b" (normalise plainLibrary "")) "a" "directory")
        1 = .error (.invalidCursor .shape) := by
  have hplan : buildPlan plainLibrary.lower siblingsBytes.toSourceTree true = .ok siblingsPlan := by rfl
  obtain ⟨hpages, hreads, hother⟩ := scope_catalog_paginated plainLibrary siblingsBytes "a" "" true hplan
    (fun _ => List.reverse) (fun _ => List.reverse_perm) fun _ => 1
  refine ⟨hpages, hreads "a/db" "file" (by decide) (by decide) (.inr rfl), ?_⟩
  exact hother "b" "" (by decide) (by decide) (fun h => h) (.inl (by decide)) "a" "directory" 0 1

end AppBackup.Probe.Cursor
