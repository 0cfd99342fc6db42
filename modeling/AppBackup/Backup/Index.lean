import AppBackup.Backup.Restore
import AppBackup.Probe.Cursor
import AppBackup.Storage.Index

/- The file index, written by one service and read by another (`writeArchive` of
   `backup/service.go`, `FileIndex` of `storage/storage.go`). A line comes back with its type,
   its size and its time, and with its path made well-formed, so that the listing of a finished
   archive is that of the scan; it is that of the archive exactly where the names are UTF-8 and
   no file changed its size between the scan and the copy. -/
namespace AppBackup.Backup
open Program Disk Path Text Probe Storage Bytes

variable {δ : Type}

/-! ## One line -/

def indexMembers (e : IndexEntry) (time : List Byte) : List (List Byte × List Byte) :=
  [(ofText "path", Json.quote (ofText e.path)), (ofText "type", Json.quote (ofText e.type)),
    (ofText "size", Decimal.formatNat e.size), (ofText "modified", 34 :: (time ++ [34]))]

/-- `json.Encoder.Encode` of an entry of the index. -/
def encodeEntry (e : IndexEntry) : Except GoError (List Byte) :=
  match Timestamp.format e.modified with
  | none => .error (.plain
      "json: error calling MarshalJSON for type time.Time: Time.MarshalJSON: year outside of range [0,9999]")
  | some time => .ok (Json.writeObject (indexMembers e time) ++ [10])

/-- What is read of it. -/
def readBack (e : IndexEntry) : FileIndexEntry := ⟨Coerced.path e.path, Coerced.path e.type, e.size, e.modified⟩

/-- A line without its end. -/
def indexLine (e : IndexEntry) : List Byte := (bytesOf (encodeEntry e)).dropLast

/-- The longest path that a system call takes, in bytes (`PATH_MAX`). -/
def pathMax : Nat := 4096

/-- The numbers of an entry are those of its Go types, and the path is one of the file system. -/
structure IndexEntry.Fits (e : IndexEntry) : Prop where
  path : e.path.toList.length ≤ pathMax
  type : e.type.toList.length ≤ pathMax
  size : e.size < 2 ^ 63

section
variable {e : IndexEntry} {time : List Byte}

theorem plain_time {t : Int} (h : Timestamp.format t = some time) :
    ∀ b ∈ time, 32 ≤ b.val ∧ b.val < 128 ∧ b ≠ 34 ∧ b ≠ 92 := by
  intro b hb
  obtain hdigit | hmark := (Timestamp.format_bounds h).1 b hb
  · have hval : 48 ≤ b.val ∧ b.val ≤ 57 := of_decide_eq_true hdigit
    refine ⟨by omega, by omega, ?_, ?_⟩
    · rintro rfl
      exact absurd hval (by decide)
    · rintro rfl
      exact absurd hval (by decide)
  · have hall : ∀ b ∈ ([45, 46, 58, 84, 90] : List Byte), 32 ≤ b.val ∧ b.val < 128 ∧ b ≠ 34 ∧
        b ≠ 92 := by
      decide +kernel
    exact hall b hmark

theorem read_members (h : Timestamp.format e.modified = some time) :
    Json.read (Json.writeObject (indexMembers e time)) = some (.object
      [(Utf8.coerce (ofText "path"), .string ((Utf8.pieces (ofText e.path)).flatMap Json.quotePiece)
        (Utf8.coerce (ofText e.path))),
      (Utf8.coerce (ofText "type"), .string ((Utf8.pieces (ofText e.type)).flatMap Json.quotePiece)
        (Utf8.coerce (ofText e.type))),
      (Utf8.coerce (ofText "size"), .number (Decimal.formatNat e.size)),
      (Utf8.coerce (ofText "modified"), .string time time)]) := by
  have htime : Json.Reads (34 :: (time ++ [34])) (.string time time) :=
    Json.reads_string fun rest => Json.unquote_plain (plain_time h) rest
  exact Json.read_writeObject (.cons (Json.reads_quote _) (.cons (Json.reads_quote _)
    (.cons (Json.reads_number _) (.cons htime .nil)))) (List.cons_ne_nil _ _)

theorem entry_keys : isKey "path" (Utf8.coerce (ofText "path")) = true ∧
    isKey "path" (Utf8.coerce (ofText "type")) = false ∧
    isKey "type" (Utf8.coerce (ofText "type")) = true ∧ isKey "path" (Utf8.coerce (ofText "size")) = false ∧
    isKey "type" (Utf8.coerce (ofText "size")) = false ∧ isKey "size" (Utf8.coerce (ofText "size")) = true ∧
    isKey "path" (Utf8.coerce (ofText "modified")) = false ∧
    isKey "type" (Utf8.coerce (ofText "modified")) = false ∧
    isKey "size" (Utf8.coerce (ofText "modified")) = false ∧
    isKey "modified" (Utf8.coerce (ofText "modified")) = true := by
  decide +kernel

theorem parseInt_size (h : e.size < 2 ^ 63) : Decimal.parseInt (Decimal.formatNat e.size) = some (e.size : Int) := by
  have hfits : Decimal.Fits (e.size : Int) := by
    unfold Decimal.Fits
    omega
  have hread := Decimal.parseInt_formatInt hfits
  unfold Decimal.formatInt at hread
  rw [if_neg (by omega), Int.natAbs_natCast] at hread
  exact hread

theorem unmarshal_line {lax : List Byte → Option Time} (h : Timestamp.format e.modified = some time)
    (hsize : e.size < 2 ^ 63) :
    unmarshalEntry lax (Json.writeObject (indexMembers e time)) = some (readBack e) := by
  obtain ⟨hpath, hpt, htype, hps, hts, hsz, hpm, htm, hsm, hmodified⟩ := entry_keys
  have htime : readTime lax time = some e.modified := by
    unfold readTime
    rw [Timestamp.parse_format h]
  unfold unmarshalEntry
  rw [read_members h, Option.bind_some]
  unfold decodeEntry
  simp only [List.foldlM_cons, List.foldlM_nil, decodeMember, hpath, hpt, htype, hps, hts, hsz, hpm, htm, hsm,
    hmodified, if_true, if_false, Bool.false_eq_true, decodeText, decodeSize, decodeTime, parseInt_size hsize, htime,
    Option.map_some, Option.bind_eq_bind, Option.bind_some, Option.pure_def]
  rfl

end

/-! ## All lines -/

/-- The path of an entry is one of a file system. -/
def Pathlike (path : String) : Prop := IsBytes path ∧ ∀ n ∈ split path, Proper n

theorem ofText_length (text : String) : (ofText text).length = text.toList.length := List.length_map _

theorem pathlike_safe {path : String} (h : Pathlike path) :
    safeZipPath ("appvar/" ++ Coerced.path path) = true ∧ Coerced.path path ≠ "" := by
  have hproper := Coerced.path_proper h.1 h.2
  generalize Coerced.path path = value at hproper
  have hne := split_ne_nil value
  have hsafe : safeZipPath ("appvar/" ++ join (split value)) = true :=
    @safeZipPath_item (.file (split value) []) ⟨hne, hproper⟩
  have hfilled : join (split value) ≠ "" := join_ne_empty hne fun n hn => (hproper n hn).1
  rw [join_split] at hsafe hfilled
  exact ⟨hsafe, hfilled⟩

section
variable {e : IndexEntry}

theorem encoded (h : There (encodeEntry e)) : ∃ time, Timestamp.format e.modified = some time ∧
    bytesOf (encodeEntry e) = Json.writeObject (indexMembers e time) ++ [10] := by
  unfold There encodeEntry at h
  unfold encodeEntry
  cases htime : Timestamp.format e.modified with
  | none =>
    rw [htime] at h
    cases h
  | some time => exact ⟨time, rfl, rfl⟩

theorem indexLine_end (h : There (encodeEntry e)) : bytesOf (encodeEntry e) = indexLine e ++ [10] := by
  obtain ⟨time, -, hbytes⟩ := encoded h
  unfold indexLine
  rw [hbytes, List.dropLast_concat]

/-- A line is one, has room in the scanner and is decoded. -/
theorem indexLine_decodes {lax : List Byte → Option Time} (h : There (encodeEntry e)) (hfits : e.Fits)
    (hpath : Pathlike e.path) : 10 ∉ indexLine e ∧ Decodes lax (indexLine e) (readBack e) := by
  obtain ⟨time, htime, hbytes⟩ := encoded h
  have hline : indexLine e = Json.writeObject (indexMembers e time) := by
    unfold indexLine
    rw [hbytes, List.dropLast_concat]
  obtain ⟨hplain, hlength⟩ := Timestamp.format_bounds htime
  -- no member has a byte below a space, so none is a line feed
  have hvisible : ∀ b ∈ indexLine e, 32 ≤ b.val := by
    rw [hline]
    refine Json.writeObject_visible fun m hm b hb => ?_
    simp only [indexMembers, List.mem_cons, List.not_mem_nil, or_false] at hm
    obtain rfl | rfl | rfl | rfl := hm
    · exact (Json.quote_bounds _).1 b hb
    · exact (Json.quote_bounds _).1 b hb
    · have := Decimal.formatNat_digits e.size b hb
      omega
    · obtain rfl | hb := List.mem_cons.mp hb
      · decide
      obtain hb | hb := List.mem_append.mp hb
      · exact (plain_time htime b hb).1
      · rw [List.mem_singleton.mp hb]
        decide
  -- a byte of a path takes six in quotes at most; the rest is short
  have hroom : (indexLine e).length < lineRoom := by
    have hpathRoom := (Json.quote_bounds (ofText e.path)).2
    have htypeRoom := (Json.quote_bounds (ofText e.type)).2
    rw [ofText_length] at hpathRoom htypeRoom
    have hkey : ∀ key ∈ ["path", "type", "size", "modified"], (Json.quote (ofText key)).length ≤ 50 := by
      intro key hkey
      have hbound := (Json.quote_bounds (ofText key)).2
      rw [ofText_length] at hbound
      have hshort : ∀ key ∈ ["path", "type", "size", "modified"], key.toList.length ≤ 8 := by decide
      have := hshort key hkey
      omega
    have h1 := hkey "path" (by decide)
    have h2 := hkey "type" (by decide)
    have h3 := hkey "size" (by decide)
    have h4 := hkey "modified" (by decide)
    have hsize : (Decimal.formatNat e.size).length ≤ 19 := by
      unfold Decimal.formatNat
      rw [List.length_map, Nat.length_toDigits_le_iff (by decide) (by decide)]
      have := hfits.size
      omega
    have hp := hfits.path
    have ht := hfits.type
    unfold pathMax at hp ht
    unfold lineRoom
    rw [hline]
    simp only [indexMembers, Json.writeObject, Json.writeMembers, List.length_cons, List.length_append, List.length_nil]
    omega
  -- the line ends in a brace
  have hlast : (indexLine e).getLast? ≠ some 13 := by
    rw [hline, Json.writeObject_last]
    decide
  have hread : unmarshalEntry lax (Lines.dropCR (indexLine e)) = some (readBack e) := by
    rw [Lines.dropCR_of_ne hlast, hline]
    exact unmarshal_line htime hfits.size
  obtain ⟨hsafe, hne⟩ := pathlike_safe hpath
  refine ⟨fun hmem => ?_, hroom, hread, hsafe, hne⟩
  have := hvisible 10 hmem
  exact absurd this (by decide)

end

section
variable {h : Host} {s : Sources} {plan filtered : Plan} {manifest : Except GoError (List Byte)}

/-- The entries of the index of a plan. -/
def indexed (s : Sources) (plan : Plan) : List IndexEntry :=
  plan.files.map (indexedFile s) ++ plan.sqlite.map (indexedDatabase s)

/-- The listing of a plan. -/
def listing (s : Sources) (plan : Plan) : List FileIndexEntry := (indexed s plan).map readBack

theorem indexed_there (hencode : h.encode = encodeEntry) (hcomplete : Complete h s plan manifest) :
    ∀ e ∈ indexed s plan, There (encodeEntry e) := by
  intro e he
  rw [← hencode]
  obtain he | he := List.mem_append.mp he
  · obtain ⟨f, hf, rfl⟩ := List.mem_map.mp he
    exact (hcomplete.files f hf).2.2
  · obtain ⟨f, hf, rfl⟩ := List.mem_map.mp he
    exact (hcomplete.databases f hf).2.2

theorem fileIndex_lines (hencode : h.encode = encodeEntry) (hthere : ∀ e ∈ indexed s plan, There (encodeEntry e)) :
    fileIndex h s plan = ((indexed s plan).map indexLine).flatMap (· ++ [10]) := by
  unfold fileIndex indexOf
  rw [hencode, ← List.flatMap_append, List.flatMap_map]
  refine List.flatMap_congr fun e he => ?_
  exact indexLine_end (hthere e he)

/-- The data files among the entries of an archive, with the bytes that are stored of each. -/
def storedFiles (entries : List ZipEntry) : List (String × Int) :=
  entries.filterMap fun e =>
    if hasPrefix e.name "appvar/" && !e.isDir then
      some (trimAppvar e.name, ((e.content.elim [] Prod.fst).length : Int))
    else none

def nameAndSize (i : FileIndexEntry) : String × Int := (i.path, i.size)

theorem storedFiles_file {names : List String} {bytes : List Byte} (h : Nameable (.file names bytes)) :
    storedFiles [itemEntry (.file names bytes)] = [(join names, (bytes.length : Int))] := by
  have hunder := itemEntry_under (.file names bytes)
  have hplain : (itemEntry (.file names bytes)).isDir = false := @hasSuffix_archivedName (.file names bytes) h
  have htrim : trimAppvar (itemEntry (.file names bytes)).name = join names := trimAppvar_append _
  unfold storedFiles
  rw [List.filterMap_cons, hunder, hplain, htrim]
  rfl

theorem storedFiles_append (before after : List ZipEntry) :
    storedFiles (before ++ after) = storedFiles before ++ storedFiles after := List.filterMap_append

theorem storedFiles_none {entries : List ZipEntry}
    (h : ∀ e ∈ entries, hasPrefix e.name "appvar/" = false ∨ e.isDir = true) :
    storedFiles entries = [] := by
  refine List.filterMap_eq_nil_iff.mpr fun e he => ?_
  obtain hout | hdir := h e he
  · rw [hout]
    rfl
  · rw [hdir, Bool.not_true, Bool.and_false]
    rfl

theorem storedFiles_files {α : Type} {f : α → Item} {path : α → String} {content : α → List Byte}
    {entries : List α}
    (h : ∀ a ∈ entries, ∃ names, f a = .file names (content a) ∧ Nameable (f a) ∧ join names = path a) :
    storedFiles ((entries.map f).map itemEntry) = entries.map fun a => (path a, ((content a).length : Int)) := by
  induction entries with
  | nil => rfl
  | cons a rest ih =>
    obtain ⟨names, hitem, hnameable, hpath⟩ := h a (List.mem_cons_self ..)
    rw [hitem] at hnameable
    have hrest := ih fun b hb => h b (List.mem_cons_of_mem _ hb)
    have hsplit : ((a :: rest).map f).map itemEntry = [itemEntry (f a)] ++ (rest.map f).map itemEntry := rfl
    rw [hsplit, storedFiles_append, hrest, hitem, storedFiles_file hnameable, hpath]
    rfl

theorem storedFiles_records (hsound : plan.Sound) : storedFiles ((records h s plan manifest).map Written.entry) =
    plan.files.map (fun e => (e.relative, ((s.reading e).bytes.length : Int))) ++
      plan.sqlite.map fun e => (e.relative, ((onlineCopy (s.online e).attempts).length : Int)) := by
  have hnameable : ∀ i ∈ planItems s plan, Nameable i := planItems_nameable hsound
  have hown : storedFiles (ownEntries h s plan manifest) = [] :=
    storedFiles_none fun e he => .inl (ownEntries_skipped e he).2.2
  have hdirectories : storedFiles ((plan.directories.map directoryItem).map itemEntry) = [] := by
    refine storedFiles_none fun e he => .inr ?_
    obtain ⟨i, hi, rfl⟩ := List.mem_map.mp he
    obtain ⟨e, -, rfl⟩ := List.mem_map.mp hi
    rfl
  rw [records_entries hsound, storedFiles_append, hown, List.append_nil]
  unfold planItems at hnameable ⊢
  rw [List.map_append, List.map_append, storedFiles_append, storedFiles_append, hdirectories, List.nil_append]
  congr 1
  · refine storedFiles_files fun e he => ⟨e.path, rfl, hnameable _ ?_, ?_⟩
    · exact List.mem_append_right _ (List.mem_append_left _ (List.mem_map_of_mem he))
    · exact (hsound.named e (List.mem_append_right _ (List.mem_append_left _ he))).2.2.symm
  · refine storedFiles_files fun e he => ⟨e.path, rfl, hnameable _ ?_, ?_⟩
    · exact List.mem_append_right _ (List.mem_append_right _ (List.mem_map_of_mem he))
    · exact (hsound.named e (List.mem_append_right _ (List.mem_append_right _ he))).2.2.symm

/-- A listing is that of what is stored just if the names are UTF-8 and the sizes those of the
copies. -/
theorem listing_stored (hsound : plan.Sound) (hbytes : ∀ e ∈ plan.files ++ plan.sqlite, IsBytes e.relative) :
    (listing s plan).map nameAndSize = storedFiles ((records h s plan manifest).map Written.entry) ↔
      (∀ e ∈ plan.files, Utf8.valid (ofText e.relative) = true ∧ e.size = (s.reading e).bytes.length) ∧
        ∀ e ∈ plan.sqlite, Utf8.valid (ofText e.relative) = true ∧
          e.size = (onlineCopy (s.online e).attempts).length := by
  have hentry : ∀ {e : Entry} {size : Nat}, e ∈ plan.files ++ plan.sqlite →
      ((Coerced.path e.relative, (e.size : Int)) = (e.relative, (size : Int)) ↔
        Utf8.valid (ofText e.relative) = true ∧ e.size = size) := by
    intro e size he
    rw [Prod.mk.injEq, Coerced.path_eq_iff (hbytes e he), Int.natCast_inj]
  have hlisting : (listing s plan).map nameAndSize =
      plan.files.map (fun e => (Coerced.path e.relative, (e.size : Int))) ++
        plan.sqlite.map fun e => (Coerced.path e.relative, (e.size : Int)) := by
    unfold listing indexed
    simp only [List.map_append, List.map_map]
    rfl
  have hsplit : ∀ {a b c d : List (String × Int)}, a.length = c.length →
      (a ++ b = c ++ d ↔ a = c ∧ b = d) := by
    intro a b c d hlength
    refine ⟨fun he => List.append_inj he hlength, fun he => ?_⟩
    rw [he.1, he.2]
  rw [storedFiles_records hsound, hlisting, hsplit (by rw [List.length_map, List.length_map]), List.map_inj_left,
    List.map_inj_left]
  refine and_congr (forall₂_congr fun e he => ?_) (forall₂_congr fun e he => ?_)
  · exact hentry (List.mem_append_left _ he)
  · exact hentry (List.mem_append_right _ he)

/-- A reader finds the index behind the data, and the listing in it. -/
theorem readIndex_records {r : IndexReader} {limit : Nat} (hencode : h.encode = encodeEntry)
    (hcomplete : Complete h s plan manifest) (hsound : plan.Sound)
    (hbytes : ∀ e ∈ plan.files ++ plan.sqlite, IsBytes e.relative)
    (hfits : ∀ e ∈ plan.files ++ plan.sqlite, e.relative.toList.length ≤ pathMax ∧ e.size < 2 ^ 63) :
    readIndex r limit ((records h s plan manifest).map Written.entry) = .ok ((listing s plan).take limit) := by
  have hthere := indexed_there hencode hcomplete
  have hentry : ∀ e ∈ indexed s plan, e.Fits ∧ Pathlike e.path := by
    have hone : ∀ f ∈ plan.files ++ plan.sqlite, ∀ type : String, type.toList.length ≤ pathMax →
        ∀ time, (IndexEntry.mk f.relative type f.size time).Fits ∧ Pathlike f.relative := by
      intro f hf type htype time
      obtain ⟨hne, hproper, hrelative⟩ := hsound.named f (List.mem_append_right _ hf)
      refine ⟨⟨(hfits f hf).1, htype, (hfits f hf).2⟩, hbytes f hf, fun n hn => ?_⟩
      rw [hrelative, split_join hne fun n hn => (hproper n hn).2.2.2] at hn
      exact hproper n hn
    intro e he
    obtain he | he := List.mem_append.mp he
    · obtain ⟨f, hf, rfl⟩ := List.mem_map.mp he
      exact hone f (List.mem_append_left _ hf) "file" (by decide) _
    · obtain ⟨f, hf, rfl⟩ := List.mem_map.mp he
      exact hone f (List.mem_append_right _ hf) "sqlite" (by decide) _
  have hdecodes : ∀ e ∈ indexed s plan, 10 ∉ indexLine e ∧ Decodes r.laxTime (indexLine e) (readBack e) :=
    fun e he => indexLine_decodes (hthere e he) (hentry e he).1 (hentry e he).2
  have hlines : Lines.split (fileIndex h s plan) = (indexed s plan).map indexLine := by
    rw [fileIndex_lines hencode hthere]
    refine Lines.split_lines fun line hline => ?_
    obtain ⟨e, he, rfl⟩ := List.mem_map.mp hline
    exact (hdecodes e he).1
  have hbefore : ∀ e ∈ (planItems s plan).map itemEntry, safeZipPath e.name = true ∧ e.name ≠ indexName := by
    intro e he
    obtain ⟨i, hi, rfl⟩ := List.mem_map.mp he
    refine ⟨safeZipPath_item (planItems_nameable hsound i hi), fun hname => ?_⟩
    have hunder := itemEntry_under i
    rw [hname] at hunder
    exact absurd hunder (by decide +kernel)
  have hall : List.Forall₂ (Decodes r.laxTime) ((indexed s plan).map indexLine) (listing s plan) := by
    unfold listing
    rw [List.forall₂_map_left_iff, List.forall₂_map_right_iff, List.forall₂_same]
    exact fun e he => (hdecodes e he).2
  rw [records_entries hsound]
  refine (readIndex_append hbefore).trans ?_
  rw [hlines, readLines_decodes hall (Nat.zero_le _), List.nil_append]

/-- The index of a finished archive: `FileIndex` lists it up to its limit, whatever the storage
holds else, and the listing is what the scan found, its paths made well-formed; it names what
the archive has, with the bytes that are stored, just if the names are UTF-8 and no size
changed. -/
theorem archive_indexed {lower : String → String} (tree : Cursor.ByteTree) {multiInstance : Bool}
    {scope : BackupScope}
    (hencode : h.encode = encodeEntry) (hplan : buildPlan lower tree.toSourceTree multiInstance = .ok plan)
    (hscope : applyScope plan scope = .ok filtered)
    (hfits : ∀ e ∈ filtered.files ++ filtered.sqlite, e.relative.toList.length ≤ pathMax ∧ e.size < 2 ^ 63)
    {root cache : List String} {id : String} {part : Partial}
    (hpart : part.archive = partialPath root id ++ ["snapshot.zip"]) {m m' : Machine δ}
    (hdone : writeArchive h s root part cache filtered manifest m = .done () m') :
    ∃ bytes entries, m'.tree.obj part.archive = some (.file bytes) ∧ h.zip.read bytes = some entries ∧
      (∀ (r : IndexReader) (base : List String) (directory : String) (limit : Int) (m₀ : Machine δ),
        r.openZip = h.zip.read → safeRelative directory = true → m₀.cleaning = false →
        m₀.tree.obj (base ++ split directory ++ ["snapshot.zip"]) = some (.file bytes) →
        (∀ items m₁, Storage.fileIndex r base directory limit m₀ = .done items m₁ →
          items = (listing s filtered).take (indexLimit limit) ∧ m₁.tree = m₀.tree) ∧
        (Quiet m₀.fate → ∃ items m₁, Storage.fileIndex r base directory limit m₀ = .done items m₁)) ∧
      ((listing s filtered).map nameAndSize = storedFiles entries ↔
        (∀ e ∈ filtered.files, Utf8.valid (ofText e.relative) = true ∧ e.size = (s.reading e).bytes.length) ∧
          ∀ e ∈ filtered.sqlite, Utf8.valid (ofText e.relative) = true ∧
            e.size = (onlineCopy (s.online e).attempts).length) := by
  have hwithin := applyScope_within hscope
  have hsound : filtered.Sound := hwithin.sound (buildPlan_sound hplan)
  have hbytes : ∀ e ∈ filtered.files ++ filtered.sqlite, IsBytes e.relative := by
    intro e he
    have hmem : e ∈ plan.directories ++ (plan.files ++ plan.sqlite) := by
      refine List.mem_append_right _ ?_
      obtain he | he := List.mem_append.mp he
      · exact List.mem_append_left _ (hwithin.files.subset he)
      · exact List.mem_append_right _ (hwithin.sqlite.subset he)
    exact (@Cursor.ByteTree.relative_bytes ⟨lower, fun _ => true, fun bytes => bytes⟩ _ _ tree hplan e hmem).1
  obtain ⟨hcomplete, harchive⟩ := writeArchive_writes ( apart_of_partial hpart) hdone
  refine ⟨_, _, harchive, read_archiveOf _ _, ?_, listing_stored hsound hbytes⟩
  intro r base directory limit m₀ hzip hdirectory hclean hthere
  have hopen : r.openZip (archiveOf h.zip (records h s filtered manifest)) =
      some ((records h s filtered manifest).map Written.entry) := by
    rw [hzip]
    exact read_archiveOf _ _
  have hread : readIndex r (indexLimit limit) ((records h s filtered manifest).map Written.entry) =
      .ok ((listing s filtered).take (indexLimit limit)) := readIndex_records hencode hcomplete hsound hbytes hfits
  have hspec : DoneIff m₀.fate false (Quiet m₀.fate) True (fun t (_ : δ) => t = m₀.tree)
      (Storage.fileIndex r base directory limit) _ :=
    fileIndex_done (fun hquiet => hquiet) hdirectory hopen hread hthere
  have hat : At m₀.fate false (fun t (_ : δ) => t = m₀.tree) m₀ := ⟨rfl, hclean, rfl⟩
  refine ⟨fun items m₁ hlisted => ?_, fun hquiet => (hspec.run hquiet hat).mp trivial⟩
  have hrun := Does.run hspec hat
  rw [hlisted] at hrun
  exact hrun.2.2.2

end

/-! ### The letter and the database -/

/-- The writer of the notes, with the encoder of the program. -/
def jsonHost : Host := { quietHost with encode := encodeEntry }

def lettersBytes : Cursor.ByteTree where
  toSourceTree := lettersTree
  bytes := by decide

/-- The storage with the archive of the letters. -/
def indexedStore : Tree :=
  Tree.bare.withObjects [(["docs"], .directory), (["docs", "deploy-a"], .directory),
    (["docs", "deploy-a", "t1"], .directory), (["docs", "deploy-a", "t1", "snapshot.zip"],
      .file (archiveOf Container.format (records jsonHost lettersRead lettersPlan (.ok [3]))))]

theorem archive_indexed_letters : ∃ m₁ : Machine Unit,
    Storage.fileIndex ⟨Container.format.read, fun _ => none, fun _ _ => false⟩ ["docs"] "deploy-a/t1" 1
      (Machine.calm indexedStore ()) = .done [⟨"box/letter.txt", "file", 1, 0⟩] m₁ := by
  have hplan : buildPlan id lettersBytes.toSourceTree false = .ok lettersPlan := rfl
  have hscope : applyScope lettersPlan BackupScope.full = .ok lettersPlan := rfl
  have hpart : notesPart.archive = partialPath ["docs"] "j" ++ ["snapshot.zip"] := rfl
  have hends : ((writeArchive jsonHost lettersRead ["docs"] notesPart ["cache", "j"] lettersPlan (.ok [3]) :
      Work Unit Unit) (Machine.calm notesTree ())).isDone = true := by decide +kernel
  obtain ⟨u, m', hrun⟩ := Outcome.isDone_iff.mp hends
  obtain ⟨bytes, entries, hbytes, -, hlists, -⟩ :=
    archive_indexed lettersBytes rfl hplan hscope (by decide) hpart hrun
  have hknown : bytes = archiveOf Container.format (records jsonHost lettersRead lettersPlan (.ok [3])) := by
    have hwritten := (writeArchive_writes ( apart_of_partial hpart) hrun).2
    rw [hbytes] at hwritten
    exact Object.file.inj (Option.some.inj hwritten)
  subst hknown
  obtain ⟨hitems, hquiet⟩ := hlists ⟨Container.format.read, fun _ => none, fun _ _ => false⟩
      ["docs"] "deploy-a/t1" 1
    (Machine.calm indexedStore ()) rfl (by decide +kernel) rfl (by decide +kernel)
  obtain ⟨items, m₁, hlist⟩ := hquiet fun _ _ => rfl
  obtain ⟨rfl, -⟩ := hitems items m₁ hlist
  have hone : (listing lettersRead lettersPlan).take (indexLimit 1) = [⟨"box/letter.txt", "file", 1, 0⟩] := by
    decide +kernel
  rw [hone] at hlist
  exact ⟨m₁, hlist⟩

end AppBackup.Backup
