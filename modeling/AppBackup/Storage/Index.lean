import AppBackup.Domain.Types
import AppBackup.Lib.Coerced
import AppBackup.Lib.Json
import AppBackup.Lib.Lines
import AppBackup.Lib.Timestamp
import AppBackup.Storage.Restore

/- `FileIndex` (`storage/storage.go`): the lines of the index in an archive, each an object of
   JSON that `encoding/json` decodes into an entry. Keys match the fields of the entry in either
   case, the last of two wins, and other keys are passed over. A scanner of lines has room for a
   mebibyte; it looks for one line more than the limit. -/
namespace AppBackup.Storage
open Program Disk Path Bytes

variable {δ : Type}

structure FileIndexEntry where
  path : String
  type : String
  size : Int
  modified : Time
  deriving DecidableEq

/-- An entry of which nothing has been decoded. -/
def FileIndexEntry.blank : FileIndexEntry := ⟨"", "", 0, -62135596800 * second⟩

/-- Reading a zip file, what `time.Parse` makes of a time that is no strict RFC 3339, and whether
the error that ends an entry is met before the limit of lines. -/
structure IndexReader where
  openZip : List Byte → Option (List ZipEntry)
  laxTime : List Byte → Option Time
  meetsEnd : List Byte → Nat → Bool

/-! ## Decoding a line -/

/-- A character of a key that `foldName` does not tell from a lower-case letter. -/
def foldsTo (letter : Byte) : Utf8.Piece → Bool
  | .ascii b => b == letter || b.val + 32 == letter.val
  | .wide bytes => (letter == 115 && bytes == [0xC5, 0xBF]) || (letter == 107 && bytes == [0xE2, 0x84, 0xAA])
  | .invalid _ => false

def sameFold : List Byte → List Utf8.Piece → Bool
  | [], [] => true
  | letter :: name, p :: ps => foldsTo letter p && sameFold name ps
  | _, _ => false

/-- A key is that of a field in either case. -/
def isKey (name : String) (key : List Byte) : Bool := sameFold (ofText name) (Utf8.pieces key)

/-- `Time.UnmarshalJSON`, between the quotes. -/
def readTime (lax : List Byte → Option Time) (text : List Byte) : Option Time :=
  match Timestamp.parse text with
  | some t => some t
  | none => lax text

def decodeText : Json.Value → String → Option String
  | .null, old => some old
  | .string _ value, _ => some (toText value)
  | _, _ => none

def decodeSize : Json.Value → Int → Option Int
  | .null, old => some old
  | .number text, _ => Decimal.parseInt text
  | _, _ => none

def decodeTime (lax : List Byte → Option Time) : Json.Value → Time → Option Time
  | .null, old => some old
  | .string raw _, _ => readTime lax raw
  | _, _ => none

/-- One member of the object. -/
def decodeMember (lax : List Byte → Option Time) (e : FileIndexEntry) (m : List Byte × Json.Value) :
    Option FileIndexEntry :=
  if isKey "path" m.1 then (decodeText m.2 e.path).map fun path => { e with path := path }
  else if isKey "type" m.1 then (decodeText m.2 e.type).map fun type => { e with type := type }
  else if isKey "size" m.1 then (decodeSize m.2 e.size).map fun size => { e with size := size }
  else if isKey "modified" m.1 then (decodeTime lax m.2 e.modified).map fun time => { e with modified := time }
  else some e

def decodeEntry (lax : List Byte → Option Time) : Json.Value → Option FileIndexEntry
  | .null => some .blank
  | .object members => members.foldlM (decodeMember lax) .blank
  | _ => none

/-- `json.Unmarshal` of a line. -/
def unmarshalEntry (lax : List Byte → Option Time) (line : List Byte) : Option FileIndexEntry :=
  (Json.read line).bind (decodeEntry lax)

/-! ## The index -/

def indexName : String := "_snapshot/file-index.jsonl"

/-- A line is too long for the scanner from here on. -/
def lineRoom : Nat := 1024 * 1024

/-- The loop over the lines. The entry reads to its end or is broken there. -/
def readLines (r : IndexReader) (bytes : List Byte) (whole : Bool) (limit : Nat) :
    List (List Byte) → List FileIndexEntry → Except String (List FileIndexEntry)
  | [], result => if whole then .ok result else .error "read entry"
  | line :: rest, result =>
    if lineRoom ≤ line.length then .error "bufio.Scanner: token too long"
    else if limit ≤ result.length then
      -- the scanner keeps an error it has met
      if whole || !r.meetsEnd bytes limit then .ok result else .error "read entry"
    else
      match unmarshalEntry r.laxTime (Lines.dropCR line) with
      | none => .error "read file index"
      | some item =>
        if !safeZipPath ("appvar/" ++ item.path) || item.path == "" then .error "unsafe file index path"
        else readLines r bytes whole limit rest (result ++ [item])

/-- The first index among the entries. -/
def readIndex (r : IndexReader) (limit : Nat) : List ZipEntry → Except String (List FileIndexEntry)
  | [] => .error "file index is missing"
  | entry :: rest =>
    if !safeZipPath entry.name then .error "unsafe archive entry"
    else if entry.name ≠ indexName then readIndex r limit rest
    else
      match entry.content with
      | none => .error "open entry"
      | some (bytes, whole) => readLines r bytes whole limit (Lines.split bytes) []

/-- At most ten thousand entries, which is also the default. -/
def indexLimit (limit : Int) : Nat := if limit ≤ 0 ∨ 10000 < limit then 10000 else limit.toNat

def fileIndex (r : IndexReader) (base : List String) (directory : String) (limit : Int) :
    Action δ (List FileIndexEntry) := do
  let archive ← resolve base (pathJoin [directory, "snapshot.zip"])
  let bytes ← io (readFile archive)
  match r.openZip bytes with
  | none => Prog.fail (.refused "zip: not a valid zip file")
  | some entries =>
    match readIndex r (indexLimit limit) entries with
    | .error message => Prog.fail (.refused message)
    | .ok items => pure items

/-! ## What is read -/

/-- A line that is short enough and decodes into an entry of a safe path. -/
def Decodes (lax : List Byte → Option Time) (line : List Byte) (item : FileIndexEntry) : Prop :=
  line.length < lineRoom ∧ unmarshalEntry lax (Lines.dropCR line) = some item ∧
    safeZipPath ("appvar/" ++ item.path) = true ∧ item.path ≠ ""

section
variable {r : IndexReader} {bytes : List Byte} {limit : Nat}

/-- Lines that decode are listed up to the limit. -/
theorem readLines_decodes {lines : List (List Byte)} {items result : List FileIndexEntry}
    (h : List.Forall₂ (Decodes r.laxTime) lines items) (hlimit : result.length ≤ limit) :
    readLines r bytes true limit lines result = .ok ((result ++ items).take limit) := by
  induction h generalizing result with
  | nil =>
    rw [List.append_nil, List.take_of_length_le hlimit]
    rfl
  | @cons line item lines items hitem _ ih =>
    obtain ⟨hshort, hread, hsafe, hne⟩ := hitem
    unfold readLines
    rw [if_neg (Nat.not_le.mpr hshort)]
    by_cases hfull : limit ≤ result.length
    · rw [if_pos hfull, List.take_append_of_le_length hfull, List.take_of_length_le hlimit]
      rfl
    · rw [if_neg hfull, hread]
      simp only [hsafe, beq_eq_false_iff_ne.mpr hne, Bool.not_true, Bool.or_self, Bool.false_eq_true, if_false]
      rw [ih (by rw [List.length_append]; exact Nat.not_le.mp hfull), List.append_assoc]
      rfl

/-- The entries before the index have safe names of their own. -/
theorem readIndex_append {before : List ZipEntry} {after : List ZipEntry} {directory : Bool}
    (h : ∀ e ∈ before, safeZipPath e.name = true ∧ e.name ≠ indexName) :
    readIndex r limit (before ++ ⟨indexName, false, directory, some (bytes, true)⟩ :: after) =
      readLines r bytes true limit (Lines.split bytes) [] := by
  induction before with
  | nil =>
    have hsafe : safeZipPath indexName = true := by decide +kernel
    rw [List.nil_append]
    unfold readIndex
    rw [hsafe, if_neg (by decide), if_neg (not_not.mpr rfl)]
  | cons e before ih =>
    obtain ⟨hsafe, hne⟩ := h e (List.mem_cons_self ..)
    rw [List.cons_append]
    unfold readIndex
    rw [hsafe, if_neg (by decide), if_pos hne]
    exact ih fun f hf => h f (List.mem_cons_of_mem _ hf)

end

/-- The listing of an archive whose index reads as these items; it changes nothing. -/
theorem fileIndex_done {κ : Fates} {H : Prop} (hH : H → Quiet κ) {r : IndexReader} {base : List String}
    {directory : String}
    {bytes : List Byte} {entries : List ZipEntry} {items : List FileIndexEntry} {limit : Int} {t₀ : Tree}
    (hdirectory : safeRelative directory = true) (hopen : r.openZip bytes = some entries)
    (hread : readIndex r (indexLimit limit) entries = .ok items)
    (harchive : t₀.obj (base ++ split directory ++ ["snapshot.zip"]) = some (.file bytes)) :
    DoneIff κ false H True (fun t (_ : δ) => t = t₀) (fileIndex r base directory limit)
      (fun listed t _ => listed = items ∧ t = t₀) := by
  have hnames : ∀ n ∈ split directory ++ ["snapshot.zip"], Proper n := by
    intro n hn
    obtain hn | hn := List.mem_append.mp hn
    · exact safeRelative_proper hdirectory n hn
    · rw [List.mem_singleton.mp hn]
      exact proper_snapshot
  have hjoin : pathJoin [directory, "snapshot.zip"] = join (split directory ++ ["snapshot.zip"]) := by
    have hconcat := pathJoin_concat (split_ne_nil directory) (safeRelative_proper hdirectory) proper_snapshot
    rw [join_split] at hconcat
    exact hconcat
  have hsplit : base ++ split (pathJoin [directory, "snapshot.zip"]) = base ++ split directory ++ ["snapshot.zip"] := by
    rw [hjoin, split_join (by simp) fun n hn => (hnames n hn).2.2.2, List.append_assoc]
  unfold fileIndex
  refine DoneIff.next (resolve_done hH ?_ ?_) fun archive => DoneIff.start (fun _ _ ht => ht.1) fun hpath => ?_
  · rw [hjoin]
    exact safeRelative_join (by simp) hnames
  · intro t d ht
    rw [ht, hsplit]
    exact t₀.parent_directory harchive (by simp)
  rw [hsplit] at hpath
  have hthere : t₀.obj archive = some (.file bytes) := hpath ▸ harchive
  refine DoneIff.next (DoneIff.mapError ((doneIff_readFile (K := fun t => t = t₀) hH).weaken
    (fun t d ht => ⟨ht.2 ▸ hthere, ht.2⟩) Iff.rfl fun _ _ _ ht => ht)) fun content =>
      DoneIff.start (fun _ _ ht => ht.1) fun hcontent => ?_
  rw [hcontent, hopen]
  simp only [hread]
  exact DoneIff.pure fun _ _ ht => ⟨rfl, ht.2.2⟩

end AppBackup.Storage
