import AppBackup.Backup.Archive

/- An archive format, so that the writer can be run: each byte of a name or of the content
   follows a mark, and the end of each has a mark of its own. A reader that knows no more than
   these marks finds what was written. -/
namespace AppBackup.Backup.Container
open Disk Storage

/-- Each byte behind a mark, and the mark of the end. -/
def mark (bytes : List Byte) : List Byte := (bytes.flatMap fun x => [1, x]) ++ [0]

/-- Bytes up to the mark of the end, and what follows. -/
def unmark : List Byte → Option (List Byte × List Byte)
  | [] => none
  | [m] => if m = 0 then some ([], []) else none
  | m :: x :: rest =>
    if m = 0 then some ([], x :: rest)
    else (unmark rest).map fun r => (x :: r.1, r.2)

theorem unmark_mark (bytes rest : List Byte) : unmark (mark bytes ++ rest) = some (bytes, rest) := by
  induction bytes with
  | nil => cases rest <;> rfl
  | cons x bytes ih =>
    have hcons : mark (x :: bytes) ++ rest = 1 :: x :: (mark bytes ++ rest) := rfl
    rw [hcons, unmark, ih]
    rfl

/-- A character as three bytes. -/
def charBytes (c : Char) : List Byte :=
  [Fin.ofNat 256 c.toNat, Fin.ofNat 256 (c.toNat / 256), Fin.ofNat 256 (c.toNat / 65536)]

def nameBytes (name : String) : List Byte := name.toList.flatMap charBytes

def bytesChars : List Byte → List Char
  | a :: b :: c :: rest => Char.ofNat (a.val + 256 * b.val + 65536 * c.val) :: bytesChars rest
  | _ => []

theorem bytesChars_nameBytes (name : String) : String.ofList (bytesChars (nameBytes name)) = name := by
  have hchars : ∀ cs : List Char, bytesChars (cs.flatMap charBytes) = cs := by
    intro cs
    induction cs with
    | nil => rfl
    | cons c cs ih =>
      have hsmall : c.toNat < 1114112 := by
        obtain h | h := c.valid
        · have : c.toNat < 55296 := h
          omega
        · exact h.2
      have hcode : c.toNat % 256 + 256 * (c.toNat / 256 % 256) + 65536 * (c.toNat / 65536 % 256) = c.toNat := by
        omega
      show Char.ofNat (c.toNat % 256 + 256 * (c.toNat / 256 % 256) + 65536 * (c.toNat / 65536 % 256)) ::
        bytesChars (cs.flatMap charBytes) = c :: cs
      rw [hcode, ih, Char.ofNat_toNat]
  rw [nameBytes, hchars, String.ofList_toList]

def header (name : String) (directory : Bool) : List Byte :=
  1 :: (if directory then 1 else 0) :: mark (nameBytes name)

/-- The entries up to the mark of the end, at most as many as there are bytes. -/
def readEntries : Nat → List Byte → Option (List ZipEntry)
  | 0, _ => none
  | _ + 1, [] => none
  | _ + 1, [m] => if m = 0 then some [] else none
  | fuel + 1, _ :: directory :: rest => do
    let (name, rest) ← unmark rest
    let (bytes, rest) ← unmark rest
    let entries ← readEntries fuel rest
    pure (⟨String.ofList (bytesChars name), false, directory == 1, some (bytes, true)⟩ :: entries)

theorem readEntries_written (entries : List Written) : ∀ fuel, entries.length < fuel →
    readEntries fuel ((entries.flatMap fun w => header w.name w.directory ++ mark w.bytes) ++ [0]) =
      some (entries.map Written.entry) := by
  induction entries with
  | nil =>
    intro fuel hfuel
    obtain ⟨fuel, rfl⟩ := Nat.exists_eq_add_of_lt hfuel
    simp [readEntries]
  | cons w rest ih =>
    intro fuel hfuel
    obtain ⟨fuel, rfl⟩ : ∃ n, fuel = n + 1 := ⟨fuel - 1, by omega⟩
    have hrest := ih fuel (by simpa using hfuel)
    have hbytes : ((w :: rest).flatMap fun w => header w.name w.directory ++ mark w.bytes) ++ [0] =
        1 :: (if w.directory then 1 else 0) :: (mark (nameBytes w.name) ++ (mark w.bytes ++
          ((rest.flatMap fun w => header w.name w.directory ++ mark w.bytes) ++ [0]))) := by
      simp [header, List.append_assoc]
    rw [hbytes, readEntries, unmark_mark]
    simp only [Option.bind_eq_bind, Option.bind_some]
    rw [unmark_mark]
    simp only [Option.bind_some]
    rw [hrest, bytesChars_nameBytes]
    cases w with
    | mk name directory bytes => cases directory <;> rfl

/-- The format. -/
def format : ZipFormat where
  header := header
  body := mark
  ending := fun _ => [0]
  read := fun bytes => readEntries bytes.length bytes
  read_written := by
    intro entries
    refine readEntries_written entries _ ?_
    -- each entry takes bytes, and the end one more
    have hlong : entries.length ≤ (entries.flatMap fun w => header w.name w.directory ++ mark w.bytes).length := by
      induction entries with
      | nil => exact Nat.zero_le _
      | cons w rest ih =>
        rw [List.flatMap_cons, List.length_append, List.length_cons]
        have hhead : 0 < (header w.name w.directory ++ mark w.bytes).length := by simp [header]
        omega
    rw [List.length_append, List.length_singleton]
    omega

end AppBackup.Backup.Container
