import AppBackup.Lib.Bytes
import AppBackup.Lib.Path
import AppBackup.Lib.Utf8

/- Paths made well-formed. A reader of JSON gets a path with U+FFFD for each byte with which no
   character begins; that leaves the slashes where they are, and a proper name is still one. -/
namespace Coerced
open Base64 Bytes Utf8 Path

/-- A path as it is after a round through JSON. -/
def path (p : String) : String := toText (coerce (ofText p))

/-! ## Bytes and characters -/

theorem char_toNat (b : Byte) : (Char.ofNat b.val).toNat = b.val := by
  have hvalid : b.val.isValidChar := .inl (by omega)
  rw [Char.ofNat, dif_pos hvalid]
  rfl

theorem char_ne {b c : Byte} (h : b ≠ c) : Char.ofNat b.val ≠ Char.ofNat c.val := by
  intro he
  have hval := congrArg Char.toNat he
  rw [char_toNat, char_toNat] at hval
  exact h (Fin.ext hval)

theorem ofText_toText (bytes : List Byte) : ofText (toText bytes) = bytes := by
  have hbyte : ∀ b : Byte, byte (Char.ofNat b.val).toNat = b := by
    intro b
    rw [char_toNat]
    exact byte_eq rfl
  unfold ofText toText
  rw [String.toList_ofList, List.map_map]
  calc bytes.map ((fun c : Char => byte c.toNat) ∘ fun b : Byte => Char.ofNat b.val)
      = bytes.map id := List.map_congr_left fun b _ => hbyte b
    _ = bytes := List.map_id _

/-- Exactly the paths of valid UTF-8 come back as they are. -/
theorem path_eq_iff {p : String} (h : IsBytes p) : path p = p ↔ valid (ofText p) = true := by
  rw [← coerce_eq_iff]
  refine ⟨fun he => ?_, fun he => ?_⟩
  · have hbytes := congrArg ofText he
    unfold path at hbytes
    rw [ofText_toText] at hbytes
    exact hbytes
  · unfold path
    rw [he, toText_ofText h]

/-! ## Splitting -/

section
variable {α β : Type} [BEq β] [LawfulBEq β] {sep : β}

theorem splitOn_append {text : List β} (h : sep ∉ text) (rest : List β) :
    (text ++ rest).splitOn sep = (rest.splitOn sep).modifyHead (text ++ ·) := by
  induction text with
  | nil =>
    rw [List.nil_append]
    cases rest.splitOn sep with
    | nil => rfl
    | cons part parts => rfl
  | cons b text ih =>
    have hb : ¬(b == sep) = true := fun he => h (eq_of_beq he ▸ List.mem_cons_self ..)
    rw [List.cons_append, List.splitOn_cons_eq_if_modifyHead, if_neg hb, ih fun hmem => h (List.mem_cons_of_mem _ hmem),
      List.modifyHead_modifyHead]
    rfl

/-- A text of pieces is split at the pieces that are separators. -/
theorem splitOn_flatMap {f : α → List β} {isSep : α → Bool} {ps : List α}
    (hsep : ∀ p ∈ ps, isSep p = true → f p = [sep])
    (hother : ∀ p ∈ ps, isSep p = false → sep ∉ f p) :
    (ps.flatMap f).splitOn sep = (ps.splitOnP isSep).map fun part => part.flatMap f := by
  induction ps with
  | nil => rfl
  | cons p ps ih =>
    have htail := ih (fun q hq => hsep q (List.mem_cons_of_mem _ hq)) fun q hq => hother q (List.mem_cons_of_mem _ hq)
    rw [List.flatMap_cons, List.splitOnP_cons_eq_if_modifyHead]
    by_cases hp : isSep p = true
    · rw [if_pos hp, hsep p (List.mem_cons_self ..) hp, List.singleton_append, List.splitOn_cons_eq_if_modifyHead,
        if_pos (beq_self_eq_true sep), htail]
      rfl
    · rw [if_neg hp, splitOn_append (hother p (List.mem_cons_self ..) (Bool.eq_false_iff.mpr hp)), htail]
      cases ps.splitOnP isSep with
      | nil => rfl
      | cons part parts => rfl

end

/-! ## Names -/

def isSlash : Piece → Bool
  | .ascii b => b == 47
  | .wide _ => false
  | .invalid _ => false

def rawChars (p : Piece) : List Char := p.raw.map fun b => Char.ofNat b.val

def coercedChars (p : Piece) : List Char := p.coerced.map fun b => Char.ofNat b.val

theorem toText_flatMap (f : Piece → List Byte) (ps : List Piece) :
    (toText (ps.flatMap f)).toList = ps.flatMap fun p => (f p).map fun b => Char.ofNat b.val := by
  unfold toText
  rw [String.toList_ofList, List.map_flatMap]

theorem slash_piece {p : Piece} (hp : p.Good) :
    (isSlash p = true → rawChars p = ['/'] ∧ coercedChars p = ['/']) ∧
      (isSlash p = false → '/' ∉ rawChars p ∧ '/' ∉ coercedChars p) := by
  have hno : ∀ bytes : List Byte, (47 : Byte) ∉ bytes → '/' ∉ bytes.map fun b => Char.ofNat b.val := by
    intro bytes hbytes hmem
    obtain ⟨b, hb, he⟩ := List.mem_map.mp hmem
    have hne : b ≠ 47 := fun h => hbytes (h ▸ hb)
    exact char_ne hne he
  cases p with
  | ascii b =>
    refine ⟨fun h => ?_, fun h => ?_⟩
    · obtain rfl := eq_of_beq (show (b == 47) = true from h)
      exact ⟨rfl, rfl⟩
    · have hb : (47 : Byte) ∉ [b] := fun hmem => by
        rw [← List.mem_singleton.mp hmem] at h
        cases h
      exact ⟨hno _ hb, hno _ hb⟩
  | wide bytes =>
    have hwidth : width bytes = some bytes.length := hp
    have hb : (47 : Byte) ∉ bytes := fun hmem => by
      have hhigh := width_high hwidth 47 (by rw [List.take_length]; exact hmem)
      exact absurd hhigh (by decide)
    exact ⟨nofun, fun _ => ⟨hno _ hb, hno _ hb⟩⟩
  | invalid b =>
    have hhigh : 0x80 ≤ b.val := hp
    have hb : (47 : Byte) ∉ [b] := fun hmem => by
      rw [← List.mem_singleton.mp hmem] at hhigh
      exact absurd hhigh (by decide)
    have hreplaced : (47 : Byte) ∉ replacement := by decide
    exact ⟨nofun, fun _ => ⟨hno _ hb, hno _ hreplaced⟩⟩

/-- What is ASCII after all was not changed. -/
theorem raw_of_ascii {ps : List Piece} (h : ∀ c ∈ ps.flatMap coercedChars, c.toNat < 0x80) :
    ps.flatMap rawChars = ps.flatMap coercedChars := by
  induction ps with
  | nil => rfl
  | cons p ps ih =>
    have htail := ih fun c hc => h c (by rw [List.flatMap_cons]; exact List.mem_append_right _ hc)
    rw [List.flatMap_cons, List.flatMap_cons, htail]
    cases p with
    | ascii b => rfl
    | wide bytes => rfl
    | invalid b =>
      have hfirst := h (Char.ofNat 0xEF) (by simp [coercedChars, Piece.coerced, replacement])
      exact absurd hfirst (by decide)

/-- The names of a path are proper after the round if they were before. -/
theorem path_proper {p : String} (hbytes : IsBytes p) (h : ∀ n ∈ split p, Proper n) :
    ∀ n ∈ split (path p), Proper n := by
  have hgood : ∀ q ∈ pieces (ofText p), q.Good := pieces_good
  have hraw : p.toList = (pieces (ofText p)).flatMap rawChars := by
    have htext : toText ((pieces (ofText p)).flatMap Piece.raw) = p := by
      rw [show (pieces (ofText p)).flatMap Piece.raw = ofText p from pieces_raw (Nat.le_refl _), toText_ofText hbytes]
    have hlist := toText_flatMap Piece.raw (pieces (ofText p))
    rw [htext] at hlist
    exact hlist
  have hcoerced : (path p).toList = (pieces (ofText p)).flatMap coercedChars := toText_flatMap _ _
  have hparts : ∀ part ∈ (pieces (ofText p)).splitOnP isSlash, Proper (String.ofList (part.flatMap rawChars)) := by
    intro part hpart
    refine h _ ?_
    unfold split
    rw [hraw, splitOn_flatMap (fun q hq hs => ((slash_piece (hgood q hq)).1 hs).1)
      fun q hq hs => ((slash_piece (hgood q hq)).2 hs).1, List.map_map]
    exact List.mem_map_of_mem hpart
  intro n hn
  have hslash := slash_notMem_split hn
  unfold split at hn
  rw [hcoerced, splitOn_flatMap (fun q hq hs => ((slash_piece (hgood q hq)).1 hs).2)
    fun q hq hs => ((slash_piece (hgood q hq)).2 hs).2, List.map_map] at hn
  obtain ⟨part, hpart, rfl⟩ := List.mem_map.mp hn
  obtain ⟨hempty, hdot, hdots, -⟩ := hparts part hpart
  have hsame : ∀ chars : List Char, (∀ c ∈ chars, c.toNat < 0x80) →
      String.ofList (part.flatMap rawChars) ≠ String.ofList chars →
      String.ofList (part.flatMap coercedChars) ≠ String.ofList chars := by
    intro chars hascii hne he
    have hlist : part.flatMap coercedChars = chars := String.ofList_injective he
    refine hne ?_
    rw [raw_of_ascii (by rw [hlist]; exact hascii), hlist]
  have hnil : ∀ c ∈ ([] : List Char), c.toNat < 0x80 := fun _ hc => absurd hc List.not_mem_nil
  have hstop : '.'.toNat < 0x80 := by decide
  have hone : ∀ c ∈ ['.'], c.toNat < 0x80 := List.forall_mem_cons.mpr ⟨hstop, hnil⟩
  have htwo : ∀ c ∈ ['.', '.'], c.toNat < 0x80 := List.forall_mem_cons.mpr ⟨hstop, hone⟩
  exact ⟨hsame [] hnil hempty, hsame ['.'] hone hdot, hsame ['.', '.'] htwo hdots, hslash⟩

end Coerced
