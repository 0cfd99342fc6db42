import AppBackup.Lib.Bytes
import AppBackup.Lib.Utf8

/- Quoted texts as `strconv` writes and reads them. What is printable beyond ASCII is a
   table of Unicode, here a parameter: whatever it says, a text of any bytes is read back,
   also one that is not valid UTF-8. -/
namespace Quote
open Base64 Bytes Utf8

/-- `strconv.IsPrint`. -/
def isPrint (table : Nat → Bool) (r : Nat) : Bool := if r < 0x80 then 0x20 ≤ r && r < 0x7F else table r

/-- The control characters with an escape of one letter: `a`, `b`, `f`, `n`, `r`, `t` and `v`. -/
def letters : List (Nat × Byte) := [(7, 97), (8, 98), (12, 102), (10, 110), (13, 114), (9, 116), (11, 118)]

/-- `appendEscapedRune`, between double quotes. -/
def escapedRune (table : Nat → Bool) (r : Nat) : List Byte :=
  if r = 34 ∨ r = 92 then [92, byte r]
  else if isPrint table r then encodeRune r
  else
    match letters.lookup r with
    | some c => [92, c]
    | none =>
      if r < 0x20 ∨ r = 0x7F then 92 :: 120 :: writeHex 2 r
      else if validRune r = false then 92 :: 117 :: writeHex 4 0xFFFD
      else if r < 0x10000 then 92 :: 117 :: writeHex 4 r
      else 92 :: 85 :: writeHex 8 r

def quotePiece (table : Nat → Bool) : Piece → List Byte
  | .ascii b => escapedRune table b.val
  | .wide bytes => escapedRune table (runeOf bytes)
  | .invalid b => 92 :: 120 :: writeHex 2 b.val

/-- `strconv.Quote`. -/
def quote (table : Nat → Bool) (text : List Byte) : List Byte :=
  34 :: ((pieces text).flatMap (quotePiece table) ++ [34])

/-! ## Reading -/

/-- The two digits behind the first of an octal escape. -/
def readOctal (first : Byte) : List Byte → Option (List Byte × List Byte)
  | a :: b :: rest =>
    let value := ((first.val - 48) * 8 + (a.val - 48)) * 8 + (b.val - 48)
    if (48 ≤ a.val ∧ a.val ≤ 55) ∧ (48 ≤ b.val ∧ b.val ≤ 55) ∧
      value ≤ 255 then some ([byte value], rest)
    else none
  | _ => none

/-- What follows a backslash: the bytes it stands for, and the rest. -/
def readEscape (mark : Byte) : List Byte → Option (List Byte × List Byte)
  | [] => none
  | c :: rest =>
    if c = 97 then some ([7], rest)
    else if c = 98 then some ([8], rest)
    else if c = 102 then some ([12], rest)
    else if c = 110 then some ([10], rest)
    else if c = 114 then some ([13], rest)
    else if c = 116 then some ([9], rest)
    else if c = 118 then some ([11], rest)
    else if c = 120 then (readHex 2 rest).map fun (value, rest) => ([byte value], rest)
    else if c = 117 ∨ c = 85 then
      match readHex (if c = 117 then 4 else 8) rest with
      | none => none
      | some (value, rest) => if validRune value then some (encodeRune value, rest) else none
    else if 48 ≤ c.val ∧ c.val ≤ 55 then readOctal c rest
    else if c = 92 then some ([92], rest)
    else if (c = 39 ∨ c = 34) ∧ c = mark then some ([c], rest)
    else none

/-- `strconv.UnquoteChar`, with what `unquote` appends for the character. -/
def unquoteChar (mark : Byte) : List Byte → Option (List Byte × List Byte)
  | [] => none
  | c :: rest =>
    if c = mark then none
    else if 0x80 ≤ c.val then
      match width (c :: rest) with
      | none => some (replacement, rest)
      | some w => some ((c :: rest).take w, (c :: rest).drop w)
    else if c ≠ 92 then some ([c], rest)
    else readEscape mark rest

/-- Less than so many characters behind a quotation mark, up to the next, and what follows. -/
def unquoteUpTo (mark : Byte) : Nat → List Byte → Option (List Byte × List Byte)
  | 0, _ => none
  | _ + 1, [] => none
  | n + 1, c :: rest =>
    if c = mark then some ([], rest)
    else if c = 10 then none
    else
      match unquoteChar mark (c :: rest) with
      | none => none
      | some (value, rest) => (unquoteUpTo mark n rest).map fun (more, after) => (value ++ more, after)

/-- A text between back quotes: carriage returns are dropped. -/
def unquoteRaw (text : List Byte) : Option (List Byte × List Byte) :=
  match text.span (· != 96) with
  | (_, []) => none
  | (value, _ :: after) => some (value.filter (· != 13), after)

def unquotePrefix : List Byte → Option (List Byte × List Byte)
  | [] => none
  | mark :: rest =>
    if mark = 96 then unquoteRaw rest
    else if mark = 34 then unquoteUpTo 34 rest.length rest
    else if mark = 39 then unquoteUpTo 39 2 rest
    else none

/-- `strconv.Unquote`. -/
def unquote (text : List Byte) : Option (List Byte) :=
  match unquotePrefix text with
  | some (value, []) => some value
  | _ => none

/-! ## What is written is read back -/

section
variable {table : Nat → Bool} {rest value after : List Byte} {n : Nat}

/-- One character of a double-quoted text: it does not begin as the closing quote or a line
end does, and `unquoteChar` reads it. -/
structure Reads (text value rest : List Byte) : Prop where
  begins : ∃ c tail, text = c :: tail ∧ c ≠ 34 ∧ c ≠ 10
  reads : unquoteChar 34 text = some (value, rest)

theorem Reads.step {text part : List Byte} (hread : Reads text part rest)
    (h : unquoteUpTo 34 n rest = some (value, after)) :
    unquoteUpTo 34 (n + 1) text = some (part ++ value, after) := by
  obtain ⟨⟨c, tail, rfl, hquote, hline⟩, hchar⟩ := hread
  unfold unquoteUpTo
  rw [if_neg hquote, if_neg hline, hchar]
  simp only [h, Option.map_some]

theorem reads_escape {escape part : List Byte} (h : readEscape 34 (escape ++ rest) = some (part, rest)) :
    Reads (92 :: escape ++ rest) part rest :=
  ⟨⟨92, escape ++ rest, rfl, by decide, by decide⟩, h⟩

theorem reads_ascii {b : Byte} (hb : b.val < 0x80) (hquote : b ≠ 34) (hline : b ≠ 10) (hslash : b ≠ 92) :
    Reads (b :: rest) [b] rest := by
  refine ⟨⟨b, rest, rfl, hquote, hline⟩, ?_⟩
  rw [unquoteChar, if_neg hquote, if_neg (by omega), if_pos hslash]

theorem reads_wide {bytes : List Byte} (hwidth : width bytes = some bytes.length) :
    Reads (bytes ++ rest) bytes rest := by
  have hmore : width (bytes ++ rest) = some bytes.length := by
    have htake := width_take hwidth rest
    rwa [List.take_length] at htake
  have hhigh := width_high hwidth
  rw [List.take_length] at hhigh
  obtain ⟨b, tail, rfl⟩ := List.exists_cons_of_length_pos
    (Nat.lt_of_lt_of_le (by omega : 0 < 2) (width_bounds hwidth).1)
  have hfirst := hhigh b (List.mem_cons_self ..)
  have hne : ∀ c : Byte, c.val < 0x80 → b ≠ c := by
    intro c hc he
    rw [he] at hfirst
    omega
  refine ⟨⟨b, tail ++ rest, rfl, hne 34 (by decide), hne 10 (by decide)⟩, ?_⟩
  rw [List.cons_append] at hmore ⊢
  rw [unquoteChar, if_neg (hne 34 (by decide)), if_pos hfirst, hmore]
  show some ((b :: (tail ++ rest)).take (b :: tail).length, (b :: (tail ++ rest)).drop (b :: tail).length) = _
  rw [← List.cons_append, List.take_left, List.drop_left]

theorem readEscape_hex {r : Nat} (h : r < 0x100) :
    readEscape 34 ((120 :: writeHex 2 r) ++ rest) = some ([byte r], rest) := by
  show (readHex 2 (writeHex 2 r ++ rest)).map (fun (value, rest) => ([byte value], rest)) = _
  rw [readHex_writeHex h]
  rfl

theorem readEscape_rune {r : Nat} (h : r < 0x10000) (hvalid : validRune r = true) :
    readEscape 34 ((117 :: writeHex 4 r) ++ rest) = some (encodeRune r, rest) := by
  show (match readHex 4 (writeHex 4 r ++ rest) with
    | none => none
    | some (value, rest) => if validRune value then some (encodeRune value, rest) else none) = _
  rw [readHex_writeHex h]
  exact if_pos hvalid

theorem readEscape_longRune {r : Nat} (hvalid : validRune r = true) :
    readEscape 34 ((85 :: writeHex 8 r) ++ rest) = some (encodeRune r, rest) := by
  have h : r < 16 ^ 8 := by
    simp [validRune] at hvalid
    omega
  show (match readHex 8 (writeHex 8 r ++ rest) with
    | none => none
    | some (value, rest) => if validRune value then some (encodeRune value, rest) else none) = _
  rw [readHex_writeHex h]
  exact if_pos hvalid

theorem readEscape_letter {r : Nat} {c : Byte} (h : letters.lookup r = some c) :
    r < 0x80 ∧ c ≠ 0 ∧ readEscape 34 (c :: rest) = some ([byte r], rest) := by
  have hmem : (r, c) ∈ letters := by
    obtain ⟨before, after, hlist, -⟩ := List.lookup_eq_some_iff.mp h
    rw [hlist]
    simp
  simp only [letters, List.mem_cons, Prod.mk.injEq, List.not_mem_nil, or_false] at hmem
  obtain ⟨rfl, rfl⟩ | ⟨rfl, rfl⟩ | ⟨rfl, rfl⟩ | ⟨rfl, rfl⟩ | ⟨rfl, rfl⟩ | ⟨rfl, rfl⟩ |
      ⟨rfl, rfl⟩ := hmem
  all_goals exact ⟨by decide, by decide, rfl⟩

/-- The escape of a rune is read back, or the rune stands as it is. -/
theorem escapedRune_cases (table : Nat → Bool) {r : Nat} (hvalid : validRune r = true) (rest : List Byte) :
    (escapedRune table r = encodeRune r ∧ 0x20 ≤ r ∧ r ≠ 34 ∧ r ≠ 92) ∨
      ∃ escape, escapedRune table r = 92 :: escape ∧ 0 ∉ escape ∧
        readEscape 34 (escape ++ rest) = some (encodeRune r, rest) := by
  have hsmall : ∀ {r : Nat}, r < 0x80 → encodeRune r = [byte r] := fun h => if_pos h
  unfold escapedRune
  by_cases hquote : r = 34 ∨ r = 92
  · rw [if_pos hquote]
    refine .inr ⟨[byte r], rfl, ?_⟩
    obtain rfl | rfl := hquote <;> exact ⟨by decide, rfl⟩
  rw [if_neg hquote]
  rw [not_or] at hquote
  by_cases hprint : isPrint table r = true
  · rw [if_pos hprint]
    refine .inl ⟨rfl, ?_, hquote⟩
    unfold isPrint at hprint
    by_cases hascii : r < 0x80
    · rw [if_pos hascii, Bool.and_eq_true, decide_eq_true_eq] at hprint
      exact hprint.1
    · omega
  rw [if_neg hprint]
  right
  cases hletter : letters.lookup r with
  | some c =>
    obtain ⟨hlow, hc, hread⟩ := @readEscape_letter rest r c hletter
    refine ⟨[c], rfl, fun h => hc (List.mem_singleton.mp h).symm, ?_⟩
    rw [hsmall hlow]
    exact hread
  | none =>
    simp only
    by_cases hlow : r < 0x20 ∨ r = 0x7F
    · refine ⟨120 :: writeHex 2 r, if_pos hlow, ?_, ?_⟩
      · exact fun h => nul_notMem_writeHex 2 r ((List.mem_cons.mp h).resolve_left (by decide))
      · rw [hsmall (by omega)]
        exact readEscape_hex (by omega)
    rw [if_neg hlow, if_neg (by rw [hvalid]; decide)]
    by_cases hshort : r < 0x10000
    · refine ⟨117 :: writeHex 4 r, if_pos hshort, ?_, readEscape_rune hshort hvalid⟩
      exact fun h => nul_notMem_writeHex 4 r ((List.mem_cons.mp h).resolve_left (by decide))
    · refine ⟨85 :: writeHex 8 r, if_neg hshort, ?_, readEscape_longRune hvalid⟩
      exact fun h => nul_notMem_writeHex 8 r ((List.mem_cons.mp h).resolve_left (by decide))

theorem reads_piece (table : Nat → Bool) {p : Piece} (hp : p.Good) (rest : List Byte) :
    Reads (quotePiece table p ++ rest) p.raw rest := by
  cases p with
  | ascii b =>
    have hp : b.val < 0x80 := hp
    obtain ⟨hplain, hlow, hquote, hslash⟩ | ⟨escape, hescape, -, hread⟩ :=
      escapedRune_cases table (show validRune b.val = true by simp [validRune]; omega) rest
    · show Reads (escapedRune table b.val ++ rest) [b] rest
      rw [hplain, encodeRune_ascii hp]
      have hne : ∀ c : Byte, b.val ≠ c.val → b ≠ c := fun c hc he => hc (congrArg Fin.val he)
      exact reads_ascii hp (hne 34 hquote) (hne 10 (fun h => absurd (h ▸ hlow) (by decide))) (hne 92 hslash)
    · show Reads (escapedRune table b.val ++ rest) [b] rest
      rw [encodeRune_ascii hp] at hread
      rw [hescape]
      exact reads_escape hread
  | wide bytes =>
    obtain ⟨hencode, hhigh, hvalid⟩ := encodeRune_runeOf hp
    obtain ⟨hplain, -⟩ | ⟨escape, hescape, -, hread⟩ := escapedRune_cases table hvalid rest
    · show Reads (escapedRune table (runeOf bytes) ++ rest) bytes rest
      rw [hplain, hencode]
      exact reads_wide hp
    · show Reads (escapedRune table (runeOf bytes) ++ rest) bytes rest
      rw [hencode] at hread
      rw [hescape]
      exact reads_escape hread
  | invalid b =>
    have hread := @readEscape_hex rest b.val b.isLt
    rw [byte_eq rfl] at hread
    exact reads_escape hread

theorem unquoteUpTo_pieces (table : Nat → Bool) {ps : List Piece} (hps : ∀ p ∈ ps, p.Good)
    (hn : ps.length < n) :
    unquoteUpTo 34 n (ps.flatMap (quotePiece table) ++ 34 :: rest) = some (ps.flatMap Piece.raw, rest) := by
  induction ps generalizing n with
  | nil =>
    obtain ⟨n, rfl⟩ : ∃ k, n = k + 1 := ⟨n - 1, by simp at hn; omega⟩
    rfl
  | cons p ps ih =>
    obtain ⟨n, rfl⟩ : ∃ k, n = k + 1 := ⟨n - 1, by simp at hn; omega⟩
    have hrest := ih (n := n) (fun q hq => hps q (List.mem_cons_of_mem _ hq)) (by simpa using hn)
    rw [List.flatMap_cons, List.flatMap_cons, List.append_assoc]
    exact (reads_piece table (hps p (List.mem_cons_self ..)) _).step hrest

theorem length_quotePiece (table : Nat → Bool) {p : Piece} (hp : p.Good) : 1 ≤ (quotePiece table p).length := by
  obtain ⟨c, tail, htext, -⟩ := (reads_piece table hp []).begins
  rw [List.append_nil] at htext
  rw [htext]
  exact Nat.succ_le_succ (Nat.zero_le _)

theorem length_le_flatMap (table : Nat → Bool) {ps : List Piece} (hps : ∀ p ∈ ps, p.Good) :
    ps.length ≤ (ps.flatMap (quotePiece table)).length := by
  induction ps with
  | nil => exact Nat.le_refl 0
  | cons p ps ih =>
    have hfirst := length_quotePiece table (hps p (List.mem_cons_self ..))
    have hrest := ih fun q hq => hps q (List.mem_cons_of_mem _ hq)
    rw [List.flatMap_cons, List.length_append, List.length_cons]
    omega

end

theorem unquote_quote (table : Nat → Bool) (text : List Byte) : unquote (quote table text) = some text := by
  have hgood : ∀ p ∈ pieces text, p.Good := pieces_good
  have hlen := length_le_flatMap table hgood
  have hread := @unquoteUpTo_pieces [] ((pieces text).flatMap (quotePiece table) ++ [34]).length table _ hgood
    (by rw [List.length_append, List.length_singleton]; omega)
  rw [show (pieces text).flatMap Piece.raw = text from pieces_raw (Nat.le_refl _)] at hread
  unfold unquote quote
  rw [show unquotePrefix (34 :: ((pieces text).flatMap (quotePiece table) ++ [34])) = _ from hread]

theorem nul_notMem_quote (table : Nat → Bool) (text : List Byte) : 0 ∉ quote table text := by
  have hrune : ∀ r, validRune r = true → 0 ∉ escapedRune table r := by
    intro r hvalid
    obtain ⟨hplain, hlow, -⟩ | ⟨escape, hescape, hnul, -⟩ := escapedRune_cases table hvalid []
    · rw [hplain]
      exact nul_notMem_encodeRune (by omega)
    · rw [hescape]
      exact fun h => hnul ((List.mem_cons.mp h).resolve_left (by decide))
  have hpiece : ∀ p ∈ pieces text, 0 ∉ quotePiece table p := by
    intro p hp
    have hgood : p.Good := pieces_good p hp
    cases p with
    | ascii b =>
      have hb : b.val < 0x80 := hgood
      exact hrune b.val (by simp [validRune]; omega)
    | wide bytes => exact hrune _ (encodeRune_runeOf hgood).2.2
    | invalid b =>
      intro h
      obtain h | h := List.mem_cons.mp h
      · exact absurd h (by decide)
      · exact nul_notMem_writeHex 2 b.val ((List.mem_cons.mp h).resolve_left (by decide))
  intro h
  obtain h | h := List.mem_cons.mp h
  · exact absurd h (by decide)
  obtain h | h := List.mem_append.mp h
  · obtain ⟨p, hp, h⟩ := List.mem_flatMap.mp h
    exact hpiece p hp h
  · exact absurd (List.mem_singleton.mp h) (by decide)

end Quote
