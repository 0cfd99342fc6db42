import AppBackup.Lib.Base64
import AppBackup.Lib.Text

/- UTF-8 as the decoders of Go see it (`utf8.DecodeRune`): a text of bytes is a sequence of
   ASCII characters, of characters of more bytes, and of bytes with which no character begins.
   `coerce` writes U+FFFD for each of the last; it leaves exactly the texts as they are that
   have none. -/
namespace Utf8
open Base64

/-- U+FFFD. -/
def replacement : List Byte := [0xEF, 0xBF, 0xBD]

def isTail (b : Byte) : Bool := 0x80 ≤ b.val && b.val ≤ 0xBF

/-- How many bytes follow the first, and the bounds of the next one. -/
def leading (a : Byte) : Option (Nat × Nat × Nat) :=
  if 0xC2 ≤ a.val ∧ a.val ≤ 0xDF then some (1, 0x80, 0xBF)
  else if a.val = 0xE0 then some (2, 0xA0, 0xBF)
  else if a.val = 0xED then some (2, 0x80, 0x9F)
  else if 0xE1 ≤ a.val ∧ a.val ≤ 0xEF then some (2, 0x80, 0xBF)
  else if a.val = 0xF0 then some (3, 0x90, 0xBF)
  else if 0xF1 ≤ a.val ∧ a.val ≤ 0xF3 then some (3, 0x80, 0xBF)
  else if a.val = 0xF4 then some (3, 0x80, 0x8F)
  else none

/-- The bytes of the character of more than one byte with which a text begins. -/
def width : List Byte → Option Nat
  | a :: b :: rest =>
    match leading a with
    | none => none
    | some (more, low, high) =>
      if low ≤ b.val ∧ b.val ≤ high ∧ more - 1 ≤ rest.length ∧
        (rest.take (more - 1)).all isTail then some (more + 1)
      else none
  | _ => none

/-- `utf8.EncodeRune`. -/
def encodeRune (n : Nat) : List Byte :=
  if n < 0x80 then [byte n]
  else if n < 0x800 then [byte (0xC0 + n / 0x40), byte (0x80 + n % 0x40)]
  else if (0xD800 ≤ n ∧ n < 0xE000) ∨ 0x10FFFF < n then replacement
  else if n < 0x10000 then [byte (0xE0 + n / 0x1000), byte (0x80 + n / 0x40 % 0x40), byte (0x80 + n % 0x40)]
  else [byte (0xF0 + n / 0x40000), byte (0x80 + n / 0x1000 % 0x40), byte (0x80 + n / 0x40 % 0x40),
    byte (0x80 + n % 0x40)]

/-- The rune of a character of more than one byte. -/
def runeOf : List Byte → Nat
  | [a, b] => a.val % 0x20 * 0x40 + b.val % 0x40
  | [a, b, c] => (a.val % 0x10 * 0x40 + b.val % 0x40) * 0x40 + c.val % 0x40
  | [a, b, c, d] => ((a.val % 0x08 * 0x40 + b.val % 0x40) * 0x40 + c.val % 0x40) * 0x40 + d.val % 0x40
  | _ => 0xFFFD

/-- `utf8.ValidRune`. -/
def validRune (n : Nat) : Bool := n < 0xD800 || (0xE000 ≤ n && n ≤ 0x10FFFF)

/-! ## Pieces -/

inductive Piece where
  | ascii (b : Byte)
  | wide (bytes : List Byte)
  | invalid (b : Byte)

namespace Piece

def raw : Piece → List Byte
  | ascii b => [b]
  | wide bytes => bytes
  | invalid b => [b]

def coerced : Piece → List Byte
  | ascii b => [b]
  | wide bytes => bytes
  | invalid _ => replacement

def valid : Piece → Bool
  | invalid _ => false
  | _ => true

/-- A piece is what it says. -/
def Good : Piece → Prop
  | ascii b => b.val < 0x80
  | wide bytes => width bytes = some bytes.length
  | invalid b => 0x80 ≤ b.val

end Piece

/-- The pieces of a text, at most so many. -/
def piecesUpTo : Nat → List Byte → List Piece
  | 0, _ => []
  | _ + 1, [] => []
  | n + 1, b :: rest =>
    if b.val < 0x80 then .ascii b :: piecesUpTo n rest
    else
      match width (b :: rest) with
      | none => .invalid b :: piecesUpTo n rest
      | some w => .wide ((b :: rest).take w) :: piecesUpTo n ((b :: rest).drop w)

def pieces (text : List Byte) : List Piece := piecesUpTo text.length text

/-- A text without the bytes with which no character begins. -/
def coerce (text : List Byte) : List Byte := (pieces text).flatMap Piece.coerced

/-- `utf8.Valid`. -/
def valid (text : List Byte) : Bool := (pieces text).all Piece.valid

/-- A piece that `unicode.IsSpace` takes. -/
def Piece.isSpace : Piece → Bool
  | .ascii b => Text.isSpace (Char.ofNat b.val)
  | .wide bytes => Text.isSpace (Char.ofNat (runeOf bytes))
  | .invalid _ => false

/-- `strings.TrimSpace`. -/
def trimSpace (text : List Byte) : List Byte :=
  (((pieces text).dropWhile Piece.isSpace).reverse.dropWhile Piece.isSpace).reverse.flatMap Piece.raw

/-! ## One character -/

theorem width_some {text : List Byte} {w : Nat} (h : width text = some w) : ∃ a b rest more low high,
    text = a :: b :: rest ∧ leading a = some (more, low, high) ∧ low ≤ b.val ∧ b.val ≤ high ∧
      more - 1 ≤ rest.length ∧ (rest.take (more - 1)).all isTail = true ∧ w = more + 1 := by
  match text, h with
  | a :: b :: rest, h =>
    simp only [width] at h
    split at h
    · cases h
    · next more low high hlead =>
      split at h
      · next hok =>
        obtain ⟨hlow, hhigh, hlong, htails⟩ := hok
        exact ⟨a, b, rest, more, low, high, rfl, hlead, hlow, hhigh, hlong, htails, (Option.some.inj h).symm⟩
      · cases h

theorem leading_some {a : Byte} {more low high : Nat} (h : leading a = some (more, low, high)) :
    0x80 ≤ a.val ∧ 1 ≤ more ∧ 0x80 ≤ low := by
  unfold leading at h
  repeat' split at h
  all_goals first
    | (simp only [Option.some.injEq, Prod.mk.injEq] at h; omega)
    | cases h

theorem width_bounds {text : List Byte} {w : Nat} (h : width text = some w) : 2 ≤ w ∧ w ≤ text.length := by
  obtain ⟨a, b, rest, more, low, high, rfl, hlead, -, -, hlong, -, rfl⟩ := width_some h
  obtain ⟨-, hmore, -⟩ := leading_some hlead
  simp only [List.length_cons]
  omega

/-- The bytes of a character decide that it is one. -/
theorem width_take {text : List Byte} {w : Nat} (h : width text = some w) (more : List Byte) :
    width (text.take w ++ more) = some w := by
  obtain ⟨a, b, rest, tails, low, high, rfl, hlead, hlow, hhigh, hlong, htails, rfl⟩ := width_some h
  obtain ⟨-, hmore, -⟩ := leading_some hlead
  obtain ⟨k, rfl⟩ : ∃ k, tails = k + 1 := ⟨tails - 1, by omega⟩
  have hlong : k ≤ rest.length := hlong
  have htake : (rest.take k ++ more).take k = rest.take k := by
    rw [List.take_append_of_le_length (by simp [hlong]), List.take_take, Nat.min_self]
  show width (a :: b :: (rest.take k ++ more)) = _
  simp only [width, hlead, Nat.add_sub_cancel, htake]
  refine if_pos ⟨hlow, hhigh, ?_, htails⟩
  simp [hlong]

/-- No byte of such a character is ASCII. -/
theorem width_high {text : List Byte} {w : Nat} (h : width text = some w) : ∀ b ∈ text.take w, 0x80 ≤ b.val := by
  obtain ⟨a, b, rest, tails, low, high, rfl, hlead, hlow, hhigh, hlong, htails, rfl⟩ := width_some h
  obtain ⟨hfirst, hmore, hlow'⟩ := leading_some hlead
  obtain ⟨k, rfl⟩ : ∃ k, tails = k + 1 := ⟨tails - 1, by omega⟩
  intro c hc
  have hc : c ∈ a :: b :: rest.take k := hc
  obtain rfl | hc := List.mem_cons.mp hc
  · exact hfirst
  · obtain rfl | hc := List.mem_cons.mp hc
    · omega
    · have htail := List.all_eq_true.mp htails c hc
      unfold isTail at htail
      simp only [Bool.and_eq_true, decide_eq_true_eq] at htail
      exact htail.1

theorem leading_spec : ∀ a : Byte, leading a = none ∨
    (∃ low high, leading a = some (1, low, high) ∧ 0xC2 ≤ a.val ∧ a.val ≤ 0xDF ∧ low = 0x80 ∧
      high = 0xBF) ∨
    (∃ low high, leading a = some (2, low, high) ∧ 0xE0 ≤ a.val ∧ a.val ≤ 0xEF ∧ 0x80 ≤ low ∧
      high ≤ 0xBF ∧
      (a.val = 0xE0 → low = 0xA0) ∧ (a.val = 0xED → high = 0x9F)) ∨
    ∃ low high, leading a = some (3, low, high) ∧ 0xF0 ≤ a.val ∧ a.val ≤ 0xF4 ∧ 0x80 ≤ low ∧
      high ≤ 0xBF ∧
      (a.val = 0xF0 → low = 0x90) ∧ (a.val = 0xF4 → high = 0x8F) := by
  intro a
  unfold leading
  split_ifs
  · exact .inr (.inl ⟨_, _, rfl, by omega⟩)
  · exact .inr (.inr (.inl ⟨_, _, rfl, by omega⟩))
  · exact .inr (.inr (.inl ⟨_, _, rfl, by omega⟩))
  · exact .inr (.inr (.inl ⟨_, _, rfl, by omega⟩))
  · exact .inr (.inr (.inr ⟨_, _, rfl, by omega⟩))
  · exact .inr (.inr (.inr ⟨_, _, rfl, by omega⟩))
  · exact .inr (.inr (.inr ⟨_, _, rfl, by omega⟩))
  · exact .inl rfl

theorem isTail_iff {b : Byte} : isTail b = true ↔ 0x80 ≤ b.val ∧ b.val ≤ 0xBF := by
  simp [isTail]

/-- A character of more than one byte is its rune encoded. -/
theorem encodeRune_runeOf {bytes : List Byte} (h : width bytes = some bytes.length) :
    encodeRune (runeOf bytes) = bytes ∧ 0x80 ≤ runeOf bytes ∧ validRune (runeOf bytes) = true := by
  obtain ⟨a, b, rest, more, low, high, rfl, hlead, hlow, hhigh, -, htails, hlen⟩ := width_some h
  have htake : rest.take (more - 1) = rest := List.take_of_length_le (by simp at hlen; omega)
  rw [htake] at htails
  simp only [List.length_cons] at hlen
  obtain hnone | ⟨low', high', hlead', ha⟩ | ⟨low', high', hlead', ha⟩ | ⟨low', high', hlead', ha⟩ :=
      leading_spec a
  · rw [hnone] at hlead
    cases hlead
  all_goals
    rw [hlead'] at hlead
    simp only [Option.some.injEq, Prod.mk.injEq] at hlead
    obtain ⟨rfl, rfl, rfl⟩ := hlead
  · obtain rfl : rest = [] := List.length_eq_zero_iff.mp (by omega)
    have hrune : runeOf [a, b] = a.val % 0x20 * 0x40 + b.val % 0x40 := rfl
    refine ⟨?_, by omega, by simp [validRune]; omega⟩
    unfold encodeRune
    rw [hrune, if_neg (by omega), if_pos (by omega), byte_eq (b := a) (by omega), byte_eq (b := b) (by omega)]
  · obtain ⟨c, rfl⟩ := List.length_eq_one_iff.mp (show rest.length = 1 by omega)
    have hc := isTail_iff.mp (List.all_eq_true.mp htails c (List.mem_singleton_self c))
    have hrune : runeOf [a, b, c] = (a.val % 0x10 * 0x40 + b.val % 0x40) * 0x40 + c.val % 0x40 := rfl
    refine ⟨?_, by omega, by simp [validRune]; omega⟩
    unfold encodeRune
    rw [hrune, if_neg (by omega), if_neg (by omega), if_neg (by omega), if_pos (by omega),
      byte_eq (b := a) (by omega), byte_eq (b := b) (by omega), byte_eq (b := c) (by omega)]
  · obtain ⟨c, d, rfl⟩ := List.length_eq_two.mp (show rest.length = 2 by omega)
    have hc := isTail_iff.mp (List.all_eq_true.mp htails c (List.mem_cons_self ..))
    have hd := isTail_iff.mp (List.all_eq_true.mp htails d (List.mem_cons_of_mem _ (List.mem_singleton_self d)))
    have hrune : runeOf [a, b, c, d] =
      ((a.val % 0x08 * 0x40 + b.val % 0x40) * 0x40 + c.val % 0x40) * 0x40 + d.val % 0x40 := rfl
    refine ⟨?_, by omega, by simp [validRune]; omega⟩
    unfold encodeRune
    rw [hrune, if_neg (by omega), if_neg (by omega), if_neg (by omega), if_neg (by omega),
      byte_eq (b := a) (by omega), byte_eq (b := b) (by omega), byte_eq (b := c) (by omega),
      byte_eq (b := d) (by omega)]

theorem encodeRune_ascii {b : Byte} (hb : b.val < 0x80) : encodeRune b.val = [b] := by
  unfold encodeRune
  rw [if_pos hb, byte_eq rfl]

theorem nul_notMem_encodeRune {n : Nat} (h : n ≠ 0) : 0 ∉ encodeRune n := by
  have hne : ∀ m, m % 256 ≠ 0 → (0 : Byte) ≠ byte m := by
    intro m hm he
    exact hm (congrArg Fin.val he).symm
  unfold encodeRune
  split_ifs
  · simpa using hne n (by omega)
  · have h1 := hne (0xC0 + n / 0x40) (by omega)
    have h2 := hne (0x80 + n % 0x40) (by omega)
    simp [h1, h2]
  · decide
  · have h1 := hne (0xE0 + n / 0x1000) (by omega)
    have h2 := hne (0x80 + n / 0x40 % 0x40) (by omega)
    have h3 := hne (0x80 + n % 0x40) (by omega)
    simp [h1, h2, h3]
  · have h1 := hne (0xF0 + n / 0x40000) (by omega)
    have h2 := hne (0x80 + n / 0x1000 % 0x40) (by omega)
    have h3 := hne (0x80 + n / 0x40 % 0x40) (by omega)
    have h4 := hne (0x80 + n % 0x40) (by omega)
    simp [h1, h2, h3, h4]

/-! ## Texts -/

theorem pieces_raw {n : Nat} {text : List Byte} (h : text.length ≤ n) :
    (piecesUpTo n text).flatMap Piece.raw = text := by
  induction n generalizing text with
  | zero =>
    obtain rfl := List.length_eq_zero_iff.mp (Nat.le_zero.mp h)
    rfl
  | succ n ih =>
    cases text with
    | nil => rfl
    | cons b rest =>
      have hrest : rest.length ≤ n := by simpa using h
      unfold piecesUpTo
      split
      · rw [List.flatMap_cons, ih hrest]
        rfl
      · split
        · rw [List.flatMap_cons, ih hrest]
          rfl
        · next w hw =>
          obtain ⟨htwo, -⟩ := width_bounds hw
          have hdrop : ((b :: rest).drop w).length ≤ n := by
            rw [List.length_drop, List.length_cons]
            omega
          rw [List.flatMap_cons, ih hdrop]
          exact List.take_append_drop w (b :: rest)

theorem pieces_good {n : Nat} {text : List Byte} : ∀ p ∈ piecesUpTo n text, p.Good := by
  induction n generalizing text with
  | zero => exact fun p hp => absurd hp List.not_mem_nil
  | succ n ih =>
    cases text with
    | nil => exact fun p hp => absurd hp List.not_mem_nil
    | cons b rest =>
      unfold piecesUpTo
      split
      · next hb => exact List.forall_mem_cons.mpr ⟨hb, ih⟩
      · next hb =>
        split
        · exact List.forall_mem_cons.mpr ⟨not_lt.mp hb, ih⟩
        · next w hw =>
          refine List.forall_mem_cons.mpr ⟨?_, ih⟩
          have hself := width_take hw []
          rw [List.append_nil] at hself
          show width ((b :: rest).take w) = _
          rw [hself, List.length_take, Nat.min_eq_left (width_bounds hw).2]

theorem length_coerced (ps : List Piece) :
    (ps.flatMap Piece.coerced).length = (ps.flatMap Piece.raw).length + 2 * ps.countP (fun p => !p.valid) := by
  induction ps with
  | nil => rfl
  | cons p ps ih =>
    rw [List.flatMap_cons, List.flatMap_cons, List.length_append, List.length_append, List.countP_cons, ih]
    cases p <;> simp [Piece.coerced, Piece.raw, Piece.valid, replacement] <;> omega

theorem coerced_valid {ps : List Piece} (h : ps.all Piece.valid = true) :
    ps.flatMap Piece.coerced = ps.flatMap Piece.raw := by
  induction ps with
  | nil => rfl
  | cons p ps ih =>
    rw [List.all_cons, Bool.and_eq_true] at h
    rw [List.flatMap_cons, List.flatMap_cons, ih h.2]
    cases p with
    | ascii b => rfl
    | wide bytes => rfl
    | invalid b => cases h.1

theorem coerce_eq_iff {text : List Byte} : coerce text = text ↔ valid text = true := by
  have hraw : (pieces text).flatMap Piece.raw = text := pieces_raw (Nat.le_refl _)
  refine ⟨fun h => ?_, fun h => (coerced_valid h).trans hraw⟩
  have hlength := length_coerced (pieces text)
  rw [show (pieces text).flatMap Piece.coerced = text from h, hraw] at hlength
  have hnone : (pieces text).countP (fun p => !p.valid) = 0 := by omega
  unfold valid
  rw [List.all_eq_true]
  intro p hp
  have hp := List.countP_eq_zero.mp hnone p hp
  simpa using hp

end Utf8
