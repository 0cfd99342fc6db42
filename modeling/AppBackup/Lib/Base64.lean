import Mathlib.Data.Fin.Basic
import Mathlib.Data.List.Basic
import Mathlib.Data.UInt

/- The bytes of a text and the unpadded URL alphabet of base64: three bytes are four
   digits of six bits, a rest of one or two bytes two or three of them. The decoder passes
   over line ends and refuses any other character outside the alphabet; it reads back what
   the encoder wrote. -/
namespace Base64

/-- A byte. -/
abbrev Byte := Fin 256

/-- The numbers below 256 are bytes. -/
instance byteBase : NeZero 256 := ⟨by decide⟩

/-- The bytes of a text in UTF-8. -/
def utf8 (text : String) : List Byte := text.toByteArray.data.toList.map UInt8.toFin

def byte (n : Nat) : Byte := Fin.ofNat 256 n

/-- The character of a digit. -/
def digit (d : Nat) : Char :=
  if d < 26 then Char.ofNat ('A'.toNat + d)
  else if d < 52 then Char.ofNat ('a'.toNat + (d - 26))
  else if d < 62 then Char.ofNat ('0'.toNat + (d - 52))
  else if d = 62 then '-' else '_'

/-- The digit of a character. -/
def value (c : Char) : Option Nat :=
  if 'A' ≤ c ∧ c ≤ 'Z' then some (c.toNat - 'A'.toNat)
  else if 'a' ≤ c ∧ c ≤ 'z' then some (c.toNat - 'a'.toNat + 26)
  else if '0' ≤ c ∧ c ≤ '9' then some (c.toNat - '0'.toNat + 52)
  else if c = '-' then some 62
  else if c = '_' then some 63
  else none

def sextets : List Byte → List Nat
  | [] => []
  | [a] => [a.val / 4, a.val % 4 * 16]
  | [a, b] => [a.val / 4, a.val % 4 * 16 + b.val / 16, b.val % 16 * 4]
  | a :: b :: c :: rest =>
    a.val / 4 :: (a.val % 4 * 16 + b.val / 16) :: (b.val % 16 * 4 + c.val / 64) :: c.val % 64 ::
      sextets rest

/-- A rest of one digit is an error; the spare bits of a shorter group are dropped. -/
def ofSextets : List Nat → Option (List Byte)
  | [] => some []
  | [_] => none
  | [p, q] => some [byte (p * 4 + q / 16)]
  | [p, q, r] => some [byte (p * 4 + q / 16), byte (q % 16 * 16 + r / 4)]
  | p :: q :: r :: t :: rest =>
    (ofSextets rest).map
      ([byte (p * 4 + q / 16), byte (q % 16 * 16 + r / 4), byte (r % 4 * 64 + t)] ++ ·)

def encode (bytes : List Byte) : String := String.ofList ((sextets bytes).map digit)

def decode (text : String) : Option (List Byte) :=
  ((text.toList.filter fun c => c != '\r' && c != '\n').mapM value).bind ofSextets

/-! ## Texts -/

theorem utf8_injective : Function.Injective utf8 := by
  intro a b h
  have hbytes : a.toByteArray.data.toList = b.toByteArray.data.toList := by
    apply List.map_injective_iff.mpr ?_ h
    intro x y hxy
    exact UInt8.toFin_inj.mp hxy
  apply String.toByteArray_inj.mp
  exact ByteArray.ext (Array.toList_inj.mp hbytes)

theorem utf8_ofList (l : List Char) :
    utf8 (String.ofList l) = l.flatMap fun c => (String.utf8EncodeChar c).map UInt8.toFin := by
  unfold utf8
  rw [String.toByteArray_ofList, List.utf8Encode, List.toList_data_toByteArray, List.map_flatMap]

/-! ## Digits -/

theorem sextets_lt (bytes : List Byte) : ∀ d ∈ sextets bytes, d < 64 := by
  induction bytes using sextets.induct with
  | case1 => simp [sextets]
  | case2 a =>
    have := a.isLt
    simp only [sextets, List.mem_cons, List.not_mem_nil, or_false]
    omega
  | case3 a b =>
    have := a.isLt
    have := b.isLt
    simp only [sextets, List.mem_cons, List.not_mem_nil, or_false]
    omega
  | case4 a b c rest ih =>
    have := a.isLt
    have := b.isLt
    have := c.isLt
    intro d hd
    simp only [sextets, List.mem_cons] at hd
    obtain hd | hd | hd | hd | hd := hd
    case inr.inr.inr.inr => exact ih d hd
    all_goals omega

theorem digit_spec : ∀ d < 64, value (digit d) = some d ∧ digit d ≠ '\r' ∧ digit d ≠ '\n' ∧
    0 ∉ (String.utf8EncodeChar (digit d)).map UInt8.toFin := by
  decide

theorem byte_eq {n : Nat} {b : Byte} (h : n = b.val) : byte n = b := by
  subst h
  exact Fin.ofNat_val_eq_self b

theorem ofSextets_sextets (bytes : List Byte) : ofSextets (sextets bytes) = some bytes := by
  induction bytes using sextets.induct with
  | case1 => rfl
  | case2 a =>
    have ha : byte (a.val / 4 * 4 + a.val % 4 * 16 / 16) = a := byte_eq (by omega)
    rw [sextets, ofSextets, ha]
  | case3 a b =>
    have := b.isLt
    have ha : byte (a.val / 4 * 4 + (a.val % 4 * 16 + b.val / 16) / 16) = a := byte_eq (by omega)
    have hb : byte ((a.val % 4 * 16 + b.val / 16) % 16 * 16 + b.val % 16 * 4 / 4) = b :=
      byte_eq (by omega)
    rw [sextets, ofSextets, ha, hb]
  | case4 a b c rest ih =>
    have := b.isLt
    have := c.isLt
    have ha : byte (a.val / 4 * 4 + (a.val % 4 * 16 + b.val / 16) / 16) = a := byte_eq (by omega)
    have hb : byte ((a.val % 4 * 16 + b.val / 16) % 16 * 16 + (b.val % 16 * 4 + c.val / 64) / 4) = b :=
      byte_eq (by omega)
    have hc : byte ((b.val % 16 * 4 + c.val / 64) % 4 * 64 + c.val % 64) = c := byte_eq (by omega)
    rw [sextets, ofSextets, ha, hb, hc, ih]
    rfl

/-! ## The text of some bytes -/

theorem decode_encode (bytes : List Byte) : decode (encode bytes) = some bytes := by
  have hlt := sextets_lt bytes
  have hfilter : ((sextets bytes).map digit).filter (fun c => c != '\r' && c != '\n') =
      (sextets bytes).map digit := by
    apply List.filter_eq_self.mpr
    intro c hc
    obtain ⟨d, hd, rfl⟩ := List.mem_map.mp hc
    obtain ⟨-, hr, hn, -⟩ := digit_spec d (hlt d hd)
    simp [hr, hn]
  have hvalues : ∀ l : List Nat, (∀ d ∈ l, d < 64) → (l.map digit).mapM value = some l := by
    intro l
    induction l with
    | nil =>
      intro _
      rfl
    | cons d l ih =>
      intro hl
      have hd := (digit_spec d (hl d (List.mem_cons_self ..))).1
      rw [List.map_cons, List.mapM_cons, hd,
        ih fun d' hd' => hl d' (List.mem_cons_of_mem _ hd')]
      rfl
  unfold decode encode
  rw [String.toList_ofList, hfilter, hvalues _ hlt, Option.bind_some, ofSextets_sextets]

theorem nul_notMem_encode (bytes : List Byte) : 0 ∉ utf8 (encode bytes) := by
  unfold encode
  rw [utf8_ofList]
  intro h
  obtain ⟨c, hc, h⟩ := List.mem_flatMap.mp h
  obtain ⟨d, hd, rfl⟩ := List.mem_map.mp hc
  exact (digit_spec d (sextets_lt bytes d hd)).2.2.2 h

theorem encode_ne_empty {bytes : List Byte} (h : bytes ≠ []) : encode bytes ≠ "" := by
  intro he
  apply h
  have hdecode := decode_encode bytes
  rw [he] at hdecode
  exact (Option.some.inj hdecode).symm

end Base64
