import AppBackup.Lib.Base64
import Mathlib.Tactic.Ring

/- Texts whose characters are bytes, as the strings of Go are: each character is below 256.
   Numbers are written in lower-case hexadecimal digits, and read in either case. -/
namespace Bytes
open Base64

def ofText (text : String) : List Byte := text.toList.map fun c => byte c.toNat

def toText (bytes : List Byte) : String := String.ofList (bytes.map fun b => Char.ofNat b.val)

def IsBytes (text : String) : Prop := ∀ c ∈ text.toList, c.toNat < 256

instance (text : String) : Decidable (IsBytes text) := List.decidableBAll _ text.toList

theorem toText_ofText {text : String} (h : IsBytes text) : toText (ofText text) = text := by
  have hchar : ∀ c ∈ text.toList, Char.ofNat (byte c.toNat).val = c := by
    intro c hc
    rw [show (byte c.toNat).val = c.toNat from Nat.mod_eq_of_lt (h c hc)]
    exact Char.ofNat_toNat c
  have hall : (text.toList.map fun c => byte c.toNat).map (fun b => Char.ofNat b.val) = text.toList := by
    rw [List.map_map]
    calc text.toList.map ((fun b => Char.ofNat b.val) ∘ fun c => byte c.toNat)
        = text.toList.map id := List.map_congr_left hchar
      _ = text.toList := List.map_id _
  show String.ofList _ = text
  rw [show (ofText text).map (fun b => Char.ofNat b.val) = text.toList from hall, String.ofList_toList]

theorem ofText_eq_nil {text : String} : ofText text = [] ↔ text = "" := by
  unfold ofText
  rw [List.map_eq_nil_iff, String.toList_eq_nil_iff]

theorem isBytes_append {text text' : String} (h : IsBytes text) (h' : IsBytes text') : IsBytes (text ++ text') := by
  intro c hc
  rw [String.toList_append] at hc
  obtain hc | hc := List.mem_append.mp hc
  · exact h c hc
  · exact h' c hc

/-! ## Hexadecimal digits -/

def hexDigit (n : Nat) : Byte := if n < 10 then byte (48 + n) else byte (87 + n)

def hexValue (b : Byte) : Option Nat :=
  if 48 ≤ b.val ∧ b.val ≤ 57 then some (b.val - 48)
  else if 97 ≤ b.val ∧ b.val ≤ 102 then some (b.val - 87)
  else if 65 ≤ b.val ∧ b.val ≤ 70 then some (b.val - 55)
  else none

/-- The last so many digits of a number. -/
def writeHex : Nat → Nat → List Byte
  | 0, _ => []
  | k + 1, n => hexDigit (n / 16 ^ k % 16) :: writeHex k n

/-- So many digits behind those of `m`. -/
def readHexFrom (m : Nat) : Nat → List Byte → Option (Nat × List Byte)
  | 0, text => some (m, text)
  | _ + 1, [] => none
  | k + 1, b :: rest =>
    match hexValue b with
    | none => none
    | some d => readHexFrom (m * 16 + d) k rest

def readHex (k : Nat) (text : List Byte) : Option (Nat × List Byte) := readHexFrom 0 k text

theorem hexDigit_spec : ∀ n < 16, hexValue (hexDigit n) = some n ∧ hexDigit n ≠ 0 := by decide

theorem readHexFrom_writeHex (m k n : Nat) (rest : List Byte) :
    readHexFrom m k (writeHex k n ++ rest) = some (m * 16 ^ k + n % 16 ^ k, rest) := by
  induction k generalizing m with
  | zero => simp [readHexFrom, writeHex, Nat.mod_one]
  | succ k ih =>
    have hdigit := (hexDigit_spec (n / 16 ^ k % 16) (Nat.mod_lt _ (by decide))).1
    show (match hexValue (hexDigit (n / 16 ^ k % 16)) with
      | none => none
      | some d => readHexFrom (m * 16 + d) k (writeHex k n ++ rest)) = _
    rw [hdigit]
    show readHexFrom (m * 16 + n / 16 ^ k % 16) k (writeHex k n ++ rest) = _
    rw [ih, Nat.mod_pow_succ, Nat.pow_succ]
    have hsum : (m * 16 + n / 16 ^ k % 16) * 16 ^ k + n % 16 ^ k =
        m * (16 ^ k * 16) + (n % 16 ^ k + 16 ^ k * (n / 16 ^ k % 16)) := by ring
    rw [hsum]

/-- A number of so many digits is read back. -/
theorem readHex_writeHex {k n : Nat} (h : n < 16 ^ k) (rest : List Byte) :
    readHex k (writeHex k n ++ rest) = some (n, rest) := by
  unfold readHex
  rw [readHexFrom_writeHex, Nat.zero_mul, Nat.zero_add, Nat.mod_eq_of_lt h]

theorem nul_notMem_writeHex (k n : Nat) : 0 ∉ writeHex k n := by
  induction k with
  | zero => exact List.not_mem_nil
  | succ k ih =>
    intro h
    obtain h | h := List.mem_cons.mp h
    · exact (hexDigit_spec _ (Nat.mod_lt _ (by decide))).2 h.symm
    · exact ih h

end Bytes
