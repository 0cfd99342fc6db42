import AppBackup.Lib.Base64
import AppBackup.Lib.Fields

/- The lines of a text (`bufio.ScanLines`): each ends with a line feed but the last, which may
   end with the text; a carriage return before the end of a line is left out. Lines that were
   written one after the other are read back. -/
namespace Lines
open Base64

/-- The lines of a text without their ends. -/
def split (text : List Byte) : List (List Byte) :=
  let parts := text.splitOn 10
  if parts.getLast? = some [] then parts.dropLast else parts

/-- A line without the carriage return at its end. -/
def dropCR (line : List Byte) : List Byte := if line.getLast? = some 13 then line.dropLast else line

theorem split_lines {lines : List (List Byte)} (h : ∀ line ∈ lines, 10 ∉ line) :
    split (lines.flatMap (· ++ [10])) = lines := by
  have hparts : (lines.flatMap (· ++ [10])).splitOn 10 = lines ++ [[]] := by
    induction lines with
    | nil => rfl
    | cons line rest ih =>
      have hrest := ih fun l hl => h l (List.mem_cons_of_mem _ hl)
      rw [List.flatMap_cons, List.append_assoc, List.singleton_append,
        List.splitOn_append_cons_self_of_not_mem (h line (List.mem_cons_self ..)), hrest, List.cons_append]
  unfold split
  simp only [hparts]
  rw [if_pos List.getLast?_concat, List.dropLast_concat]

theorem dropCR_of_ne {line : List Byte} (h : line.getLast? ≠ some 13) : dropCR line = line := if_neg h

end Lines
