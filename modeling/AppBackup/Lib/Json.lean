import AppBackup.Lib.Decimal
import AppBackup.Lib.Utf8

/- JSON as `encoding/json` writes and reads it. The writer escapes what HTML would take for
   markup, the two line separators, and each byte with which no character begins; the reader
   takes any value, and makes strings well-formed. How deep values may be nested is left out. -/
namespace Json
open Base64 Utf8

/-! ## Strings -/

def hexDigit (n : Nat) : Byte := if n < 10 then byte (48 + n) else byte (87 + n)

/-- An escape of four hexadecimal digits, of a number of two. -/
def escapeByte (b : Byte) : List Byte := [92, 117, 48, 48, hexDigit (b.val / 16), hexDigit (b.val % 16)]

def quotePiece : Piece → List Byte
  | .ascii b =>
    if b = 34 ∨ b = 92 then [92, b]
    else if b = 8 then [92, 98]
    else if b = 9 then [92, 116]
    else if b = 10 then [92, 110]
    else if b = 12 then [92, 102]
    else if b = 13 then [92, 114]
    else if b.val < 32 ∨ b = 60 ∨ b = 62 ∨ b = 38 then escapeByte b
    else [b]
  | .wide bytes =>
    if bytes = [0xE2, 0x80, 0xA8] then [92, 117, 50, 48, 50, 56]
    else if bytes = [0xE2, 0x80, 0xA9] then [92, 117, 50, 48, 50, 57]
    else bytes
  | .invalid _ => [92, 117, 102, 102, 102, 100]

/-- `appendString`, with HTML escaped. -/
def quote (text : List Byte) : List Byte := 34 :: ((pieces text).flatMap quotePiece ++ [34])

def hexValue (b : Byte) : Option Nat :=
  if 48 ≤ b.val ∧ b.val ≤ 57 then some (b.val - 48)
  else if 97 ≤ b.val ∧ b.val ≤ 102 then some (b.val - 87)
  else if 65 ≤ b.val ∧ b.val ≤ 70 then some (b.val - 55)
  else none

/-- `getu4`, behind the `u`. -/
def readHex : List Byte → Option (Nat × List Byte)
  | a :: b :: c :: d :: rest => do
    let a ← hexValue a
    let b ← hexValue b
    let c ← hexValue c
    let d ← hexValue d
    pure (((a * 16 + b) * 16 + c) * 16 + d, rest)
  | _ => none

/-- What follows a surrogate: its pair, or none. -/
def readPair (n : Nat) : List Byte → Option (Nat × List Byte)
  | 92 :: 117 :: rest => do
    let (low, rest) ← readHex rest
    if n < 0xDC00 ∧ 0xDC00 ≤ low ∧ low < 0xE000 then
      some (0x10000 + (n - 0xD800) * 0x400 + (low - 0xDC00), rest)
    else none
  | _ => none

def readRune (text : List Byte) : Option (List Byte × List Byte) := do
  let (n, rest) ← readHex text
  if 0xD800 ≤ n ∧ n < 0xE000 then
    match readPair n rest with
    | some (rune, rest) => some (encodeRune rune, rest)
    | none => some (replacement, rest)
  else some (encodeRune n, rest)

/-- What follows a backslash. -/
def readEscape : List Byte → Option (List Byte × List Byte)
  | [] => none
  | c :: rest =>
    if c = 34 ∨ c = 92 ∨ c = 47 then some ([c], rest)
    else if c = 98 then some ([8], rest)
    else if c = 102 then some ([12], rest)
    else if c = 110 then some ([10], rest)
    else if c = 114 then some ([13], rest)
    else if c = 116 then some ([9], rest)
    else if c = 117 then readRune rest
    else none

/-- A string behind its opening quote, and what follows it. -/
def unquoteUpTo : Nat → List Byte → Option (List Byte × List Byte)
  | 0, _ => none
  | _ + 1, [] => none
  | n + 1, b :: rest =>
    if b = 34 then some ([], rest)
    else if b = 92 then do
      let (value, rest) ← readEscape rest
      let (more, after) ← unquoteUpTo n rest
      pure (value ++ more, after)
    else if b.val < 32 then none
    else if b.val < 0x80 then do
      let (more, after) ← unquoteUpTo n rest
      pure (b :: more, after)
    else
      match width (b :: rest) with
      | none => do
        let (more, after) ← unquoteUpTo n rest
        pure (replacement ++ more, after)
      | some w => do
        let (more, after) ← unquoteUpTo n ((b :: rest).drop w)
        pure ((b :: rest).take w ++ more, after)

def unquote (text : List Byte) : Option (List Byte × List Byte) := unquoteUpTo text.length text

/-! ## Numbers -/

/-- Digits, and what follows them. -/
def readDigits (text : List Byte) : Option (List Byte × List Byte) :=
  match text.span Decimal.isDigit with
  | ([], _) => none
  | digits => some digits

def readInteger (text : List Byte) : Option (List Byte × List Byte) := do
  let (digits, rest) ← readDigits text
  if digits.head? = some 48 ∧ digits.length ≠ 1 then none else some (digits, rest)

def readFraction : List Byte → Option (List Byte × List Byte)
  | 46 :: rest => do
    let (digits, rest) ← readDigits rest
    pure (46 :: digits, rest)
  | rest => some ([], rest)

def readSign : List Byte → List Byte × List Byte
  | 43 :: rest => ([43], rest)
  | 45 :: rest => ([45], rest)
  | rest => ([], rest)

def readExponent : List Byte → Option (List Byte × List Byte)
  | b :: rest =>
    if b = 69 ∨ b = 101 then do
      let (sign, rest) := readSign rest
      let (digits, rest) ← readDigits rest
      pure (b :: (sign ++ digits), rest)
    else some ([], b :: rest)
  | [] => some ([], [])

/-- The text of a number, and what follows it. -/
def readNumber (text : List Byte) : Option (List Byte × List Byte) := do
  let (sign, rest) := match text with
    | 45 :: rest => ([45], rest)
    | rest => (([] : List Byte), rest)
  let (digits, rest) ← readInteger rest
  let (fraction, rest) ← readFraction rest
  let (exponent, rest) ← readExponent rest
  pure (sign ++ digits ++ fraction ++ exponent, rest)

/-! ## Values -/

/-- A string is kept as it stands between its quotes, too. -/
inductive Value where
  | null
  | bool (b : Bool)
  | number (text : List Byte)
  | string (raw value : List Byte)
  | array (values : List Value)
  | object (members : List (List Byte × Value))

def isSpace (b : Byte) : Bool := b == 32 || b == 9 || b == 10 || b == 13

def skip (text : List Byte) : List Byte := text.dropWhile isSpace

def readString (text : List Byte) : Option (Value × List Byte) := do
  let (value, rest) ← unquote text
  pure (.string (text.take (text.length - rest.length - 1)) value, rest)

/-- A value that is neither a list nor an object. -/
def readScalar : List Byte → Option (Value × List Byte)
  | 34 :: rest => readString rest
  | 110 :: 117 :: 108 :: 108 :: rest => some (.null, rest)
  | 116 :: 114 :: 117 :: 101 :: rest => some (.bool true, rest)
  | 102 :: 97 :: 108 :: 115 :: 101 :: rest => some (.bool false, rest)
  | text => do
    let (number, rest) ← readNumber text
    pure (.number number, rest)

mutual

def readValue : Nat → List Byte → Option (Value × List Byte)
  | 0, _ => none
  | n + 1, text =>
    match skip text with
    | 91 :: rest =>
      match skip rest with
      | 93 :: rest => some (.array [], rest)
      | rest => do
        let (values, rest) ← readElements n rest
        pure (.array values, rest)
    | 123 :: rest =>
      match skip rest with
      | 125 :: rest => some (.object [], rest)
      | rest => do
        let (members, rest) ← readMembers n rest
        pure (.object members, rest)
    | rest => readScalar rest

def readElements : Nat → List Byte → Option (List Value × List Byte)
  | 0, _ => none
  | n + 1, text => do
    let (value, rest) ← readValue n text
    match skip rest with
    | 44 :: rest => do
      let (values, rest) ← readElements n rest
      pure (value :: values, rest)
    | 93 :: rest => some ([value], rest)
    | _ => none

def readMembers : Nat → List Byte → Option (List (List Byte × Value) × List Byte)
  | 0, _ => none
  | n + 1, text =>
    match skip text with
    | 34 :: rest => do
      let (key, rest) ← unquote rest
      match skip rest with
      | 58 :: rest => do
        let (value, rest) ← readValue n rest
        match skip rest with
        | 44 :: rest => do
          let (members, rest) ← readMembers n rest
          pure ((key, value) :: members, rest)
        | 125 :: rest => some ([(key, value)], rest)
        | _ => none
      | _ => none
    | _ => none

end

/-- A text that is one value. -/
def read (text : List Byte) : Option Value :=
  match readValue (text.length + 1) text with
  | some (value, rest) => if skip rest = [] then some value else none
  | none => none

/-! ## Objects, written -/

def writeMembers : List (List Byte × List Byte) → List Byte
  | [] => [125]
  | [(key, text)] => quote key ++ 58 :: (text ++ [125])
  | (key, text) :: rest => quote key ++ 58 :: (text ++ 44 :: writeMembers rest)

/-- An object of keys and the texts of their values. -/
def writeObject (members : List (List Byte × List Byte)) : List Byte := 123 :: writeMembers members

/-! ## Strings are read back -/

theorem hexValue_hexDigit : ∀ n < 16, hexValue (hexDigit n) = some n := by decide

theorem encodeRune_ascii {b : Byte} (hb : b.val < 128) : encodeRune b.val = [b] := by
  unfold encodeRune
  rw [if_pos hb, byte_eq rfl]

/-- The escapes of ASCII characters are read back. -/
theorem readEscape_ascii {b : Byte} (hb : b.val < 128) (rest : List Byte) :
    (quotePiece (.ascii b) = [b] ∧ 32 ≤ b.val ∧ b ≠ 34 ∧ b ≠ 92) ∨
      ∃ escape, quotePiece (.ascii b) = 92 :: escape ∧ readEscape (escape ++ rest) = some ([b], rest) := by
  simp only [quotePiece]
  by_cases hquote : b = 34 ∨ b = 92
  · rw [if_pos hquote]
    refine .inr ⟨[b], rfl, ?_⟩
    obtain rfl | rfl := hquote <;> rfl
  rw [if_neg hquote]
  rw [not_or] at hquote
  by_cases h8 : b = 8
  · exact .inr ⟨[98], if_pos h8, h8 ▸ rfl⟩
  rw [if_neg h8]
  by_cases h9 : b = 9
  · exact .inr ⟨[116], if_pos h9, h9 ▸ rfl⟩
  rw [if_neg h9]
  by_cases h10 : b = 10
  · exact .inr ⟨[110], if_pos h10, h10 ▸ rfl⟩
  rw [if_neg h10]
  by_cases h12 : b = 12
  · exact .inr ⟨[102], if_pos h12, h12 ▸ rfl⟩
  rw [if_neg h12]
  by_cases h13 : b = 13
  · exact .inr ⟨[114], if_pos h13, h13 ▸ rfl⟩
  rw [if_neg h13]
  by_cases hlow : b.val < 32 ∨ b = 60 ∨ b = 62 ∨ b = 38
  · refine .inr ⟨[117, 48, 48, hexDigit (b.val / 16), hexDigit (b.val % 16)], if_pos hlow, ?_⟩
    have hhigh := hexValue_hexDigit (b.val / 16) (by omega)
    have hrest := hexValue_hexDigit (b.val % 16) (by omega)
    have hhex : readHex (48 :: 48 :: hexDigit (b.val / 16) :: hexDigit (b.val % 16) :: rest) = some (b.val, rest) := by
      show (do
        let a ← some 0
        let b' ← some 0
        let c ← hexValue (hexDigit (b.val / 16))
        let d ← hexValue (hexDigit (b.val % 16))
        pure (((a * 16 + b') * 16 + c) * 16 + d, rest)) = _
      rw [hhigh, hrest]
      show some (((0 * 16 + 0) * 16 + b.val / 16) * 16 + b.val % 16, rest) = _
      rw [show ((0 * 16 + 0) * 16 + b.val / 16) * 16 + b.val % 16 = b.val by omega]
    show readRune (48 :: 48 :: hexDigit (b.val / 16) :: hexDigit (b.val % 16) :: rest) = _
    unfold readRune
    rw [hhex]
    show (if 0xD800 ≤ b.val ∧ b.val < 0xE000 then _ else some (encodeRune b.val, rest)) = _
    rw [if_neg (by omega), encodeRune_ascii hb]
  · rw [if_neg hlow]
    rw [not_or] at hlow
    exact .inl ⟨rfl, not_lt.mp hlow.1, hquote.1, hquote.2⟩

section
variable {n : Nat} {rest after value : List Byte}

theorem unquoteUpTo_escape {escape part : List Byte} (hescape : readEscape (escape ++ rest) = some (part, rest))
    (h : unquoteUpTo n rest = some (value, after)) :
    unquoteUpTo (n + 1) (92 :: (escape ++ rest)) = some (part ++ value, after) := by
  show (do
    let (v, r) ← readEscape (escape ++ rest)
    let (m, r) ← unquoteUpTo n r
    pure (v ++ m, r)) = _
  rw [hescape]
  show (do
    let (m, r) ← unquoteUpTo n rest
    pure (part ++ m, r)) = _
  rw [h]
  rfl

theorem unquoteUpTo_ascii {b : Byte} (hlow : 32 ≤ b.val) (hhigh : b.val < 128) (hquote : b ≠ 34) (hslash : b ≠ 92)
    (h : unquoteUpTo n rest = some (value, after)) :
    unquoteUpTo (n + 1) (b :: rest) = some (b :: value, after) := by
  unfold unquoteUpTo
  rw [if_neg hquote, if_neg hslash, if_neg (not_lt.mpr hlow), if_pos hhigh, h]
  rfl

theorem unquoteUpTo_wide {bytes : List Byte} (hwidth : width bytes = some bytes.length)
    (h : unquoteUpTo n rest = some (value, after)) :
    unquoteUpTo (n + 1) (bytes ++ rest) = some (bytes ++ value, after) := by
  have hmore : width (bytes ++ rest) = some bytes.length := by
    have htake := width_take hwidth rest
    rw [List.take_length] at htake
    exact htake
  obtain ⟨b, tail, rfl⟩ := List.exists_cons_of_length_pos
    (Nat.lt_of_lt_of_le (by omega : 0 < 2) (width_bounds hwidth).1)
  have hhigh : 128 ≤ b.val := by
    have hall := width_high hwidth
    rw [List.take_length] at hall
    exact hall b (List.mem_cons_self ..)
  have hne : ∀ c : Byte, c.val < 128 → b ≠ c := by
    intro c hc he
    rw [he] at hhigh
    omega
  rw [List.cons_append] at hmore ⊢
  unfold unquoteUpTo
  rw [if_neg (hne 34 (by decide)), if_neg (hne 92 (by decide)), if_neg (by omega), if_neg (by omega)]
  simp only [hmore]
  rw [← List.cons_append, List.drop_left, List.take_left, h]
  rfl

/-- A piece is read back, made well-formed. -/
theorem unquote_piece {p : Piece} (hp : p.Good) (h : unquoteUpTo n rest = some (value, after)) :
    unquoteUpTo (n + 1) (quotePiece p ++ rest) = some (p.coerced ++ value, after) := by
  cases p with
  | ascii b =>
    obtain ⟨hplain, hlow, hquote, hslash⟩ | ⟨escape, hpiece, hread⟩ := readEscape_ascii hp rest
    · rw [hplain]
      exact unquoteUpTo_ascii hlow hp hquote hslash h
    · rw [hpiece]
      exact unquoteUpTo_escape hread h
  | wide bytes =>
    show unquoteUpTo (n + 1)
      ((if bytes = [0xE2, 0x80, 0xA8] then _ else if bytes = [0xE2, 0x80, 0xA9] then _ else bytes)
      ++ rest) = _
    by_cases hline : bytes = [0xE2, 0x80, 0xA8]
    · rw [if_pos hline, hline]
      exact @unquoteUpTo_escape _ _ _ _ [117, 50, 48, 50, 56] _ rfl h
    · rw [if_neg hline]
      by_cases hparagraph : bytes = [0xE2, 0x80, 0xA9]
      · rw [if_pos hparagraph, hparagraph]
        exact @unquoteUpTo_escape _ _ _ _ [117, 50, 48, 50, 57] _ rfl h
      · rw [if_neg hparagraph]
        exact unquoteUpTo_wide hp h
  | invalid b => exact @unquoteUpTo_escape _ _ _ _ [117, 102, 102, 102, 100] _ rfl h

end

theorem quotePiece_length {p : Piece} (hp : p.Good) : 1 ≤ (quotePiece p).length := by
  cases p with
  | ascii b =>
    obtain ⟨hplain, -⟩ | ⟨escape, hpiece, -⟩ := readEscape_ascii hp []
    · rw [hplain]
      rfl
    · rw [hpiece]
      simp
  | wide bytes =>
    have hwidth : width bytes = some bytes.length := hp
    have := (width_bounds hwidth).1
    unfold quotePiece
    simp only
    split
    · decide
    · split
      · decide
      · omega
  | invalid b => exact Nat.succ_le_succ (Nat.zero_le 5)

theorem unquote_quote (text rest : List Byte) :
    unquote ((pieces text).flatMap quotePiece ++ 34 :: rest) = some (coerce text, rest) := by
  have hread : ∀ (ps : List Piece) (n : Nat), (∀ p ∈ ps, p.Good) → ps.length < n →
      unquoteUpTo n (ps.flatMap quotePiece ++ 34 :: rest) = some (ps.flatMap Piece.coerced, rest) := by
    intro ps
    induction ps with
    | nil =>
      intro n _ hn
      obtain ⟨n, rfl⟩ : ∃ k, n = k + 1 := ⟨n - 1, by simp at hn; omega⟩
      rfl
    | cons p ps ih =>
      intro n hgood hn
      obtain ⟨n, rfl⟩ : ∃ k, n = k + 1 := ⟨n - 1, by omega⟩
      obtain ⟨hp, hps⟩ := List.forall_mem_cons.mp hgood
      rw [List.flatMap_cons, List.append_assoc]
      exact unquote_piece hp (ih n hps (by simpa using hn))
  have hlength : ∀ ps : List Piece, (∀ p ∈ ps, p.Good) → ps.length ≤ (ps.flatMap quotePiece).length := by
    intro ps
    induction ps with
    | nil => exact fun _ => Nat.le_refl _
    | cons p ps ih =>
      intro hgood
      obtain ⟨hp, hps⟩ := List.forall_mem_cons.mp hgood
      have hhead := quotePiece_length hp
      have htail := ih hps
      rw [List.flatMap_cons, List.length_append, List.length_cons]
      omega
  refine hread _ _ pieces_good ?_
  have := hlength (pieces text) pieces_good
  rw [List.length_append, List.length_cons]
  omega

theorem unquote_plain {text : List Byte} (h : ∀ b ∈ text, 32 ≤ b.val ∧ b.val < 128 ∧ b ≠ 34 ∧ b ≠ 92)
    (rest : List Byte) : unquote (text ++ 34 :: rest) = some (text, rest) := by
  have hread : ∀ n, text.length < n → unquoteUpTo n (text ++ 34 :: rest) = some (text, rest) := by
    induction text with
    | nil =>
      intro n hn
      obtain ⟨n, rfl⟩ : ∃ k, n = k + 1 := ⟨n - 1, by simp at hn; omega⟩
      rfl
    | cons b text ih =>
      intro n hn
      obtain ⟨n, rfl⟩ : ∃ k, n = k + 1 := ⟨n - 1, by omega⟩
      obtain ⟨⟨hlow, hhigh, hquote, hslash⟩, htext⟩ := List.forall_mem_cons.mp h
      exact unquoteUpTo_ascii hlow hhigh hquote hslash (ih htext n (by simpa using hn))
  refine hread _ ?_
  rw [List.length_append, List.length_cons]
  omega

/-! ## Values are read back -/

/-- What may follow the value of a member. -/
def Ends (rest : List Byte) : Prop := rest.head? = some 44 ∨ rest.head? = some 125

/-- A text that is read as a value of an object's member. -/
def Reads (text : List Byte) (v : Value) : Prop :=
  ∀ n rest, Ends rest → readValue (n + 1) (text ++ rest) = some (v, rest)

theorem skip_cons {b : Byte} (hb : isSpace b = false) (rest : List Byte) : skip (b :: rest) = b :: rest := by
  unfold skip
  rw [List.dropWhile_cons_of_neg (by rw [hb]; exact Bool.false_ne_true)]

theorem readValue_scalar {b : Byte} (hspace : isSpace b = false) (hlist : b ≠ 91) (hobject : b ≠ 123) (n : Nat)
    (rest : List Byte) : readValue (n + 1) (b :: rest) = readScalar (b :: rest) := by
  unfold readValue
  rw [skip_cons hspace]
  split
  · next he => exact absurd (List.cons.inj he).1 hlist
  · next he => exact absurd (List.cons.inj he).1 hobject
  · rfl

theorem reads_string {body value : List Byte} (h : ∀ rest, unquote (body ++ 34 :: rest) = some (value, rest)) :
    Reads (34 :: (body ++ [34])) (.string body value) := by
  intro n rest _
  have hraw : ((body ++ 34 :: rest).take ((body ++ 34 :: rest).length - rest.length - 1)) = body := by
    have hlength : (body ++ 34 :: rest).length - rest.length - 1 = body.length := by
      rw [List.length_append, List.length_cons]
      omega
    rw [hlength, List.take_left]
  rw [List.cons_append, List.append_assoc, readValue_scalar (by decide) (by decide) (by decide)]
  show readString (body ++ 34 :: rest) = _
  unfold readString
  rw [h rest]
  show some (Value.string _ value, rest) = _
  rw [hraw]

theorem reads_quote (text : List Byte) :
    Reads (quote text) (.string ((pieces text).flatMap quotePiece) (coerce text)) :=
  reads_string fun rest => unquote_quote text rest

theorem isDigit_ends {rest : List Byte} (h : Ends rest) : ∀ b ∈ rest.head?, Decimal.isDigit b = false := by
  intro b hb
  obtain he | he := h
  · rw [he] at hb
    obtain rfl := Option.some.inj hb
    rfl
  · rw [he] at hb
    obtain rfl := Option.some.inj hb
    rfl

theorem readDigits_append {digits rest : List Byte} (hne : digits ≠ []) (hall : digits.all Decimal.isDigit = true)
    (hrest : ∀ b ∈ rest.head?, Decimal.isDigit b = false) : readDigits (digits ++ rest) = some (digits, rest) := by
  have htake : (digits ++ rest).takeWhile Decimal.isDigit = digits := by
    rw [List.takeWhile_append_of_pos (List.all_eq_true.mp hall)]
    cases rest with
    | nil => simp
    | cons b rest => simp [hrest b rfl]
  have hdrop : (digits ++ rest).dropWhile Decimal.isDigit = rest := by
    rw [List.dropWhile_append_of_pos (List.all_eq_true.mp hall)]
    cases rest with
    | nil => simp
    | cons b rest => simp [hrest b rfl]
  unfold readDigits
  rw [List.span_eq_takeWhile_dropWhile, htake, hdrop]
  split
  · next he => exact absurd (Prod.mk.inj he).1 hne
  · rfl

theorem reads_number (k : Nat) : Reads (Decimal.formatNat k) (.number (Decimal.formatNat k)) := by
  intro n rest hrest
  have hall : (Decimal.formatNat k).all Decimal.isDigit = true := by
    rw [List.all_eq_true]
    exact fun b hb => decide_eq_true (Decimal.formatNat_digits k b hb)
  have hdigits : readDigits (Decimal.formatNat k ++ rest) = some (Decimal.formatNat k, rest) :=
    readDigits_append (Decimal.formatNat_ne_nil k) hall (isDigit_ends hrest)
  have hinteger : readInteger (Decimal.formatNat k ++ rest) = some (Decimal.formatNat k, rest) := by
    unfold readInteger
    rw [hdigits]
    refine if_neg fun h => ?_
    by_cases hk : 0 < k
    · exact Decimal.formatNat_head hk h.1
    · obtain rfl : k = 0 := by omega
      exact h.2 (by decide)
  have hfraction : readFraction rest = some ([], rest) := by
    obtain he | he := hrest
    · obtain ⟨more, rfl⟩ := List.head?_eq_some_iff.mp he
      rfl
    · obtain ⟨more, rfl⟩ := List.head?_eq_some_iff.mp he
      rfl
  have hexponent : readExponent rest = some ([], rest) := by
    obtain he | he := hrest
    · obtain ⟨more, rfl⟩ := List.head?_eq_some_iff.mp he
      rfl
    · obtain ⟨more, rfl⟩ := List.head?_eq_some_iff.mp he
      rfl
  obtain ⟨b, tail, hb⟩ := List.exists_cons_of_ne_nil (Decimal.formatNat_ne_nil k)
  obtain ⟨hlow, hhigh⟩ := Decimal.formatNat_digits k b (by rw [hb]; exact List.mem_cons_self ..)
  have hne : ∀ c : Byte, ¬(48 ≤ c.val ∧ c.val ≤ 57) → b ≠ c := by
    intro c hc he
    exact hc (he ▸ ⟨hlow, hhigh⟩)
  have hspace : isSpace b = false := by
    unfold isSpace
    simp [hne 32 (by decide), hne 9 (by decide), hne 10 (by decide), hne 13 (by decide)]
  rw [hb] at hinteger ⊢
  rw [List.cons_append] at hinteger ⊢
  rw [readValue_scalar hspace (hne 91 (by decide)) (hne 123 (by decide))]
  unfold readScalar
  split
  · next he => exact absurd (List.cons.inj he).1 (hne 34 (by decide))
  · next he => exact absurd (List.cons.inj he).1 (hne 110 (by decide))
  · next he => exact absurd (List.cons.inj he).1 (hne 116 (by decide))
  · next he => exact absurd (List.cons.inj he).1 (hne 102 (by decide))
  · have hsign : (match b :: (tail ++ rest) with
        | 45 :: rest => ([45], rest)
        | rest => (([] : List Byte), rest)) = ([], b :: (tail ++ rest)) := by
      split
      · next he => exact absurd (List.cons.inj he).1 (hne 45 (by decide))
      · rfl
    have hnumber : readNumber (b :: (tail ++ rest)) = some (b :: tail, rest) := by
      unfold readNumber
      rw [hsign]
      show (readInteger (b :: (tail ++ rest))).bind _ = _
      rw [hinteger]
      show (readFraction rest).bind _ = _
      rw [hfraction]
      show (readExponent rest).bind _ = _
      rw [hexponent]
      show some ([] ++ (b :: tail) ++ [] ++ [], rest) = _
      simp
    rw [hnumber]
    rfl

theorem readMembers_last {key text : List Byte} {v : Value} (h : Reads text v) (n : Nat) (rest : List Byte) :
    readMembers (n + 2) (writeMembers [(key, text)] ++ rest) = some ([(coerce key, v)], rest) := by
  have htext : writeMembers [(key, text)] ++ rest =
      34 :: ((pieces key).flatMap quotePiece ++ 34 :: 58 :: (text ++ 125 :: rest)) := by
    simp [writeMembers, quote]
  have hvalue : readValue (n + 1) (text ++ 125 :: rest) = some (v, 125 :: rest) := h n _ (.inr rfl)
  rw [htext]
  unfold readMembers
  rw [skip_cons (by decide)]
  simp only [unquote_quote, Option.bind_eq_bind, Option.bind_some]
  rw [skip_cons (by decide)]
  simp only [hvalue, Option.bind_some]
  rw [skip_cons (by decide)]
  rfl

theorem readMembers_more {key text : List Byte} {v : Value} {m : List Byte × List Byte}
    {members : List (List Byte × List Byte)} {values : List (List Byte × Value)} (h : Reads text v) {n : Nat}
    {rest : List Byte}
    (hrest : readMembers (n + 1) (writeMembers (m :: members) ++ rest) = some (values, rest)) :
    readMembers (n + 2) (writeMembers ((key, text) :: m :: members) ++ rest) =
      some ((coerce key, v) :: values, rest) := by
  have htext : writeMembers ((key, text) :: m :: members) ++ rest =
      34 :: ((pieces key).flatMap quotePiece ++
        34 :: 58 :: (text ++ 44 :: (writeMembers (m :: members) ++ rest))) := by
    simp [writeMembers, quote]
  have hvalue : readValue (n + 1) (text ++ 44 :: (writeMembers (m :: members) ++ rest)) =
      some (v, 44 :: (writeMembers (m :: members) ++ rest)) := h n _ (.inl rfl)
  rw [htext]
  unfold readMembers
  rw [skip_cons (by decide)]
  simp only [unquote_quote, Option.bind_eq_bind, Option.bind_some]
  rw [skip_cons (by decide)]
  simp only [hvalue, Option.bind_some]
  rw [skip_cons (by decide)]
  simp only [hrest, Option.bind_some]
  rfl

/-- The members of an object are read back, their keys made well-formed. -/
theorem readMembers_write {members : List (List Byte × List Byte)} {values : List Value}
    (h : List.Forall₂ (fun m v => Reads m.2 v) members values) (hne : members ≠ []) (n : Nat)
    (rest : List Byte) :
    readMembers (n + members.length + 1) (writeMembers members ++ rest) =
      some ((members.zipWith (fun m v => (coerce m.1, v)) values), rest) := by
  induction h with
  | nil => exact absurd rfl hne
  | @cons m v members values hv hrest ih =>
    cases members with
    | nil =>
      cases hrest
      exact readMembers_last hv n rest
    | cons m' members => exact readMembers_more hv (ih (List.cons_ne_nil _ _))

/-- An object is read back. -/
theorem read_writeObject {members : List (List Byte × List Byte)} {values : List Value}
    (h : List.Forall₂ (fun m v => Reads m.2 v) members values) (hne : members ≠ []) :
    read (writeObject members) = some (.object (members.zipWith (fun m v => (coerce m.1, v)) values)) := by
  have hshort : ∀ members : List (List Byte × List Byte), members ≠ [] →
      members.length + 1 ≤ (writeMembers members).length := by
    intro members
    induction members with
    | nil => exact fun hne => absurd rfl hne
    | cons m rest ih =>
      intro _
      cases rest with
      | nil =>
        simp only [writeMembers, quote, List.length_append, List.length_cons, List.length_nil]
        omega
      | cons m' rest =>
        have hrest := ih (List.cons_ne_nil _ _)
        simp only [writeMembers, quote, List.length_append, List.length_cons] at hrest ⊢
        omega
  obtain ⟨k, hk⟩ : ∃ k, (writeMembers members).length + 1 = k + members.length + 1 :=
    ⟨(writeMembers members).length - members.length, by have := hshort members hne; omega⟩
  have hmembers := readMembers_write h hne k []
  rw [← hk, List.append_nil] at hmembers
  have hhead : ∃ rest, writeMembers members = 34 :: rest := by
    cases members with
    | nil => exact absurd rfl hne
    | cons m rest =>
      cases rest with
      | nil => exact ⟨_, rfl⟩
      | cons m' rest => exact ⟨_, rfl⟩
  obtain ⟨rest, hrest⟩ := hhead
  have hvalue : readValue ((writeObject members).length + 1) (writeObject members) =
      some (.object (members.zipWith (fun m v => (coerce m.1, v)) values), []) := by
    show readValue ((writeMembers members).length + 1 + 1) (123 :: writeMembers members) = _
    rw [hrest] at hmembers ⊢
    unfold readValue
    rw [skip_cons (by decide)]
    simp only
    rw [skip_cons (by decide)]
    simp only [hmembers, Option.bind_eq_bind, Option.bind_some]
    rfl
  unfold read
  rw [hvalue]
  rfl

/-! ## What is written -/

theorem hexDigit_visible {n : Nat} (h : n < 16) : 32 ≤ (hexDigit n).val := by
  unfold hexDigit
  split
  · show 32 ≤ (48 + n) % 256
    omega
  · show 32 ≤ (87 + n) % 256
    omega

theorem quoteAscii_bounds (b : Byte) : (∀ c ∈ quotePiece (.ascii b), 32 ≤ c.val) ∧
    (quotePiece (.ascii b)).length ≤ 6 := by
  generalize hquoted : quotePiece (.ascii b) = quoted
  simp only [quotePiece] at hquoted
  by_cases hslash : b = 34 ∨ b = 92
  · rw [if_pos hslash] at hquoted
    subst hquoted
    obtain rfl | rfl := hslash
    · decide +kernel
    · decide +kernel
  · rw [if_neg hslash] at hquoted
    split_ifs at hquoted with h₁ h₂ h₃ h₄ h₅ hescaped
    · subst hquoted
      decide +kernel
    · subst hquoted
      decide +kernel
    · subst hquoted
      decide +kernel
    · subst hquoted
      decide +kernel
    · subst hquoted
      decide +kernel
    · subst hquoted
      have hhigh := hexDigit_visible (show b.val / 16 < 16 by omega)
      have hlow := hexDigit_visible (show b.val % 16 < 16 by omega)
      refine ⟨?_, Nat.le_refl 6⟩
      intro c hc
      simp only [escapeByte, List.mem_cons, List.not_mem_nil, or_false] at hc
      obtain rfl | rfl | rfl | rfl | rfl | rfl := hc
      · decide +kernel
      · decide +kernel
      · decide +kernel
      · decide +kernel
      · exact hhigh
      · exact hlow
    · subst hquoted
      rw [not_or] at hescaped
      refine ⟨?_, by show 1 ≤ 6; decide⟩
      intro c hc
      obtain rfl := List.mem_singleton.mp hc
      exact Nat.le_of_not_lt hescaped.1

/-- An escape has no control character, and takes six bytes at most. -/
theorem quotePiece_bounds {p : Piece} (hp : p.Good) :
    (∀ b ∈ quotePiece p, 32 ≤ b.val) ∧ (quotePiece p).length ≤ 6 * p.raw.length := by
  cases p with
  | ascii b => exact quoteAscii_bounds b
  | wide bytes =>
    have hwidth : width bytes = some bytes.length := hp
    have hlong := (width_bounds hwidth).1
    have hhigh : ∀ b ∈ bytes, 32 ≤ b.val := by
      intro b hb
      have := width_high hwidth b (by rw [List.take_length]; exact hb)
      omega
    show (∀ b ∈ (if bytes = [0xE2, 0x80, 0xA8] then _ else if bytes = [0xE2, 0x80, 0xA9] then _ else bytes), _) ∧
      (if bytes = [0xE2, 0x80, 0xA8] then _ else if bytes = [0xE2, 0x80, 0xA9] then _ else bytes).length ≤
        6 * bytes.length
    by_cases hline : bytes = [0xE2, 0x80, 0xA8]
    · rw [if_pos hline, hline]
      decide +kernel
    · rw [if_neg hline]
      by_cases hparagraph : bytes = [0xE2, 0x80, 0xA9]
      · rw [if_pos hparagraph, hparagraph]
        decide +kernel
      · rw [if_neg hparagraph]
        exact ⟨hhigh, by omega⟩
  | invalid b =>
    have hvisible : ∀ c ∈ ([92, 117, 102, 102, 102, 100] : List Byte), 32 ≤ c.val := by decide +kernel
    exact ⟨hvisible, by simp [quotePiece, Piece.raw]⟩

theorem quote_bounds (text : List Byte) :
    (∀ b ∈ quote text, 32 ≤ b.val) ∧ (quote text).length ≤ 6 * text.length + 2 := by
  have hpieces : ∀ ps : List Piece, (∀ p ∈ ps, p.Good) → (∀ b ∈ ps.flatMap quotePiece, 32 ≤ b.val) ∧
      (ps.flatMap quotePiece).length ≤ 6 * (ps.flatMap Piece.raw).length := by
    intro ps
    induction ps with
    | nil => exact fun _ => ⟨fun b hb => absurd hb List.not_mem_nil, Nat.le_refl 0⟩
    | cons p ps ih =>
      intro hgood
      obtain ⟨hp, hps⟩ := List.forall_mem_cons.mp hgood
      obtain ⟨hvisible, hlength⟩ := quotePiece_bounds hp
      obtain ⟨hmore, htail⟩ := ih hps
      rw [List.flatMap_cons, List.flatMap_cons]
      refine ⟨fun b hb => ?_, ?_⟩
      · obtain hb | hb := List.mem_append.mp hb
        · exact hvisible b hb
        · exact hmore b hb
      · rw [List.length_append, List.length_append]
        omega
  obtain ⟨hvisible, hlength⟩ := hpieces (pieces text) pieces_good
  rw [show (pieces text).flatMap Piece.raw = text from pieces_raw (Nat.le_refl _)] at hlength
  unfold quote
  refine ⟨fun b hb => ?_, ?_⟩
  · obtain rfl | hb := List.mem_cons.mp hb
    · decide
    obtain hb | hb := List.mem_append.mp hb
    · exact hvisible b hb
    · rw [List.mem_singleton.mp hb]
      decide
  · rw [List.length_cons, List.length_append, List.length_singleton]
    omega

/-- An object has no control character where the texts of its values have none. -/
theorem writeObject_visible {members : List (List Byte × List Byte)}
    (h : ∀ m ∈ members, ∀ b ∈ m.2, 32 ≤ b.val) :
    ∀ b ∈ writeObject members, 32 ≤ b.val := by
  have hmembers : ∀ b ∈ writeMembers members, 32 ≤ b.val := by
    induction members with
    | nil => exact fun b hb => by rw [List.mem_singleton.mp hb]; decide
    | cons m rest ih =>
      have hkey := (quote_bounds m.1).1
      have hvalue := h m (List.mem_cons_self ..)
      have hrest := ih fun m' hm' => h m' (List.mem_cons_of_mem _ hm')
      have hshape : ∃ c more, writeMembers (m :: rest) = quote m.1 ++ 58 :: (m.2 ++ c :: more) ∧ 32 ≤ c.val ∧
          ∀ b ∈ more, 32 ≤ b.val := by
        cases rest with
        | nil => exact ⟨125, [], rfl, by decide, fun b hb => absurd hb List.not_mem_nil⟩
        | cons m' rest => exact ⟨44, _, rfl, by decide, hrest⟩
      obtain ⟨c, more, he, hc, hmore⟩ := hshape
      rw [he]
      intro b hb
      obtain hb | hb := List.mem_append.mp hb
      · exact hkey b hb
      obtain rfl | hb := List.mem_cons.mp hb
      · decide
      obtain hb | hb := List.mem_append.mp hb
      · exact hvalue b hb
      obtain rfl | hb := List.mem_cons.mp hb
      · exact hc
      · exact hmore b hb
  intro b hb
  obtain rfl | hb := List.mem_cons.mp hb
  · decide
  · exact hmembers b hb

theorem writeObject_last (members : List (List Byte × List Byte)) : (writeObject members).getLast? = some 125 := by
  have hmembers : ∃ more, writeMembers members = more ++ [125] := by
    induction members with
    | nil => exact ⟨[], rfl⟩
    | cons m rest ih =>
      obtain ⟨more, hmore⟩ := ih
      cases rest with
      | nil => exact ⟨quote m.1 ++ 58 :: m.2, by simp [writeMembers]⟩
      | cons m' rest => exact ⟨quote m.1 ++ 58 :: (m.2 ++ 44 :: more), by simp [writeMembers, hmore]⟩
  obtain ⟨more, hmore⟩ := hmembers
  unfold writeObject
  rw [hmore, ← List.cons_append]
  exact List.getLast?_concat

end Json
