import ByteLisp.Json.Reader
import ByteLisp.Json.Writer

/-!
# Strings and numbers in JSON text

A written string is read piece by piece, where each piece is one byte or one escape, and gives
back its text. A written number is read digit by digit and gives back its numeral, as long as
what comes after it cannot be taken for more of the number.
-/

namespace ByteLisp

/-- The UTF-8 bytes of a text in order. -/
def utf8 (text : String) : List UInt8 :=
  (Bytes.ofText text).toList

/-- Texts in a row are encoded in a row. -/
@[simp] theorem utf8_append (first second : String) :
    utf8 (first ++ second) = utf8 first ++ utf8 second := by
  simp [utf8, Bytes.ofText, String.toByteArray_append]

/-- A text is encoded character by character. -/
theorem utf8_ofList (characters : List Char) :
    utf8 (String.ofList characters) = characters.flatMap String.utf8EncodeChar := by
  simp [utf8, Bytes.ofText, String.toByteArray_ofList, List.utf8Encode]

/-- A text is encoded by the encodings of its characters. -/
theorem utf8_eq_flatMap (text : String) :
    utf8 text = text.toList.flatMap String.utf8EncodeChar := by
  rw [← utf8_ofList, String.ofList_toList]

/-- A text of one character has the encoding of that character. -/
theorem utf8_toString (c : Char) : utf8 c.toString = String.utf8EncodeChar c := by
  rw [utf8_eq_flatMap]
  simp

/-- The bytes of a text spell that text. -/
theorem Bytes.text?_ofText (text : String) : (Bytes.ofText text).text? = some text := by
  have valid : (⟨Bytes.ofText text⟩ : ByteArray).IsValidUTF8 := text.isValidUTF8
  simp only [Bytes.text?, String.fromUTF8?, valid, dif_pos]
  rfl

namespace Json.Reader

/-- The bytes of a character that is no ASCII character are above all of these. -/
theorem le_of_mem_utf8EncodeChar {c : Char} (wide : 128 ≤ c.toNat) :
    ∀ byte ∈ String.utf8EncodeChar c, 128 ≤ byte.toNat := by
  have bound : c.val.toNat < 0x110000 := by
    have valid := c.valid
    simp only [UInt32.isValidChar, Nat.isValidChar] at valid
    omega
  change 128 ≤ c.val.toNat at wide
  unfold String.utf8EncodeChar
  dsimp only
  split
  · omega
  · split
    · simp
      omega
    · split
      · simp
        omega
      · simp
        omega

/-- A narrow character is encoded as one byte. -/
theorem utf8EncodeChar_of_lt {c : Char} (narrow : c.toNat < 128) :
    String.utf8EncodeChar c = [ascii c] :=
  if_pos (Nat.le_of_lt_succ narrow)

/-- ASCII characters take up one byte each. -/
theorem flatMap_utf8EncodeChar {characters : List Char}
    (narrow : ∀ c ∈ characters, c.toNat < 128) :
    characters.flatMap String.utf8EncodeChar = characters.map ascii := by
  induction characters with
  | nil => rfl
  | cons c characters ih =>
      rw [List.flatMap_cons, utf8EncodeChar_of_lt (narrow c List.mem_cons_self),
        ih fun other member => narrow other (List.mem_cons_of_mem _ member)]
      rfl

/-! ## Strings -/

/-- A byte that stands for itself in a string. -/
theorem pieces?_plain {byte : UInt8} (noQuote : byte ≠ ascii '"') (noBackslash : byte ≠ ascii '\\')
    (noControl : 32 ≤ byte.toNat) (rest : Input) (done : List Piece) :
    pieces? (byte :: rest) done = pieces? rest (.byte byte :: done) := by
  rw [pieces?.eq_def]
  dsimp only
  rw [if_neg noQuote, if_neg noBackslash, if_neg (Nat.not_lt.mpr noControl)]

/-- Plain bytes are pieces of their own. -/
theorem pieces?_plainAll (bytes : List UInt8)
    (plain : ∀ byte ∈ bytes, byte ≠ ascii '"' ∧ byte ≠ ascii '\\' ∧ 32 ≤ byte.toNat)
    (rest : Input) (done : List Piece) :
    pieces? (bytes ++ rest) done = pieces? rest ((bytes.map Piece.byte).reverse ++ done) := by
  induction bytes generalizing done with
  | nil => rfl
  | cons byte bytes ih =>
      obtain ⟨noQuote, noBackslash, noControl⟩ := plain byte List.mem_cons_self
      rw [List.cons_append, pieces?_plain noQuote noBackslash noControl,
        ih fun other member => plain other (List.mem_cons_of_mem _ member)]
      simp

/-- A short escape is the piece that it stands for. -/
theorem pieces?_short {mark short : UInt8} (escape : shortEscape? mark = some short)
    (rest : Input) (done : List Piece) :
    pieces? (ascii '\\' :: mark :: rest) done = pieces? rest (.byte short :: done) := by
  have noUnit : mark ≠ ascii 'u' := by
    rintro rfl
    have none : shortEscape? (ascii 'u') = none := by decide
    rw [none] at escape
    cases escape
  rw [pieces?.eq_def]
  dsimp only
  rw [if_neg (by decide), if_pos rfl]
  split
  · rename_i same
    cases same
    rw [if_neg noUnit, escape]
  · rename_i same
    cases same
    rw [escape]
  · rename_i none
    cases none

/-- A hexadecimal digit is read back. -/
theorem hex?_hexDigit (n : Nat) : hex? (ascii (hexDigit n)) = some (n % 16) := by
  have small : n % 16 < 16 := Nat.mod_lt _ (by decide)
  have all : ∀ digit < 16, hex? (ascii (Nat.digitChar digit)) = some digit := by decide
  exact all _ small

/-- A hexadecimal escape is a piece that stands for a code unit. -/
theorem pieces?_unit {n : Nat} (small : n < 256) (rest : Input) (done : List Piece) :
    pieces? (ascii '\\' :: ascii 'u' :: ascii '0' :: ascii '0' :: ascii (hexDigit (n / 16)) ::
      ascii (hexDigit n) :: rest) done = pieces? rest (.unit n :: done) := by
  have whole : 4096 * 0 + 256 * 0 + 16 * (n / 16 % 16) + n % 16 = n := by omega
  rw [pieces?.eq_def]
  dsimp only
  rw [if_neg (by decide), if_pos rfl, if_pos rfl, hex?_hexDigit, hex?_hexDigit]
  have zero : hex? (ascii '0') = some 0 := by decide
  rw [zero]
  dsimp only
  rw [whole]

/-- The bytes of a written string are taken apart into the pieces. -/
def Yields (bytes : List UInt8) (pieces : List Piece) : Prop :=
  ∀ rest done, pieces? (bytes ++ rest) done = pieces? rest (pieces.reverse ++ done)

/-- The pieces spell the bytes. -/
def Spells (pieces : List Piece) (bytes : List UInt8) : Prop :=
  ∀ more done, spell? (pieces ++ more) done = spell? more (done ++ bytes.toArray)

/-- Texts in a row yield their pieces in a row. -/
theorem Yields.append {first second : List UInt8} {early late : List Piece}
    (before : Yields first early) (after : Yields second late) :
    Yields (first ++ second) (early ++ late) := by
  intro rest done
  rw [List.append_assoc, before, after]
  simp

/-- Pieces in a row spell their bytes in a row. -/
theorem Spells.append {early late : List Piece} {first second : List UInt8}
    (before : Spells early first) (after : Spells late second) :
    Spells (early ++ late) (first ++ second) := by
  intro more done
  rw [List.append_assoc, before, after]
  simp

/-- Bytes spell themselves. -/
theorem spells_bytes (bytes : List UInt8) : Spells (bytes.map .byte) bytes := by
  intro more done
  induction bytes generalizing done with
  | nil => simp
  | cons byte bytes ih =>
      rw [List.map_cons, List.cons_append, spell?, ih]
      simp

/-- The escape of a control character spells the character. -/
theorem spells_unit {c : Char} (narrow : c.toNat < 32) :
    Spells [.unit c.toNat] (String.utf8EncodeChar c) := by
  intro more done
  have bytes : Bytes.ofText c.toString = (String.utf8EncodeChar c).toArray := by
    rw [← utf8_toString]
    simp [utf8]
  rw [List.singleton_append, spell?.eq_def]
  dsimp only
  rw [if_neg (by omega), if_neg (by omega), Char.ofNat_toNat, bytes]

/-- Hexadecimal digits are narrow characters. -/
theorem toNat_hexDigit_lt (n : Nat) : (hexDigit n).toNat < 128 := by
  have all : ∀ digit < 16, (Nat.digitChar digit).toNat < 128 := by decide
  exact all _ (Nat.mod_lt _ (by decide))

/-- The written form can be read as the character, whatever surrounds it in the string. -/
def Denotes (written : List Char) (c : Char) : Prop :=
  ∃ pieces, Yields (written.flatMap String.utf8EncodeChar) pieces ∧
    Spells pieces (String.utf8EncodeChar c)

/-- A character with a short escape is denoted by it. -/
theorem denotes_short {c mark : Char} (escape : c.toNat < 128 ∧ mark.toNat < 128 ∧
    shortEscape? (ascii mark) = some (ascii c)) : Denotes ['\\', mark] c := by
  obtain ⟨narrow, narrowMark, escape⟩ := escape
  have written : ['\\', mark].flatMap String.utf8EncodeChar = [ascii '\\', ascii mark] := by
    apply flatMap_utf8EncodeChar
    simpa using narrowMark
  refine ⟨[.byte (ascii c)], fun rest done => ?_, ?_⟩
  · rw [written]
    exact pieces?_short escape rest done
  · rw [utf8EncodeChar_of_lt narrow]
    exact spells_bytes [ascii c]

/-- Any other control character is denoted by its hexadecimal escape. -/
theorem denotes_unit {c : Char} (control : c.toNat < 32) :
    Denotes ['\\', 'u', '0', '0', hexDigit (c.toNat / 16), hexDigit c.toNat] c := by
  have narrow : ∀ other ∈ ['\\', 'u', '0', '0', hexDigit (c.toNat / 16), hexDigit c.toNat],
      other.toNat < 128 := by
    simp [toNat_hexDigit_lt]
  refine ⟨[.unit c.toNat], fun rest done => ?_, spells_unit control⟩
  rw [flatMap_utf8EncodeChar narrow]
  exact pieces?_unit (by omega) rest done

/-- All other characters denote themselves. -/
theorem denotes_plain {c : Char} (noQuote : c ≠ '"') (noBackslash : c ≠ '\\')
    (noControl : 32 ≤ c.toNat) : Denotes [c] c := by
  refine ⟨(String.utf8EncodeChar c).map .byte, fun rest done => ?_, spells_bytes _⟩
  rw [List.flatMap_singleton]
  apply pieces?_plainAll
  intro byte member
  by_cases narrow : c.toNat < 128
  · rw [utf8EncodeChar_of_lt narrow, List.mem_singleton] at member
    subst member
    have value : (ascii c).toNat = c.toNat := by
      simp [ascii]
      omega
    have apart : ∀ other : Char, other.toNat < 128 → c ≠ other → ascii c ≠ ascii other := by
      intro other small different same
      have codes := congrArg UInt8.toNat same
      have otherValue : (ascii other).toNat = other.toNat := by
        simp [ascii]
        omega
      rw [value, otherValue] at codes
      exact different (Char.toNat_inj.mp codes)
    exact ⟨apart _ (by decide) noQuote, apart _ (by decide) noBackslash, value ▸ noControl⟩
  · have high := le_of_mem_utf8EncodeChar (Nat.le_of_not_lt narrow) byte member
    refine ⟨?_, ?_, by omega⟩ <;>
    · rintro rfl
      revert high
      decide

/-- What is written for a character can be read as that character. -/
theorem denotes_escaped (c : Char) : Denotes (escaped c) c := by
  unfold escaped
  split
  · rename_i quote
    subst quote
    exact denotes_short (by decide)
  split
  · rename_i backslash
    subst backslash
    exact denotes_short (by decide)
  split
  · rename_i newline
    subst newline
    exact denotes_short (by decide)
  split
  · rename_i carriageReturn
    subst carriageReturn
    exact denotes_short (by decide)
  split
  · rename_i tab
    subst tab
    exact denotes_short (by decide)
  split
  · rename_i backspace
    have same : ascii c = 8 := by rw [ascii, backspace]; rfl
    exact denotes_short ⟨by omega, by decide, by rw [same]; decide⟩
  split
  · rename_i formFeed
    have same : ascii c = 12 := by rw [ascii, formFeed]; rfl
    exact denotes_short ⟨by omega, by decide, by rw [same]; decide⟩
  split
  · rename_i control
    exact denotes_unit control
  · rename_i noQuote noBackslash _ _ _ _ _ noControl
    exact denotes_plain noQuote noBackslash (Nat.le_of_not_lt noControl)

/-- What is escaped character by character is read back as pieces that spell the text. -/
theorem exists_pieces (characters : List Char) :
    ∃ pieces, Yields ((characters.flatMap escaped).flatMap String.utf8EncodeChar) pieces ∧
      Spells pieces (characters.flatMap String.utf8EncodeChar) := by
  induction characters with
  | nil => exact ⟨[], fun _ _ => rfl, fun _ _ => by simp⟩
  | cons c characters ih =>
      obtain ⟨first, yieldsFirst, spellsFirst⟩ := denotes_escaped c
      obtain ⟨others, yieldsOthers, spellsOthers⟩ := ih
      refine ⟨first ++ others, ?_, spellsFirst.append spellsOthers⟩
      rw [List.flatMap_cons, List.flatMap_append]
      exact yieldsFirst.append yieldsOthers

/-- A written string without its opening quote. -/
def quotedTail (text : String) : List UInt8 :=
  (text.toList.flatMap escaped).flatMap String.utf8EncodeChar ++ [ascii '"']

/-- A quoted text begins with a quote. -/
theorem utf8_quoted (text : String) : utf8 (quoted text) = ascii '"' :: quotedTail text := by
  have quote : utf8 "\"" = [ascii '"'] := by decide
  rw [quoted, utf8_append, utf8_append, quote, utf8_ofList, quotedTail]
  rfl

/-- A written string is read as its text. -/
theorem string?_quotedTail (text : String) (rest : Input) :
    string? (quotedTail text ++ rest) = some (some text, rest) := by
  obtain ⟨pieces, yields, spells⟩ := exists_pieces text.toList
  have taken : pieces? (quotedTail text ++ rest) [] = some (pieces, rest) := by
    rw [quotedTail, List.append_assoc, yields, List.append_nil, List.singleton_append,
      pieces?.eq_def]
    simp
  have spelled : spell? pieces #[] = some (Bytes.ofText text) := by
    have all := spells [] #[]
    rw [List.append_nil, spell?, ← utf8_eq_flatMap] at all
    rw [all]
    simp [utf8]
  simp only [string?, taken, Option.bind_eq_bind, Option.bind_some, spelled, Bytes.text?_ofText]
  rfl

/-! ## Numbers -/

/-- A digit as it is written. -/
def digitByte (digit : Fin 10) : UInt8 :=
  ascii (Nat.digitChar digit.val)

/-- A digit is read back. -/
theorem digit?_digitByte (digit : Fin 10) : digit? (digitByte digit) = some digit := by
  revert digit
  decide

/-- Digits are written with one byte each. -/
theorem utf8_digits (digits : Digits) : utf8 digits.text = digits.map digitByte := by
  have narrow : ∀ digit : Fin 10, (Nat.digitChar digit.val).toNat < 128 := by decide
  rw [Digits.text, utf8_ofList, flatMap_utf8EncodeChar]
  · rw [List.map_map]
    rfl
  · intro c member
    obtain ⟨digit, _, rfl⟩ := List.mem_map.mp member
    exact narrow digit

/-- The input does not start with a digit. -/
def NoDigit (input : Input) : Prop :=
  ∀ byte ∈ input.head?, digit? byte = none

/-- The input does not start with something that could belong to a number before it. -/
def Stops (input : Input) : Prop :=
  NoDigit input ∧ ∀ byte ∈ input.head?, byte ≠ ascii '.' ∧ byte ≠ ascii 'e' ∧ byte ≠ ascii 'E'

/-- Digits are read up to the first byte that is none. -/
theorem digits_append (written : Digits) {rest : Input} (noDigit : NoDigit rest) (done : Digits) :
    digits (written.map digitByte ++ rest) done = (done.reverse ++ written, rest) := by
  induction written generalizing done with
  | nil =>
      cases rest with
      | nil => simp [digits]
      | cons byte rest =>
          have other : digit? byte = none := noDigit byte rfl
          simp [digits, other]
  | cons digit written ih =>
      rw [List.map_cons, List.cons_append, digits, digit?_digitByte]
      dsimp only
      rw [ih]
      simp

/-- Digits that must be there are read when there is at least one. -/
theorem digits?_append {written : Digits} (some_digit : written ≠ []) {rest : Input}
    (noDigit : NoDigit rest) :
    digits? (written.map digitByte ++ rest) = some (written, rest) := by
  rw [digits?, digits_append written noDigit, List.reverse_nil, List.nil_append]
  split
  · rename_i none
    exact absurd (congrArg Prod.fst none) some_digit
  · rename_i found rest _ found_eq
    rw [← found_eq]

end Json.Reader

namespace Numeral

/-- The numeral is spelled as JSON has it: there are digits wherever there must be some, and
a zero before the point stands alone. -/
structure Canonical (numeral : Numeral) : Prop where
  whole_ne_nil : numeral.whole ≠ []
  zero_alone : ∀ next others, numeral.whole ≠ 0 :: next :: others
  exponent_ne_nil : ∀ exponent ∈ numeral.exponent, exponent.2 ≠ []

end Numeral

namespace Json.Reader

/-- The digits after the point as they are written. -/
def fractionBytes : Digits → List UInt8
  | [] => []
  | first :: others => ascii '.' :: (first :: others).map digitByte

/-- The exponent as it is written. -/
def exponentBytes : Option (Bool × Digits) → List UInt8
  | none => []
  | some (negative, digits) =>
    ascii 'e' :: ascii (if negative then '-' else '+') :: digits.map digitByte

/-- The parts of a numeral that come after its sign, as they are written. -/
def unsignedBytes (numeral : Numeral) : List UInt8 :=
  numeral.whole.map digitByte ++ (fractionBytes numeral.fraction ++ exponentBytes numeral.exponent)

/-- A numeral is written with its sign in front, if it is negative. -/
theorem utf8_numeral (numeral : Numeral) :
    utf8 numeral.text =
      (if numeral.negative then [ascii '-'] else []) ++ unsignedBytes numeral := by
  obtain ⟨negative, whole, fraction, exponent⟩ := numeral
  have signs : utf8 "" = [] ∧ utf8 "-" = [ascii '-'] ∧ utf8 "+" = [ascii '+'] := by decide
  have marks : utf8 "." = [ascii '.'] ∧ utf8 "e" = [ascii 'e'] := by decide
  have sign : utf8 (if negative then "-" else "") = if negative then [ascii '-'] else [] := by
    cases negative <;> simp [signs]
  have point : utf8 (if fraction = [] then "" else "." ++ Digits.text fraction) =
      fractionBytes fraction := by
    cases fraction with
    | nil => exact signs.1
    | cons first others => simp [utf8_digits, marks, fractionBytes]
  have power : ∀ (below : Bool) (digits : Digits),
      utf8 ("e" ++ (if below then "-" else "+") ++ digits.text) =
        exponentBytes (some (below, digits)) := by
    intro below digits
    rw [utf8_append, utf8_append, utf8_digits, marks.2]
    cases below <;> simp [signs, exponentBytes]
  obtain _ | ⟨below, digits⟩ := exponent
  · simp only [Numeral.text, utf8_append, sign, point, utf8_digits, signs.1, unsignedBytes,
      exponentBytes, List.append_assoc]
  · simp only [Numeral.text, utf8_append _ ("e" ++ _ ++ _), power, utf8_append, sign, point,
      utf8_digits, unsignedBytes, List.append_assoc]

/-- An exponent is read back, also when it is missing. -/
theorem exponent?_append {exponent : Option (Bool × Digits)}
    (someDigit : ∀ written ∈ exponent, written.2 ≠ []) {rest : Input} (stops : Stops rest) :
    exponent? (exponentBytes exponent ++ rest) = some (exponent, rest) := by
  obtain _ | ⟨negative, digits⟩ := exponent
  · rw [exponentBytes, List.nil_append]
    cases rest with
    | nil => rfl
    | cons byte rest =>
        obtain ⟨_, notSmall, notLarge⟩ := stops.2 byte rfl
        simp [exponent?, notSmall, notLarge]
  · have read : digits? (digits.map digitByte ++ rest) = some (digits, rest) :=
      digits?_append (someDigit _ rfl) stops.1
    have apart : ascii '+' ≠ ascii '-' := by decide
    cases negative with
    | true => simp [exponentBytes, exponent?, read]
    | false => simp [exponentBytes, exponent?, read, apart]

/-- The digits before an exponent end where it begins. -/
theorem noDigit_exponentBytes (exponent : Option (Bool × Digits)) {rest : Input}
    (stops : Stops rest) : NoDigit (exponentBytes exponent ++ rest) := by
  obtain _ | ⟨negative, digits⟩ := exponent
  · exact stops.1
  · rintro byte ⟨⟩
    decide

/-- An exponent does not begin with a point. -/
theorem noPoint_exponentBytes (exponent : Option (Bool × Digits)) {rest : Input}
    (stops : Stops rest) : ∀ byte ∈ (exponentBytes exponent ++ rest).head?, byte ≠ ascii '.' := by
  obtain _ | ⟨negative, digits⟩ := exponent
  · exact fun byte first => (stops.2 byte first).1
  · rintro byte ⟨⟩
    decide

/-- A fraction is read back, also when it is missing. -/
theorem fraction?_append (fraction : Digits) {rest : Input} (noDigit : NoDigit rest)
    (noPoint : ∀ byte ∈ rest.head?, byte ≠ ascii '.') :
    fraction? (fractionBytes fraction ++ rest) = some (fraction, rest) := by
  cases fraction with
  | nil =>
      rw [fractionBytes, List.nil_append]
      cases rest with
      | nil => rfl
      | cons byte rest => exact if_neg (noPoint byte rfl)
  | cons first others => exact digits?_append (List.cons_ne_nil first others) noDigit

/-- The digits before a fraction end where it begins. -/
theorem noDigit_fractionBytes (fraction : Digits) {rest : Input} (noDigit : NoDigit rest) :
    NoDigit (fractionBytes fraction ++ rest) := by
  cases fraction with
  | nil => exact noDigit
  | cons first others =>
      rintro byte ⟨⟩
      decide

/-- The whole part is read back when it has no leading zero. -/
theorem whole?_append {whole : Digits} (someDigit : whole ≠ [])
    (zeroAlone : ∀ next others, whole ≠ 0 :: next :: others) {rest : Input}
    (noDigit : NoDigit rest) :
    whole? (whole.map digitByte ++ rest) = some (whole, rest) := by
  simp only [whole?, digits?_append someDigit noDigit, Option.bind_eq_bind, Option.bind_some]

/-- The first digit of a number is no sign. -/
theorem exists_unsignedBytes {numeral : Numeral} (canonical : numeral.Canonical) :
    ∃ digit tail, unsignedBytes numeral = digitByte digit :: tail := by
  obtain ⟨digit, digits, first⟩ := List.exists_cons_of_ne_nil canonical.whole_ne_nil
  exact ⟨digit, _, by rw [unsignedBytes, first]; rfl⟩

/-- A written number is read as its numeral. -/
theorem numeral?_text {numeral : Numeral} (canonical : numeral.Canonical) {rest : Input}
    (stops : Stops rest) : numeral? (utf8 numeral.text ++ rest) = some (numeral, rest) := by
  have noDigit := noDigit_exponentBytes numeral.exponent stops
  have wholeRead := whole?_append canonical.whole_ne_nil canonical.zero_alone
    (noDigit_fractionBytes numeral.fraction noDigit)
  have fractionRead := fraction?_append numeral.fraction noDigit
    (noPoint_exponentBytes numeral.exponent stops)
  have exponentRead := exponent?_append canonical.exponent_ne_nil stops
  have unsigned : unsignedBytes numeral ++ rest = numeral.whole.map digitByte ++
      (fractionBytes numeral.fraction ++ (exponentBytes numeral.exponent ++ rest)) := by
    simp [unsignedBytes]
  obtain ⟨digit, tail, first⟩ := exists_unsignedBytes canonical
  have noSign : ∀ digit : Fin 10, digitByte digit ≠ ascii '-' := by decide
  rw [utf8_numeral]
  obtain ⟨negative, whole, fraction, exponent⟩ := numeral
  cases negative with
  | true =>
      rw [if_pos rfl, List.singleton_append, List.cons_append, numeral?]
      simp [unsigned, wholeRead, fractionRead, exponentRead]
  | false =>
      rw [if_neg Bool.false_ne_true, List.nil_append]
      unfold numeral?
      rw [first, List.cons_append]
      simp only [noSign, if_false]
      rw [← List.cons_append, ← first]
      simp [unsigned, wholeRead, fractionRead, exponentRead]

end Json.Reader

end ByteLisp
