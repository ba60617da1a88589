import ByteLisp.Bytes
import ByteLisp.Json.Basic

/-!
# Reading JSON

The reader accepts exactly the JSON grammar: no leading zeros, no trailing
commas, no comments, nothing but blanks around the value. Nesting is not
limited here.
-/

namespace ByteLisp

namespace Json

namespace Reader

/-- The rest of an input. -/
abbrev Input := List UInt8

/-- An ASCII character as a byte. -/
def ascii (c : Char) : UInt8 :=
  UInt8.ofNat c.toNat

/-- Blanks, tabs and ends of lines. -/
def isBlank (byte : UInt8) : Bool :=
  byte == 32 || byte == 10 || byte == 13 || byte == 9

/-- The input from its first byte that is no blank on. -/
def skipBlanks (input : Input) : Input :=
  input.dropWhile isBlank

/-- The input after an expected word. -/
def word? (expected : List Char) (input : Input) : Option Input :=
  match expected, input with
  | [], input => some input
  | c :: expected, byte :: input => if byte = ascii c then word? expected input else none
  | _ :: _, [] => none

/-- The digit that a byte stands for. -/
def digit? (byte : UInt8) : Option (Fin 10) :=
  if _ : 48 ≤ byte.toNat ∧ byte.toNat < 58 then some ⟨byte.toNat - 48, by omega⟩ else none

/-- The digits at the start of the input, and the input after them. -/
def digits : Input → Digits → Digits × Input
  | [], done => (done.reverse, [])
  | byte :: input, done =>
    match digit? byte with
    | some digit => digits input (digit :: done)
    | none => (done.reverse, byte :: input)

/-- At least one digit, and the input after them. -/
def digits? (input : Input) : Option (Digits × Input) :=
  match digits input [] with
  | ([], _) => none
  | (found, rest) => some (found, rest)

/-- The digits before the point: a zero stands alone. -/
def whole? (input : Input) : Option (Digits × Input) := do
  let (found, rest) ← digits? input
  match found with
  | 0 :: _ :: _ => none
  | _ => some (found, rest)

/-- The digits after the point, when there is a point. -/
def fraction? (input : Input) : Option (Digits × Input) :=
  match input with
  | byte :: rest => if byte = ascii '.' then digits? rest else some ([], input)
  | [] => some ([], [])

/-- The exponent, when there is one. -/
def exponent? (input : Input) : Option (Option (Bool × Digits) × Input) :=
  match input with
  | byte :: rest =>
    if byte = ascii 'e' || byte = ascii 'E' then
      let (negative, rest) := match rest with
        | sign :: after =>
          if sign = ascii '-' then (true, after)
          else if sign = ascii '+' then (false, after)
          else (false, rest)
        | [] => (false, rest)
      (digits? rest).map fun (found, rest) => (some (negative, found), rest)
    else some (none, input)
  | [] => some (none, [])

/-- A numeral, and the input after it. -/
def numeral? (input : Input) : Option (Numeral × Input) := do
  let (negative, input) := match input with
    | byte :: rest => if byte = ascii '-' then (true, rest) else (false, input)
    | [] => (false, input)
  let (whole, input) ← whole? input
  let (fraction, input) ← fraction? input
  let (exponent, input) ← exponent? input
  return (⟨negative, whole, fraction, exponent⟩, input)

/-- The number that a hexadecimal digit stands for. -/
def hex? (byte : UInt8) : Option Nat :=
  let n := byte.toNat
  if 48 ≤ n ∧ n < 58 then some (n - 48)
  else if 97 ≤ n ∧ n < 103 then some (n - 87)
  else if 65 ≤ n ∧ n < 71 then some (n - 55)
  else none

/-- A piece of a string: a byte that stands for itself or for a short escape, or
a 16-bit unit that is given by its number. -/
inductive Piece where
  | byte (byte : UInt8)
  | unit (unit : Nat)
deriving DecidableEq, Repr

/-- The byte that a short escape stands for. -/
def shortEscape? (byte : UInt8) : Option UInt8 :=
  if byte = ascii '"' || byte = ascii '\\' || byte = ascii '/' then some byte
  else if byte = ascii 'b' then some 8
  else if byte = ascii 'f' then some 12
  else if byte = ascii 'n' then some 10
  else if byte = ascii 'r' then some 13
  else if byte = ascii 't' then some 9
  else none

/-- The pieces of a string up to its closing quote, and the input after it. -/
def pieces? (input : Input) (done : List Piece) : Option (List Piece × Input) :=
  match input with
  | [] => none
  | byte :: rest =>
    if byte = ascii '"' then some (done.reverse, rest)
    else if byte = ascii '\\' then
      match rest with
      | mark :: a :: b :: c :: d :: after =>
        if mark = ascii 'u' then
          match hex? a, hex? b, hex? c, hex? d with
          | some w, some x, some y, some z =>
            pieces? after (.unit (4096 * w + 256 * x + 16 * y + z) :: done)
          | _, _, _, _ => none
        else
          match shortEscape? mark with
          | some short => pieces? (a :: b :: c :: d :: after) (.byte short :: done)
          | none => none
      | mark :: after =>
        match shortEscape? mark with
        | some short => pieces? after (.byte short :: done)
        | none => none
      | [] => none
    else if byte.toNat < 32 then none
    else pieces? rest (.byte byte :: done)

/-- The bytes of the text that pieces spell. Units from the two surrogate ranges
must come in pairs. -/
def spell? (pieces : List Piece) (done : Bytes) : Option Bytes :=
  match pieces with
  | [] => some done
  | .byte byte :: rest => spell? rest (done.push byte)
  | .unit high :: rest =>
    if 0xD800 ≤ high ∧ high < 0xDC00 then
      match rest with
      | .unit low :: rest =>
        if 0xDC00 ≤ low ∧ low < 0xE000 then
          let code := 0x10000 + 1024 * (high - 0xD800) + (low - 0xDC00)
          spell? rest (done ++ Bytes.ofText (Char.ofNat code).toString)
        else none
      | _ => none
    else if 0xDC00 ≤ high ∧ high < 0xE000 then none
    else spell? rest (done ++ Bytes.ofText (Char.ofNat high).toString)

/-- The text of a string whose opening quote has been read, and the input after
it. -/
def string? (input : Input) : Option (Option String × Input) := do
  let (pieces, rest) ← pieces? input []
  return ((spell? pieces #[]).bind Bytes.text?, rest)

mutual

/-- A value, and the input after it. Every call uses up one unit of fuel. -/
def value? (fuel : Nat) (input : Input) : Option (Json × Input) :=
  match fuel with
  | 0 => none
  | fuel + 1 =>
    match skipBlanks input with
    | [] => none
    | byte :: rest =>
      if byte = ascii '"' then
        match string? rest with
        | some (text, rest) => some (.string text, rest)
        | none => none
      else if byte = ascii '[' then
        match skipBlanks rest with
        | [] => none
        | next :: after =>
          if next = ascii ']' then some (.array [], after) else items? fuel (next :: after) []
      else if byte = ascii '\x7b' then
        match skipBlanks rest with
        | [] => none
        | next :: after =>
          if next = ascii '\x7d' then some (.object [], after)
          else members? fuel (next :: after) []
      else if byte = ascii 'n' then
        (word? ['u', 'l', 'l'] rest).map fun rest => (.null, rest)
      else if byte = ascii 't' then
        (word? ['r', 'u', 'e'] rest).map fun rest => (.bool true, rest)
      else if byte = ascii 'f' then
        (word? ['a', 'l', 's', 'e'] rest).map fun rest => (.bool false, rest)
      else
        (numeral? (byte :: rest)).map fun (numeral, rest) => (.number numeral, rest)

/-- The items of an array from the next one on, and the input after it. -/
def items? (fuel : Nat) (input : Input) (done : List Json) : Option (Json × Input) :=
  match fuel with
  | 0 => none
  | fuel + 1 =>
    match value? fuel input with
    | none => none
    | some (item, rest) =>
      match skipBlanks rest with
      | [] => none
      | next :: after =>
        if next = ascii ']' then some (.array (item :: done).reverse, after)
        else if next = ascii ',' then items? fuel after (item :: done)
        else none

/-- The members of an object from the next one on, and the input after it. -/
def members? (fuel : Nat) (input : Input) (done : List (Option String × Json)) :
    Option (Json × Input) :=
  match fuel with
  | 0 => none
  | fuel + 1 =>
    match skipBlanks input with
    | [] => none
    | quote :: rest =>
      if quote = ascii '"' then
        match string? rest with
        | none => none
        | some (name, rest) =>
          match skipBlanks rest with
          | [] => none
          | colon :: rest =>
            if colon = ascii ':' then
              match value? fuel rest with
              | none => none
              | some (value, rest) =>
                match skipBlanks rest with
                | [] => none
                | next :: after =>
                  if next = ascii '\x7d' then
                    some (.object ((name, value) :: done).reverse, after)
                  else if next = ascii ',' then members? fuel after ((name, value) :: done)
                  else none
            else none
      else none

end

end Reader

/-- The value that the bytes write. -/
def parse? (bytes : Bytes) : Option Json :=
  match Reader.value? (2 * bytes.size + 2) bytes.toList with
  | some (value, rest) => if Reader.skipBlanks rest = [] then some value else none
  | none => none

end Json

end ByteLisp
