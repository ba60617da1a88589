import ByteLisp.Text.CaseTable

/-!
# Upper and lower case

Text changes case by the full mappings of Unicode: one character may become
several. A capital sigma at the end of a word has a lower case of its own.
-/

namespace ByteLisp

/-- The two cases. -/
inductive LetterCase where
  | upper
  | lower
deriving DecidableEq, Repr

namespace LetterCase

/-- The mappings to one character. -/
def runs : LetterCase → List CaseRun
  | upper => CaseTable.upperRuns
  | lower => CaseTable.lowerRuns

/-- The mappings to several characters. -/
def expansions : LetterCase → List (Nat × List Nat)
  | upper => CaseTable.upperExpansions
  | lower => CaseTable.lowerExpansions

/-- The characters that a character becomes on its own. -/
def ofChar (letterCase : LetterCase) (c : Char) : List Char :=
  match CaseRun.find? c.toNat letterCase.runs with
  | some run => [Char.ofNat (c.toNat + run.shift).toNat]
  | none =>
    match CaseExpansion.find? c.toNat letterCase.expansions with
    | some codes => codes.map Char.ofNat
    | none => [c]

/-- The first of the characters that a character becomes. -/
def firstOf (letterCase : LetterCase) (c : Char) : Char :=
  (letterCase.ofChar c).headD c

/-- Whether a character lies in one of the ranges. -/
def inRanges (ranges : List (Nat × Nat)) (c : Char) : Bool :=
  ranges.any fun (first, last) => first ≤ c.toNat && c.toNat ≤ last

/-- Whether the first character that is not to be ignored has a case. -/
def reachesCased (text : List Char) : Bool :=
  match text.dropWhile (inRanges CaseTable.caseIgnorable) with
  | c :: _ => inRanges CaseTable.cased c
  | [] => false

/-- The lower case of a sigma, given the text before it in reverse and the text
after it: a word that ends with it has the final form. -/
def lowerSigma (before after : List Char) : Char :=
  if reachesCased before && !reachesCased after then 'ς' else 'σ'

/-- The lower case of a text that follows the text `before`, given in reverse. -/
def lowerFrom (before : List Char) : List Char → List Char → List Char
  | [], done => done.reverse
  | c :: rest, done =>
    let small := if c = 'Σ' then [lowerSigma before rest] else lower.ofChar c
    lowerFrom (c :: before) rest (small.reverse ++ done)

/-- The text in the given case. -/
def ofText (letterCase : LetterCase) (text : String) : String :=
  match letterCase with
  | upper => String.ofList (text.toList.flatMap upper.ofChar)
  | lower => String.ofList (lowerFrom [] text.toList [])

/-- An ASCII letter in the given case; any other byte stays as it is. -/
def ofByte (letterCase : LetterCase) (byte : UInt8) : UInt8 :=
  match letterCase with
  | upper => if 97 ≤ byte.toNat && byte.toNat ≤ 122 then byte - 32 else byte
  | lower => if 65 ≤ byte.toNat && byte.toNat ≤ 90 then byte + 32 else byte

end LetterCase

end ByteLisp
