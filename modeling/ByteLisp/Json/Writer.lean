import ByteLisp.Json.Basic

/-!
# Writing JSON

Values are written without blanks, or spread over lines. In strings, quotes,
backslashes and control characters are escaped; everything else stands for
itself.
-/

namespace ByteLisp

namespace Json

/-- A lower-case hexadecimal digit. -/
def hexDigit (n : Nat) : Char :=
  Nat.digitChar (n % 16)

/-- A character inside a written string. -/
def escaped (c : Char) : List Char :=
  if c = '"' then ['\\', '"']
  else if c = '\\' then ['\\', '\\']
  else if c = '\n' then ['\\', 'n']
  else if c = '\r' then ['\\', 'r']
  else if c = '\t' then ['\\', 't']
  else if c.toNat = 8 then ['\\', 'b']
  else if c.toNat = 12 then ['\\', 'f']
  else if c.toNat < 32 then ['\\', 'u', '0', '0', hexDigit (c.toNat / 16), hexDigit c.toNat]
  else [c]

/-- A written string. -/
def quoted (text : String) : String :=
  "\"" ++ String.ofList (text.toList.flatMap escaped) ++ "\""

/-- A name before the value of a member. -/
def label (name : Option String) : String :=
  quoted (name.getD "")

mutual

/-- Adds the value to a text, without blanks. -/
def append (text : String) : Json → String
  | .null => text ++ "null"
  | .bool true => text ++ "true"
  | .bool false => text ++ "false"
  | .number numeral => text ++ numeral.text
  | .string content => text ++ label content
  | .array items => appendItems (text ++ "[") items ++ "]"
  | .object members => appendMembers (text ++ "\x7b") members ++ "\x7d"

/-- Adds the items of an array to a text, with commas between them. -/
def appendItems (text : String) : List Json → String
  | [] => text
  | [item] => append text item
  | item :: items => appendItems (append text item ++ ",") items

/-- Adds the members of an object to a text, with commas between them. -/
def appendMembers (text : String) : List (Option String × Json) → String
  | [] => text
  | [(name, value)] => append (text ++ label name ++ ":") value
  | (name, value) :: members =>
    appendMembers (append (text ++ label name ++ ":") value ++ ",") members

end

/-- The value written without blanks. -/
def render (value : Json) : String :=
  append "" value

mutual

/-- What is written does not depend on the text before it. -/
theorem append_eq (text : String) : (value : Json) → append text value = text ++ append "" value
  | .null | .bool true | .bool false | .number _ | .string _ => by simp [append]
  | .array items => by
    simp only [append]
    rw [appendItems_eq (text ++ "[") items, appendItems_eq ("" ++ "[") items]
    simp [String.append_assoc]
  | .object members => by
    simp only [append]
    rw [appendMembers_eq (text ++ "\x7b") members, appendMembers_eq ("" ++ "\x7b") members]
    simp [String.append_assoc]

/-- Items are added behind the text. -/
theorem appendItems_eq (text : String) :
    (items : List Json) → appendItems text items = text ++ appendItems "" items
  | [] => by simp [appendItems]
  | [item] => by
    simp only [appendItems]
    exact append_eq text item
  | item :: next :: items => by
    simp only [appendItems]
    rw [append_eq text item, appendItems_eq (text ++ append "" item ++ ",") (next :: items),
      appendItems_eq (append "" item ++ ",") (next :: items)]
    simp [String.append_assoc]

/-- Members are added behind the text. -/
theorem appendMembers_eq (text : String) :
    (members : List (Option String × Json)) →
      appendMembers text members = text ++ appendMembers "" members
  | [] => by simp [appendMembers]
  | [(name, value)] => by
    simp only [appendMembers]
    rw [append_eq (text ++ label name ++ ":") value, append_eq ("" ++ label name ++ ":") value]
    simp [String.append_assoc]
  | (name, value) :: next :: members => by
    simp only [appendMembers]
    rw [append_eq (text ++ label name ++ ":") value, append_eq ("" ++ label name ++ ":") value,
      appendMembers_eq (text ++ label name ++ ":" ++ append "" value ++ ",") (next :: members),
      appendMembers_eq ("" ++ label name ++ ":" ++ append "" value ++ ",") (next :: members)]
    simp [String.append_assoc]

end

/-- A new line with an indentation of two blanks for each level. -/
def newLine (level : Nat) : String :=
  String.ofList ('\n' :: List.replicate (2 * level) ' ')

/-- The parts between brackets, each on a line of its own. -/
def spread (level : Nat) (first last : String) (parts : List String) : String :=
  match parts with
  | [] => first ++ last
  | _ => first ++ newLine (level + 1) ++ ("," ++ newLine (level + 1)).intercalate parts ++
      newLine level ++ last

mutual

/-- The value spread over lines, starting at a level of indentation. -/
def pretty (level : Nat) : Json → String
  | .null => "null"
  | .bool true => "true"
  | .bool false => "false"
  | .number numeral => numeral.text
  | .string content => label content
  | .array items => spread level "[" "]" (prettyItems (level + 1) items)
  | .object members => spread level "\x7b" "\x7d" (prettyMembers (level + 1) members)

/-- The items of an array, spread over lines. -/
def prettyItems (level : Nat) : List Json → List String
  | [] => []
  | item :: items => pretty level item :: prettyItems level items

/-- The members of an object, spread over lines. -/
def prettyMembers (level : Nat) : List (Option String × Json) → List String
  | [] => []
  | (name, value) :: members =>
    (label name ++ ": " ++ pretty level value) :: prettyMembers level members

end

end Json

end ByteLisp
