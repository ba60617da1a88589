import ByteLisp.Datum.Basic
import ByteLisp.Json.Decode

/-!
# Data in JSON

Reading is limited in depth: `levels` counts the brackets of either kind that
may still be opened. Members that are skipped do not count.
-/

namespace ByteLisp

namespace Json

/-- The items of an array. -/
def listOf? {α : Type} (read : Json → Option α) : Json → Option (List α)
  | .array items => items.mapM read
  | _ => none

/-- Items that can be read back one by one can be read back as an array. -/
theorem listOf?_array_map {α : Type} (write : α → Json) (read : Json → Option α) (items : List α)
    (back : ∀ item ∈ items, read (write item) = some item) :
    (Json.array (items.map write)).listOf? read = some items := by
  induction items with
  | nil => rfl
  | cons item items ih =>
    have tail := ih fun other member => back other (List.mem_cons_of_mem _ member)
    simp only [listOf?] at tail ⊢
    simp [back item List.mem_cons_self, tail]

/-- The content of a field; none when it is missing or `null`. -/
def optional? {α : Type} (read : Json → Option α) (field : Option Json) : Option (Option α) :=
  match field with
  | none => some none
  | some .null => some none
  | some value => (read value).map some

/-- A sequence of bytes, written as an array of numbers. -/
def bytes? (value : Json) : Option Bytes :=
  (value.listOf? byte?).map List.toArray

/-- Bytes are read back. -/
@[simp] theorem bytes?_ofByteList (bytes : List UInt8) :
    (ofByteList bytes).bytes? = some bytes.toArray := by
  rw [bytes?, ofByteList, listOf?_array_map _ _ _ fun byte _ => byte?_ofNat byte]
  rfl

end Json

namespace Documentation

/-- The JSON form of documentation. -/
def toJson : Documentation → Json
  | text content => .ofChoice "Text" (.ofText content)
  | external file offset =>
    .ofChoice "External" (.ofMembers [("file", .ofText file), ("offset", .ofInt offset.toInt)])

/-- The documentation of a JSON value. -/
def ofJson? (levels : Nat) (value : Json) : Option Documentation :=
  match levels, value.choice? with
  | _ + 1, some ("Text", some content) => content.text?.map text
  | _ + 2, some ("External", some content) =>
    match content.fields? ["file", "offset"] with
    | some [some file, some offset] => do
      return external (← file.text?) (← offset.int64?)
    | _ => none
  | _, _ => none

end Documentation

namespace Literal

/-- The record of a function, made from the JSON values of its parts. A missing
documentation or interactive form is left out. -/
def toJson (literal : Literal Json) : Json :=
  .ofMembers (
    [("arglist", literal.parameters), ("code", .ofByteList literal.code.toList),
      ("constants", .array literal.constants), ("max_depth", .ofNat literal.maxDepth.toNat)] ++
    (literal.documentation.map fun content => ("doc", content.toJson)).toList ++
    (literal.interactive.map fun form => ("interactive", form)).toList)

/-- The function with the fields of a record. There are `levels` levels inside
the record; `read` reads a part in a field of its own, `readItem` reads an item
of the constants, which is one level further in. -/
def ofJson? {α : Type} (levels : Nat) (read readItem : Json → Option α) (value : Json) :
    Option (Literal α) :=
  match value.fields? ["arglist", "code", "constants", "max_depth", "doc", "interactive"] with
  | some [some parameters, some code, some constants, some depth, documentation,
      interactive] => do
    return ⟨← read parameters, ← code.bytes?, ← constants.listOf? readItem, ← depth.long?,
      ← Json.optional? (Documentation.ofJson? levels) documentation,
      ← Json.optional? read interactive⟩
  | _ => none

end Literal

namespace Datum

mutual

/-- The datum as a choice named for its kind. -/
def toJson : Datum → Json
  | .nil => .ofText "Nil"
  | .int n => .ofChoice "Int" (.ofInt n.toInt)
  | .float x => .ofChoice "Float" (.ofDouble x)
  | .string bytes => .ofChoice "Str" (.ofByteList bytes.toList)
  | .symbol name => .ofChoice "Symbol" (.ofText name)
  | .list items => .ofChoice "List" (.array (itemsToJson items))
  | .dotted items tail => .ofChoice "Dotted" (.array [.array (itemsToJson items), toJson tail])
  | .vector items => .ofChoice "Vector" (.array (itemsToJson items))
  | .function literal => .ofChoice "Function" (literalToJson literal)

/-- The JSON forms of the items of a list. -/
def itemsToJson : List Datum → List Json
  | [] => []
  | item :: items => toJson item :: itemsToJson items

/-- The JSON form of a datum that may be missing. -/
def optionToJson : Option Datum → Option Json
  | none => none
  | some datum => some (toJson datum)

/-- The JSON form of the literal of a function. -/
def literalToJson : Literal Datum → Json
  | ⟨parameters, code, constants, maxDepth, documentation, interactive⟩ =>
    Literal.toJson ⟨toJson parameters, code, itemsToJson constants, maxDepth, documentation,
      optionToJson interactive⟩

end

/-- The datum that a value describes. -/
def ofJson? : Nat → Json → Option Datum
  | 0, value =>
    match value.choice? with
    | some ("Nil", none) => some .nil
    | _ => none
  | levels + 1, value =>
    match value.choice?, levels with
    | some ("Int", some content), _ => content.int64?.map .int
    | some ("Float", some content), _ => content.double?.map .float
    | some ("Str", some content), _ + 1 => content.bytes?.map .string
    | some ("Symbol", some content), _ => content.text?.map .symbol
    | some ("List", some content), levels + 1 => (content.listOf? (ofJson? levels)).map .list
    | some ("Dotted", some (.array [items, tail])), levels + 2 => do
      return .dotted (← items.listOf? (ofJson? levels)) (← ofJson? (levels + 1) tail)
    | some ("Vector", some content), levels + 1 => (content.listOf? (ofJson? levels)).map .vector
    | some ("Function", some content), levels + 2 =>
      (Literal.ofJson? (levels + 1) (ofJson? (levels + 1)) (ofJson? levels) content).map .function
    | _, _ => if value.bareChoice? = some "Nil" then some .nil else none

end Datum

namespace FunctionLiteral

/-- The JSON form of the literal of a function. -/
def toJson (literal : FunctionLiteral) : Json :=
  Datum.literalToJson literal

/-- The function that a value describes. -/
def ofJson? (levels : Nat) (value : Json) : Option FunctionLiteral :=
  match levels with
  | levels + 2 =>
    Literal.ofJson? (levels + 1) (Datum.ofJson? (levels + 1)) (Datum.ofJson? levels) value
  | _ => none

end FunctionLiteral

end ByteLisp
