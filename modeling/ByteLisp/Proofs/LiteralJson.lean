import ByteLisp.Datum.Text
import ByteLisp.Proofs.JsonText
import ByteLisp.Proofs.WrittenDoubles

/-!
# Functions in JSON and back

The JSON value of a function can be read when it is not nested too deeply and all its floating
point numbers are finite. Reading gives back the function, except that a floating point number
becomes what its written form is read as.
-/

namespace ByteLisp

namespace Json

mutual

/-- The number of brackets of either kind that are open at once. -/
def depth : Json → Nat
  | .null | .bool _ | .number _ | .string _ => 0
  | .array items => itemsDepth items + 1
  | .object members => membersDepth members + 1

/-- The greatest depth among items. -/
def itemsDepth : List Json → Nat
  | [] => 0
  | item :: items => max (depth item) (itemsDepth items)

/-- The greatest depth among the values of members. -/
def membersDepth : List (Option String × Json) → Nat
  | [] => 0
  | (_, value) :: members => max (depth value) (membersDepth members)

end

@[simp] theorem depth_ofInt (n : Int) : (ofInt n).depth = 0 := by
  simp [ofInt, depth]

@[simp] theorem depth_ofNat (n : Nat) : (ofNat n).depth = 0 :=
  depth_ofInt n

@[simp] theorem depth_ofDouble (x : Double) : (ofDouble x).depth = 0 := by
  unfold ofDouble
  split <;> simp [depth]

/-- Bytes are written as an array of numbers. -/
@[simp] theorem depth_ofByteList (bytes : List UInt8) : (ofByteList bytes).depth = 1 := by
  have flat : itemsDepth (bytes.map fun byte => ofNat byte.toNat) = 0 := by
    induction bytes with
    | nil => rfl
    | cons byte bytes ih => simp [itemsDepth, ih]
  simp [ofByteList, depth, flat]

/-- A choice is written as an object with one member. -/
@[simp] theorem depth_ofChoice (name : String) (content : Json) :
    (ofChoice name content).depth = content.depth + 1 := by
  simp [ofChoice, ofMembers, depth, membersDepth]

end Json

/-- Whether the number is neither infinite nor a not-a-number. -/
def Double.isFinite (x : Double) : Bool :=
  x.magnitude < infinity

namespace Datum

mutual

/-- The floating point numbers in a datum. -/
def floats : Datum → List Double
  | .float x => [x]
  | .list items | .vector items => itemsFloats items
  | .dotted items tail => itemsFloats items ++ floats tail
  | .function literal => literalFloats literal
  | .nil | .int _ | .string _ | .symbol _ => []

/-- The floats in the items of a list. -/
def itemsFloats : List Datum → List Double
  | [] => []
  | item :: items => floats item ++ itemsFloats items

/-- The floats in a datum that may be missing. -/
def optionFloats : Option Datum → List Double
  | none => []
  | some datum => floats datum

/-- The floats in the literal of a function. -/
def literalFloats : Literal Datum → List Double
  | ⟨parameters, _, constants, _, _, interactive⟩ =>
    floats parameters ++ (itemsFloats constants ++ optionFloats interactive)

end

mutual

/-- The datum with every floating point number replaced by what its written form is read as. -/
def reread? : Datum → Option Datum
  | .float x => (Json.ofDouble x).double?.map .float
  | .list items => (rereadItems? items).map .list
  | .dotted items tail => do return .dotted (← rereadItems? items) (← reread? tail)
  | .vector items => (rereadItems? items).map .vector
  | .function literal => (rereadLiteral? literal).map .function
  | .nil => some .nil
  | .int n => some (.int n)
  | .string bytes => some (.string bytes)
  | .symbol name => some (.symbol name)

/-- What becomes of the items of a list. -/
def rereadItems? : List Datum → Option (List Datum)
  | [] => some []
  | item :: items => do return (← reread? item) :: (← rereadItems? items)

/-- What becomes of a datum that may be missing. -/
def rereadOption? : Option Datum → Option (Option Datum)
  | none => some none
  | some datum => (reread? datum).map some

/-- What becomes of the literal of a function. -/
def rereadLiteral? : Literal Datum → Option (Literal Datum)
  | ⟨parameters, code, constants, maxDepth, documentation, interactive⟩ => do
    return ⟨← reread? parameters, code, ← rereadItems? constants, maxDepth, documentation,
      ← rereadOption? interactive⟩

end

end Datum

/-! ## Readers with levels -/

/-- The reader gives the result with that many levels or more, and nothing with fewer. -/
def NeedsLevels {α : Type} (depth : Nat) (read : Nat → Option α) (result : Option α) : Prop :=
  ∀ levels, read levels = if depth ≤ levels then result else none

/-- A reader that uses up one level before it reads on. -/
def deeper {α : Type} (read : Nat → Option α) : Nat → Option α
  | 0 => none
  | levels + 1 => read levels

namespace NeedsLevels

variable {α β : Type} {depth inner : Nat} {read : Nat → Option α} {result : Option α}

/-- What does not go down needs no level. -/
theorem const (result : Option α) : NeedsLevels 0 (fun _ => result) result :=
  fun _ => (if_pos (Nat.zero_le _)).symm

/-- What is one level down needs one level more. -/
theorem deeper (needs : NeedsLevels depth read result) :
    NeedsLevels (depth + 1) (deeper read) result := by
  rintro (_ | levels)
  · rfl
  · rw [ByteLisp.deeper, needs levels]
    simp

/-- Of two readers in a row, the one that needs more levels decides. -/
theorem bind (needs : NeedsLevels depth read result) {next : α → Nat → Option β}
    {continued : α → Option β} (needsNext : ∀ value, NeedsLevels inner (next value) (continued value)) :
    NeedsLevels (max depth inner) (fun levels => (read levels).bind fun value => next value levels)
      (result.bind continued) := by
  intro levels
  dsimp only
  rw [needs levels]
  by_cases room : depth ≤ levels
  · rw [if_pos room]
    cases result with
    | none => simp
    | some value =>
        rw [Option.bind_some, needsNext value levels]
        simp [room]
  · rw [if_neg room, if_neg fun both => room ((Nat.le_max_left _ _).trans both)]
    rfl

/-- Using what was read needs no further level. -/
theorem andThen (needs : NeedsLevels depth read result) (f : α → β) :
    NeedsLevels depth (fun levels => (read levels).bind fun value => some (f value))
      (result.bind fun value => some (f value)) := by
  have both := needs.bind fun value => const (some (f value))
  rwa [Nat.max_zero] at both

/-- Changing what was read needs no further level. -/
theorem map (needs : NeedsLevels depth read result) (f : α → β) :
    NeedsLevels depth (fun levels => (read levels).map f) (result.map f) := by
  intro levels
  dsimp only
  rw [needs levels]
  split <;> rfl

end NeedsLevels

namespace Documentation

/-- A documentation text is read one level down. -/
theorem ofJson?_text (content : Json) :
    (fun levels => ofJson? levels (.ofChoice "Text" content)) =
      deeper fun _ => content.text?.map text := by
  funext levels
  rcases levels with _ | levels <;> rfl

/-- An external documentation is read two levels down, with its file and its offset. -/
theorem ofJson?_external (file offset : Json) :
    (fun levels => ofJson? levels
        (.ofChoice "External" (.ofMembers [("file", file), ("offset", offset)]))) =
      deeper (deeper fun _ => file.text?.bind fun file =>
        offset.int64?.bind fun offset => some (external file offset)) := by
  funext levels
  rcases levels with _ | _ | levels <;> rfl

/-- Documentation is read back within the levels that it is written in. -/
theorem needsLevels_ofJson? (content : Documentation) :
    NeedsLevels content.toJson.depth (fun levels => ofJson? levels content.toJson)
      (some content) := by
  cases content with
  | text content =>
      rw [toJson, ofJson?_text]
      exact (NeedsLevels.const _).deeper
  | external file offset =>
      rw [toJson, ofJson?_external, Json.int64?_ofInt]
      exact (NeedsLevels.const _).deeper.deeper

end Documentation

namespace Datum

/-- An integer is read one level down. -/
theorem ofJson?_int (content : Json) :
    (fun levels => ofJson? levels (.ofChoice "Int" content)) =
      deeper fun _ => content.int64?.map .int := by
  funext levels
  rcases levels with _ | levels <;> rfl

/-- A float is read one level down. -/
theorem ofJson?_float (content : Json) :
    (fun levels => ofJson? levels (.ofChoice "Float" content)) =
      deeper fun _ => content.double?.map .float := by
  funext levels
  rcases levels with _ | levels <;> rfl

/-- A symbol is read one level down. -/
theorem ofJson?_symbol (content : Json) :
    (fun levels => ofJson? levels (.ofChoice "Symbol" content)) =
      deeper fun _ => content.text?.map .symbol := by
  funext levels
  rcases levels with _ | levels <;> rfl

/-- The bytes of a string are read two levels down. -/
theorem ofJson?_string (items : List Json) :
    (fun levels => ofJson? levels (.ofChoice "Str" (.array items))) =
      deeper (deeper fun _ => (Json.array items).bytes?.map .string) := by
  funext levels
  rcases levels with _ | _ | levels <;> rfl

/-- The items of a list are read two levels down. -/
theorem ofJson?_list (items : List Json) :
    (fun levels => ofJson? levels (.ofChoice "List" (.array items))) =
      deeper (deeper fun levels => (items.mapM (ofJson? levels)).map .list) := by
  funext levels
  rcases levels with _ | _ | levels <;> rfl

/-- The items of a vector are read two levels down. -/
theorem ofJson?_vector (items : List Json) :
    (fun levels => ofJson? levels (.ofChoice "Vector" (.array items))) =
      deeper (deeper fun levels => (items.mapM (ofJson? levels)).map .vector) := by
  funext levels
  rcases levels with _ | _ | levels <;> rfl

/-- The end of a dotted list is read two levels down, and its items three. -/
theorem ofJson?_dotted (items : List Json) (tail : Json) :
    (fun levels => ofJson? levels (.ofChoice "Dotted" (.array [.array items, tail]))) =
      deeper (deeper fun levels =>
        (deeper (fun levels => items.mapM (ofJson? levels)) levels).bind fun items =>
          (ofJson? levels tail).bind fun tail => some (.dotted items tail)) := by
  funext levels
  rcases levels with _ | _ | _ | levels <;> rfl

/-- The fields of a record, where `levels` is the number of levels inside it. -/
def recordOfJson? (value : Json) : Nat → Option (Literal Datum)
  | 0 => none
  | levels + 1 => Literal.ofJson? (levels + 1) (ofJson? (levels + 1)) (ofJson? levels) value

/-- A function is read as its record, one level down. -/
theorem ofJson?_function (members : List (Option String × Json)) :
    (fun levels => ofJson? levels (.ofChoice "Function" (.object members))) =
      deeper fun levels => (deeper (recordOfJson? (.object members)) levels).map .function := by
  funext levels
  rcases levels with _ | _ | _ | levels <;> rfl

end Datum

namespace Literal

/-- The brackets that are open at once inside the record of a function. -/
def innerDepth (literal : Literal Json) : Nat :=
  max literal.parameters.depth (max (Json.itemsDepth literal.constants + 1)
    (max ((literal.documentation.map Documentation.toJson).elim 0 Json.depth)
      (literal.interactive.elim 0 Json.depth)))

/-- The record of a literal is one level above what is in it. -/
theorem depth_toJson (literal : Literal Json) : literal.toJson.depth = literal.innerDepth + 1 := by
  obtain ⟨parameters, code, constants, maxDepth, documentation, interactive⟩ := literal
  cases documentation <;> cases interactive <;>
    simp [toJson, Json.ofMembers, Json.depth, Json.membersDepth, innerDepth]

/-- The fields of the record of a function. -/
theorem fields?_toJson (literal : Literal Json) :
    literal.toJson.fields? ["arglist", "code", "constants", "max_depth", "doc", "interactive"] =
      some [some literal.parameters, some (.ofByteList literal.code.toList),
        some (.array literal.constants), some (.ofNat literal.maxDepth.toNat),
        literal.documentation.map Documentation.toJson, literal.interactive] := by
  obtain ⟨parameters, code, constants, maxDepth, documentation, interactive⟩ := literal
  cases documentation <;> cases interactive <;>
    simp [toJson, Json.ofMembers, Json.fields?, Json.isSpelled, Json.member?]

/-- The record of a literal is read field by field. -/
theorem ofJson?_toJson {α : Type} (levels : Nat) (read readItem : Json → Option α)
    (literal : Literal Json) :
    ofJson? levels read readItem literal.toJson =
      (read literal.parameters).bind fun parameters =>
      (literal.constants.mapM readItem).bind fun constants =>
      (Json.optional? (Documentation.ofJson? levels)
        (literal.documentation.map Documentation.toJson)).bind fun documentation =>
      (Json.optional? read literal.interactive).bind fun interactive =>
      some ⟨parameters, literal.code, constants, literal.maxDepth, documentation, interactive⟩ := by
  rw [ofJson?, fields?_toJson]
  simp only [Json.bytes?_ofByteList, Json.long?_ofNat, Json.listOf?, Option.bind_eq_bind,
    Option.bind_some]
  rfl

end Literal

/-- A field that is there, and not null, is read. -/
theorem Json.optional?_some {α : Type} (read : Json → Option α) {value : Json}
    (present : value ≠ .null) : optional? read (some value) = (read value).map some := by
  cases value <;> first | rfl | exact absurd rfl present

/-- A documentation that may be missing is read back. -/
theorem Documentation.needsLevels_optional? (content : Option Documentation) :
    NeedsLevels ((content.map toJson).elim 0 Json.depth)
      (fun levels => Json.optional? (ofJson? levels) (content.map toJson)) (some content) := by
  cases content with
  | none => exact .const _
  | some content =>
      have present : content.toJson ≠ .null := by
        cases content <;> simp [toJson, Json.ofChoice, Json.ofMembers]
      have read : (fun levels => Json.optional? (ofJson? levels) ((some content).map toJson)) =
          fun levels => (ofJson? levels content.toJson).map some := by
        funext levels
        exact Json.optional?_some _ present
      rw [read]
      exact (needsLevels_ofJson? content).map some

namespace Datum

/-- The record of a function, part by part. -/
theorem recordOfJson?_toJson (literal : Literal Json) :
    recordOfJson? literal.toJson = fun levels =>
      (ofJson? levels literal.parameters).bind fun parameters =>
      (deeper (fun levels => literal.constants.mapM (ofJson? levels)) levels).bind fun constants =>
      (Json.optional? (Documentation.ofJson? levels)
        (literal.documentation.map Documentation.toJson)).bind fun documentation =>
      (Json.optional? (ofJson? levels) literal.interactive).bind fun interactive =>
      some ⟨parameters, literal.code, constants, literal.maxDepth, documentation, interactive⟩ := by
  funext levels
  rcases levels with _ | levels
  · cases ofJson? 0 literal.parameters <;> rfl
  · exact Literal.ofJson?_toJson _ _ _ literal

/-- A literal is written as an object. -/
theorem exists_literalToJson (literal : Literal Datum) :
    ∃ members, literalToJson literal = .object members := by
  obtain ⟨parameters, code, constants, maxDepth, documentation, interactive⟩ := literal
  exact ⟨_, by rw [literalToJson]; rfl⟩

/-- No datum is written as null. -/
theorem toJson_ne_null (datum : Datum) : datum.toJson ≠ .null := by
  cases datum <;> simp [toJson, Json.ofText, Json.ofChoice, Json.ofMembers]

mutual

/-- The JSON value of a datum is read as its rereading says, when there are as many levels as
the value has brackets open at once. -/
theorem rereads : (datum : Datum) →
    NeedsLevels datum.toJson.depth (fun levels => ofJson? levels datum.toJson) datum.reread?
  | .nil => by
    rintro (_ | levels) <;> rfl
  | .int n => by
    rw [toJson, ofJson?_int, Json.int64?_ofInt]
    exact (NeedsLevels.const _).deeper
  | .float x => by
    rw [toJson, ofJson?_float, Json.depth_ofChoice, Json.depth_ofDouble]
    exact (NeedsLevels.const _).deeper
  | .string bytes => by
    rw [toJson, Json.depth_ofChoice, Json.depth_ofByteList, Json.ofByteList, ofJson?_string,
      ← Json.ofByteList, Json.bytes?_ofByteList]
    exact (NeedsLevels.const _).deeper.deeper
  | .symbol name => by
    rw [toJson, ofJson?_symbol]
    exact (NeedsLevels.const _).deeper
  | .list items => by
    rw [toJson, ofJson?_list]
    exact ((rereads_items items).map _).deeper.deeper
  | .dotted items tail => by
    have depth : (Json.array [.array (itemsToJson items), tail.toJson]).depth =
        max (Json.itemsDepth (itemsToJson items) + 1) tail.toJson.depth + 1 := by
      simp [Json.depth, Json.itemsDepth]
    rw [toJson, ofJson?_dotted, Json.depth_ofChoice, depth, reread?]
    exact ((rereads_items items).deeper.bind fun items => (rereads tail).andThen _).deeper.deeper
  | .vector items => by
    rw [toJson, ofJson?_vector]
    exact ((rereads_items items).map _).deeper.deeper
  | .function literal => by
    obtain ⟨members, record⟩ := exists_literalToJson literal
    have inner := rereads_literal literal
    rw [toJson, Json.depth_ofChoice, reread?]
    rw [record] at inner ⊢
    rw [ofJson?_function]
    exact (inner.map _).deeper

/-- The items of a list are read one after the other, within the levels of the deepest of them. -/
theorem rereads_items : (items : List Datum) →
    NeedsLevels (Json.itemsDepth (itemsToJson items))
      (fun levels => (itemsToJson items).mapM (ofJson? levels)) (rereadItems? items)
  | [] => .const _
  | item :: items => by
    rw [itemsToJson]
    simp only [List.mapM_cons]
    exact (rereads item).bind fun value => (rereads_items items).andThen _

/-- A datum that may be missing is read within its own levels, or without any. -/
theorem rereads_option : (datum : Option Datum) →
    NeedsLevels ((optionToJson datum).elim 0 Json.depth)
      (fun levels => Json.optional? (ofJson? levels) (optionToJson datum)) (rereadOption? datum)
  | none => .const _
  | some datum => by
    have read : (fun levels => Json.optional? (ofJson? levels) (optionToJson (some datum))) =
        fun levels => (ofJson? levels datum.toJson).map some := by
      funext levels
      exact Json.optional?_some _ datum.toJson_ne_null
    rw [read]
    exact (rereads datum).map some

/-- The literal of a function is read within the levels of its record. -/
theorem rereads_literal : (literal : Literal Datum) →
    NeedsLevels (literalToJson literal).depth (deeper (recordOfJson? (literalToJson literal)))
      (rereadLiteral? literal)
  | ⟨parameters, code, constants, maxDepth, documentation, interactive⟩ => by
    rw [literalToJson, Literal.depth_toJson, recordOfJson?_toJson, rereadLiteral?]
    exact ((rereads parameters).bind fun _ => (rereads_items constants).deeper.bind fun _ =>
      (Documentation.needsLevels_optional? documentation).bind fun _ =>
        (rereads_option interactive).andThen _).deeper

end

end Datum

/-- The JSON value of a function is read as its rereading says. -/
theorem FunctionLiteral.ofJson?_toJson (levels : Nat) (literal : FunctionLiteral) :
    ofJson? levels literal.toJson =
      if literal.toJson.depth ≤ levels then Datum.rereadLiteral? literal else none := by
  have read : ofJson? levels literal.toJson =
      deeper (Datum.recordOfJson? (Datum.literalToJson literal)) levels := by
    rcases levels with _ | _ | levels <;> rfl
  rw [read]
  exact Datum.rereads_literal literal levels

/-! ## Floating point numbers -/

/-- What is written for a number can be read exactly when the number is finite. -/
theorem Json.isSome_double?_ofDouble (x : Double) : (ofDouble x).double?.isSome = x.isFinite := by
  unfold ofDouble
  split
  · rename_i special
    have large : ¬x.magnitude < Double.infinity := by
      simp only [Double.isNaN, Double.isInfinite, Bool.or_eq_true, decide_eq_true_eq] at special
      rcases special with beyond | same
      · exact UInt64.lt_asymm beyond
      · rw [same]
        exact UInt64.lt_irrefl _
    exact (decide_eq_false large).symm
  · rename_i ordinary
    have finite : x.magnitude < Double.infinity := by
      simp only [Double.isNaN, Double.isInfinite, Bool.or_eq_true, decide_eq_true_eq, not_or]
        at ordinary
      exact UInt64.lt_of_le_of_ne (UInt64.not_lt.mp ordinary.1) ordinary.2
    rw [Double.isFinite, decide_eq_true finite]
    exact Numeral.isSome_double?_ofDouble finite

namespace Datum

mutual

/-- A datum can be reread exactly when all its floating point numbers are finite. -/
theorem isSome_reread? : (datum : Datum) →
    datum.reread?.isSome = datum.floats.all Double.isFinite
  | .nil | .int _ | .string _ | .symbol _ => by simp [reread?, floats]
  | .float x => by simp [reread?, floats, Json.isSome_double?_ofDouble]
  | .list items => by simp [reread?, floats, isSome_rereadItems? items]
  | .vector items => by simp [reread?, floats, isSome_rereadItems? items]
  | .dotted items tail => by
    rw [floats, List.all_append, ← isSome_rereadItems? items, ← isSome_reread? tail, reread?]
    cases rereadItems? items <;> cases reread? tail <;> rfl
  | .function literal => by simp [reread?, floats, isSome_rereadLiteral? literal]

/-- Items can be reread exactly when all floats in them are finite. -/
theorem isSome_rereadItems? : (items : List Datum) →
    (rereadItems? items).isSome = (itemsFloats items).all Double.isFinite
  | [] => rfl
  | item :: items => by
    rw [itemsFloats, List.all_append, ← isSome_reread? item, ← isSome_rereadItems? items,
      rereadItems?]
    cases reread? item <;> cases rereadItems? items <;> rfl

/-- So can a datum that may be missing. -/
theorem isSome_rereadOption? : (datum : Option Datum) →
    (rereadOption? datum).isSome = (optionFloats datum).all Double.isFinite
  | none => rfl
  | some datum => by simp [rereadOption?, optionFloats, isSome_reread? datum]

/-- So can the literal of a function. -/
theorem isSome_rereadLiteral? : (literal : Literal Datum) →
    (rereadLiteral? literal).isSome = (literalFloats literal).all Double.isFinite
  | ⟨parameters, code, constants, maxDepth, documentation, interactive⟩ => by
    rw [literalFloats, List.all_append, List.all_append, ← isSome_reread? parameters,
      ← isSome_rereadItems? constants, ← isSome_rereadOption? interactive, rereadLiteral?]
    cases reread? parameters <;> cases rereadItems? constants <;>
      cases rereadOption? interactive <;> rfl

end

mutual

/-- A datum without floating point numbers comes back as it was. -/
theorem reread?_eq_some : (datum : Datum) → datum.floats = [] → datum.reread? = some datum
  | .nil, _ | .int _, _ | .string _, _ | .symbol _, _ => by simp [reread?]
  | .float x, noFloat => by simp [floats] at noFloat
  | .list items, noFloat => by
    rw [floats] at noFloat
    simp [reread?, rereadItems?_eq_some items noFloat]
  | .vector items, noFloat => by
    rw [floats] at noFloat
    simp [reread?, rereadItems?_eq_some items noFloat]
  | .dotted items tail, noFloat => by
    rw [floats, List.append_eq_nil_iff] at noFloat
    simp [reread?, rereadItems?_eq_some items noFloat.1, reread?_eq_some tail noFloat.2]
  | .function literal, noFloat => by
    rw [floats] at noFloat
    simp [reread?, rereadLiteral?_eq_some literal noFloat]

/-- Items without floats are reread as they are. -/
theorem rereadItems?_eq_some : (items : List Datum) → itemsFloats items = [] →
    rereadItems? items = some items
  | [], _ => rfl
  | item :: items, noFloat => by
    rw [itemsFloats, List.append_eq_nil_iff] at noFloat
    simp [rereadItems?, reread?_eq_some item noFloat.1, rereadItems?_eq_some items noFloat.2]

/-- So is a datum that may be missing. -/
theorem rereadOption?_eq_some : (datum : Option Datum) → optionFloats datum = [] →
    rereadOption? datum = some datum
  | none, _ => rfl
  | some datum, noFloat => by
    rw [optionFloats] at noFloat
    simp [rereadOption?, reread?_eq_some datum noFloat]

/-- So is the literal of a function. -/
theorem rereadLiteral?_eq_some : (literal : Literal Datum) → literalFloats literal = [] →
    rereadLiteral? literal = some literal
  | ⟨parameters, code, constants, maxDepth, documentation, interactive⟩, noFloat => by
    rw [literalFloats, List.append_eq_nil_iff, List.append_eq_nil_iff] at noFloat
    simp [rereadLiteral?, reread?_eq_some parameters noFloat.1,
      rereadItems?_eq_some constants noFloat.2.1, rereadOption?_eq_some interactive noFloat.2.2]

end

end Datum

/-! ## Text -/

namespace Json

/-- An integer can be written. -/
theorem writable_ofInt (n : Int) : (ofInt n).Writable :=
  .number (Numeral.canonical_ofInt n)

/-- A float can be written: as a numeral if it is finite, and else as null. -/
theorem writable_ofDouble (x : Double) : (ofDouble x).Writable := by
  unfold ofDouble
  split
  · exact .null
  · exact .number (Numeral.canonical_ofDouble x)

/-- Bytes can be written. -/
theorem writable_ofByteList (bytes : List UInt8) : (ofByteList bytes).Writable := by
  refine .array fun item member => ?_
  obtain ⟨byte, _, rfl⟩ := List.mem_map.mp member
  exact writable_ofInt _

/-- An object can be written when the values of its members can. -/
theorem writable_ofMembers {members : List (String × Json)}
    (writable : ∀ member ∈ members, member.2.Writable) : (ofMembers members).Writable := by
  refine .object (fun other present => ?_) fun other present => ?_
  · obtain ⟨member, _, rfl⟩ := List.mem_map.mp present
    rfl
  · obtain ⟨member, inside, rfl⟩ := List.mem_map.mp present
    exact writable member inside

/-- A choice can be written when its content can. -/
theorem writable_ofChoice (name : String) {content : Json} (writable : content.Writable) :
    (ofChoice name content).Writable := by
  refine writable_ofMembers fun member present => ?_
  rw [List.mem_singleton.mp present]
  exact writable

end Json

/-- Documentation can be written. -/
theorem Documentation.writable_toJson (content : Documentation) : content.toJson.Writable := by
  cases content with
  | text content => exact Json.writable_ofChoice _ (.string content)
  | external file offset =>
      refine Json.writable_ofChoice _ (Json.writable_ofMembers ?_)
      simp only [List.forall_mem_cons]
      exact ⟨.string file, Json.writable_ofInt _, nofun⟩

/-- The record of a literal can be written when its parts can. -/
theorem Literal.writable_toJson {literal : Literal Json} (parameters : literal.parameters.Writable)
    (constants : ∀ item ∈ literal.constants, item.Writable)
    (interactive : ∀ form ∈ literal.interactive, form.Writable) : literal.toJson.Writable := by
  refine Json.writable_ofMembers fun member present => ?_
  simp only [List.mem_append, List.mem_cons, List.not_mem_nil, or_false, Option.mem_toList,
    Option.map_eq_some_iff] at present
  rcases present with ((rfl | rfl | rfl | rfl) | ⟨content, _, rfl⟩) | ⟨form, present, rfl⟩
  · exact parameters
  · exact Json.writable_ofByteList _
  · exact .array constants
  · exact Json.writable_ofInt _
  · exact content.writable_toJson
  · exact interactive form present

namespace Datum

mutual

/-- All of a datum is in its JSON text. -/
theorem writable_toJson : (datum : Datum) → datum.toJson.Writable
  | .nil => .string _
  | .int n => Json.writable_ofChoice _ (Json.writable_ofInt _)
  | .float x => Json.writable_ofChoice _ (Json.writable_ofDouble x)
  | .string bytes => Json.writable_ofChoice _ (Json.writable_ofByteList _)
  | .symbol name => Json.writable_ofChoice _ (.string name)
  | .list items => Json.writable_ofChoice _ (.array (writable_itemsToJson items))
  | .dotted items tail => by
    refine Json.writable_ofChoice _ (.array ?_)
    simp only [List.forall_mem_cons]
    exact ⟨.array (writable_itemsToJson items), writable_toJson tail, nofun⟩
  | .vector items => Json.writable_ofChoice _ (.array (writable_itemsToJson items))
  | .function literal => Json.writable_ofChoice _ (writable_literalToJson literal)

/-- So is all of the items of a list. -/
theorem writable_itemsToJson : (items : List Datum) → ∀ item ∈ itemsToJson items, item.Writable
  | [] => nofun
  | item :: items => by
    rw [itemsToJson, List.forall_mem_cons]
    exact ⟨writable_toJson item, writable_itemsToJson items⟩

/-- So is all of a datum that may be missing. -/
theorem writable_optionToJson : (datum : Option Datum) → ∀ form ∈ optionToJson datum, form.Writable
  | none => nofun
  | some datum => by
    rintro _ ⟨⟩
    exact writable_toJson datum

/-- So is all of the literal of a function. -/
theorem writable_literalToJson : (literal : Literal Datum) → (literalToJson literal).Writable
  | ⟨parameters, _, constants, _, _, interactive⟩ =>
    Literal.writable_toJson (writable_toJson parameters) (writable_itemsToJson constants)
      (writable_optionToJson interactive)

end

end Datum

/-- The text of a function can be read exactly when it is not nested too deeply and the function
has only finite numbers. -/
theorem FunctionLiteral.parse?_jsonText (literal : FunctionLiteral) :
    parse? (Bytes.ofText literal.jsonText) =
      if literal.toJson.depth ≤ Json.maxLevels then Datum.rereadLiteral? literal else none := by
  have writable : literal.toJson.Writable := Datum.writable_literalToJson literal
  rw [parse?, jsonText, Json.parse?_render writable]
  exact FunctionLiteral.ofJson?_toJson Json.maxLevels literal

end ByteLisp
