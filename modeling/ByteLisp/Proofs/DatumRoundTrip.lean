import ByteLisp.Proofs.Nesting
import ByteLisp.Proofs.WrittenParameters
import Mathlib.Data.List.Forall2

/-!
# Writing values down and reading them back

A value is written down as a tree and read back as new objects. `Heap.Mirrors` says that
two values have the same form, each in its own heap: the same atoms in the same places, all
the way down. `Heap.datum_round_trip` says that every value that can be saved is written
down, and that what is read back has its form.
-/

namespace ByteLisp

namespace Heap

/-- The value on the right has, in `target`, the form that the one on the left has in
`source`, and its objects are in use. The symbol `nil` may only be `nil`. -/
inductive Mirrors (source target : Heap) : Value → Value → Prop where
  | nil : Mirrors source target .nil .nil
  | nilSymbol {symbol : Symbol} (isNil : symbol.isNil = true) :
      Mirrors source target (.symbol symbol) .nil
  | symbol {symbol : Symbol} (notNil : symbol.isNil = false) :
      Mirrors source target (.symbol symbol) (.symbol symbol)
  | int (n : Int64) : Mirrors source target (.int n) (.int n)
  | float (x : Double) : Mirrors source target (.float x) (.float x)
  | string {address copy : Address} (inUse : copy < target.strings.size)
      (bytes : target.string copy = source.string address) :
      Mirrors source target (.string address) (.string copy)
  | cons {cell copy : Address} (inUse : copy < target.pairs.size)
      (car : Mirrors source target (source.pair cell).car (target.pair copy).car)
      (cdr : Mirrors source target (source.pair cell).cdr (target.pair copy).cdr) :
      Mirrors source target (.cons cell) (.cons copy)
  | vector {address copy : Address} (inUse : copy < target.vectors.size)
      (size : (target.vector copy).size = (source.vector address).size)
      (elements : ∀ (place : Nat) (item made : Value), (source.vector address)[place]? = some item →
        (target.vector copy)[place]? = some made → Mirrors source target item made) :
      Mirrors source target (.vector address) (.vector copy)
  | function {address copy : Address} (inUse : copy < target.functions.size)
      (parameters : (target.function copy).parameters = (source.function address).parameters)
      (code : (target.function copy).code = (source.function address).code)
      (maxDepth : (target.function copy).maxDepth = (source.function address).maxDepth)
      (documentation :
        (target.function copy).documentation = (source.function address).documentation)
      (size : (target.function copy).constants.size = (source.function address).constants.size)
      (constants : ∀ (place : Nat) (item made : Value),
        (source.function address).constants[place]? = some item →
        (target.function copy).constants[place]? = some made → Mirrors source target item made)
      (isSome : (target.function copy).interactive.isSome =
        (source.function address).interactive.isSome)
      (interactive : ∀ item made, (source.function address).interactive = some item →
        (target.function copy).interactive = some made → Mirrors source target item made) :
      Mirrors source target (.function address) (.function copy)

variable {source target later : Heap}

/-- Objects in use keep their form when more are made. -/
theorem Mirrors.mono {value copy : Value} (mirrors : source.Mirrors target value copy)
    (kept : target.Extends later) : source.Mirrors later value copy := by
  induction mirrors with
  | nil => exact .nil
  | nilSymbol isNil => exact .nilSymbol isNil
  | symbol notNil => exact .symbol notNil
  | int n => exact .int n
  | float x => exact .float x
  | @string address copy inUse bytes =>
      have same : later.string copy = target.string copy := kept.strings.read copy inUse
      refine .string (Nat.lt_of_lt_of_le inUse kept.strings.size_le) ?_
      rw [same, bytes]
  | @cons cell copy inUse _ _ car cdr =>
      have same : later.pair copy = target.pair copy := kept.pairs.read copy inUse
      refine .cons (Nat.lt_of_lt_of_le inUse kept.pairs.size_le) ?_ ?_
      · rwa [same]
      · rwa [same]
  | @vector address copy inUse size _ elements =>
      have same : later.vector copy = target.vector copy := kept.vectors.read copy inUse
      refine .vector (Nat.lt_of_lt_of_le inUse kept.vectors.size_le) ?_ ?_
      · rw [same, size]
      · rwa [same]
  | @function address copy inUse parameters code maxDepth documentation size _ isSome _ constants
      interactive =>
      have same : later.function copy = target.function copy := kept.functions.read copy inUse
      refine .function (Nat.lt_of_lt_of_le inUse kept.functions.size_le) ?_ ?_ ?_ ?_ ?_ ?_ ?_ ?_ <;>
        rwa [same]

/-! ## Making objects -/

/-- A symbol is read back as itself, or as `nil` when that is its name. -/
theorem mirrors_ofSymbol (symbol : Symbol) :
    source.Mirrors target (.symbol symbol) (.ofSymbol symbol) := by
  unfold Value.ofSymbol
  split
  · rename_i isNil
    exact .nilSymbol isNil
  · rename_i notNil
    exact .symbol (Bool.eq_false_iff.mpr notNil)

/-- Both forms of `nil` are read back as `nil`. -/
theorem mirrors_nil {value : Value} (isNil : value.isNil = true) :
    source.Mirrors target value .nil := by
  cases value with
  | nil => exact .nil
  | symbol name => exact .nilSymbol isNil
  | _ => cases isNil

/-- A list that is made of copies, of the elements and of the tail, is a copy of the list. -/
theorem mirrors_listWithTail {value tail last : Value} {items copies : List Value}
    (chain : source.Chain value items tail)
    (elements : List.Forall₂ (source.Mirrors target) items copies)
    (ends : source.Mirrors target tail last) :
    source.Mirrors (target.listWithTail copies last).2 value
      (target.listWithTail copies last).1 := by
  induction chain generalizing copies with
  | done =>
      cases elements
      exact ends
  | link cell rest ih =>
      cases elements with
      | @cons _ copy _ copies first others =>
          have inner := ih others ends
          have grown := target.extends_listWithTail copies last
          rw [listWithTail_cons]
          generalize target.listWithTail copies last = made at inner grown ⊢
          obtain ⟨rest, heap⟩ := made
          have more := heap.extends_cons copy rest
          have holds : (heap.cons copy rest).2.pair heap.pairs.size = ⟨copy, rest⟩ :=
            pair_of_extends_cons (.refl _)
          refine .cons (by simp) ?_ ?_
          · rw [holds]
            exact first.mono (grown.trans more)
          · rw [holds]
            exact inner.mono more

/-- Elements in corresponding places of two lists. -/
theorem mirrors_getElem? {items copies : List Value}
    (elements : List.Forall₂ (source.Mirrors target) items copies) {place : Nat}
    {item made : Value} (original : items[place]? = some item)
    (copied : copies[place]? = some made) : source.Mirrors target item made := by
  obtain ⟨within, rfl⟩ := List.getElem?_eq_some_iff.mp original
  obtain ⟨inside, rfl⟩ := List.getElem?_eq_some_iff.mp copied
  exact elements.get within inside

/-- A new vector with copies of the elements mirrors the vector. -/
theorem mirrors_newVector {address : Address} {copies : List Value}
    (elements : List.Forall₂ (source.Mirrors target) (source.vector address).toList copies) :
    source.Mirrors (target.newVector copies.toArray).2 (.vector address)
      (target.newVector copies.toArray).1 := by
  have more := target.extends_newVector copies.toArray
  have holds : (target.newVector copies.toArray).2.vector target.vectors.size = copies.toArray := by
    rw [newVector, vector, Store.read_push, if_pos rfl]
  refine .vector (by simp [newVector]) ?_ ?_
  · rw [holds, List.size_toArray, ← elements.length_eq, Array.length_toList]
  · intro place item made original copied
    rw [holds, List.getElem?_toArray] at copied
    rw [← Array.getElem?_toList] at original
    exact (mirrors_getElem? elements original copied).mono more

/-- The function has the form of the one at `address`, with copies for its constants and
its interactive form. -/
structure FunctionMirrors (source target : Heap) (original copy : Function) : Prop where
  parameters : copy.parameters = original.parameters
  code : copy.code = original.code
  maxDepth : copy.maxDepth = original.maxDepth
  documentation : copy.documentation = original.documentation
  constants : List.Forall₂ (source.Mirrors target) original.constants.toList copy.constants.toList
  interactive : Option.Rel (source.Mirrors target) original.interactive copy.interactive

/-- A part that may be missing is there exactly when its copy is. -/
theorem isSome_of_rel {original copy : Option Value}
    (both : Option.Rel (source.Mirrors target) original copy) : copy.isSome = original.isSome := by
  cases both <;> rfl

/-- A new function with copies of the parts mirrors the function. -/
theorem mirrors_newFunction {address : Address} {copy : Function}
    (mirrors : source.FunctionMirrors target (source.function address) copy) :
    source.Mirrors (target.newFunction copy).2 (.function address) (target.newFunction copy).1 := by
  have more := target.extends_newFunction copy
  have holds : (target.newFunction copy).2.function target.functions.size = copy := by
    rw [newFunction, function, Store.read_push, if_pos rfl]
  refine .function (by simp [newFunction]) ?_ ?_ ?_ ?_ ?_ ?_ ?_ ?_ <;> rw [holds]
  · exact mirrors.parameters
  · exact mirrors.code
  · exact mirrors.maxDepth
  · exact mirrors.documentation
  · rw [← Array.length_toList, ← mirrors.constants.length_eq, Array.length_toList]
  · intro place item made original copied
    rw [← Array.getElem?_toList] at original copied
    exact (mirrors_getElem? mirrors.constants original copied).mono more
  · exact isSome_of_rel mirrors.interactive
  · intro item made original copied
    have both := mirrors.interactive
    rw [original, copied] at both
    cases both with
    | some same => exact same.mono more

/-! ## Reading back -/

/-- Wherever the datum is read, it gives a copy of the value. -/
def Copies (source : Heap) (value : Value) (datum : Datum) : Prop :=
  ∀ target, ∃ copy after, datum.toValue target = (.ok copy, after) ∧ target.Extends after ∧
    source.Mirrors after value copy

/-- Copies of several values can be made one after the other. -/
theorem copies_items {items : List Value} {data : List Datum}
    (written : List.Forall₂ source.Copies items data) (target : Heap) :
    ∃ copies after, Datum.itemsToValues data target = (.ok copies, after) ∧
      target.Extends after ∧ List.Forall₂ (source.Mirrors after) items copies := by
  induction written generalizing target with
  | nil =>
      refine ⟨[], target, ?_, .refl target, .nil⟩
      rw [Datum.itemsToValues]
      rfl
  | cons first _ ih =>
      obtain ⟨copy, middle, made, grown, mirrors⟩ := first target
      obtain ⟨copies, after, others, further, rest⟩ := ih middle
      refine ⟨copy :: copies, after, ?_, grown.trans further, .cons (mirrors.mono further) rest⟩
      rw [Datum.itemsToValues, run_bind, made]
      dsimp only
      rw [run_bind, others]
      rfl

/-- A value that is complete in itself. -/
theorem copies_of_pure {value copy : Value} {datum : Datum} (made : datum.toValue = pure copy)
    (mirrors : ∀ target, source.Mirrors target value copy) : source.Copies value datum := by
  intro target
  refine ⟨copy, target, ?_, .refl target, mirrors target⟩
  rw [made]
  rfl

/-- A string is copied by its bytes. -/
theorem copies_string (address : Address) :
    source.Copies (.string address) (.string (source.string address).toBytes) := by
  intro target
  refine ⟨.string target.strings.size, _, ?_, target.extends_newString (source.string address),
    .string ?_ ?_⟩
  · rw [Datum.toValue]
    rfl
  · simp [newString]
  · rw [newString, string, Store.read_push, if_pos rfl]

/-- A list that ends in `nil`. -/
theorem copies_list {value tail : Value} {items : List Value} {data : List Datum}
    (chain : source.Chain value items tail) (written : List.Forall₂ source.Copies items data)
    (ends : tail.isNil = true) : source.Copies value (.list data) := by
  intro target
  obtain ⟨copies, middle, made, grown, elements⟩ := copies_items written target
  refine ⟨_, _, ?_, grown.trans (middle.extends_listWithTail copies .nil),
    mirrors_listWithTail chain elements (mirrors_nil ends)⟩
  rw [Datum.toValue, run_bind, made]
  rfl

/-- A chain that does not end in `nil` is copied by its items and its end. -/
theorem copies_dotted {value tail : Value} {items : List Value} {data : List Datum}
    {last : Datum} (chain : source.Chain value items tail)
    (written : List.Forall₂ source.Copies items data) (ends : source.Copies tail last) :
    source.Copies value (.dotted data last) := by
  intro target
  obtain ⟨copies, first, made, grown, elements⟩ := copies_items written target
  obtain ⟨copy, second, madeTail, further, mirrors⟩ := ends first
  refine ⟨_, _, ?_, (grown.trans further).trans (second.extends_listWithTail copies copy),
    mirrors_listWithTail chain (elements.imp fun _ _ same => same.mono further) mirrors⟩
  rw [Datum.toValue, run_bind, made]
  dsimp only
  rw [run_bind, madeTail]
  rfl

/-- A vector is copied by its elements. -/
theorem copies_vector {address : Address} {data : List Datum}
    (written : List.Forall₂ source.Copies (source.vector address).toList data) :
    source.Copies (.vector address) (.vector data) := by
  intro target
  obtain ⟨copies, middle, made, grown, elements⟩ := copies_items written target
  refine ⟨_, _, ?_, grown.trans (middle.extends_newVector copies.toArray),
    mirrors_newVector elements⟩
  rw [Datum.toValue, run_bind, made]
  rfl

/-- A value that may be missing is copied when it is there. -/
theorem copies_option {item : Option Value} {datum : Option Datum}
    (written : Option.Rel source.Copies item datum) (target : Heap) :
    ∃ copy after, Datum.optionToValue datum target = (.ok copy, after) ∧
      target.Extends after ∧ Option.Rel (source.Mirrors after) item copy := by
  cases written with
  | none =>
      refine ⟨none, target, ?_, .refl target, .none⟩
      rw [Datum.optionToValue]
      rfl
  | some copies =>
      obtain ⟨copy, after, made, grown, mirrors⟩ := copies target
      refine ⟨some copy, after, ?_, grown, .some mirrors⟩
      rw [Datum.optionToValue, run_bind, made]
      rfl

/-- The literal has the fields of the function, written down. -/
structure FunctionCopies (source : Heap) (function : Function) (literal : FunctionLiteral) :
    Prop where
  parameters : literal.parameters = .ofParameters function.parameters
  code : literal.code = function.code
  constants : List.Forall₂ source.Copies function.constants.toList literal.constants
  maxDepth : literal.maxDepth.toNat = function.maxDepth
  documentation : literal.documentation = function.documentation
  interactive : Option.Rel source.Copies function.interactive literal.interactive

/-- A function is copied by its literal, whose parameters read back as they were. -/
theorem FunctionCopies.literal {address : Address} {literal : FunctionLiteral}
    (copies : source.FunctionCopies (source.function address) literal)
    (written : (source.function address).parameters.Written) (target : Heap) :
    ∃ copy after, FunctionLiteral.toValue literal target = (.ok copy, after) ∧
      target.Extends after ∧ source.Mirrors after (.function address) copy := by
  obtain ⟨parameters, code, constants, maxDepth, documentation, interactive⟩ := literal
  obtain ⟨rfl, rfl, each, depth, rfl, form⟩ := copies
  obtain ⟨list, first, made, grown, reads⟩ := Datum.ofValue_of_ofParameters written target
  obtain ⟨values, second, madeValues, further, elements⟩ := copies_items each first
  obtain ⟨option, third, madeOption, last, isForm⟩ := copies_option form second
  have read := reads third (further.trans last)
  have mirrors : source.FunctionMirrors third (source.function address)
      ⟨(source.function address).parameters, (source.function address).code, values.toArray,
        maxDepth.toNat, (source.function address).documentation, option⟩ := by
    refine ⟨rfl, rfl, depth, rfl, ?_, isForm⟩
    exact elements.imp fun _ _ same => same.mono last
  refine ⟨_, _, ?_, ((grown.trans further).trans last).trans (third.extends_newFunction _),
    mirrors_newFunction mirrors⟩
  rw [FunctionLiteral.toValue, Datum.literalToValue, run_bind, made]
  dsimp only
  rw [run_bind, madeValues]
  dsimp only
  rw [run_bind, madeOption]
  dsimp only
  rw [Functions.make, run_bind, HeapM.look, read]
  rfl

/-! ## Writing down -/

/-- What is written down for each item, one after the other. -/
theorem exists_mapM {write : Value → Except Fault Datum} {property : Value → Datum → Prop}
    {items : List Value}
    (each : ∀ item ∈ items, ∃ datum, write item = .ok datum ∧ property item datum) :
    ∃ data, items.mapM write = .ok data ∧ List.Forall₂ property items data := by
  induction items with
  | nil => exact ⟨[], rfl, .nil⟩
  | cons item items ih =>
      obtain ⟨first, others⟩ := List.forall_mem_cons.mp each
      obtain ⟨datum, written, holds⟩ := first
      obtain ⟨data, rest, hold⟩ := ih others
      refine ⟨datum :: data, ?_, .cons holds hold⟩
      rw [List.mapM_cons, written, rest]
      rfl

/-- What is written down for a value that may be missing. -/
theorem exists_optionMapM {write : Value → Except Fault Datum} {property : Value → Datum → Prop}
    {item : Option Value}
    (each : ∀ value, item = some value → ∃ datum, write value = .ok datum ∧ property value datum) :
    ∃ datum, item.mapM write = .ok datum ∧ Option.Rel property item datum := by
  cases item with
  | none => exact ⟨none, rfl, .none⟩
  | some value =>
      obtain ⟨datum, written, holds⟩ := each value rfl
      have one : (some value).mapM write = some <$> write value := rfl
      refine ⟨some datum, ?_, .some holds⟩
      rw [one, written]
      rfl

/-- A function is written down field by field. -/
theorem exists_ofFunction (write : Value → Except Fault Datum) {address : Address}
    (depth : (source.function address).maxDepth < UInt32.size)
    (each : ∀ part, source.Part part (.function address) →
      ∃ datum, write part = .ok datum ∧ source.Copies part datum) :
    ∃ literal, FunctionLiteral.ofFunction write (source.function address) = .ok literal ∧
      source.FunctionCopies (source.function address) literal := by
  obtain ⟨constants, constantsWritten, copies⟩ :=
    exists_mapM fun item member => each item (.constant (Array.mem_def.mpr member))
  obtain ⟨interactive, interactiveWritten, copied⟩ :=
    exists_optionMapM fun item given => each item (.interactive given)
  let function := source.function address
  refine ⟨⟨.ofParameters function.parameters, function.code, constants,
    UInt32.ofNat function.maxDepth, function.documentation, interactive⟩, ?_,
    ⟨rfl, rfl, copies, UInt32.toNat_ofNat_of_lt depth, rfl, copied⟩⟩
  rw [FunctionLiteral.ofFunction, if_pos depth, constantsWritten, interactiveWritten]
  rfl

/-- The value can be saved: no value that can be reached from it can be reached from itself, and
there is no built-in function and no function of too large a depth among them. The parameters of
functions have been read from values, as they are in every heap that arises (see
`Heap.Arises.written`). -/
structure Saveable (heap : Heap) (value : Value) : Prop where
  acyclic : heap.Acyclic value
  noBuiltIn : ∀ builtIn, ¬ heap.Inside (.primitive builtIn) value
  depth : ∀ address, heap.Inside (.function address) value →
    (heap.function address).maxDepth < UInt32.size
  written : ∀ address, heap.Inside (.function address) value →
    (heap.function address).parameters.Written

/-- What is inside a value that can be saved can be saved. -/
theorem Saveable.inside {heap : Heap} {part whole : Value} (saveable : heap.Saveable whole)
    (inside : heap.Inside part whole) : heap.Saveable part where
  acyclic := saveable.acyclic.inside inside
  noBuiltIn builtIn within := saveable.noBuiltIn builtIn (within.trans inside)
  depth address within := saveable.depth address (within.trans inside)
  written address within := saveable.written address (within.trans inside)

/-- What is nested within the bound is written down, and the datum copies it. -/
theorem exists_datumWithin {bound : Nat} {value : Value} (saveable : source.Saveable value)
    (nested : source.NestedWithin bound value) :
    ∃ datum, source.datumWithin bound value = .ok datum ∧ source.Copies value datum := by
  induction bound generalizing value with
  | zero => exact absurd nested.pos (Nat.lt_irrefl 0)
  | succ bound ih =>
      have below : ∀ part, Relation.TransGen source.Part part value →
          ∃ datum, source.datumWithin bound part = .ok datum ∧ source.Copies part datum :=
        fun part isBelow => ih (saveable.inside isBelow.to_reflTransGen)
          (nested.below saveable.acyclic isBelow)
      cases value with
      | nil => exact ⟨.nil, rfl, copies_of_pure (by rw [Datum.toValue]) fun _ => .nil⟩
      | int n => exact ⟨.int n, rfl, copies_of_pure (by rw [Datum.toValue]) fun _ => .int n⟩
      | float x => exact ⟨.float x, rfl, copies_of_pure (by rw [Datum.toValue]) fun _ => .float x⟩
      | symbol symbol =>
          exact ⟨.symbol symbol.name, rfl,
            copies_of_pure (by rw [Datum.toValue]) fun _ => mirrors_ofSymbol symbol⟩
      | string address => exact ⟨_, rfl, copies_string address⟩
      | primitive builtIn => exact absurd .refl (saveable.noBuiltIn builtIn)
      | cons cell =>
          obtain ⟨items, tail, parts, chain⟩ := exists_parts? saveable.acyclic
          obtain ⟨data, written, copies⟩ :=
            exists_mapM fun item member => below item (chain.inside.1 item member)
          by_cases ends : tail.isNil = true
          · refine ⟨.list data, ?_, copies_list chain copies ends⟩
            simp [datumWithin, parts, written, ends, bind, Except.bind, pure, Except.pure]
          · have isBelow : Relation.TransGen source.Part tail (.cons cell) := by
              cases chain with
              | done notCons => cases notCons
              | link _ rest => exact .tail' rest.inside.2 (.cdr cell)
            obtain ⟨last, lastWritten, copied⟩ := below tail isBelow
            refine ⟨.dotted data last, ?_, copies_dotted chain copies copied⟩
            simp [datumWithin, parts, written, ends, lastWritten, bind, Except.bind, pure,
              Except.pure]
      | vector address =>
          obtain ⟨data, written, copies⟩ := exists_mapM fun item member =>
            below item (.single (.element (Array.mem_def.mpr member)))
          refine ⟨.vector data, ?_, copies_vector copies⟩
          rw [datumWithin, written]
          rfl
      | function address =>
          obtain ⟨literal, written, copies⟩ :=
            exists_ofFunction _ (saveable.depth address .refl) fun part isPart =>
              below part (.single isPart)
          refine ⟨.function literal, ?_, fun target => ?_⟩
          · rw [datumWithin, written]
            rfl
          · rw [Datum.toValue]
            exact copies.literal (saveable.written address .refl) target

/-- Whatever can be saved is written down, and what is read back from it, into any heap, has
the same form: only the symbol `nil` comes back as `nil`. A function is written down as a
literal in the same way. -/
theorem datum_round_trip (heap : Heap) (value : Value) (saveable : heap.Saveable value) :
    (∃ datum, heap.datum value = .ok datum ∧ ∀ target, ∃ copy after,
      datum.toValue target = (.ok copy, after) ∧ target.Extends after ∧
        heap.Mirrors after value copy) ∧
    ∀ address, value = .function address →
      ∃ literal, heap.literal address = .ok literal ∧ ∀ target, ∃ copy after,
        literal.toValue target = (.ok copy, after) ∧ target.Extends after ∧
          heap.Mirrors after value copy := by
  constructor
  · exact exists_datumWithin saveable (nestedWithin_nestingBound value)
  · rintro address rfl
    obtain ⟨literal, written, copies⟩ :=
      exists_ofFunction heap.datum (saveable.depth address .refl) fun part isPart =>
        exists_datumWithin (saveable.inside (.single isPart)) (nestedWithin_nestingBound part)
    exact ⟨literal, written, fun target => copies.literal (saveable.written address .refl) target⟩

/-- A heap with a function that refers to another function, to a string, and to a vector
with a pair and the symbol `nil` in it. -/
def nestedFunctions : Heap where
  pairs := ⟨#[⟨.int 1, .symbol ⟨"x"⟩⟩]⟩
  vectors := ⟨#[#[.cons 0, .symbol ⟨"nil"⟩]]⟩
  strings := ⟨#[.ofBytes #[102, 255]]⟩
  functions :=
    ⟨#[⟨.dynamic { required := [⟨"a"⟩], rest := some ⟨"b"⟩ }, #[192, 135],
        #[.function 1, .vector 0], 1, some (.text "text"), some (.string 0)⟩,
      ⟨.lexical ⟨1, 2, true⟩, #[135], #[.string 0], 3, none, none⟩]⟩

/-- In `nestedFunctions` every object has a higher rank than its parts. -/
def nestedFunctionsRank : Value → Nat
  | .function 0 => 3
  | .vector _ | .function _ => 2
  | .cons _ => 1
  | _ => 0

/-- In the example, parts have a lower rank, and none is a built-in function. -/
theorem nestedFunctions_part {part whole : Value} (isPart : nestedFunctions.Part part whole) :
    nestedFunctionsRank part < nestedFunctionsRank whole ∧
      ∀ builtIn, part ≠ .primitive builtIn := by
  cases isPart with
  | car cell | cdr cell =>
      cases cell with
      | zero | succ =>
          refine ⟨Nat.one_pos, fun builtIn same => ?_⟩
          cases same
  | @element address _ member =>
      cases address with
      | zero =>
          have given : part = .cons 0 ∨ part = .symbol ⟨"nil"⟩ := by
            simpa [vector, nestedFunctions, Store.read] using member
          obtain rfl | rfl := given <;> simp [nestedFunctionsRank]
      | succ address =>
          cases member
          contradiction
  | @constant address _ member =>
      obtain _ | _ | address := address
      · have given : part = .function 1 ∨ part = .vector 0 := by
          simpa [function, nestedFunctions, Store.read] using member
        obtain rfl | rfl := given <;> simp [nestedFunctionsRank]
      · have given : part = .string 0 := by
          simpa [function, nestedFunctions, Store.read] using member
        subst given
        simp [nestedFunctionsRank]
      · cases member
        contradiction
  | @interactive address _ given =>
      obtain _ | _ | address := address
      · cases given
        simp [nestedFunctionsRank]
      · cases given
      · cases given

/-- The outer function of the example can be saved. -/
theorem saveable_nestedFunctions : nestedFunctions.Saveable (.function 0) where
  acyclic := acyclic_of_rank nestedFunctionsRank
    (fun _ _ isPart => (nestedFunctions_part isPart).1) _
  noBuiltIn builtIn inside := by
    obtain same | ⟨_, isPart, _⟩ := inside.cases_head
    · cases same
    · exact (nestedFunctions_part isPart).2 builtIn rfl
  depth address _ := by
    obtain _ | _ | address := address
    · decide
    · decide
    · exact (by decide : 0 < UInt32.size)
  written address _ := by
    obtain _ | _ | address := address
    · exact ⟨(({} : Heap).list [.symbol ⟨"a"⟩, .symbol ⟨"&rest"⟩, .symbol ⟨"b"⟩]).2, .cons 2, rfl⟩
    · exact ⟨{}, .int 641, rfl⟩
    · exact ⟨{}, .int 0, rfl⟩

/-- Both functions come back. -/
theorem nestedFunctions_come_back :
    nestedFunctions.Saveable (.function 0) ∧
      ∃ literal, nestedFunctions.literal 0 = .ok literal ∧ ∀ target, ∃ copy after,
        literal.toValue target = (.ok copy, after) ∧ target.Extends after ∧
          nestedFunctions.Mirrors after (.function 0) copy :=
  ⟨saveable_nestedFunctions,
    (nestedFunctions.datum_round_trip (.function 0) saveable_nestedFunctions).2 0 rfl⟩

end Heap

end ByteLisp
