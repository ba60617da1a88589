import ByteLisp.Proofs.DatumRoundTrip
import ByteLisp.Proofs.ListParts

/-!
# Data in normal form

Several data have the same value: a list can be written with its end in the tail, `nil` as a symbol
or as an empty list, and the parameters of a function with an empty section. `Datum.normal?` is the
one among them that the value is written down as, or none when the datum has no value.
`Datum.madeAs_toValue` says that it is: it follows data and literals at the same time, and counts
the objects that are made on the way, which bound the nesting of what is written down.
-/

namespace ByteLisp

namespace Datum

/-- The items in front of the tail, as one list. -/
def onto (items : List Datum) (tail : Datum) : Datum :=
  match items with
  | [] => tail
  | _ => match tail with
    | .nil => .list items
    | .list rest => .list (items ++ rest)
    | .dotted rest last => .dotted (items ++ rest) last
    | _ => .dotted items tail

@[simp] theorem onto_nil (tail : Datum) : onto [] tail = tail :=
  rfl

/-- Items put onto items are put on as one row. -/
theorem onto_onto (items rest : List Datum) (tail : Datum) :
    onto items (onto rest tail) = onto (items ++ rest) tail := by
  cases items with
  | nil => rfl
  | cons item items =>
      cases rest with
      | nil => rw [onto_nil, List.append_nil]
      | cons first rest => cases tail <;> simp [onto]

/-- What is put together is not this symbol when its end is not. -/
theorem onto_ne_symbol {items : List Datum} {tail : Datum} {name : String}
    (different : tail ≠ .symbol name) : onto items tail ≠ .symbol name := by
  cases items with
  | nil => exact different
  | cons item items => cases tail <;> simp [onto]

/-- The parameters that are read from the value of the datum. -/
def parameters? (datum : Datum) : Option Parameters :=
  match datum.toValue {} with
  | (.ok value, heap) => (Parameters.ofValue heap value).toOption
  | (.error _, _) => none

mutual

/-- The datum that the value of a datum is written down as. -/
def normal? : Datum → Option Datum
  | .nil => some .nil
  | .int n => some (.int n)
  | .float x => some (.float x)
  | .string bytes => some (.string bytes)
  | .symbol name => some (ofSymbol ⟨name⟩)
  | .list items => (normalItems? items).map (onto · .nil)
  | .dotted items tail => do return onto (← normalItems? items) (← normal? tail)
  | .vector items => (normalItems? items).map .vector
  | .function literal => (normalLiteral? literal).map .function

/-- The normal forms of the items of a list. -/
def normalItems? : List Datum → Option (List Datum)
  | [] => some []
  | item :: items => do return (← normal? item) :: (← normalItems? items)

/-- The normal form of a datum that may be missing. -/
def normalOption? : Option Datum → Option (Option Datum)
  | none => some none
  | some datum => (normal? datum).map some

/-- The normal form of the literal of a function: its parameters are read and written anew. -/
def normalLiteral? : Literal Datum → Option (Literal Datum)
  | ⟨parameters, code, constants, maxDepth, documentation, interactive⟩ => do
    let constants ← normalItems? constants
    let interactive ← normalOption? interactive
    let parameters ← parameters.parameters?
    return ⟨.ofParameters parameters, code, constants, maxDepth, documentation, interactive⟩

end

end Datum

/-- A sequence of two steps succeeds when both do. -/
theorem bind_eq_ok_iff {α β : Type} {first : Except Fault α} {rest : α → Except Fault β}
    {result : β} :
    first >>= rest = .ok result ↔ ∃ value, first = .ok value ∧ rest value = .ok result := by
  cases first <;> simp [bind, Except.bind]

/-- A new object keeps its contents. -/
theorem Store.Extends.read_push {α : Type} [Inhabited α] {store later : Store α} {content : α}
    (kept : (store.push content).Extends later) : later.read store.size = content := by
  rw [kept.read store.size (by simp), Store.read_push, if_pos rfl]

namespace Heap

variable {heap : Heap}

/-- The parts of a chain with one more cell in front. -/
theorem parts?_cons {cell : Address} {items : Array Value} {tail : Value}
    (rest : heap.parts? (heap.pair cell).cdr = some (items, tail)) :
    heap.parts? (.cons cell) = some (((heap.pair cell).car :: items.toList).toArray, tail) := by
  obtain ⟨cells, following, ended⟩ | ⟨stem, cycle, circular⟩ :=
    heap.ended_or_circular (heap.pair cell).cdr
  · have whole : heap.Ended (.cons cell) (cell :: cells) following :=
      ⟨rfl, ⟨ended.starts, ended.linked⟩, ended.ends⟩
    rw [parts?_of_ended ended] at rest
    cases rest
    rw [parts?_of_ended whole]
    rfl
  · rw [parts?_of_circular circular] at rest
    cases rest

/-- What the value is written down as, with `write` for its parts. -/
inductive WrittenAs (heap : Heap) (write : Value → Except Fault Datum) : Value → Datum → Prop where
  | nil : WrittenAs heap write .nil .nil
  | int (n : Int64) : WrittenAs heap write (.int n) (.int n)
  | float (x : Double) : WrittenAs heap write (.float x) (.float x)
  | symbol (symbol : Symbol) : WrittenAs heap write (.symbol symbol) (.symbol symbol.name)
  | string (address : Address) :
      WrittenAs heap write (.string address) (.string (heap.string address).toBytes)
  | list {cell : Address} {items : Array Value} {tail : Value} {data : List Datum}
      (parts : heap.parts? (.cons cell) = some (items, tail))
      (each : items.toList.mapM write = .ok data) (ends : tail.isNil = true) :
      WrittenAs heap write (.cons cell) (.list data)
  | dotted {cell : Address} {items : Array Value} {tail : Value} {data : List Datum} {last : Datum}
      (parts : heap.parts? (.cons cell) = some (items, tail))
      (each : items.toList.mapM write = .ok data) (ends : tail.isNil = false)
      (lastWritten : write tail = .ok last) :
      WrittenAs heap write (.cons cell) (.dotted data last)
  | vector {address : Address} {data : List Datum}
      (each : (heap.vector address).toList.mapM write = .ok data) :
      WrittenAs heap write (.vector address) (.vector data)
  | function {address : Address} {literal : FunctionLiteral}
      (fields : FunctionLiteral.ofFunction write (heap.function address) = .ok literal) :
      WrittenAs heap write (.function address) (.function literal)

/-- Writing down is one level of writing, with the parts written down below it. -/
theorem datumWithin_succ_iff {bound : Nat} {value : Value} {datum : Datum} :
    heap.datumWithin (bound + 1) value = .ok datum ↔
      heap.WrittenAs (heap.datumWithin bound) value datum := by
  constructor
  · intro written
    cases value with
    | nil | int n | float x | symbol symbol | string address =>
        cases written
        constructor
    | primitive builtIn => cases written
    | cons cell =>
        rw [datumWithin] at written
        split at written
        · cases written
        · rename_i items tail parts
          obtain ⟨data, each, written⟩ := bind_eq_ok_iff.mp written
          cases ends : tail.isNil with
          | true =>
              rw [ends] at written
              cases written
              exact .list parts each ends
          | false =>
              rw [ends] at written
              obtain ⟨last, lastWritten, same⟩ := bind_eq_ok_iff.mp written
              cases same
              exact .dotted parts each ends lastWritten
    | vector address =>
        obtain ⟨data, each, same⟩ := bind_eq_ok_iff.mp written
        cases same
        exact .vector each
    | function address =>
        obtain ⟨literal, fields, same⟩ := bind_eq_ok_iff.mp written
        cases same
        exact .function fields
  · intro written
    cases written with
    | nil | int | float | symbol | string => rfl
    | list parts each ends =>
        rw [datumWithin, parts]
        exact bind_eq_ok_iff.mpr ⟨_, each, if_pos ends⟩
    | dotted parts each ends lastWritten =>
        rw [datumWithin, parts]
        refine bind_eq_ok_iff.mpr ⟨_, each, ?_⟩
        rw [ends]
        exact bind_eq_ok_iff.mpr ⟨_, lastWritten, rfl⟩
    | vector each => exact bind_eq_ok_iff.mpr ⟨_, each, rfl⟩
    | function fields => exact bind_eq_ok_iff.mpr ⟨_, fields, rfl⟩

/-- Whatever is written down is written down level by level. -/
theorem exists_writtenAs {bound : Nat} {value : Value} {datum : Datum}
    (written : heap.datumWithin bound value = .ok datum) :
    ∃ below, heap.WrittenAs (heap.datumWithin below) value datum := by
  cases bound with
  | zero => cases written
  | succ below => exact ⟨below, datumWithin_succ_iff.mp written⟩

/-- A list is written down when each of its items is. -/
theorem mapM_eq_ok_iff {write : Value → Except Fault Datum} {items : List Value}
    {data : List Datum} :
    items.mapM write = .ok data ↔
      List.Forall₂ (fun item datum => write item = .ok datum) items data := by
  induction items generalizing data with
  | nil =>
      rw [List.mapM_nil, List.forall₂_nil_left_iff]
      constructor
      · rintro ⟨⟩
        rfl
      · rintro rfl
        rfl
  | cons item items ih =>
      rw [List.mapM_cons, List.forall₂_cons_left_iff, bind_eq_ok_iff]
      constructor
      · rintro ⟨datum, first, rest⟩
        obtain ⟨others, each, same⟩ := bind_eq_ok_iff.mp rest
        cases same
        exact ⟨datum, others, first, ih.mp each, rfl⟩
      · rintro ⟨datum, others, first, each, rfl⟩
        exact ⟨datum, first, bind_eq_ok_iff.mpr ⟨others, ih.mpr each, rfl⟩⟩

/-- The first item is written down in front of the others. -/
theorem mapM_cons_eq_ok {write : Value → Except Fault Datum} {item : Value} {items : List Value}
    {datum : Datum} {data : List Datum} (first : write item = .ok datum)
    (each : items.mapM write = .ok data) : (item :: items).mapM write = .ok (datum :: data) :=
  mapM_eq_ok_iff.mpr (.cons first (mapM_eq_ok_iff.mp each))

/-- What is no cons has no elements and is its own end. -/
theorem parts?_of_isCons_eq_false {value : Value} (ends : value.isCons = false) :
    heap.parts? value = some (#[], value) :=
  parts?_of_chain (.done ends) (Nat.zero_le _)

/-- A cons is written as its first field in front of the list that follows. -/
theorem datumWithin_cons {cell : Address} {bound : Nat} {first rest : Datum}
    (car : heap.datumWithin bound (heap.pair cell).car = .ok first)
    (cdr : heap.datumWithin bound (heap.pair cell).cdr = .ok rest)
    (above : heap.datumWithin (bound + 1) (heap.pair cell).cdr = .ok rest)
    (notNil : rest ≠ .symbol "nil") :
    heap.datumWithin (bound + 1) (.cons cell) = .ok (.onto [first] rest) := by
  rw [datumWithin_succ_iff] at above ⊢
  have alone : (heap.pair cell).cdr.isCons = false →
      heap.parts? (.cons cell) = some (#[(heap.pair cell).car], (heap.pair cell).cdr) :=
    fun ends => parts?_cons (parts?_of_isCons_eq_false ends)
  have single : [(heap.pair cell).car].mapM (heap.datumWithin bound) = .ok [first] :=
    mapM_cons_eq_ok car rfl
  -- The list that follows is written one level higher, so that its elements stand beside the
  -- first field.
  generalize next : (heap.pair cell).cdr = value at cdr above alone
  cases above with
  | nil => exact .list (alone rfl) single rfl
  | symbol symbol =>
      have ends : symbol.isNil = false := beq_eq_false_iff_ne.mpr fun same =>
        notNil (congrArg Datum.symbol same)
      exact .dotted (alone rfl) single ends cdr
  | int | float | string | vector | function => exact .dotted (alone rfl) single rfl cdr
  | list parts each ends =>
      rw [← next] at parts
      exact .list (parts?_cons parts) (mapM_cons_eq_ok car each) ends
  | dotted parts each ends lastWritten =>
      rw [← next] at parts
      exact .dotted (parts?_cons parts) (mapM_cons_eq_ok car each) ends lastWritten

/-- A new list is written as the items in front of what the tail is written as. Each of its cells
may take one level. -/
theorem datumWithin_listWithTail {later : Heap} {items : List Value} {tail : Value}
    {data : List Datum} {last : Datum} (least : Nat)
    (kept : (heap.listWithTail items tail).2.Extends later)
    (each : ∀ bound, least < bound → items.mapM (later.datumWithin bound) = .ok data)
    (ends : ∀ bound, least < bound → later.datumWithin bound tail = .ok last)
    (notNil : last ≠ .symbol "nil") :
    ∀ bound, least + items.length < bound →
      later.datumWithin bound (heap.listWithTail items tail).1 = .ok (.onto data last) := by
  induction items generalizing data with
  | nil =>
      intro bound enough
      cases mapM_eq_ok_iff.mp (each bound enough)
      exact ends bound enough
  | cons item items ih =>
      obtain ⟨datum, others, -, -, rfl⟩ :=
        List.forall₂_cons_left_iff.mp (mapM_eq_ok_iff.mp (each (least + 1) (Nat.lt_succ_self _)))
      have both := fun bound enough =>
        List.forall₂_cons.mp (mapM_eq_ok_iff.mp (each bound enough))
      rw [listWithTail_cons] at kept ⊢
      have holds := pair_of_extends_cons kept
      have rest := ih ((extends_cons _ _ _).trans kept)
        fun bound enough => mapM_eq_ok_iff.mpr (both bound enough).2
      rintro (_ | bound) enough
      · cases enough
      rw [List.length_cons] at enough
      have written : later.datumWithin (bound + 1)
          (.cons (heap.listWithTail items tail).2.pairs.size) =
            .ok (.onto [datum] (.onto others last)) := by
        apply datumWithin_cons
        · rw [holds]
          exact (both bound (by omega)).1
        · rw [holds]
          exact rest bound (by omega)
        · rw [holds]
          exact rest (bound + 1) (by omega)
        · exact Datum.onto_ne_symbol notNil
      rwa [Datum.onto_onto] at written

/-! ## Parameters -/

section Parameters

variable {other : Heap} {bound otherBound : Nat} {value twin : Value} {datum : Datum}

/-- Only a symbol is written down as a symbol. -/
theorem WrittenAs.eq_symbol {write : Value → Except Fault Datum} {name : String}
    (written : heap.WrittenAs write value (.symbol name)) : value = .symbol ⟨name⟩ := by
  cases written
  rfl

/-- A value that is written down like a symbol is that symbol. -/
theorem eq_symbol_of_datumWithin {symbol : Symbol}
    (written : heap.datumWithin bound (.symbol symbol) = .ok datum)
    (twinWritten : other.datumWithin otherBound twin = .ok datum) : twin = .symbol symbol := by
  obtain ⟨_, level⟩ := exists_writtenAs written
  obtain ⟨_, twinLevel⟩ := exists_writtenAs twinWritten
  cases level
  exact twinLevel.eq_symbol

/-- Values that are written down like a row of symbols are that row. -/
theorem eq_symbols_of_datumWithin {symbols : List Symbol} {twins : List Value} {data : List Datum}
    (written : (symbols.map Value.symbol).mapM (heap.datumWithin bound) = .ok data)
    (twinsWritten : twins.mapM (other.datumWithin otherBound) = .ok data) :
    twins = symbols.map .symbol := by
  rw [mapM_eq_ok_iff] at written twinsWritten
  induction symbols generalizing twins data with
  | nil =>
      cases written
      cases twinsWritten
      rfl
  | cons symbol symbols ih =>
      cases written with
      | cons first each =>
          cases twinsWritten with
          | cons twinFirst twinEach =>
              rw [eq_symbol_of_datumWithin first twinFirst, ih each twinEach, List.map_cons]

/-- What is no cons has no elements if it is `nil`, and is refused otherwise. -/
theorem elements_of_isCons_eq_false (ends : value.isCons = false) :
    heap.elements value = if value.isNil then .ok #[] else .error (.wrongType .listp value) := by
  rw [elements, parts?_of_isCons_eq_false ends]

/-- A list of symbols is found in every value that is written down in the same way. -/
theorem elements_of_datumWithin {symbols : List Symbol}
    (elements : heap.elements value = .ok (symbols.map Value.symbol).toArray)
    (written : heap.datumWithin bound value = .ok datum)
    (twinWritten : other.datumWithin otherBound twin = .ok datum) :
    twin.isList = true ∧ other.elements twin = .ok (symbols.map Value.symbol).toArray := by
  obtain ⟨_, level⟩ := exists_writtenAs written
  obtain ⟨_, twinLevel⟩ := exists_writtenAs twinWritten
  cases level with
  | nil =>
      cases twinLevel
      rw [elements_of_isCons_eq_false rfl] at elements ⊢
      exact ⟨rfl, elements⟩
  | symbol symbol =>
      obtain rfl := twinLevel.eq_symbol
      rw [elements_of_isCons_eq_false rfl] at elements ⊢
      refine ⟨?_, elements⟩
      split at elements
      · rename_i isNil
        rw [Value.isList, isNil, Bool.true_or]
      · cases elements
  | list parts each ends =>
      cases twinLevel with
      | list twinParts twinEach twinEnds =>
          rw [Heap.elements, parts] at elements
          have same := Except.ok.inj ((if_pos ends).symm.trans elements)
          subst same
          have twins := eq_symbols_of_datumWithin each twinEach
          refine ⟨rfl, ?_⟩
          rw [Heap.elements, twinParts]
          simp [twinEnds, ← twins]
  | dotted parts each ends lastWritten => simp [Heap.elements, parts, ends] at elements
  | int | float | string | vector | function =>
      rw [elements_of_isCons_eq_false rfl] at elements
      cases elements

/-- What is written down in the same way is read as the same parameters. -/
theorem parameters_of_datumWithin {parameters : Parameters}
    (read : Parameters.ofValue heap value = .ok parameters)
    (written : heap.datumWithin bound value = .ok datum)
    (twinWritten : other.datumWithin otherBound twin = .ok datum) :
    Parameters.ofValue other twin = .ok parameters := by
  cases isList : value.isList with
  | true =>
      rw [Parameters.ofValue_of_isList isList] at read
      cases names : ParameterList.ofValue heap value with
      | error fault =>
          rw [names] at read
          cases read
      | ok list =>
          obtain ⟨sections, elements, same⟩ := ParameterList.ofValue_eq_ok_iff.mp names
          obtain ⟨twinList, twinElements⟩ := elements_of_datumWithin elements written twinWritten
          rw [Parameters.ofValue_of_isList twinList,
            ParameterList.ofValue_eq_ok_iff.mpr ⟨sections, twinElements, same⟩, ← names]
          exact read
  | false =>
      cases value with
      | int raw =>
          obtain ⟨_, level⟩ := exists_writtenAs written
          obtain ⟨_, twinLevel⟩ := exists_writtenAs twinWritten
          cases level
          cases twinLevel
          exact read
      | nil | cons => cases isList
      | _ => simp [Parameters.ofValue, isList] at read

end Parameters

/-! ## What is made of a datum -/

/-- The bound of nesting does not shrink as the heap grows. -/
theorem Extends.nestingBound_le {after : Heap} (grown : heap.Extends after) :
    heap.nestingBound ≤ after.nestingBound := by
  have pairs := grown.pairs.size_le
  have vectors := grown.vectors.size_le
  have functions := grown.functions.size_le
  rw [nestingBound, nestingBound]
  omega

/-- A list raises the bound by one for each item. -/
theorem nestingBound_listWithTail (heap : Heap) (items : List Value) (tail : Value) :
    heap.nestingBound + items.length ≤ (heap.listWithTail items tail).2.nestingBound := by
  have grown := heap.extends_listWithTail items tail
  have pairs := heap.size_pairs_listWithTail items tail
  have vectors := grown.vectors.size_le
  have functions := grown.functions.size_le
  rw [nestingBound, nestingBound]
  omega

/-- A vector raises the bound by one. -/
theorem nestingBound_newVector (heap : Heap) (items : Array Value) :
    (heap.newVector items).2.nestingBound = heap.nestingBound + 1 := by
  simp only [nestingBound, newVector, Store.size_push]
  omega

/-- A function raises the bound by one. -/
theorem nestingBound_newFunction (heap : Heap) (function : Function) :
    (heap.newFunction function).2.nestingBound = heap.nestingBound + 1 := by
  simp only [nestingBound, newFunction, Store.size_push]
  omega

section Making

variable {α β γ δ : Type} {write : (Value → Except Fault Datum) → α → Except Fault β}
  {writeNext : (Value → Except Fault Datum) → γ → Except Fault δ} {start middle after later : Heap}

/-- What is there after a program that was started in `start` is written down as this in every
later heap. It takes one level, and one more for each object that the program has made. -/
def WritesLater (write : (Value → Except Fault Datum) → α → Except Fault β) (start after : Heap)
    (made : α) (written : β) : Prop :=
  ∀ later bound, after.Extends later → after.nestingBound < start.nestingBound + bound →
    write (later.datumWithin bound) made = .ok written

/-- The program can be one of many. -/
theorem WritesLater.within {made : α} {written : β}
    (writes : WritesLater write middle after made written) (before : start.Extends middle)
    (behind : after.Extends later) : WritesLater write start later made written := by
  intro last bound kept enough
  have earlier := before.nestingBound_le
  have further := behind.nestingBound_le
  exact writes last bound (behind.trans kept) (by omega)

/-- The result of a program that was started in `start`. When there is something that it is to be
written down as, something has been made that is written down as this. Otherwise the program has
failed. -/
def MadeAs (write : (Value → Except Fault Datum) → α → Except Fault β) (start : Heap)
    (result : Except Fault α × Heap) : Option β → Prop
  | some written => ∃ made after, result = (.ok made, after) ∧ start.Extends after ∧
      WritesLater write start after made written
  | none => ∃ fault after, result = (.error fault, after)

/-- Programs in a row make their results in a row, and fail when one of them does. -/
theorem MadeAs.bind {program : HeapM α} {rest : α → HeapM γ} {normal : Option β}
    {next : β → Option δ} (made : MadeAs write middle (program middle) normal)
    (goesOn : ∀ item after written, normal = some written → middle.Extends after →
      WritesLater write middle after item written →
      MadeAs writeNext start (rest item after) (next written)) :
    MadeAs writeNext start ((program >>= rest) middle) (normal >>= next) := by
  rw [run_bind]
  cases normal with
  | none =>
      obtain ⟨fault, after, failed⟩ := made
      rw [failed]
      exact ⟨fault, after, rfl⟩
  | some written =>
      obtain ⟨item, after, succeeded, grown, writes⟩ := made
      rw [succeeded]
      exact goesOn item after written rfl grown writes

/-- A value that is complete in itself. -/
theorem writesLater_of_pure {value : Value} {datum : Datum} (grown : start.Extends after)
    (written : ∀ (later : Heap) (bound : Nat), later.datumWithin (bound + 1) value = .ok datum) :
    WritesLater id start after value datum := by
  intro later bound kept enough
  have longer := grown.nestingBound_le
  obtain _ | bound := bound
  · omega
  · exact written later bound

/-- A value that needs no object is written down as its datum in every heap. -/
theorem madeAs_pure {value : Value} {datum : Datum}
    (written : ∀ (later : Heap) (bound : Nat), later.datumWithin (bound + 1) value = .ok datum) :
    MadeAs id start ((pure value : HeapM Value) start) (some datum) :=
  ⟨value, start, rfl, .refl start, writesLater_of_pure (.refl start) written⟩

/-- A string is made and written down by its bytes. -/
theorem madeAs_newString (start : Heap) (bytes : Bytes) :
    MadeAs id start (HeapM.make (·.newString (.ofBytes bytes)) start) (some (.string bytes)) := by
  refine ⟨(start.newString (.ofBytes bytes)).1, (start.newString (.ofBytes bytes)).2, rfl,
    start.extends_newString _, fun later bound kept enough => ?_⟩
  obtain _ | bound := bound
  · exact absurd enough (Nat.lt_irrefl _)
  · have holds : later.string start.strings.size = .ofBytes bytes := kept.strings.read_push
    have written : later.datumWithin (bound + 1) (.string start.strings.size) =
        .ok (.string (later.string start.strings.size).toBytes) := rfl
    rwa [holds, PackedBytes.toBytes_ofBytes] at written

/-- A list is made of its items and its end, and written down as these put together. -/
theorem madeAs_listWithTail {values : List Value} {tail : Value} {data : List Datum} {last : Datum}
    (grown : start.Extends after) (each : WritesLater List.mapM start after values data)
    (ends : WritesLater id start after tail last) (notNil : last ≠ .symbol "nil") :
    MadeAs id start (HeapM.make (·.listWithTail values tail) after)
      (some (.onto data last)) := by
  have more := after.extends_listWithTail values tail
  have longer := grown.nestingBound_le
  refine ⟨(after.listWithTail values tail).1, (after.listWithTail values tail).2, rfl,
    grown.trans more, fun later bound kept enough => ?_⟩
  have cells := after.nestingBound_listWithTail values tail
  exact datumWithin_listWithTail (after.nestingBound - start.nestingBound) kept
    (fun bound enough => each later bound (more.trans kept) (by omega))
    (fun bound enough => ends later bound (more.trans kept) (by omega)) notNil bound (by omega)

/-- A vector is made of its items, and written down as these. -/
theorem madeAs_newVector {values : List Value} {data : List Datum}
    (grown : start.Extends after) (each : WritesLater List.mapM start after values data) :
    MadeAs id start (HeapM.make (·.newVector values.toArray) after) (some (.vector data)) := by
  have more := after.extends_newVector values.toArray
  have longer := grown.nestingBound_le
  refine ⟨(after.newVector values.toArray).1, (after.newVector values.toArray).2, rfl,
    grown.trans more, fun later bound kept enough => ?_⟩
  rw [nestingBound_newVector] at enough
  obtain _ | bound := bound
  · omega
  · have holds : later.vector after.vectors.size = values.toArray := kept.vectors.read_push
    refine datumWithin_succ_iff.mpr (.vector ?_)
    rw [holds]
    exact each later bound (more.trans kept) (by omega)

/-- A function is made of its parts, and written down as a literal of these. -/
theorem madeAs_newFunction {parameters : Parameters} {code : Bytes} {values : List Value}
    {maxDepth : UInt32} {documentation : Option Documentation} {interactive : Option Value}
    {data : List Datum} {form : Option Datum}
    (grown : start.Extends after) (each : WritesLater List.mapM start after values data)
    (formWritten : WritesLater Option.mapM start after interactive form) :
    MadeAs id start (HeapM.make (·.newFunction ⟨parameters, code, values.toArray, maxDepth.toNat,
      documentation, interactive⟩) after)
      (some (.function ⟨.ofParameters parameters, code, data, maxDepth, documentation, form⟩)) := by
  let function : Function :=
    ⟨parameters, code, values.toArray, maxDepth.toNat, documentation, interactive⟩
  have more := after.extends_newFunction function
  have longer := grown.nestingBound_le
  refine ⟨(after.newFunction function).1, (after.newFunction function).2, rfl,
    grown.trans more, fun later bound kept enough => ?_⟩
  rw [nestingBound_newFunction] at enough
  obtain _ | bound := bound
  · omega
  · have holds : later.function after.functions.size = function := kept.functions.read_push
    refine datumWithin_succ_iff.mpr (.function ?_)
    rw [holds, FunctionLiteral.ofFunction, if_pos maxDepth.toNat_lt]
    refine bind_eq_ok_iff.mpr ⟨data, each later bound (more.trans kept) (by omega), ?_⟩
    refine bind_eq_ok_iff.mpr ⟨form, formWritten later bound (more.trans kept) (by omega), ?_⟩
    rw [UInt32.ofNat_toNat]
    rfl

end Making

end Heap

namespace Datum

open Heap

/-- No normal form is the symbol `nil`: it is read as `nil`. -/
theorem ne_nilSymbol_of_normal? : (datum normal : Datum) → datum.normal? = some normal →
    normal ≠ .symbol "nil"
  | .nil, _, found | .int _, _, found | .float _, _, found | .string _, _, found => by
    rw [normal?] at found
    cases found
    simp
  | .symbol name, _, found => by
    rw [normal?, ofSymbol] at found
    split at found
    · cases found
      simp
    · rename_i notNil
      cases found
      simpa [Symbol.isNil] using notNil
  | .list items, _, found => by
    rw [normal?, Option.map_eq_some_iff] at found
    obtain ⟨data, -, rfl⟩ := found
    exact onto_ne_symbol (by simp)
  | .dotted items tail, _, found => by
    simp only [normal?, Option.pure_def, Option.bind_eq_bind, Option.bind_eq_some_iff,
      Option.some.injEq] at found
    obtain ⟨data, -, last, ends, rfl⟩ := found
    exact onto_ne_symbol (ne_nilSymbol_of_normal? tail last ends)
  | .vector items, _, found => by
    rw [normal?, Option.map_eq_some_iff] at found
    obtain ⟨data, -, rfl⟩ := found
    simp
  | .function literal, _, found => by
    rw [normal?, Option.map_eq_some_iff] at found
    obtain ⟨fields, -, rfl⟩ := found
    simp

/-- Which parameters are read from the value of a datum does not depend on the heap. -/
theorem toOption_ofValue_eq {datum normal : Datum} {heap : Heap} {bound : Nat} {value : Value}
    (alone : MadeAs id {} (datum.toValue {}) (some normal))
    (written : heap.datumWithin bound value = .ok normal) :
    (Parameters.ofValue heap value).toOption = datum.parameters? := by
  obtain ⟨twin, after, made, -, writes⟩ := alone
  have twinWritten := writes after (after.nestingBound + 1) (.refl after) (by omega)
  rw [parameters?, made]
  dsimp only
  cases read : Parameters.ofValue heap value with
  | ok parameters => rw [parameters_of_datumWithin read written twinWritten]
  | error fault =>
      cases twinRead : Parameters.ofValue after twin with
      | error fault => rfl
      | ok parameters =>
          rw [parameters_of_datumWithin twinRead twinWritten written] at read
          cases read

mutual

/-- The value of a datum is written down as its normal form. A datum without one has no value. -/
theorem madeAs_toValue : (datum : Datum) → (heap : Heap) →
    MadeAs id heap (datum.toValue heap) datum.normal?
  | .nil, heap => by
    rw [toValue, normal?]
    exact madeAs_pure fun _ _ => rfl
  | .int n, heap => by
    rw [toValue, normal?]
    exact madeAs_pure fun _ _ => rfl
  | .float x, heap => by
    rw [toValue, normal?]
    exact madeAs_pure fun _ _ => rfl
  | .string bytes, heap => by
    rw [toValue, normal?]
    exact madeAs_newString heap bytes
  | .symbol name, heap => by
    rw [toValue, normal?]
    refine madeAs_pure fun later bound => ?_
    unfold Value.ofSymbol ofSymbol
    split <;> rfl
  | .list items, heap => by
    rw [toValue, normal?, Option.map_eq_bind]
    exact (madeAs_items items heap).bind fun values after data _ grown each =>
      madeAs_listWithTail grown each (writesLater_of_pure grown fun _ _ => rfl) (by simp)
  | .dotted items tail, heap => by
    rw [toValue, normal?]
    refine (madeAs_items items heap).bind fun values middle data _ grown each => ?_
    refine (madeAs_toValue tail middle).bind fun last after datum normal further ends => ?_
    exact madeAs_listWithTail (grown.trans further) (each.within (.refl heap) further)
      (ends.within grown (.refl after)) (ne_nilSymbol_of_normal? tail datum normal)
  | .vector items, heap => by
    rw [toValue, normal?, Option.map_eq_bind]
    exact (madeAs_items items heap).bind fun values after data _ grown each =>
      madeAs_newVector grown each
  | .function literal, heap => by
    rw [toValue, normal?]
    exact madeAs_literal literal heap

/-- The items of a list are made one after the other, and written down as their normal forms. -/
theorem madeAs_items : (items : List Datum) → (heap : Heap) →
    MadeAs List.mapM heap (itemsToValues items heap) (normalItems? items)
  | [], heap => ⟨[], heap, rfl, .refl heap, fun _ _ _ _ => rfl⟩
  | item :: items, heap => by
    rw [itemsToValues, normalItems?]
    refine (madeAs_toValue item heap).bind fun value middle datum _ grown written => ?_
    refine (madeAs_items items middle).bind fun values after data _ further each => ?_
    refine ⟨_, _, rfl, grown.trans further, fun later bound kept enough => ?_⟩
    have first := written.within (.refl heap) further later bound kept enough
    have rest := each.within grown (.refl after) later bound kept enough
    exact mapM_cons_eq_ok first rest

/-- A datum that may be missing is made when it is there. -/
theorem madeAs_option : (datum : Option Datum) → (heap : Heap) →
    MadeAs Option.mapM heap (optionToValue datum heap) (normalOption? datum)
  | none, heap => ⟨none, heap, rfl, .refl heap, fun _ _ _ _ => rfl⟩
  | some datum, heap => by
    rw [optionToValue, normalOption?, Option.map_eq_bind]
    refine (madeAs_toValue datum heap).bind fun value after normal _ grown written => ?_
    refine ⟨_, _, rfl, grown, fun later bound kept enough => ?_⟩
    have one : Option.mapM (later.datumWithin bound) (some value) =
        some <$> later.datumWithin bound value := rfl
    rw [one, ← id_eq (later.datumWithin bound), written later bound kept enough]
    rfl

/-- A function is made from its literal exactly when its parameters can be read. -/
theorem madeAs_literal : (literal : Literal Datum) → (heap : Heap) →
    MadeAs id heap (literalToValue literal heap) ((normalLiteral? literal).map .function)
  | ⟨parameters, code, constants, maxDepth, documentation, interactive⟩, heap => by
    have alone := madeAs_toValue parameters {}
    have given := madeAs_toValue parameters heap
    rw [literalToValue, normalLiteral?, run_bind]
    cases normal : parameters.normal? with
    | none =>
        rw [normal] at alone given
        obtain ⟨fault, after, failed⟩ := given
        obtain ⟨_, _, failedAlone⟩ := alone
        have unread : parameters.parameters? = none := by rw [parameters?, failedAlone]
        rw [failed, unread]
        cases normalItems? constants <;> cases normalOption? interactive <;>
          exact ⟨fault, after, rfl⟩
    | some datum =>
        rw [normal] at alone given
        obtain ⟨value, first, made, grown, written⟩ := given
        rw [made]
        simp only [Option.map_eq_bind, ← Option.bind_eq_bind, bind_assoc]
        refine (madeAs_items constants first).bind fun values second data _ further each => ?_
        refine (madeAs_option interactive second).bind
          fun form third formDatum _ last formWritten => ?_
        -- The value of the parameters is made first and read last, when there are more objects.
        have read : (Parameters.ofValue third value).toOption = parameters.parameters? :=
          toOption_ofValue_eq alone (written.within (.refl heap) (further.trans last) third
            (third.nestingBound + 1) (.refl third) (by omega))
        rw [Functions.make, run_bind, HeapM.look]
        cases outcome : Parameters.ofValue third value with
        | error fault =>
            rw [← read, outcome]
            exact ⟨fault, third, rfl⟩
        | ok spec =>
            rw [← read, outcome]
            exact madeAs_newFunction ((grown.trans further).trans last)
              (each.within grown last) (formWritten.within (grown.trans further) (.refl third))

end

variable {datum normal : Datum} {parameters : Parameters}

/-- A datum with a normal form can be made, and is written down as its normal form. -/
theorem exists_toValue (found : datum.normal? = some normal) (heap : Heap) :
    ∃ value after, datum.toValue heap = (.ok value, after) ∧ after.datum value = .ok normal := by
  have made := madeAs_toValue datum heap
  rw [found] at made
  obtain ⟨value, after, succeeded, -, written⟩ := made
  have positive : 0 < heap.nestingBound := Nat.succ_pos _
  exact ⟨value, after, succeeded, written after after.nestingBound (.refl after) (by omega)⟩

/-- A datum without one cannot be made. -/
theorem exists_toValue_error (missing : datum.normal? = none) (heap : Heap) :
    ∃ fault after, datum.toValue heap = (.error fault, after) := by
  have made := madeAs_toValue datum heap
  rwa [missing] at made

/-- A datum from which parameters are read has a normal form, and so a value. -/
theorem normal?_ne_none_of_parameters? (read : datum.parameters? = some parameters) :
    datum.normal? ≠ none := by
  intro missing
  obtain ⟨fault, after, failed⟩ := exists_toValue_error missing {}
  rw [parameters?, failed] at read
  cases read

/-- Parameters are read from the value that was made as they are from the datum. -/
theorem toOption_ofValue_of_normal? (found : datum.normal? = some normal) {heap after : Heap}
    {value : Value} (made : datum.toValue heap = (.ok value, after)) :
    (Parameters.ofValue after value).toOption = datum.parameters? := by
  obtain ⟨other, later, succeeded, written⟩ := exists_toValue found heap
  rw [made] at succeeded
  cases succeeded
  have alone := madeAs_toValue datum {}
  rw [found] at alone
  exact toOption_ofValue_eq alone written

end Datum

end ByteLisp
