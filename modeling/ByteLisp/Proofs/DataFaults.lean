import ByteLisp.Primitive.Call

/-!
# Faults that lie in the data

Operations on values, objects and symbol cells fail because of the data that they
are given. The faults of the machine itself, of its operand stacks, its code and
its limits, never come from them. `Fault.ofData` draws the line; every operation
that an instruction or a built-in function performs stays on its own side of it.
-/

namespace ByteLisp

/-- Whether the fault lies in the data that an operation was given. -/
def Fault.ofData : Fault → Bool
  | .arityMismatch .. | .voidVariable _ | .wrongType .. | .settingConstant _ | .divisionByZero
  | .overflow _ | .argsOutOfRange .. | .malformedParameters _
  | .code (.invalidDescriptor _) => true
  | _ => false

/-- The result is a value, or a fault that lies in the data. -/
def BlamesData {α : Type} (result : Except Fault α) : Prop :=
  ∀ fault, result = .error fault → fault.ofData = true

/-- The program gives a value, or a fault that lies in the data. -/
def RaisesData {σ α : Type} (program : ExceptT Fault (StateM σ) α) : Prop :=
  ∀ state, BlamesData (program state).1

/-- What a sequence of two programs does: a fault of the first one ends it. -/
theorem run_bind {σ α β : Type} (first : ExceptT Fault (StateM σ) α)
    (rest : α → ExceptT Fault (StateM σ) β) (state : σ) :
    (first >>= rest) state = match first state with
      | (.ok value, after) => rest value after
      | (.error fault, after) => (.error fault, after) := by
  rcases ran : first state with ⟨fault | value, after⟩ <;>
    simp only [bind, ExceptT.bind, ExceptT.mk, StateT.bind, ran] <;> rfl

section Results

variable {α β : Type}

/-- What succeeds blames nothing. -/
@[simp] theorem blamesData_ok (value : α) : BlamesData (.ok value) := by
  intro fault failed
  cases failed

@[simp] theorem blamesData_pure (value : α) : BlamesData (pure value) :=
  blamesData_ok value

/-- A fault blames the data if it is one of the faults of data. -/
@[simp] theorem blamesData_error {fault : Fault} :
    BlamesData (.error fault : Except Fault α) ↔ fault.ofData = true := by
  constructor
  · intro blames
    exact blames fault rfl
  · intro ofData other failed
    cases failed
    exact ofData

@[simp] theorem blamesData_throw {fault : Fault} :
    BlamesData (throw fault : Except Fault α) ↔ fault.ofData = true :=
  blamesData_error

/-- Of two computations in a row each may blame the data. -/
theorem blamesData_bind {result : Except Fault α} {rest : α → Except Fault β}
    (first : BlamesData result) (next : ∀ value, BlamesData (rest value)) :
    BlamesData (result >>= rest) := by
  cases result with
  | error fault =>
      intro other failed
      cases failed
      exact first fault rfl
  | ok value => exact next value

/-- Changing the value of a success changes no fault. -/
theorem blamesData_map {result : Except Fault α} (change : α → β)
    (blames : BlamesData result) : BlamesData (result.map change) := by
  cases result with
  | error fault =>
      intro other failed
      cases failed
      exact blames fault rfl
  | ok value => exact blamesData_ok _

/-- A fold blames the data alone when each of its steps does. -/
@[simp] theorem blamesData_foldlM {step : β → α → Except Fault β}
    (each : ∀ made item, BlamesData (step made item)) (items : List α) (start : β) :
    BlamesData (items.foldlM step start) := by
  induction items generalizing start with
  | nil => exact blamesData_pure start
  | cons item items inductionHypothesis =>
      rw [List.foldlM_cons]
      exact blamesData_bind (each start item) inductionHypothesis

/-- So does a list of computations when each of them does. -/
theorem blamesData_mapM {step : α → Except Fault β} (each : ∀ item, BlamesData (step item))
    (items : List α) : BlamesData (items.mapM step) := by
  induction items with
  | nil => exact blamesData_pure []
  | cons item items inductionHypothesis =>
      rw [List.mapM_cons]
      refine blamesData_bind (each item) fun made => ?_
      exact blamesData_bind inductionHypothesis fun rest => blamesData_pure _

end Results

section Programs

variable {σ α β : Type}

@[simp] theorem raisesData_pure (value : α) :
    RaisesData (pure value : ExceptT Fault (StateM σ) α) :=
  fun _ => blamesData_ok value

@[simp] theorem raisesData_throw {fault : Fault} (ofData : fault.ofData = true) :
    RaisesData (throw fault : ExceptT Fault (StateM σ) α) :=
  fun _ => blamesData_error.mpr ofData

/-- Of two programs in a row each may blame the data. -/
theorem raisesData_bind {program : ExceptT Fault (StateM σ) α}
    {rest : α → ExceptT Fault (StateM σ) β} (first : RaisesData program)
    (next : ∀ value, RaisesData (rest value)) : RaisesData (program >>= rest) := by
  intro state
  rw [run_bind]
  rcases ran : program state with ⟨fault | value, after⟩
  · have ofData := first state
    rw [ran, blamesData_error] at ofData
    exact blamesData_error.mpr ofData
  · exact next value after

/-- A fold of programs blames the data alone when each of its steps does. -/
@[simp] theorem raisesData_foldlM {step : β → α → ExceptT Fault (StateM σ) β}
    (each : ∀ made item, RaisesData (step made item)) (items : List α) (start : β) :
    RaisesData (items.foldlM step start) := by
  induction items generalizing start with
  | nil => exact raisesData_pure start
  | cons item items inductionHypothesis =>
      rw [List.foldlM_cons]
      exact raisesData_bind (each start item) inductionHypothesis

/-- Looking at the heap raises what the question raises. -/
@[simp] theorem HeapM.raisesData_look {question : Heap → Except Fault α}
    (blames : ∀ heap, BlamesData (question heap)) : RaisesData (HeapM.look question) :=
  blames

/-- Making an object does not fail. -/
@[simp] theorem HeapM.raisesData_make (creation : Heap → α × Heap) :
    RaisesData (HeapM.make creation) :=
  fun _ => blamesData_ok _

/-- Changing an object does not fail. -/
@[simp] theorem HeapM.raisesData_change (mutation : Heap → Heap) :
    RaisesData (HeapM.change mutation) :=
  fun _ => blamesData_ok ()

/-- An operation on the heap raises the same faults as an action. -/
@[simp] theorem Action.raisesData_onHeap {operation : HeapM α} (raises : RaisesData operation) :
    RaisesData (Action.onHeap operation) :=
  fun memory => raises memory.heap

@[simp] theorem Action.raisesData_ofExcept {result : Except Fault α} (blames : BlamesData result) :
    RaisesData (Action.ofExcept result) :=
  fun _ => blames

@[simp] theorem Action.raisesData_look {question : Heap → Except Fault α}
    (blames : ∀ heap, BlamesData (question heap)) : RaisesData (Action.look question) :=
  fun memory => blames memory.heap

@[simp] theorem Action.raisesData_ask {question : Environment → Except Fault α}
    (blames : ∀ env, BlamesData (question env)) : RaisesData (Action.ask question) :=
  fun memory => blames memory.env

/-- So does an operation on the environment. -/
@[simp] theorem Action.raisesData_onEnv {operation : EnvM α} (raises : RaisesData operation) :
    RaisesData (Action.onEnv operation) :=
  fun memory => raises memory.env

end Programs

/-! The expectations and the operations that only look at the heap. -/

namespace Value

@[simp] theorem blamesData_expectInt (value : Value) : BlamesData value.expectInt := by
  unfold expectInt
  split <;> simp [Fault.ofData]

@[simp] theorem blamesData_expectSymbol (value : Value) : BlamesData value.expectSymbol := by
  unfold expectSymbol
  split <;> simp [Fault.ofData]

@[simp] theorem blamesData_expectNumber (value : Value) : BlamesData value.expectNumber := by
  unfold expectNumber
  split <;> simp [Fault.ofData]

end Value

namespace Heap

/-- The car of what is no list is refused as data. -/
@[simp] theorem blamesData_car (heap : Heap) (value : Value) : BlamesData (heap.car value) := by
  unfold car
  split
  · simp
  · split <;> simp [Fault.ofData]

/-- So is the cdr. -/
@[simp] theorem blamesData_cdr (heap : Heap) (value : Value) : BlamesData (heap.cdr value) := by
  unfold cdr
  split
  · simp
  · split <;> simp [Fault.ofData]

/-- A list that does not end in `nil` has no elements, and is refused as data. -/
@[simp] theorem blamesData_elements (heap : Heap) (value : Value) :
    BlamesData (heap.elements value) := by
  unfold elements
  split
  · split <;> simp [Fault.ofData]
  · simp [Fault.ofData]

/-- A search blames the list that it walks: for its end, or for being circular. -/
@[simp] theorem blamesData_findFrom (heap : Heap) (list : Value)
    (test : Value → Value → Option Value) (bound : Nat) (watch : CycleWatch) (tail : Value) :
    BlamesData (heap.findFrom list test bound watch tail) := by
  fun_induction findFrom heap list test bound watch tail with
  | case1 => simp [Fault.ofData]
  | case2 _ _ _ _ found answered => simp only [answered, blamesData_ok]
  | case3 _ _ _ _ met unanswered => simp [unanswered, met, Fault.ofData]
  | case4 _ _ _ _ _ moved unanswered inductionHypothesis =>
      simp only [unanswered, moved]
      exact inductionHypothesis
  | case5 _ _ _ ended => simp [ended]
  | case6 _ _ _ ended => simp [ended, Fault.ofData]

/-- Going down a list blames the list that it walks. -/
@[simp] theorem blamesData_dropFrom (heap : Heap) (list : Value) (count : Nat) (watch : CycleWatch)
    (tail : Value) : BlamesData (heap.dropFrom list count watch tail) := by
  induction count generalizing watch tail with
  | zero => exact blamesData_ok tail
  | succ count inductionHypothesis =>
      unfold dropFrom
      split
      · exact blamesData_ok tail
      · split
        · rename_i fault failed
          have ofData := heap.blamesData_cdr tail
          rw [failed, blamesData_error] at ofData
          exact blamesData_error.mpr ofData
        · split
          · simp [Fault.ofData]
          · exact inductionHypothesis _ _

end Heap

namespace Lists

@[simp] theorem blamesData_nthcdr (heap : Heap) (count list : Value) :
    BlamesData (nthcdr heap count list) :=
  blamesData_bind count.blamesData_expectInt fun _ => heap.blamesData_dropFrom list _ _ list

@[simp] theorem blamesData_nth (heap : Heap) (position list : Value) :
    BlamesData (nth heap position list) :=
  blamesData_bind (blamesData_nthcdr heap position list) heap.blamesData_car

@[simp] theorem blamesData_memq (heap : Heap) (element list : Value) :
    BlamesData (memq heap element list) :=
  heap.blamesData_findFrom list _ _ _ list

@[simp] theorem blamesData_member (heap : Heap) (element list : Value) :
    BlamesData (member heap element list) :=
  heap.blamesData_findFrom list _ _ _ list

@[simp] theorem blamesData_assq (heap : Heap) (key list : Value) :
    BlamesData (assq heap key list) :=
  heap.blamesData_findFrom list _ _ _ list

/-- Reversing in place blames the list for its end. -/
@[simp] theorem raisesData_nreverse (sequence : Value) : RaisesData (nreverse sequence) := by
  intro heap
  unfold nreverse
  split
  · exact blamesData_ok _
  · dsimp only
    split <;> simp [Fault.ofData]

@[simp] theorem raisesData_reverse (sequence : Value) : RaisesData (reverse sequence) := by
  unfold reverse
  split
  · exact HeapM.raisesData_make _
  · exact raisesData_bind (HeapM.raisesData_look fun heap => heap.blamesData_elements sequence)
      fun _ => HeapM.raisesData_make _

/-- Joining blames the first list for being circular, or for being none. -/
@[simp] theorem raisesData_nconc (first second : Value) : RaisesData (nconc first second) := by
  unfold nconc
  split
  · refine raisesData_bind (fun _ => blamesData_ok _) fun heap => ?_
    split
    · exact raisesData_bind (HeapM.raisesData_change _) fun _ => raisesData_pure _
    · exact raisesData_throw rfl
  · split
    · exact raisesData_pure _
    · exact raisesData_throw rfl

@[simp] theorem raisesData_setcar (cell value : Value) : RaisesData (setcar cell value) := by
  unfold setcar
  split
  · exact raisesData_bind (HeapM.raisesData_change _) fun _ => raisesData_pure _
  · exact raisesData_throw rfl

@[simp] theorem raisesData_setcdr (cell value : Value) : RaisesData (setcdr cell value) := by
  unfold setcdr
  split
  · exact raisesData_bind (HeapM.raisesData_change _) fun _ => raisesData_pure _
  · exact raisesData_throw rfl

end Lists

namespace Sequences

/-- The length of what is no sequence, or of a circular list, is refused as data. -/
@[simp] theorem blamesData_length (heap : Heap) (sequence : Value) :
    BlamesData (length heap sequence) := by
  unfold length
  split
  · exact blamesData_bind (heap.blamesData_elements _) fun _ => blamesData_pure _
  · exact blamesData_pure _
  · exact blamesData_pure _
  · split
    · exact blamesData_pure _
    · exact blamesData_throw.mpr rfl

/-- A place outside the array is refused as data. -/
@[simp] theorem blamesData_position (array index : Value) (size : Nat) :
    BlamesData (position array index size) := by
  refine blamesData_bind index.blamesData_expectInt fun n => ?_
  split
  · exact blamesData_pure _
  · exact blamesData_throw.mpr rfl

/-- Reading an element blames the array or the place. -/
@[simp] theorem blamesData_aref (heap : Heap) (array index : Value) :
    BlamesData (aref heap array index) := by
  unfold aref
  split
  · exact blamesData_bind (blamesData_position _ index _) fun _ => blamesData_pure _
  · exact blamesData_bind (blamesData_position _ index _) fun _ => blamesData_pure _
  · exact blamesData_throw.mpr rfl

/-- Setting an element blames the array or the place. -/
@[simp] theorem raisesData_aset (array index value : Value) :
    RaisesData (aset array index value) := by
  unfold aset
  split
  · refine raisesData_bind (HeapM.raisesData_look fun _ => blamesData_position _ index _)
      fun _ => ?_
    exact raisesData_bind (HeapM.raisesData_change _) fun _ => raisesData_pure _
  · exact raisesData_throw rfl

@[simp] theorem blamesData_elt (heap : Heap) (sequence index : Value) :
    BlamesData (elt heap sequence index) := by
  unfold elt
  split
  · exact Lists.blamesData_nth heap index sequence
  · exact blamesData_aref heap sequence index

@[simp] theorem blamesData_stringData (heap : Heap) (value : Value) :
    BlamesData (stringData heap value) := by
  unfold stringData
  split <;> simp [Fault.ofData]

@[simp] theorem blamesData_stringEq (heap : Heap) (a b : Value) : BlamesData (stringEq heap a b) :=
  blamesData_bind (blamesData_stringData heap a) fun _ =>
    blamesData_bind (blamesData_stringData heap b) fun _ => blamesData_pure _

@[simp] theorem blamesData_stringLess (heap : Heap) (a b : Value) :
    BlamesData (stringLess heap a b) :=
  blamesData_bind (blamesData_stringData heap a) fun _ =>
    blamesData_bind (blamesData_stringData heap b) fun _ => blamesData_pure _

@[simp] theorem blamesData_characterOf (value : Value) : BlamesData (characterOf value) := by
  unfold characterOf
  split <;> simp [Fault.ofData]

@[simp] theorem blamesData_charactersBytes (items : Array Value) :
    BlamesData (charactersBytes items) := by
  unfold charactersBytes
  rw [← Array.foldlM_toList]
  refine blamesData_bind (blamesData_foldlM (fun text item => ?_) _ _) fun _ => blamesData_pure _
  exact blamesData_bind (blamesData_characterOf item) fun _ => blamesData_pure _

/-- What is joined to a string must be made of characters. -/
@[simp] theorem blamesData_partBytes (heap : Heap) (part : Value) :
    BlamesData (partBytes heap part) := by
  unfold partBytes
  split
  · exact blamesData_pure _
  · exact blamesData_bind (heap.blamesData_elements _) blamesData_charactersBytes
  · exact blamesData_charactersBytes _
  · split
    · exact blamesData_pure _
    · exact blamesData_throw.mpr rfl

@[simp] theorem raisesData_concat (parts : List Value) : RaisesData (concat parts) :=
  raisesData_bind
    (HeapM.raisesData_look fun heap => blamesData_mapM (blamesData_partBytes heap) parts)
    fun _ => HeapM.raisesData_make _

@[simp] theorem blamesData_checkBound (bound : Value) : BlamesData (checkBound bound) := by
  unfold checkBound
  split <;> simp [Fault.ofData]

/-- A range outside the sequence is refused as data. -/
@[simp] theorem raisesData_range (sequence start stop : Value) (size : Nat) :
    RaisesData (range sequence start stop size) := by
  unfold range
  split
  · exact raisesData_pure _
  · exact raisesData_bind (HeapM.raisesData_make _) fun _ => raisesData_throw rfl

/-- Cutting out blames the sequence or the range. -/
@[simp] theorem raisesData_substring (sequence start stop : Value) :
    RaisesData (substring sequence start stop) := by
  refine raisesData_bind (HeapM.raisesData_look fun _ => blamesData_checkBound start) fun _ => ?_
  refine raisesData_bind (HeapM.raisesData_look fun _ => blamesData_checkBound stop) fun _ => ?_
  split
  · refine raisesData_bind (HeapM.raisesData_look fun _ => blamesData_ok _) fun bytes => ?_
    exact raisesData_bind (raisesData_range _ start stop _) fun _ => HeapM.raisesData_make _
  · refine raisesData_bind (HeapM.raisesData_look fun _ => blamesData_ok _) fun items => ?_
    exact raisesData_bind (raisesData_range _ start stop _) fun _ => HeapM.raisesData_make _
  · exact raisesData_throw rfl

@[simp] theorem raisesData_changeCase (letterCase : LetterCase) (value : Value) :
    RaisesData (changeCase letterCase value) := by
  unfold changeCase
  split
  · split
    · exact raisesData_pure _
    · exact raisesData_throw rfl
  · exact HeapM.raisesData_make _
  · exact raisesData_throw rfl

end Sequences

namespace Arithmetic

/-- A result that does not fit is refused as data. -/
@[simp] theorem blamesData_checked (operation : ArithmeticOp) (result : Int) :
    BlamesData (checked operation result) := by
  unfold checked
  dsimp only
  split <;> simp [Fault.ofData]

/-- An operation on two numbers blames the data when it does so on the numbers. -/
theorem blamesData_onNumbers {α : Type} (a b : Value) {rest : Number → Number → Except Fault α}
    (blames : ∀ x y, BlamesData (rest x y)) :
    BlamesData (do rest (← a.expectNumber) (← b.expectNumber)) :=
  blamesData_bind a.blamesData_expectNumber fun x =>
    blamesData_bind b.blamesData_expectNumber fun y => blames x y

/-- Arithmetic blames operands that are no numbers, and results that do not fit. -/
@[simp] theorem blamesData_apply (operation : ArithmeticOp) (onIntegers : Int → Int → Int)
    (onDoubles : Double → Double → Double) (a b : Value) :
    BlamesData (apply operation onIntegers onDoubles a b) := by
  refine blamesData_onNumbers a b fun x y => ?_
  split
  · exact blamesData_checked _ _
  · exact blamesData_pure _

/-- Division also blames a divisor of zero. -/
@[simp] theorem blamesData_quo (a b : Value) : BlamesData (quo a b) := by
  refine blamesData_onNumbers a b fun x y => ?_
  split
  · split
    · exact blamesData_throw.mpr rfl
    · exact blamesData_checked _ _
  · exact blamesData_pure _

@[simp] theorem blamesData_integerOperand (value : Value) : BlamesData (integerOperand value) := by
  unfold integerOperand
  split <;> simp [Fault.ofData]

@[simp] theorem blamesData_rem (a b : Value) : BlamesData (rem a b) := by
  refine blamesData_bind (blamesData_integerOperand a) fun x => ?_
  refine blamesData_bind (blamesData_integerOperand b) fun y => ?_
  split
  · exact blamesData_bind (blamesData_throw.mpr rfl) fun _ => blamesData_pure _
  · exact blamesData_pure _

@[simp] theorem blamesData_negate (n : Value) : BlamesData (negate n) := by
  refine blamesData_bind n.blamesData_expectNumber fun number => ?_
  split
  · exact blamesData_checked _ _
  · exact blamesData_pure _

@[simp] theorem blamesData_compare? (a b : Value) : BlamesData (compare? a b) := by
  refine blamesData_onNumbers a b fun x y => ?_
  split <;> exact blamesData_pure _

@[simp] theorem blamesData_holds (accept : Ordering → Bool) (a b : Value) :
    BlamesData (holds accept a b) :=
  blamesData_bind (blamesData_compare? a b) fun _ => blamesData_pure _

@[simp] theorem blamesData_pick (wanted : Ordering) (a b : Value) :
    BlamesData (pick wanted a b) := by
  refine blamesData_bind (blamesData_compare? a b) fun order => ?_
  split
  · exact blamesData_pure _
  · dsimp only
    split
    · exact blamesData_pure _
    · exact blamesData_bind (Value.blamesData_expectNumber _) fun _ => blamesData_pure _

end Arithmetic

/-! Making functions out of values. -/

/-- Reading an item of a parameter list blames the list. -/
@[simp] theorem ParameterList.blamesData_accept (value : Value) (state : Part × ParameterList)
    (item : Value) : BlamesData (accept (.malformedParameters value) state item) := by
  unfold accept
  repeat' split
  all_goals simp [Fault.ofData]

/-- So does reading all of it. -/
@[simp] theorem ParameterList.blamesData_ofValue (heap : Heap) (value : Value) :
    BlamesData (ofValue heap value) := by
  have collected : ∀ items : Array Value, BlamesData (do
      let state ← items.foldlM (accept (.malformedParameters value)) (.required, {})
      if state.1 = .rest then throw (.malformedParameters value)
      else return state.2.reverse) := by
    intro items
    rw [← Array.foldlM_toList]
    refine blamesData_bind (blamesData_foldlM (blamesData_accept value) _ _) fun state => ?_
    split
    · exact blamesData_throw.mpr rfl
    · exact blamesData_pure _
  unfold ofValue
  dsimp only
  split
  · exact collected _
  · exact blamesData_bind (blamesData_throw.mpr rfl) collected

/-- Decoding refuses the number that it was given. -/
theorem Descriptor.eq_of_decode_eq_error {raw : Int64} {error : CodeError}
    (refused : decode raw = .error error) : error = .invalidDescriptor raw := by
  unfold decode at refused
  dsimp only at refused
  split at refused
  · cases refused
  · exact (Except.error.inj refused).symm

/-- Parameters that cannot be read are refused as data. -/
@[simp] theorem Parameters.blamesData_ofValue (heap : Heap) (value : Value) :
    BlamesData (ofValue heap value) := by
  unfold ofValue
  split
  · split
    · exact blamesData_ok _
    · rename_i error refused
      rw [Descriptor.eq_of_decode_eq_error refused]
      exact blamesData_error.mpr rfl
  · split
    · exact blamesData_map _ (ParameterList.blamesData_ofValue heap _)
    · exact blamesData_error.mpr rfl

namespace Functions

@[simp] theorem blamesData_documentation (heap : Heap) (value : Value) :
    BlamesData (documentation heap value) := by
  unfold documentation
  split
  · exact blamesData_ok _
  · split <;> simp [Fault.ofData]
  · exact blamesData_error.mpr rfl

@[simp] theorem blamesData_codeOf (heap : Heap) (value : Value) :
    BlamesData (codeOf heap value) := by
  unfold codeOf
  split <;> simp [Fault.ofData]

@[simp] theorem blamesData_constantsOf (heap : Heap) (value : Value) :
    BlamesData (constantsOf heap value) := by
  unfold constantsOf
  split
  · exact blamesData_ok _
  · split <;> simp [Fault.ofData]

@[simp] theorem blamesData_wholeNumber (value : Value) : BlamesData (wholeNumber value) := by
  refine blamesData_bind value.blamesData_expectInt fun n => ?_
  split
  · exact blamesData_pure _
  · exact blamesData_throw.mpr rfl

/-- A whole number is read as it is. -/
theorem wholeNumber_of_nonneg {n : Int64} (whole : 0 ≤ n.toInt) :
    wholeNumber (.int n) = .ok n.toInt.toNat :=
  if_pos whole

/-- A value that is a natural number is an integer that is not negative. -/
theorem wholeNumber_eq_ok {value : Value} {count : Nat} (whole : wholeNumber value = .ok count) :
    ∃ n : Int64, value = .int n ∧ n.toInt = count := by
  cases value with
  | int n =>
      by_cases negative : 0 ≤ n.toInt
      · rw [wholeNumber_of_nonneg negative] at whole
        cases whole
        exact ⟨n, rfl, by omega⟩
      · have refused : wholeNumber (.int n) = .error (.wrongType .wholenump (.int n)) :=
          if_neg negative
        rw [refused] at whole
        cases whole
  | nil | float | symbol | cons | vector | string | function | primitive => cases whole

/-- Making a function blames its parameters. -/
@[simp] theorem raisesData_make (parameters : Value) (code : Bytes) (constants : Array Value)
    (maxDepth : Nat) (documentation : Option Documentation) (interactive : Option Value) :
    RaisesData (make parameters code constants maxDepth documentation interactive) :=
  raisesData_bind
    (HeapM.raisesData_look fun heap => Parameters.blamesData_ofValue heap parameters)
    fun _ => HeapM.raisesData_make _

/-- The built-in function that makes functions blames its arguments. -/
@[simp] theorem raisesData_makeByteCode
    (parameters code constants depth documentation interactive : Value) :
    RaisesData (makeByteCode parameters code constants depth documentation interactive) := by
  unfold makeByteCode
  refine raisesData_bind (HeapM.raisesData_look fun heap => blamesData_codeOf heap code) ?_
  intro bytes
  refine raisesData_bind
    (HeapM.raisesData_look fun heap => blamesData_constantsOf heap constants) ?_
  intro items
  refine raisesData_bind (HeapM.raisesData_look fun _ => blamesData_wholeNumber depth) ?_
  intro maxDepth
  by_cases absent : documentation.isNil = true
  · simp only [absent, if_true, pure_bind]
    exact raisesData_make _ _ _ _ _ _
  · simp only [absent, map_eq_pure_bind, bind_assoc, pure_bind]
    exact raisesData_bind
      (HeapM.raisesData_look fun heap => blamesData_documentation heap documentation)
      fun text => raisesData_make _ _ _ _ _ _

end Functions

namespace Environment

/-- A variable without a value is refused as data. -/
@[simp] theorem blamesData_symbolValue (env : Environment) (symbol : Symbol) :
    BlamesData (env.symbolValue symbol) := by
  unfold symbolValue
  split <;> simp [Fault.ofData]

/-- Setting blames a symbol that is constant. -/
@[simp] theorem raisesData_set (symbol : Symbol) (value : Value) :
    RaisesData (set symbol value) := by
  intro env
  unfold set
  split <;> simp [Fault.ofData]

@[simp] theorem raisesData_setBound (symbol : Symbol) (value : Value) :
    RaisesData (setBound symbol value) := by
  intro env
  unfold setBound
  split
  · simp [Fault.ofData]
  · split <;> simp [Fault.ofData]

@[simp] theorem raisesData_makeUnbound (symbol : Symbol) : RaisesData (makeUnbound symbol) := by
  intro env
  unfold makeUnbound
  split <;> simp [Fault.ofData]

/-- Binding blames a symbol that is constant. -/
theorem raisesData_bind (symbol : Symbol) (value : Value) :
    RaisesData (Environment.bind symbol value) := by
  intro env
  unfold Environment.bind
  split <;> simp [Fault.ofData]

/-- Defining blames the symbol `nil`, which cannot have a definition. -/
@[simp] theorem raisesData_fset (symbol : Symbol) (definition : Value) :
    RaisesData (fset symbol definition) := by
  intro env
  unfold fset
  dsimp only
  split
  · simp
  · split <;> simp [Fault.ofData]

/-- Putting a property does not fail. -/
@[simp] theorem raisesData_put (symbol : Symbol) (key value : Value) :
    RaisesData (put symbol key value) :=
  fun _ => blamesData_ok ()

end Environment

namespace Cells

/-- An operation on the cells of a symbol blames the data when it does so once the
symbol is known. -/
theorem raisesData_onSymbol {α : Type} (symbol : Value) {rest : Symbol → Action α}
    (raises : ∀ name, RaisesData (rest name)) :
    RaisesData (do rest (← Action.ofExcept symbol.expectSymbol)) :=
  raisesData_bind (Action.raisesData_ofExcept symbol.blamesData_expectSymbol) raises

@[simp] theorem raisesData_symbolValue (symbol : Value) : RaisesData (symbolValue symbol) :=
  raisesData_onSymbol symbol fun name =>
    Action.raisesData_ask fun env => env.blamesData_symbolValue name

@[simp] theorem raisesData_symbolFunction (symbol : Value) : RaisesData (symbolFunction symbol) :=
  raisesData_onSymbol symbol fun _ => Action.raisesData_ask fun _ => blamesData_ok _

@[simp] theorem raisesData_set (symbol value : Value) : RaisesData (set symbol value) :=
  raisesData_onSymbol symbol fun name =>
    raisesData_bind (Action.raisesData_onEnv (Environment.raisesData_set name value))
      fun _ => raisesData_pure value

@[simp] theorem raisesData_fset (symbol definition : Value) : RaisesData (fset symbol definition) :=
  raisesData_onSymbol symbol fun name =>
    raisesData_bind
      (Action.raisesData_onEnv (Environment.raisesData_fset name definition))
      fun _ => raisesData_pure definition

@[simp] theorem raisesData_makeUnbound (symbol : Value) : RaisesData (makeUnbound symbol) :=
  raisesData_onSymbol symbol fun name =>
    raisesData_bind (Action.raisesData_onEnv (Environment.raisesData_makeUnbound name))
      fun _ => raisesData_pure symbol

@[simp] theorem raisesData_isBound (symbol : Value) : RaisesData (isBound symbol) :=
  raisesData_onSymbol symbol fun _ => Action.raisesData_ask fun _ => blamesData_ok _

@[simp] theorem raisesData_isFunctionBound (symbol : Value) : RaisesData (isFunctionBound symbol) :=
  raisesData_onSymbol symbol fun _ => Action.raisesData_ask fun _ => blamesData_ok _

@[simp] theorem raisesData_get (symbol key : Value) : RaisesData (get symbol key) :=
  raisesData_onSymbol symbol fun _ => Action.raisesData_ask fun _ => blamesData_ok _

@[simp] theorem raisesData_put (symbol key value : Value) : RaisesData (put symbol key value) :=
  raisesData_onSymbol symbol fun name =>
    raisesData_bind (Action.raisesData_onEnv (Environment.raisesData_put name key value))
      fun _ => raisesData_pure value

@[simp] theorem raisesData_propertyList (symbol : Value) : RaisesData (propertyList symbol) :=
  raisesData_onSymbol symbol fun _ =>
    raisesData_bind (Action.raisesData_ask fun _ => blamesData_ok _)
      fun _ => Action.raisesData_onHeap (HeapM.raisesData_make _)

end Cells

namespace Primitive

/-- Joining several lists blames one of them. -/
@[simp] theorem raisesData_nconcAll (lists : List Value) : RaisesData (nconcAll lists) :=
  raisesData_foldlM (fun joined list => Lists.raisesData_nconc list joined) _ _

/-- A difference blames its numbers. -/
@[simp] theorem blamesData_difference (numbers : List Value) : BlamesData (difference numbers) := by
  unfold difference
  split
  · exact blamesData_ok _
  · exact Arithmetic.blamesData_negate _
  · exact blamesData_foldlM (fun made number => Arithmetic.blamesData_apply _ _ _ made number) _ _

/-- The call asks for a vector that no memory can hold. -/
def Oversized (primitive : Primitive) (arguments : List Value) : Prop :=
  primitive = .makeVector ∧ ∃ (size : Int64) (value : Value),
    arguments = [.int size, value] ∧ maxVectorSize < size.toInt

/-- The size of a vector is refused for the data, or stops the machine because no memory can hold
the vector. -/
theorem vectorSize_eq_error {size : Value} {fault : Fault}
    (refused : vectorSize size = .error fault) :
    fault.ofData = true ∨ fault.isFatal = true ∧
      ∃ count : Int64, size = .int count ∧ maxVectorSize < count.toInt := by
  unfold vectorSize at refused
  cases whole : Functions.wholeNumber size with
  | error other =>
      rw [whole] at refused
      cases refused
      exact .inl (Functions.blamesData_wholeNumber size _ whole)
  | ok count =>
      rw [whole] at refused
      simp only [bind, Except.bind] at refused
      split at refused
      · cases refused
      · rename_i tooMany
        obtain ⟨number, rfl, same⟩ := Functions.wholeNumber_eq_ok whole
        cases refused
        exact .inr ⟨rfl, number, rfl, by omega⟩

/-- A vector that no memory can hold stops the machine, and nothing is changed. -/
theorem newVector_of_oversized {size : Int64} (tooMany : maxVectorSize < size.toInt)
    (value : Value) (heap : Heap) :
    newVector (.int size) value heap =
      (.error (.capacityExceeded size.toInt.toNat), heap) := by
  have whole : Functions.wholeNumber (.int size) = .ok size.toInt.toNat :=
    Functions.wholeNumber_of_nonneg (by omega)
  have refused : vectorSize (.int size) = .error (.capacityExceeded size.toInt.toNat) := by
    rw [vectorSize, whole]
    exact if_neg (by omega)
  rw [newVector, run_bind, HeapM.look, refused]

end Primitive

end ByteLisp
