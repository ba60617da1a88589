import ByteLisp.Proofs.Assignments
import ByteLisp.Proofs.WrittenParameters

/-!
# Actions that leave the bindings alone

The operations behind instructions and built-in functions neither make nor undo a binding.
They leave functions as they are, and the functions that they make have parameters that were
read from a value. `Action.Steady` says both of an action, and `Primitive.steady_call` says it
of every built-in function. So what reading ensures of parameters holds of all functions, among
it that the parameters can be bound and that they can be written down and read again.
-/

namespace ByteLisp

/-- The parameters have no name that is a constant, so that all of them can be bound. -/
def Parameters.Bindable : Parameters → Prop
  | .dynamic list => ∀ name ∈ list.names, name.isConstant = false
  | .lexical _ => True

/-- Reading refuses parameters that cannot be bound. -/
theorem Parameters.Written.bindable {parameters : Parameters} (written : parameters.Written) :
    parameters.Bindable := by
  cases parameters with
  | dynamic list => exact fun name isIn => (written.plain name isIn).bindable
  | lexical descriptor => trivial

namespace Heap

/-- The parameters of every function can be bound. -/
def Bindable (heap : Heap) : Prop :=
  ∀ address, (heap.function address).parameters.Bindable

/-- The parameters of every function were read from a value. -/
def Written (heap : Heap) : Prop :=
  ∀ address, (heap.function address).parameters.Written

/-- The functions of the first heap are the same in the second. The parameters of those that are
new there were read from a value. -/
def KeepsFunctions (before after : Heap) : Prop :=
  ∀ address, after.function address = before.function address ∨
    (after.function address).parameters.Written

variable {heap before middle after : Heap}

/-- A heap of functions that can be bound: an address past the end stands for one of them. -/
theorem bindable_of_forall_mem
    (each : ∀ function ∈ heap.functions.cells, function.parameters.Bindable) : heap.Bindable := by
  intro address
  unfold function Store.read
  rw [Array.getD_eq_getD_getElem?]
  cases found : heap.functions.cells[address]? with
  | none => trivial
  | some function => exact each function (Array.mem_of_getElem? found)

/-- In a heap without functions every address stands for the empty function. -/
theorem written_empty : ({} : Heap).Written :=
  fun _ => ⟨{}, .int 0, rfl⟩

namespace KeepsFunctions

/-- A heap keeps its own functions. -/
theorem refl (heap : Heap) : heap.KeepsFunctions heap :=
  fun _ => .inl rfl

/-- What keeps functions step after step keeps them in all. -/
theorem trans (first : before.KeepsFunctions middle) (second : middle.KeepsFunctions after) :
    before.KeepsFunctions after := by
  intro address
  obtain same | written := second address
  · rw [same]
    exact first address
  · exact .inr written

/-- What does not touch the store of functions keeps them. -/
theorem of_functions_eq (same : after.functions = before.functions) :
    before.KeepsFunctions after := by
  intro address
  unfold function
  rw [same]
  exact .inl rfl

/-- A new function adds its own parameters and nothing else. -/
theorem newFunction (heap : Heap) {function : Function} (written : function.parameters.Written) :
    heap.KeepsFunctions (heap.newFunction function).2 := by
  intro address
  unfold Heap.function
  rw [show (heap.newFunction function).2.functions = heap.functions.push function from rfl,
    Store.read_push]
  split
  · exact .inr written
  · exact .inl rfl

/-- That all parameters were read from values stays so. -/
theorem written (kept : before.KeepsFunctions after) (written : before.Written) :
    after.Written := by
  intro address
  obtain same | new := kept address
  · rw [same]
    exact written address
  · exact new

/-- That all parameters can be bound stays so. -/
theorem bindable (kept : before.KeepsFunctions after) (bindable : before.Bindable) :
    after.Bindable := by
  intro address
  obtain same | new := kept address
  · rw [same]
    exact bindable address
  · exact new.bindable

end KeepsFunctions

/-- Making a list does not touch the store of functions. -/
theorem functions_listWithTail (heap : Heap) (items : List Value) (tail : Value) :
    (heap.listWithTail items tail).2.functions = heap.functions := by
  have added : ∀ (rest : List Value) (made : Value × Heap),
      (rest.foldl (fun made item => made.2.cons item made.1) made).2.functions =
        made.2.functions := by
    intro rest
    induction rest with
    | nil => intro made; rfl
    | cons item rest ih => intro made; exact ih _
  exact added items.reverse (tail, heap)

/-- Neither does turning links around. -/
theorem functions_relink (heap : Heap) (bound : Nat) (tail reversed : Value) :
    (heap.relink bound tail reversed).2.2.functions = heap.functions := by
  fun_induction relink heap bound tail reversed with
  | case1 | case3 => rfl
  | case2 heap reversed cell bound next ih => exact ih

end Heap

/-! ## Operations on the heap -/

/-- The program leaves the functions in the heap of its state as they are, and makes only such
whose parameters were read from a value. -/
def KeepsFunctions {σ α : Type} (heap : σ → Heap) (program : ExceptT Fault (StateM σ) α) : Prop :=
  ∀ state, (heap state).KeepsFunctions (heap (program state).2)

section Programs

variable {σ α β : Type} {heap : σ → Heap}

@[simp] theorem keepsFunctions_pure (value : α) :
    KeepsFunctions heap (pure value : ExceptT Fault (StateM σ) α) :=
  fun _ => .refl _

@[simp] theorem keepsFunctions_throw (fault : Fault) :
    KeepsFunctions heap (throw fault : ExceptT Fault (StateM σ) α) :=
  fun _ => .refl _

/-- Programs in a row keep functions when each of them does. -/
theorem keepsFunctions_bind {program : ExceptT Fault (StateM σ) α}
    {rest : α → ExceptT Fault (StateM σ) β} (first : KeepsFunctions heap program)
    (next : ∀ value, KeepsFunctions heap (rest value)) :
    KeepsFunctions heap (program >>= rest) := by
  intro state
  have middle := first state
  rw [run_bind]
  rcases ran : program state with ⟨fault | value, after⟩
  · rwa [ran] at middle
  · rw [ran] at middle
    exact middle.trans (next value after)

/-- So does a fold when each of its steps does. -/
theorem keepsFunctions_foldlM {step : β → α → ExceptT Fault (StateM σ) β}
    (each : ∀ made item, KeepsFunctions heap (step made item)) (items : List α) (start : β) :
    KeepsFunctions heap (items.foldlM step start) := by
  induction items generalizing start with
  | nil => exact keepsFunctions_pure start
  | cons item items ih =>
      rw [List.foldlM_cons]
      exact keepsFunctions_bind (each start item) ih

end Programs

/-- The operation leaves functions as they are, and makes only such whose parameters were read
from a value. -/
abbrev HeapM.KeepsFunctions {α : Type} (operation : HeapM α) : Prop :=
  ByteLisp.KeepsFunctions (fun heap => heap) operation

namespace HeapM

variable {α : Type}

/-- Looking keeps functions. -/
@[simp] theorem keepsFunctions_look (question : Heap → Except Fault α) :
    KeepsFunctions (look question) :=
  fun heap => .refl heap

/-- So does making an object of another kind. -/
theorem keepsFunctions_make {creation : Heap → α × Heap}
    (same : ∀ heap, (creation heap).2.functions = heap.functions) :
    KeepsFunctions (make creation) :=
  fun heap => .of_functions_eq (same heap)

@[simp] theorem keepsFunctions_cons (car cdr : Value) : KeepsFunctions (make (·.cons car cdr)) :=
  keepsFunctions_make fun _ => rfl

@[simp] theorem keepsFunctions_list (items : List Value) : KeepsFunctions (make (·.list items)) :=
  keepsFunctions_make fun heap => heap.functions_listWithTail items .nil

@[simp] theorem keepsFunctions_newVector (items : Array Value) :
    KeepsFunctions (make (·.newVector items)) :=
  keepsFunctions_make fun _ => rfl

/-- So does changing an object of another kind. -/
theorem keepsFunctions_change {mutation : Heap → Heap}
    (same : ∀ heap, (mutation heap).functions = heap.functions) :
    KeepsFunctions (change mutation) :=
  fun heap => .of_functions_eq (same heap)

end HeapM

open HeapM

namespace Lists

/-- Reversing in place changes the links of a list, or a vector. -/
@[simp] theorem keepsFunctions_nreverse (sequence : Value) :
    HeapM.KeepsFunctions (nreverse sequence) := by
  intro heap
  unfold nreverse
  split
  · exact .of_functions_eq rfl
  · exact .of_functions_eq (heap.functions_relink _ _ _)

@[simp] theorem keepsFunctions_reverse (sequence : Value) : (reverse sequence).KeepsFunctions := by
  unfold reverse
  split
  · exact keepsFunctions_make fun _ => rfl
  · exact keepsFunctions_bind (keepsFunctions_look _) fun items => keepsFunctions_list _

/-- Joining sets one link at most. -/
@[simp] theorem keepsFunctions_nconc (first second : Value) :
    HeapM.KeepsFunctions (nconc first second) := by
  unfold nconc
  split
  · refine keepsFunctions_bind (fun heap => .refl heap) fun heap => ?_
    split
    · exact keepsFunctions_bind (keepsFunctions_change fun _ => rfl) fun _ => keepsFunctions_pure _
    · exact keepsFunctions_throw _
  · split
    · exact keepsFunctions_pure _
    · exact keepsFunctions_throw _

@[simp] theorem keepsFunctions_setcar (cell value : Value) :
    HeapM.KeepsFunctions (setcar cell value) := by
  unfold setcar
  split
  · exact keepsFunctions_bind (keepsFunctions_change fun _ => rfl) fun _ => keepsFunctions_pure _
  · exact keepsFunctions_throw _

@[simp] theorem keepsFunctions_setcdr (cell value : Value) :
    HeapM.KeepsFunctions (setcdr cell value) := by
  unfold setcdr
  split
  · exact keepsFunctions_bind (keepsFunctions_change fun _ => rfl) fun _ => keepsFunctions_pure _
  · exact keepsFunctions_throw _

end Lists

namespace Sequences

/-- Setting an element changes a vector. -/
@[simp] theorem keepsFunctions_aset (array index value : Value) :
    HeapM.KeepsFunctions (aset array index value) := by
  unfold aset
  split
  · refine keepsFunctions_bind (keepsFunctions_look _) fun _ => ?_
    exact keepsFunctions_bind (keepsFunctions_change fun _ => rfl) fun _ => keepsFunctions_pure _
  · exact keepsFunctions_throw _

@[simp] theorem keepsFunctions_concat (parts : List Value) : HeapM.KeepsFunctions (concat parts) :=
  keepsFunctions_bind (keepsFunctions_look _) fun _ => keepsFunctions_make fun _ => rfl

/-- A range that is refused makes a list for the report. -/
theorem keepsFunctions_range (sequence start stop : Value) (size : Nat) :
    HeapM.KeepsFunctions (range sequence start stop size) := by
  unfold range
  split
  · exact keepsFunctions_pure _
  · exact keepsFunctions_bind (keepsFunctions_list _) fun _ => keepsFunctions_throw _

/-- Cutting out makes a string or a vector. -/
@[simp] theorem keepsFunctions_substring (sequence start stop : Value) :
    HeapM.KeepsFunctions (substring sequence start stop) := by
  refine keepsFunctions_bind (keepsFunctions_look _) fun _ => ?_
  refine keepsFunctions_bind (keepsFunctions_look _) fun _ => ?_
  split
  · refine keepsFunctions_bind (keepsFunctions_look _) fun bytes => ?_
    exact keepsFunctions_bind (keepsFunctions_range _ _ _ _) fun _ =>
      keepsFunctions_make fun _ => rfl
  · refine keepsFunctions_bind (keepsFunctions_look _) fun items => ?_
    exact keepsFunctions_bind (keepsFunctions_range _ _ _ _) fun _ =>
      keepsFunctions_make fun _ => rfl
  · exact keepsFunctions_throw _

@[simp] theorem keepsFunctions_changeCase (letterCase : LetterCase) (value : Value) :
    HeapM.KeepsFunctions (changeCase letterCase value) := by
  unfold changeCase
  split
  · split
    · exact keepsFunctions_pure _
    · exact keepsFunctions_throw _
  · exact keepsFunctions_make fun _ => rfl
  · exact keepsFunctions_throw _

end Sequences

namespace Functions

/-- A new function has parameters that were read from a value. -/
theorem keepsFunctions_make (parameters : Value) (code : Bytes) (constants : Array Value)
    (maxDepth : Nat) (documentation : Option Documentation) (interactive : Option Value) :
    HeapM.KeepsFunctions (make parameters code constants maxDepth documentation interactive) := by
  intro heap
  simp only [make, run_bind, HeapM.look]
  cases read : Parameters.ofValue heap parameters with
  | error fault => exact .refl heap
  | ok given => exact .newFunction heap ⟨heap, parameters, read⟩

/-- So has one that the built-in function makes. -/
@[simp] theorem keepsFunctions_makeByteCode (parameters code constants depth documentation
    interactive : Value) :
    (makeByteCode parameters code constants depth documentation interactive).KeepsFunctions := by
  refine keepsFunctions_bind (keepsFunctions_look _) fun bytes => ?_
  refine keepsFunctions_bind (keepsFunctions_look _) fun items => ?_
  refine keepsFunctions_bind (keepsFunctions_look _) fun maxDepth => ?_
  dsimp only
  split
  · exact keepsFunctions_bind (keepsFunctions_pure _) fun text => keepsFunctions_make _ _ _ _ _ _
  · rw [map_eq_pure_bind]
    refine keepsFunctions_bind ?_ fun text => keepsFunctions_make _ _ _ _ _ _
    exact keepsFunctions_bind (keepsFunctions_look _) fun _ => keepsFunctions_pure _

end Functions

/-! ## Actions on the memory -/

/-- The action neither makes nor undoes a binding. It leaves functions as they are, and makes only
such whose parameters were read from a value. -/
structure Action.Steady {α : Type} (action : Action α) : Prop where
  bindings : ∀ memory, (action memory).2.env.bindings = memory.env.bindings
  functions : KeepsFunctions Memory.heap action

namespace Action

variable {α β : Type}

@[simp] theorem steady_pure (value : α) : Steady (pure value : Action α) :=
  ⟨fun _ => rfl, fun memory => .refl memory.heap⟩

@[simp] theorem steady_throw (fault : Fault) : Steady (throw fault : Action α) :=
  ⟨fun _ => rfl, fun memory => .refl memory.heap⟩

@[simp] theorem steady_ofExcept (result : Except Fault α) : Steady (ofExcept result) :=
  ⟨fun _ => rfl, fun memory => .refl memory.heap⟩

@[simp] theorem steady_look (question : Heap → Except Fault α) : Steady (look question) :=
  ⟨fun _ => rfl, fun memory => .refl memory.heap⟩

@[simp] theorem steady_ask (question : Environment → Except Fault α) : Steady (ask question) :=
  ⟨fun _ => rfl, fun memory => .refl memory.heap⟩

/-- An operation on the heap makes no binding, so it is steady if it keeps functions. -/
@[simp] theorem steady_onHeap {operation : HeapM α} (keeps : operation.KeepsFunctions) :
    Steady (onHeap operation) :=
  ⟨fun _ => rfl, fun memory => keeps memory.heap⟩

/-- An operation on the environment keeps functions, so it is steady if it makes no binding. -/
theorem steady_onEnv {operation : EnvM α}
    (same : ∀ env, (operation env).2.bindings = env.bindings) : Steady (onEnv operation) :=
  ⟨fun memory => same memory.env, fun memory => .refl memory.heap⟩

/-- Actions in a row are steady when each of them is. -/
theorem steady_bind {action : Action α} {rest : α → Action β} (first : Steady action)
    (next : ∀ value, Steady (rest value)) : Steady (action >>= rest) := by
  constructor
  · intro memory
    have same := first.bindings memory
    rw [run_bind]
    rcases ran : action memory with ⟨fault | value, after⟩
    · rwa [ran] at same
    · rw [ran] at same
      exact ((next value).bindings after).trans same
  · exact keepsFunctions_bind first.functions fun value => (next value).functions

end Action

open ByteLisp.Action

namespace Environment

/-- Setting a variable makes no binding. -/
theorem bindings_set (symbol : Symbol) (value : Value) (env : Environment) :
    (set symbol value env).2.bindings = env.bindings := by
  unfold set
  split <;> simp

/-- Neither does assigning one. -/
theorem bindings_setBound (symbol : Symbol) (value : Value) (env : Environment) :
    (setBound symbol value env).2.bindings = env.bindings := by
  unfold setBound
  split
  · rfl
  · split <;> simp

/-- Neither does making one unbound. -/
theorem bindings_makeUnbound (symbol : Symbol) (env : Environment) :
    (makeUnbound symbol env).2.bindings = env.bindings := by
  unfold makeUnbound
  split <;> simp

/-- Neither does defining a function. -/
theorem bindings_fset (symbol : Symbol) (definition : Value) (env : Environment) :
    (fset symbol definition env).2.bindings = env.bindings := by
  unfold fset
  dsimp only
  split
  · rfl
  · split <;> rfl

/-- Neither does putting a property. -/
theorem bindings_put (symbol : Symbol) (key value : Value) (env : Environment) :
    (put symbol key value env).2.bindings = env.bindings :=
  rfl

end Environment

namespace Cells

/-- A change of the cells of a symbol that is given as a value. -/
theorem steady_change {operation : Symbol → EnvM Unit}
    (same : ∀ name env, (operation name env).2.bindings = env.bindings) (symbol value : Value) :
    Steady (do
      let name ← Action.ofExcept symbol.expectSymbol
      onEnv (operation name)
      return value) :=
  steady_bind (steady_ofExcept _) fun name =>
    steady_bind (steady_onEnv (same name)) fun _ => steady_pure _

@[simp] theorem steady_set (symbol value : Value) : Steady (set symbol value) :=
  steady_change (fun name => Environment.bindings_set name value) symbol value

@[simp] theorem steady_fset (symbol definition : Value) : Steady (fset symbol definition) :=
  steady_change (fun name => Environment.bindings_fset name definition) symbol definition

@[simp] theorem steady_makeUnbound (symbol : Value) : Steady (makeUnbound symbol) :=
  steady_change Environment.bindings_makeUnbound symbol symbol

@[simp] theorem steady_put (symbol key value : Value) : Steady (put symbol key value) :=
  steady_change (fun name => Environment.bindings_put name key value) symbol value

/-- A question about the cells of a symbol that is given as a value. -/
theorem steady_question {α : Type} (question : Symbol → Environment → Except Fault α)
    (symbol : Value) :
    Steady (do
      let name ← Action.ofExcept symbol.expectSymbol
      ask (question name)) :=
  steady_bind (steady_ofExcept _) fun _ => steady_ask _

@[simp] theorem steady_symbolValue (symbol : Value) : Steady (symbolValue symbol) :=
  steady_question _ symbol

@[simp] theorem steady_symbolFunction (symbol : Value) : Steady (symbolFunction symbol) :=
  steady_question _ symbol

@[simp] theorem steady_isBound (symbol : Value) : Steady (isBound symbol) :=
  steady_question _ symbol

@[simp] theorem steady_isFunctionBound (symbol : Value) : Steady (isFunctionBound symbol) :=
  steady_question _ symbol

@[simp] theorem steady_get (symbol key : Value) : Steady (get symbol key) :=
  steady_question _ symbol

@[simp] theorem steady_propertyList (symbol : Value) : Steady (propertyList symbol) :=
  steady_bind (steady_ofExcept _) fun _ => steady_bind (steady_ask _) fun _ =>
    steady_onHeap (keepsFunctions_list _)

end Cells

namespace Primitive

/-- Joining several lists sets links. -/
@[simp] theorem keepsFunctions_nconcAll (lists : List Value) : (nconcAll lists).KeepsFunctions :=
  keepsFunctions_foldlM (fun joined list => Lists.keepsFunctions_nconc list joined) _ _

/-- A new vector is no function. -/
@[simp] theorem keepsFunctions_makeVector (size value : Value) :
    HeapM.KeepsFunctions (newVector size value) :=
  keepsFunctions_bind (keepsFunctions_look _) fun _ => keepsFunctions_newVector _

/-- Every built-in function is steady, whatever its arguments are. -/
theorem steady_apply (primitive : Primitive) (arguments : List Value) :
    Steady (primitive.apply arguments) := by
  unfold apply
  split
  all_goals simp [Sequences.upcase, Sequences.downcase]

/-- A built-in function neither makes nor undoes a binding. -/
theorem steady_call (primitive : Primitive) (arguments : List Value) :
    Steady (primitive.call arguments) := by
  unfold call
  split
  · exact steady_apply primitive arguments
  · exact steady_throw _

end Primitive

end ByteLisp
