import ByteLisp.Machine.Calling
import ByteLisp.Proofs.DynamicScope
import ByteLisp.Proofs.NewObjects

/-!
# The two conventions pass the same values

A call binds the parameters of a function by name, or lays the arguments out on the operand
stack of the new activation. For parameters that describe the same shape both accept the
same numbers of arguments, and what one binds to a name the other puts into the slot with
the number of that name.
-/

namespace ByteLisp

/-! ## Binding names -/

namespace Environment

/-- The environment with names bound to values in turn; names without a value are bound to
`nil`. -/
def boundTo (env : Environment) : List Symbol → List Value → Environment
  | [], _ => env
  | name :: names, values => (env.bound name (values.headD .nil)).boundTo names values.tail

/-- Binding some names and then others is binding them all. -/
theorem boundTo_append (env : Environment) (first second : List Symbol) (values : List Value) :
    env.boundTo (first ++ second) values =
      (env.boundTo first values).boundTo second (values.drop first.length) := by
  induction first generalizing env values with
  | nil => rfl
  | cons name names ih =>
      rw [List.cons_append, boundTo, ih, List.drop_tail]
      rfl

/-- Only the values at the places of the names count. -/
theorem boundTo_congr {names : List Symbol} {left right : List Value} (env : Environment)
    (same : ∀ place, place < names.length → left.getD place .nil = right.getD place .nil) :
    env.boundTo names left = env.boundTo names right := by
  induction names generalizing env left right with
  | nil => rfl
  | cons name names ih =>
      have first : left.headD .nil = right.headD .nil := by
        simpa [List.headD_eq_head?_getD, List.head?_eq_getElem?] using
          same 0 (Nat.zero_lt_succ _)
      rw [boundTo, boundTo, first]
      refine ih _ fun place inside => ?_
      simpa [List.getElem?_tail] using same (place + 1) (Nat.succ_lt_succ inside)

/-- The cells of all other symbols stay as they are. -/
theorem cell_boundTo_of_notMem {names : List Symbol} {symbol : Symbol} (other : symbol ∉ names)
    (env : Environment) (values : List Value) :
    (env.boundTo names values).cell symbol = env.cell symbol := by
  induction names generalizing env values with
  | nil => rfl
  | cons name names ih =>
      simp only [List.mem_cons, not_or] at other
      obtain ⟨different, others⟩ := other
      rw [boundTo, ih others, cell_bound, if_neg (Ne.symm different)]

/-- Of distinct names each has the value at its own place. -/
theorem cell_boundTo {names : List Symbol} (distinct : names.Nodup) {place : Nat} {name : Symbol}
    (named : names[place]? = some name) (env : Environment) (values : List Value) :
    (env.boundTo names values).cell name = some (values.getD place .nil) := by
  induction names generalizing env values place with
  | nil => cases named
  | cons first names ih =>
      obtain ⟨apart, others⟩ := List.nodup_cons.mp distinct
      cases place with
      | zero =>
          cases named
          rw [boundTo, cell_boundTo_of_notMem apart, cell_bound, if_pos rfl]
          simp [List.headD_eq_head?_getD, List.head?_eq_getElem?]
      | succ place =>
          rw [boundTo, ih others named]
          simp [List.getElem?_tail]

/-- Each binding remembers the cell of its own name from before them all. -/
theorem bindings_boundTo {names : List Symbol} (distinct : names.Nodup) (env : Environment)
    (values : List Value) :
    (env.boundTo names values).bindings.toList =
      env.bindings.toList ++ names.map fun name => ⟨name, env.cell name⟩ := by
  induction names generalizing env values with
  | nil => simp [boundTo]
  | cons first names ih =>
      obtain ⟨apart, others⟩ := List.nodup_cons.mp distinct
      have cells : names.map (fun name => Binding.mk name
            ((env.bound first (values.headD .nil)).cell name)) =
          names.map fun name => ⟨name, env.cell name⟩ := by
        refine List.map_congr_left fun name isIn => ?_
        have different : first ≠ name := by
          rintro rfl
          exact apart isIn
        rw [cell_bound, if_neg different]
      rw [boundTo, ih others, bindings_bound, cells]
      simp

end Environment

namespace Calling

/-- Binding names that are no constants never fails. -/
theorem bindNames_eq {names : List Symbol} (bindable : ∀ name ∈ names, name.isConstant = false)
    (arguments : List Value) (memory : Memory) :
    bindNames names arguments memory =
      (.ok (arguments.drop names.length),
        { memory with env := memory.env.boundTo names arguments }) := by
  induction names generalizing arguments memory with
  | nil => rfl
  | cons name names ih =>
      have first : Environment.bind name (arguments.headD .nil) memory.env =
          (.ok (), memory.env.bound name (arguments.headD .nil)) := by
        rw [Environment.bind_eq, if_neg (by simp [bindable name])]
      have others := ih (fun other isIn => bindable other (List.mem_cons_of_mem _ isIn))
        arguments.tail { memory with env := memory.env.bound name (arguments.headD .nil) }
      rw [bindNames, run_bind]
      simp only [Action.onEnv, first]
      rw [others, List.drop_tail]
      rfl

/-! ## Laying out arguments -/

/-- Pushing values puts them on top of what is there, when there is room for all of them. -/
theorem pushAll_of_room {values : List Value} {stack : OperandStack}
    (held : stack.depth ≤ stack.highWater)
    (room : stack.depth + values.length ≤ stack.maxDepth) :
    pushAll values stack =
      (.ok (), ⟨stack.slots ++ values.toArray, stack.maxDepth,
        max stack.highWater (stack.depth + values.length)⟩) := by
  induction values generalizing stack with
  | nil =>
      obtain ⟨slots, maxDepth, highWater⟩ := stack
      simp only [OperandStack.depth] at held
      simp [pushAll, OperandStack.depth, held]
      rfl
  | cons value values ih =>
      obtain ⟨slots, maxDepth, highWater⟩ := stack
      simp only [OperandStack.depth, List.length_cons] at held room ih ⊢
      have inTurn : pushAll (value :: values) = (do OperandStack.push value; pushAll values) := rfl
      have first : OperandStack.push value ⟨slots, maxDepth, highWater⟩ =
          (.ok (), ⟨slots.push value, maxDepth, max highWater (slots.size + 1)⟩) := by
        rw [OperandStack.push, if_pos (by omega)]
      rw [inTurn, run_bind, first]
      dsimp only
      rw [ih (by simp only [Array.size_push]; omega) (by simp only [Array.size_push]; omega)]
      simp only [Array.size_push]
      congr 2
      · simp
      · omega

/-- Pushing more values than there is room for fails with the limit. -/
theorem pushAll_of_full {values : List Value} {stack : OperandStack}
    (within : stack.depth ≤ stack.maxDepth)
    (full : stack.maxDepth < stack.depth + values.length) :
    (pushAll values stack).1 = .error (.stackDepthExceeded stack.maxDepth) := by
  induction values generalizing stack with
  | nil => simp only [List.length_nil] at full; omega
  | cons value values ih =>
      obtain ⟨slots, maxDepth, highWater⟩ := stack
      simp only [OperandStack.depth, List.length_cons] at within full ih ⊢
      have inTurn : pushAll (value :: values) = (do OperandStack.push value; pushAll values) := rfl
      rw [inTurn, run_bind, OperandStack.push]
      by_cases room : slots.size < maxDepth
      · rw [if_pos room]
        dsimp only
        exact ih (by simp only [Array.size_push]; omega) (by simp only [Array.size_push]; omega)
      · rw [if_neg room]

/-- The slots of the required and optional parameters: an argument each, and `nil` where
the arguments are too few. -/
def plainSlots (total : Nat) (arguments : List Value) : List Value :=
  arguments.take total ++ List.replicate (total - arguments.length) .nil

/-- Every plain parameter has its slot. -/
@[simp] theorem length_plainSlots (total : Nat) (arguments : List Value) :
    (plainSlots total arguments).length = total := by
  simp only [plainSlots, List.length_append, List.length_take, List.length_replicate]
  omega

/-- A slot holds the argument of its place, or `nil` where there is none. -/
theorem getElem?_plainSlots {total place : Nat} (inside : place < total)
    (arguments : List Value) :
    (plainSlots total arguments)[place]? = some (arguments.getD place .nil) := by
  unfold plainSlots
  by_cases supplied : place < arguments.length
  · rw [List.getElem?_append_left (by simp only [List.length_take]; omega)]
    simp [inside, supplied]
  · rw [List.getElem?_append_right (by simp only [List.length_take]; omega)]
    have within : place - min total arguments.length < total - arguments.length := by omega
    simp [within, List.getElem?_eq_none (Nat.le_of_not_lt supplied)]

/-- What the slots of a function with lexical parameters hold: the arguments, `nil` where
they are too few, and in the last slot a list of those that are too many. -/
structure Fills (descriptor : Descriptor) (arguments : List Value) (heap : Heap)
    (values : List Value) : Prop where
  length : values.length = descriptor.frameSlots
  plain : ∀ place, place < descriptor.total.toNat →
    values[place]? = some (arguments.getD place .nil)
  rest : descriptor.rest = true → ∃ further, values[descriptor.total.toNat]? = some further ∧
    heap.elements further = .ok (arguments.drop descriptor.total.toNat).toArray

/-- Without a slot for further arguments only the plain slots are filled. -/
theorem fills_plain {descriptor : Descriptor} (none : descriptor.rest = false)
    (arguments : List Value) (heap : Heap) :
    Fills descriptor arguments heap (plainSlots descriptor.total.toNat arguments) where
  length := by simp [Descriptor.frameSlots, none]
  plain place inside := getElem?_plainSlots inside arguments
  rest collects := by
    rw [none] at collects
    cases collects

/-- The slot for further arguments comes after the plain ones. -/
theorem fills_rest {descriptor : Descriptor} (collects : descriptor.rest = true)
    (arguments : List Value) (heap : Heap) :
    Fills descriptor arguments (heap.list (arguments.drop descriptor.total.toNat)).2
      (plainSlots descriptor.total.toNat arguments ++
        [(heap.list (arguments.drop descriptor.total.toNat)).1]) where
  length := by simp [Descriptor.frameSlots, collects]
  plain place inside := by
    rw [List.getElem?_append_left (by simpa using inside), getElem?_plainSlots inside]
  rest _ := by
    refine ⟨_, ?_, Heap.elements_list (.refl _)⟩
    rw [List.getElem?_append_right (by simp)]
    simp

/-! ## Both conventions -/

end Calling

/-- The descriptor has the shape of the parameter list: as many required names, as many
names that need no list of further arguments, and the same provision for one. -/
structure Descriptor.Describes (descriptor : Descriptor) (list : ParameterList) : Prop where
  required : list.required.length = descriptor.required.toNat
  total : list.required.length + list.optional.length = descriptor.total.toNat
  rest : list.rest.isSome = descriptor.rest

namespace Calling

variable {descriptor : Descriptor} {list : ParameterList}

/-- Parameters of one shape accept the same numbers of arguments. -/
theorem arity_of_describes (describes : descriptor.Describes list) :
    list.arity = descriptor.arity := by
  obtain ⟨required, total, rest⟩ := describes
  cases further : list.rest with
  | none =>
      rw [further] at rest
      simp [ParameterList.arity, Descriptor.arity, further, ← rest, required, ← total]
  | some name =>
      rw [further] at rest
      simp [ParameterList.arity, Descriptor.arity, further, ← rest, required]

/-- Parameters of one shape have as many names as slots. -/
theorem frameSlots_of_describes (describes : descriptor.Describes list) :
    list.bindingCount = descriptor.frameSlots := by
  simp only [ParameterList.bindingCount, Descriptor.frameSlots, describes.total, describes.rest]

/-- Arguments of an accepted number fill the slots of the one convention with the values
that the other one binds to the names. -/
theorem fills_and_binds (describes : descriptor.Describes list)
    (bindable : ∀ name ∈ list.names, name.isConstant = false) (callee : Value)
    (arguments : List Value) (memory : Memory)
    (accepted : list.arity.accepts arguments.length = true) :
    ∃ values heap, Fills descriptor arguments heap values ∧
      slots descriptor arguments memory.heap = (.ok values, heap) ∧
      bindDynamic callee list arguments memory =
        (.ok list.bindingCount, ⟨heap, memory.env.boundTo list.names values⟩) := by
  have plainNames : ∀ name ∈ list.required ++ list.optional, name.isConstant = false :=
    fun name isIn => bindable name (List.mem_append_left _ isIn)
  have count : (list.required ++ list.optional).length = descriptor.total.toNat := by
    rw [List.length_append, describes.total]
  have bound := bindNames_eq plainNames arguments memory
  have padded : ∀ further, memory.env.boundTo (list.required ++ list.optional) arguments =
      memory.env.boundTo (list.required ++ list.optional)
        (plainSlots descriptor.total.toNat arguments ++ further) := by
    refine fun further => Environment.boundTo_congr _ fun place inside => ?_
    rw [count] at inside
    have padding : (plainSlots descriptor.total.toNat arguments ++ further)[place]? =
        some (arguments.getD place .nil) := by
      rw [List.getElem?_append_left (by simpa using inside), getElem?_plainSlots inside]
    simp [padding]
  rw [count] at bound
  cases rest : list.rest with
  | none =>
      have none : descriptor.rest = false := by rw [← describes.rest, rest]; rfl
      have names : list.names = list.required ++ list.optional := by
        simp [ParameterList.names, rest]
      refine ⟨_, _, fills_plain none arguments memory.heap, ?_, ?_⟩
      · simp only [slots, none]
        rfl
      · rw [names, ← List.append_nil (plainSlots _ _), ← padded]
        simp only [bindDynamic, accepted, rest, Bool.not_true, Bool.false_eq_true, if_false]
        rw [run_bind, bound]
        rfl
  | some name =>
      have collects : descriptor.rest = true := by rw [← describes.rest, rest]; rfl
      have names : list.names = list.required ++ list.optional ++ [name] := by
        simp [ParameterList.names, rest]
      have last : name.isConstant = false := bindable name (by simp [names])
      refine ⟨_, _, fills_rest collects arguments memory.heap, ?_, ?_⟩
      · simp only [slots, collects, if_true]
        rfl
      · rw [names, Environment.boundTo_append, ← padded, count,
          List.drop_left' (length_plainSlots _ _)]
        simp only [bindDynamic, accepted, rest, Bool.not_true, Bool.false_eq_true, if_false]
        rw [run_bind, bound]
        simp only [run_bind, Action.onHeap, HeapM.make, Action.onEnv, Environment.bind_eq, last,
          Bool.false_eq_true, if_false]
        rfl

/-- Both conventions refuse a number of arguments that is not accepted, and change nothing. -/
theorem refuse_of_not_accepts (describes : descriptor.Describes list) (callee : Value)
    (arguments : List Value) (maxDepth : Nat) (memory : Memory)
    (refused : descriptor.arity.accepts arguments.length = false) :
    bindDynamic callee list arguments memory =
        (.error (.arityMismatch callee descriptor.arity arguments.length), memory) ∧
      Action.onHeap (pushLexical callee descriptor arguments maxDepth) memory =
        (.error (.arityMismatch callee descriptor.arity arguments.length), memory) := by
  constructor
  · simp only [bindDynamic, arity_of_describes describes, refused, Bool.not_false, if_true]
    rfl
  · simp only [pushLexical, refused, Bool.not_false, if_true, Action.onHeap]
    rfl

/-- Values that fill the slots are laid out from the bottom of a new operand stack, when
they all fit on it. -/
theorem pushLexical_of_slots {arguments values : List Value} {heap after : Heap}
    (accepted : descriptor.arity.accepts arguments.length = true)
    (filled : slots descriptor arguments heap = (.ok values, after)) (callee : Value)
    (maxDepth : Nat) :
    pushLexical callee descriptor arguments maxDepth heap =
      if values.length ≤ maxDepth then
        (.ok ⟨values.toArray, maxDepth, values.length⟩, after)
      else (.error (.stackDepthExceeded maxDepth), after) := by
  have depth : ({ maxDepth } : OperandStack).depth = 0 := rfl
  simp only [pushLexical, accepted, Bool.not_true, Bool.false_eq_true, if_false]
  rw [run_bind, filled]
  dsimp only
  split
  · rename_i fits
    have room : ({ maxDepth } : OperandStack).depth + values.length ≤ maxDepth := by omega
    rw [pushAll_of_room (Nat.le_of_eq depth) room]
    simp [depth]
    rfl
  · rename_i tooMany
    have within : ({ maxDepth } : OperandStack).depth ≤ maxDepth := by omega
    have failed := pushAll_of_full within
      (show maxDepth < ({ maxDepth } : OperandStack).depth + values.length by omega)
    rcases pushed : pushAll values { maxDepth } with ⟨fault | _, left⟩
    · rw [pushed] at failed
      cases failed
      rfl
    · rw [pushed] at failed
      cases failed

/-- For parameters of one shape with distinct names, passing by name and passing by position
agree on every list of arguments. Both refuse a wrong number of them in the same way and
leave the memory as it was; otherwise each name is bound to the value that the slot of its
number holds, counted from the bottom. The slots need as much room as the descriptor says,
and want of room is the only other reason to fail. -/
theorem conventions_agree (callee : Value) (descriptor : Descriptor) (list : ParameterList)
    (arguments : List Value) (maxDepth : Nat) (memory : Memory)
    (made : ParameterList.ofNames list.required list.optional list.rest = .ok list)
    (describes : descriptor.Describes list) (distinct : list.names.Nodup) :
    (descriptor.arity.accepts arguments.length = false ∧
      bindDynamic callee list arguments memory =
        (.error (.arityMismatch callee descriptor.arity arguments.length), memory) ∧
      Action.onHeap (pushLexical callee descriptor arguments maxDepth) memory =
        (.error (.arityMismatch callee descriptor.arity arguments.length), memory)) ∨
    (descriptor.arity.accepts arguments.length = true ∧ ∃ values heap env,
      Fills descriptor arguments heap values ∧
      bindDynamic callee list arguments memory = (.ok list.bindingCount, ⟨heap, env⟩) ∧
      (∀ (place : Nat) (name : Symbol), list.names[place]? = some name →
        env.lookup name = values[place]?) ∧
      (∀ symbol, symbol ∉ list.names → env.cell symbol = memory.env.cell symbol) ∧
      env.bindings.toList = memory.env.bindings.toList ++
        list.names.map (fun name => ⟨name, memory.env.cell name⟩) ∧
      (descriptor.frameSlots ≤ maxDepth → ∃ stack,
        Action.onHeap (pushLexical callee descriptor arguments maxDepth) memory =
          (.ok stack, ⟨heap, memory.env⟩) ∧
        stack.slots = values.toArray) ∧
      (maxDepth < descriptor.frameSlots →
        Action.onHeap (pushLexical callee descriptor arguments maxDepth) memory =
          (.error (.stackDepthExceeded maxDepth), ⟨heap, memory.env⟩))) := by
  have bindable := ParameterList.isConstant_of_ofNames made
  cases accepted : descriptor.arity.accepts arguments.length with
  | false => exact .inl ⟨rfl, refuse_of_not_accepts describes callee _ _ memory accepted⟩
  | true =>
      obtain ⟨values, heap, fills, filled, bound⟩ := fills_and_binds describes bindable callee
        arguments memory (by rw [arity_of_describes describes, accepted])
      have laid := pushLexical_of_slots accepted filled callee maxDepth
      refine .inr ⟨rfl, values, heap, _, fills, bound, ?_, ?_, ?_, ?_, ?_⟩
      · intro place name named
        have plain : name.isConstant = false := bindable name (List.mem_of_getElem? named)
        have inside : place < values.length := by
          rw [fills.length, ← frameSlots_of_describes describes, ← list.length_names]
          exact (List.getElem?_eq_some_iff.mp named).1
        have looked := Environment.cell_boundTo distinct named memory.env values
        simpa [Environment.lookup, Environment.cell, plain, inside] using looked
      · exact fun symbol other => Environment.cell_boundTo_of_notMem other _ _
      · exact Environment.bindings_boundTo distinct _ _
      · intro fits
        rw [if_pos (fills.length ▸ fits)] at laid
        exact ⟨⟨values.toArray, maxDepth, values.length⟩, by simp only [Action.onHeap, laid], rfl⟩
      · intro tooMany
        rw [if_neg (by rw [fills.length]; omega)] at laid
        simp only [Action.onHeap, laid]

/-- A parameter list with a name of each kind. -/
def threeNames : ParameterList where
  required := [⟨"a"⟩]
  optional := [⟨"b"⟩]
  rest := some ⟨"c"⟩

/-- With a single argument the optional name is bound to `nil`, as its slot is, and the last
name to what the third slot holds. -/
theorem threeNames_agree_on_one_argument :
    ∃ values heap env, Fills ⟨1, 2, true⟩ [.int 7] heap values ∧
      bindDynamic .nil threeNames [.int 7] {} = (.ok 3, ⟨heap, env⟩) ∧
      env.lookup ⟨"b"⟩ = some .nil ∧ env.lookup ⟨"c"⟩ = values[2]? ∧
      ∃ stack, Action.onHeap (pushLexical .nil ⟨1, 2, true⟩ [.int 7] 3) {} =
          (.ok stack, ⟨heap, {}⟩) ∧
        stack.slots = values.toArray := by
  obtain ⟨refused, _⟩ | ⟨_, values, heap, env, fills, bound, names, _, _, laid, _⟩ :=
    conventions_agree .nil ⟨1, 2, true⟩ threeNames [.int 7] 3 {} rfl ⟨rfl, rfl, rfl⟩ (by decide)
  · cases refused
  · have second := names 1 ⟨"b"⟩ rfl
    rw [fills.plain 1 (by decide)] at second
    exact ⟨values, heap, env, fills, bound, second, names 2 ⟨"c"⟩ rfl, laid (by decide)⟩

end Calling

end ByteLisp
