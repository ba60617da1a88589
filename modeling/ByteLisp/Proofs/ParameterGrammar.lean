import ByteLisp.Heap.Parameters

/-!
# The grammar of parameter lists

A parameter list is written as required names, the optional marker with any number of names
behind it, and the rest marker with one name behind it. Each of the two sections may be left
out. `ParameterList.Sections` is a list of this form, and reading accepts these forms and no
others: it keeps track of the section that it is in, so that what has been read so far is always
the beginning of such a form. What is refused is malformed, or it has a constant where a name
belongs.
-/

namespace ByteLisp

namespace ParameterList

/-- The name stands for a parameter in a parameter list. -/
structure Plain (name : Symbol) : Prop where
  notOptional : name ≠ optionalMarker
  notRest : name ≠ restMarker
  bindable : name.isConstant = false

/-- A symbol that is not a constant stands for itself as a value. -/
theorem ofSymbol_of_bindable {name : Symbol} (bindable : name.isConstant = false) :
    Value.ofSymbol name = .symbol name := by
  rw [Value.ofSymbol, if_neg]
  intro isNil
  have constant := Symbol.isConstant_of_isNil isNil
  rw [bindable] at constant
  cases constant

/-- An element that is read as a bindable name is a plain symbol. -/
theorem eq_symbol_of_symbol? {item : Value} {name : Symbol} (isName : item.symbol? = some name)
    (bindable : name.isConstant = false) : item = .symbol name := by
  unfold Value.symbol? at isName
  split at isName <;> cases isName
  · cases bindable
  · rfl

/-! ## One element -/

/-- What it comes to that the next element of a written parameter list is read. -/
inductive Accepted : Symbol → Part × ParameterList → Part × ParameterList → Prop where
  /-- The optional names begin. -/
  | toOptional {list : ParameterList} :
      Accepted optionalMarker (.required, list) (.optional, list)
  /-- The name for all further arguments is next. -/
  | toRest {part : Part} {list : ParameterList} (early : part = .required ∨ part = .optional) :
      Accepted restMarker (part, list) (.rest, list)
  | required {name : Symbol} {list : ParameterList} (plain : Plain name) :
      Accepted name (.required, list) (.required, { list with required := name :: list.required })
  | optional {name : Symbol} {list : ParameterList} (plain : Plain name) :
      Accepted name (.optional, list) (.optional, { list with optional := name :: list.optional })
  | rest {name : Symbol} {list : ParameterList} (plain : Plain name) :
      Accepted name (.rest, list) (.done, { list with rest := some name })

variable {malformed : Fault} {item : Value} {state after : Part × ParameterList}

/-- The marker of optional parameters is no constant. -/
theorem bindable_optionalMarker : optionalMarker.isConstant = false := by decide

/-- Neither is the marker of further arguments. -/
theorem bindable_restMarker : restMarker.isConstant = false := by decide

/-- The reader takes an item exactly when the grammar allows it there. -/
theorem accept_eq_ok_iff :
    accept malformed state item = .ok after ↔
      ∃ name, item = .symbol name ∧ Accepted name state after := by
  constructor
  · intro accepted
    obtain ⟨part, list⟩ := state
    unfold accept at accepted
    dsimp only at accepted
    split at accepted
    · cases accepted
    rename_i name isName
    split at accepted
    · rename_i isOptional
      subst isOptional
      refine ⟨_, eq_symbol_of_symbol? isName bindable_optionalMarker, ?_⟩
      cases part <;> cases accepted
      exact .toOptional
    rename_i notOptional
    split at accepted
    · rename_i isRest
      subst isRest
      refine ⟨_, eq_symbol_of_symbol? isName bindable_restMarker, ?_⟩
      cases part <;> cases accepted
      · exact .toRest (.inl rfl)
      · exact .toRest (.inr rfl)
    rename_i notRest
    split at accepted
    · cases accepted
    split at accepted
    · cases accepted
    rename_i bindable
    have plain : Plain name := ⟨notOptional, notRest, by simpa using bindable⟩
    refine ⟨name, eq_symbol_of_symbol? isName plain.bindable, ?_⟩
    cases part <;> cases accepted
    · exact .required plain
    · exact .optional plain
    · exact .rest plain
    · contradiction
  · rintro ⟨name, rfl, accepted⟩
    unfold accept
    cases accepted with
    | toOptional => simp [Value.symbol?]
    | toRest early =>
        have different : restMarker ≠ optionalMarker := by decide
        obtain rfl | rfl := early <;> simp [Value.symbol?, different]
    | required plain | optional plain | rest plain =>
        simp [Value.symbol?, plain.notOptional, plain.notRest, plain.bindable]

/-- What is refused is malformed, or it is a constant where a name belongs. -/
theorem accept_eq_error {fault : Fault} (refused : accept malformed state item = .error fault) :
    fault = malformed ∨ ∃ name, fault = .settingConstant name ∧ item.symbol? = some name ∧
      name.isConstant = true ∧ state.1 ≠ .done := by
  obtain ⟨part, list⟩ := state
  unfold accept at refused
  dsimp only at refused
  split at refused
  · cases refused
    exact .inl rfl
  rename_i name isName
  split at refused
  · cases part <;> cases refused <;> exact .inl rfl
  split at refused
  · cases part <;> cases refused <;> exact .inl rfl
  split at refused
  · cases refused
    exact .inl rfl
  rename_i unfinished
  split at refused
  · rename_i constant
    cases refused
    exact .inr ⟨name, rfl, isName, constant, unfinished⟩
  · cases part <;> cases refused

/-- A constant where a name belongs is refused as one. -/
theorem accept_constant {part : Part} {list : ParameterList} {name : Symbol}
    (isName : item.symbol? = some name) (constant : name.isConstant = true)
    (unfinished : part ≠ .done) :
    accept malformed (part, list) item = .error (.settingConstant name) := by
  have notOptional : name ≠ optionalMarker := by
    rintro rfl
    cases bindable_optionalMarker.symm.trans constant
  have notRest : name ≠ restMarker := by
    rintro rfl
    cases bindable_restMarker.symm.trans constant
  unfold accept
  simp [isName, notOptional, notRest, unfinished, constant]

/-! ## All elements -/

/-- Reading comes to a state when it reads the elements one by one. -/
theorem foldlM_accept_append {items : List Value} {middle : Part × ParameterList}
    (front : items.foldlM (accept malformed) state = .ok middle) (behind : List Value) :
    (items ++ behind).foldlM (accept malformed) state =
      behind.foldlM (accept malformed) middle := by
  rw [List.foldlM_append, front]
  rfl

/-- Where reading fails there is a first element that is refused. -/
theorem foldlM_accept_eq_error_iff {items : List Value} {fault : Fault} :
    items.foldlM (accept malformed) state = .error fault ↔
      ∃ front item behind middle, items = front ++ item :: behind ∧
        front.foldlM (accept malformed) state = .ok middle ∧
        accept malformed middle item = .error fault := by
  constructor
  · intro failed
    induction items generalizing state with
    | nil => cases failed
    | cons item items ih =>
        rw [List.foldlM_cons] at failed
        cases first : accept malformed state item with
        | error other =>
            rw [first] at failed
            cases failed
            exact ⟨[], item, items, state, rfl, rfl, first⟩
        | ok next =>
            rw [first] at failed
            obtain ⟨front, refused, behind, middle, rfl, read, atFault⟩ := ih failed
            refine ⟨item :: front, refused, behind, middle, rfl, ?_, atFault⟩
            rw [List.foldlM_cons, first]
            exact read
  · rintro ⟨front, item, behind, middle, rfl, read, atFault⟩
    rw [foldlM_accept_append read, List.foldlM_cons, atFault]
    rfl

/-! ## Sections -/

/-- A parameter list as it is written. The section of optional names may be empty. -/
structure Sections where
  required : List Symbol
  optional : Option (List Symbol)
  rest : Option Symbol
  plain : ∀ name ∈ required ++ optional.getD [] ++ rest.toList, Plain name

namespace Sections

/-- The marker and the names of the optional section. -/
def optionalPart (sections : Sections) : List Symbol :=
  match sections.optional with
  | some names => optionalMarker :: names
  | none => []

/-- The marker and the name of the rest section. -/
def restPart (sections : Sections) : List Symbol :=
  match sections.rest with
  | some name => [restMarker, name]
  | none => []

/-- The sections one after the other. -/
def symbols (sections : Sections) : List Symbol :=
  sections.required ++ sections.optionalPart ++ sections.restPart

/-- The names of the sections. -/
def parameters (sections : Sections) : ParameterList where
  required := sections.required
  optional := sections.optional.getD []
  rest := sections.rest

end Sections

/-! ## The written form -/

/-- Neither the names nor the markers are constants. -/
theorem bindable_of_mem_toSymbols {list : ParameterList}
    (bindable : ∀ name ∈ list.names, name.isConstant = false) :
    ∀ symbol ∈ list.toSymbols, symbol.isConstant = false := by
  intro symbol isIn
  have known : symbol ∈ list.names ∨ symbol = optionalMarker ∨ symbol = restMarker := by
    obtain ⟨required, optional, rest⟩ := list
    cases optional <;> cases rest <;> simp [toSymbols, names] at isIn ⊢ <;> grind
  obtain isName | rfl | rfl := known
  · exact bindable symbol isName
  · exact bindable_optionalMarker
  · exact bindable_restMarker

/-- As values, the names and the markers are symbols. -/
theorem map_ofSymbol_toSymbols {list : ParameterList}
    (bindable : ∀ name ∈ list.names, name.isConstant = false) :
    list.toSymbols.map Value.ofSymbol = list.toSymbols.map .symbol :=
  List.map_congr_left fun symbol isIn =>
    ofSymbol_of_bindable (bindable_of_mem_toSymbols bindable symbol isIn)

namespace Sections

/-- The sections of a parameter list; a section without names is left out. -/
def ofList (list : ParameterList) (plain : ∀ name ∈ list.names, Plain name) : Sections where
  required := list.required
  optional := if list.optional.isEmpty then none else some list.optional
  rest := list.rest
  plain := by
    obtain ⟨required, optional, rest⟩ := list
    cases optional <;> exact plain

variable {list : ParameterList} (plain : ∀ name ∈ list.names, Plain name)

/-- Sections made from a list have its parameters. -/
@[simp] theorem parameters_ofList : (ofList list plain).parameters = list := by
  obtain ⟨required, optional, rest⟩ := list
  cases optional <;> rfl

/-- Sections made from a list are written as it is. -/
@[simp] theorem symbols_ofList : (ofList list plain).symbols = list.toSymbols := by
  obtain ⟨required, optional, rest⟩ := list
  cases optional <;> cases rest <;> rfl

/-- The written form of what sections say is these sections, without an empty one. -/
theorem toSymbols_parameters (sections : Sections) :
    sections.parameters.toSymbols =
      if sections.optional = some [] then sections.symbols.erase optionalMarker
      else sections.symbols := by
  obtain ⟨required, optional, rest, plain⟩ := sections
  cases optional with
  | none =>
      rw [if_neg (by simp)]
      rfl
  | some names =>
      cases names with
      | nil =>
          have notIn : optionalMarker ∉ required := fun isIn =>
            (plain optionalMarker (by simp [isIn])).notOptional rfl
          rw [if_pos rfl, symbols, optionalPart, List.append_assoc,
            List.erase_append_right _ notIn, List.cons_append, List.erase_cons_head]
          cases rest <;> simp [parameters, toSymbols, restPart]
      | cons name names =>
          rw [if_neg (by simp)]
          rfl

end Sections

/-! ## What has been read -/

/-- The state that reading is in when it has read the symbols, the beginning of a parameter list.
Names are collected the latest first. -/
inductive Beginning : List Symbol → Part × ParameterList → Prop where
  | required {names : List Symbol} (plain : ∀ name ∈ names, Plain name) :
      Beginning names (.required, ⟨names.reverse, [], none⟩)
  | optional {required names : List Symbol} (plain : ∀ name ∈ required ++ names, Plain name) :
      Beginning (required ++ optionalMarker :: names)
        (.optional, ⟨required.reverse, names.reverse, none⟩)
  | rest {front : List Symbol} {part : Part} {list : ParameterList}
      (before : Beginning front (part, list)) (early : part = .required ∨ part = .optional) :
      Beginning (front ++ [restMarker]) (.rest, list)
  | done {front : List Symbol} {list : ParameterList} {name : Symbol}
      (before : Beginning front (.rest, list)) (plain : Plain name) :
      Beginning (front ++ [name]) (.done, { list with rest := some name })

/-- One more element that is read leads to a longer beginning. -/
theorem Beginning.step {front : List Symbol} {name : Symbol} (before : Beginning front state)
    (accepted : Accepted name state after) : Beginning (front ++ [name]) after := by
  cases accepted with
  | toOptional =>
      cases before with
      | required plain => exact .optional (by simpa using plain)
  | toRest early => exact .rest before early
  | required isPlain =>
      cases before with
      | required plain =>
          have more : ∀ other ∈ front ++ [name], Plain other :=
            List.forall_mem_append.mpr ⟨plain, List.forall_mem_singleton.mpr isPlain⟩
          simpa using Beginning.required more
  | optional isPlain =>
      cases before with
      | @optional required names plain =>
          have more : ∀ other ∈ required ++ (names ++ [name]), Plain other := by
            rw [← List.append_assoc]
            exact List.forall_mem_append.mpr ⟨plain, List.forall_mem_singleton.mpr isPlain⟩
          simpa using Beginning.optional more
  | rest isPlain => exact .done before isPlain

/-- What is read from a beginning on leads to a longer one. -/
theorem Beginning.run {front : List Symbol} {items : List Value} (before : Beginning front state)
    (read : items.foldlM (accept malformed) state = .ok after) :
    ∃ symbols : List Symbol, items = symbols.map .symbol ∧ Beginning (front ++ symbols) after := by
  induction items generalizing front state with
  | nil =>
      cases read
      exact ⟨[], rfl, by rwa [List.append_nil]⟩
  | cons item items ih =>
      rw [List.foldlM_cons] at read
      cases first : accept malformed state item with
      | error fault =>
          rw [first] at read
          cases read
      | ok next =>
          rw [first] at read
          obtain ⟨name, rfl, accepted⟩ := accept_eq_ok_iff.mp first
          obtain ⟨symbols, rfl, longer⟩ := ih (before.step accepted) read
          exact ⟨name :: symbols, rfl, by simpa using longer⟩

/-- Reading goes on behind an element that is accepted. -/
theorem Accepted.foldlM_cons {name : Symbol} (accepted : Accepted name state after)
    (malformed : Fault) (symbols : List Symbol) :
    ((name :: symbols).map .symbol).foldlM (accept malformed) state =
      (symbols.map .symbol).foldlM (accept malformed) after := by
  have first : accept malformed state (.symbol name) = .ok after :=
    accept_eq_ok_iff.mpr ⟨name, rfl, accepted⟩
  rw [List.map_cons, List.foldlM_cons, first]
  rfl

/-- Reading plain names collects them, the latest first. -/
theorem foldlM_plain (malformed : Fault) (part : Part) (grow : List Symbol → ParameterList)
    (step : ∀ name taken, Plain name →
      Accepted name (part, grow taken) (part, grow (name :: taken)))
    {names : List Symbol} (plain : ∀ name ∈ names, Plain name) (taken : List Symbol) :
    (names.map .symbol).foldlM (accept malformed) (part, grow taken) =
      .ok (part, grow (names.reverse ++ taken)) := by
  induction names generalizing taken with
  | nil => rfl
  | cons name names ih =>
      obtain ⟨isPlain, others⟩ := List.forall_mem_cons.mp plain
      rw [(step name taken isPlain).foldlM_cons, List.reverse_cons, List.append_assoc]
      exact ih others (name :: taken)

/-- A beginning is read, up to the state that it leads to. -/
theorem Beginning.read {symbols : List Symbol} (malformed : Fault)
    (beginning : Beginning symbols state) :
    (symbols.map .symbol).foldlM (accept malformed) (.required, {}) = .ok state := by
  induction beginning with
  | required plain =>
      have names := foldlM_plain malformed .required (fun taken => ⟨taken, [], none⟩)
        (fun _ _ isPlain => .required isPlain) plain []
      rwa [List.append_nil] at names
  | @optional required names plain =>
      obtain ⟨plainRequired, plainOptional⟩ := List.forall_mem_append.mp plain
      have first := foldlM_plain malformed .required (fun taken => ⟨taken, [], none⟩)
        (fun _ _ isPlain => .required isPlain) plainRequired []
      have second := foldlM_plain malformed .optional (fun taken => ⟨required.reverse, taken, none⟩)
        (fun _ _ isPlain => .optional isPlain) plainOptional []
      rw [List.append_nil] at first second
      rw [List.map_append, foldlM_accept_append first, Accepted.toOptional.foldlM_cons, second]
  | rest before early ih =>
      rw [List.map_append, foldlM_accept_append ih, (Accepted.toRest early).foldlM_cons]
      rfl
  | done before plain ih =>
      rw [List.map_append, foldlM_accept_append ih, (Accepted.rest plain).foldlM_cons]
      rfl

/-- What is read, and the state it leads to. -/
theorem foldlM_accept_eq_ok_iff {items : List Value} :
    items.foldlM (accept malformed) (.required, {}) = .ok state ↔
      ∃ symbols : List Symbol, items = symbols.map .symbol ∧ Beginning symbols state := by
  constructor
  · intro read
    exact Beginning.run (.required (List.forall_mem_nil _)) read
  · rintro ⟨symbols, rfl, beginning⟩
    exact beginning.read malformed

/-! ## Beginnings and sections -/

/-- The sections with another rest. -/
def Sections.withRest (sections : Sections) (rest : Option Symbol)
    (isPlain : ∀ name ∈ rest, Plain name) : Sections where
  required := sections.required
  optional := sections.optional
  rest := rest
  plain := by
    refine List.forall_mem_append.mpr ⟨fun name isIn => ?_, by simpa using isPlain⟩
    exact sections.plain name (List.mem_append_left _ isIn)

/-- The rest comes last. -/
theorem Sections.symbols_withRest {sections : Sections} (noRest : sections.rest = none)
    {name : Symbol} (isPlain : ∀ other ∈ some name, Plain other) :
    (sections.withRest (some name) isPlain).symbols =
      sections.symbols ++ [restMarker] ++ [name] := by
  simp [symbols, withRest, restPart, optionalPart, noRest]

/-- Up to the rest, what has been read are sections. -/
theorem Beginning.exists_sections_of_early {symbols : List Symbol} {part : Part}
    {list : ParameterList} (beginning : Beginning symbols (part, list))
    (early : part = .required ∨ part = .optional) :
    ∃ sections : Sections, sections.rest = none ∧ sections.symbols = symbols ∧
      sections.parameters = list.reverse := by
  cases beginning with
  | required plain =>
      refine ⟨⟨symbols, none, none, by simpa using plain⟩, rfl, ?_, ?_⟩
      · simp [Sections.symbols, Sections.optionalPart, Sections.restPart]
      · simp [Sections.parameters, reverse]
  | @optional required names plain =>
      refine ⟨⟨required, some names, none, by simpa using plain⟩, rfl, ?_, ?_⟩
      · simp [Sections.symbols, Sections.optionalPart, Sections.restPart]
      · simp [Sections.parameters, reverse]
  | rest | done => simp at early

/-- Sections without a rest are read up to a place where the rest may follow. -/
theorem Sections.exists_early {sections : Sections} (noRest : sections.rest = none) :
    ∃ part, (part = .required ∨ part = .optional) ∧
      Beginning sections.symbols (part, sections.parameters.reverse) := by
  obtain ⟨required, optional, rest, plain⟩ := sections
  cases noRest
  cases optional with
  | none =>
      refine ⟨.required, .inl rfl, ?_⟩
      have names : ∀ name ∈ required, Plain name := by simpa using plain
      simpa [symbols, optionalPart, restPart, parameters, reverse] using Beginning.required names
  | some names =>
      refine ⟨.optional, .inr rfl, ?_⟩
      have both : ∀ name ∈ required ++ names, Plain name := by simpa using plain
      simpa [symbols, optionalPart, restPart, parameters, reverse] using Beginning.optional both

/-- What has been read is complete when the rest marker is not left without a name. -/
theorem Beginning.exists_sections {symbols : List Symbol} {part : Part} {list : ParameterList}
    (beginning : Beginning symbols (part, list)) (complete : part ≠ .rest) :
    ∃ sections : Sections, sections.symbols = symbols ∧
      sections.parameters = list.reverse := by
  cases part with
  | required =>
      obtain ⟨sections, -, same⟩ := beginning.exists_sections_of_early (.inl rfl)
      exact ⟨sections, same⟩
  | optional =>
      obtain ⟨sections, -, same⟩ := beginning.exists_sections_of_early (.inr rfl)
      exact ⟨sections, same⟩
  | rest => exact absurd rfl complete
  | done =>
      cases beginning with
      | @done front list name before plain =>
          cases before with
          | rest before early =>
              obtain ⟨sections, noRest, rfl, same⟩ := before.exists_sections_of_early early
              refine ⟨sections.withRest (some name) (by simpa using plain),
                Sections.symbols_withRest noRest _, ?_⟩
              rw [Sections.parameters, ParameterList.mk.injEq] at same
              simp [Sections.parameters, Sections.withRest, reverse, same]

/-- Sections are read to their end. -/
theorem Sections.exists_beginning (sections : Sections) :
    ∃ part, part ≠ .rest ∧ Beginning sections.symbols (part, sections.parameters.reverse) := by
  obtain ⟨required, optional, rest, plain⟩ := sections
  cases rest with
  | none =>
      have noRest : rest ⟨required, optional, none, plain⟩ = none := rfl
      obtain ⟨part, early, beginning⟩ := exists_early noRest
      refine ⟨part, ?_, beginning⟩
      rintro rfl
      simp at early
  | some name =>
      let front : Sections := ⟨required, optional, none, fun other isIn =>
        plain other (List.mem_append_left _ (by simpa using isIn))⟩
      have noRest : front.rest = none := rfl
      have isPlain : Plain name := plain name (by simp)
      obtain ⟨part, early, beginning⟩ := exists_early noRest
      have whole := Beginning.done (.rest beginning early) isPlain
      rw [← symbols_withRest noRest (by simpa using isPlain)] at whole
      exact ⟨.done, by simp, whole⟩

/-- A name comes next: the symbols are sections without a rest, or such sections with the rest
marker behind them. -/
def NameFollows (symbols : List Symbol) : Prop :=
  ∃ sections : Sections, sections.rest = none ∧
    (symbols = sections.symbols ∨ symbols = sections.symbols ++ [restMarker])

/-- A name may follow exactly where some beginning is not yet complete. -/
theorem nameFollows_iff {symbols : List Symbol} :
    NameFollows symbols ↔ ∃ part list, Beginning symbols (part, list) ∧ part ≠ .done := by
  constructor
  · rintro ⟨sections, noRest, rfl | rfl⟩ <;>
      obtain ⟨part, early, beginning⟩ := Sections.exists_early noRest
    · refine ⟨part, _, beginning, ?_⟩
      rintro rfl
      simp at early
    · exact ⟨.rest, _, .rest beginning early, by simp⟩
  · rintro ⟨part, list, beginning, unfinished⟩
    cases part with
    | required =>
        obtain ⟨sections, noRest, rfl, -⟩ := beginning.exists_sections_of_early (.inl rfl)
        exact ⟨sections, noRest, .inl rfl⟩
    | optional =>
        obtain ⟨sections, noRest, rfl, -⟩ := beginning.exists_sections_of_early (.inr rfl)
        exact ⟨sections, noRest, .inl rfl⟩
    | rest =>
        cases beginning with
        | rest before early =>
            obtain ⟨sections, noRest, rfl, -⟩ := before.exists_sections_of_early early
            exact ⟨sections, noRest, .inr rfl⟩
    | done => exact absurd rfl unfinished

/-! ## Values -/

variable {heap : Heap} {value : Value}

/-- What is no list is refused as a whole. -/
theorem ofValue_of_improper {fault : Fault} (improper : heap.elements value = .error fault) :
    ofValue heap value = .error (.malformedParameters value) := by
  unfold ofValue
  rw [improper]
  rfl

/-- How a parameter list is read from the elements of a value. -/
theorem ofValue_of_proper {items : List Value} (proper : heap.elements value = .ok items.toArray) :
    ofValue heap value =
      match items.foldlM (accept (.malformedParameters value)) (.required, {}) with
      | .ok (part, list) =>
        if part = .rest then .error (.malformedParameters value) else .ok list.reverse
      | .error fault => .error fault := by
  unfold ofValue
  simp only [proper, pure_bind, List.foldlM_toArray]
  cases items.foldlM (accept (.malformedParameters value)) (.required, {}) with
  | error fault => rfl
  | ok state => rfl

/-- A value that is read or refused for one of its elements has elements. -/
theorem exists_proper (read : ofValue heap value ≠ .error (.malformedParameters value)) :
    ∃ items : List Value, heap.elements value = .ok items.toArray := by
  cases elements : heap.elements value with
  | error fault => exact absurd (ofValue_of_improper elements) read
  | ok items => exact ⟨items.toList, rfl⟩

/-- A value is read as a parameter list when its elements are sections. -/
theorem ofValue_eq_ok_iff {list : ParameterList} :
    ofValue heap value = .ok list ↔
      ∃ sections : Sections, heap.elements value = .ok (sections.symbols.map .symbol).toArray ∧
        sections.parameters = list := by
  constructor
  · intro read
    obtain ⟨items, proper⟩ := exists_proper (by rw [read]; simp)
    rw [ofValue_of_proper proper] at read
    split at read
    next part collected folded =>
      split at read
      next => cases read
      next complete =>
        cases read
        obtain ⟨symbols, rfl, beginning⟩ := foldlM_accept_eq_ok_iff.mp folded
        obtain ⟨sections, rfl, same⟩ := beginning.exists_sections complete
        exact ⟨sections, proper, same⟩
    next => cases read
  · rintro ⟨sections, proper, rfl⟩
    obtain ⟨part, complete, beginning⟩ := sections.exists_beginning
    rw [ofValue_of_proper proper, beginning.read]
    simp [complete, reverse]

/-- A value is refused for a constant when this is the first element that cannot be read, and
stands where a name belongs. -/
theorem ofValue_eq_settingConstant_iff {name : Symbol} :
    ofValue heap value = .error (.settingConstant name) ↔
      ∃ front item behind,
        heap.elements value = .ok (front.map .symbol ++ item :: behind).toArray ∧
        NameFollows front ∧ item.symbol? = some name ∧ name.isConstant = true := by
  constructor
  · intro refused
    obtain ⟨items, proper⟩ := exists_proper (by rw [refused]; simp)
    rw [ofValue_of_proper proper] at refused
    split at refused
    next part collected folded => split at refused <;> cases refused
    next fault folded =>
      cases refused
      obtain ⟨read, item, behind, ⟨part, list⟩, rfl, front, atFault⟩ :=
        foldlM_accept_eq_error_iff.mp folded
      obtain ⟨symbols, rfl, beginning⟩ := foldlM_accept_eq_ok_iff.mp front
      obtain malformed | ⟨other, same, isName, constant, unfinished⟩ := accept_eq_error atFault
      · cases malformed
      · cases same
        exact ⟨symbols, item, behind, proper,
          nameFollows_iff.mpr ⟨part, list, beginning, unfinished⟩, isName, constant⟩
  · rintro ⟨front, item, behind, proper, follows, isName, constant⟩
    obtain ⟨part, list, beginning, unfinished⟩ := nameFollows_iff.mp follows
    rw [ofValue_of_proper proper, foldlM_accept_append (beginning.read _), List.foldlM_cons,
      accept_constant isName constant unfinished]
    rfl

/-- What is refused otherwise is malformed. -/
theorem ofValue_eq_error {fault : Fault} (refused : ofValue heap value = .error fault) :
    fault = .malformedParameters value ∨ ∃ name, fault = .settingConstant name := by
  by_cases malformed : ofValue heap value = .error (.malformedParameters value)
  · rw [malformed] at refused
    cases refused
    exact .inl rfl
  · obtain ⟨items, proper⟩ := exists_proper malformed
    rw [ofValue_of_proper proper] at refused
    split at refused
    next part collected folded =>
      split at refused <;> cases refused
      exact .inl rfl
    next other folded =>
      cases refused
      obtain ⟨_, _, _, _, _, _, atFault⟩ := foldlM_accept_eq_error_iff.mp folded
      obtain same | ⟨name, same, -⟩ := accept_eq_error atFault
      · exact .inl same
      · exact .inr ⟨name, same⟩

/-- A list of symbols without constants is refused as malformed only. -/
theorem ofValue_eq_error_of_bindable {symbols : List Symbol} {fault : Fault}
    (proper : heap.elements value = .ok (symbols.map .symbol).toArray)
    (bindable : ∀ symbol ∈ symbols, symbol.isConstant = false)
    (refused : ofValue heap value = .error fault) : fault = .malformedParameters value := by
  obtain same | ⟨constant, rfl⟩ := ofValue_eq_error refused
  · exact same
  · obtain ⟨front, item, behind, others, -, isName, isConstant⟩ :=
      ofValue_eq_settingConstant_iff.mp refused
    rw [proper] at others
    have isElement : item ∈ symbols.map .symbol := by
      rw [List.toArray_inj (Except.ok.inj others)]
      exact List.mem_append_right _ List.mem_cons_self
    obtain ⟨symbol, isSymbol, rfl⟩ := List.mem_map.mp isElement
    cases isName
    rw [bindable constant isSymbol] at isConstant
    cases isConstant

end ParameterList

end ByteLisp
