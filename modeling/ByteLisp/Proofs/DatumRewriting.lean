import ByteLisp.Proofs.NormalData

/-!
# Rewriting data

A datum and the datum that its value is written down as differ in how lists, `nil` and parameters
are written. `Datum.Rewrites` has each of these differences as one step, at any place of a datum.
Every step preserves the normal form, so that a datum leads to one normal form only, on which no
further trip through a value has an effect. `Datum.normal_after_one_trip` says this, and that the
data without a value are those in which the parameters of some function are refused.
-/

namespace ByteLisp

namespace Datum

/-- The value of the datum, in whichever heap it is made, is read as these parameters. -/
def ReadsAs (datum : Datum) (parameters : Parameters) : Prop :=
  ∀ heap, ∃ value after, datum.toValue heap = (.ok value, after) ∧
    Parameters.ofValue after value = .ok parameters

/-- The datum has a value, in whichever heap it is made, and this value is refused as
parameters. -/
def Refused (datum : Datum) : Prop :=
  ∀ heap, ∃ value after fault, datum.toValue heap = (.ok value, after) ∧
    Parameters.ofValue after value = .error fault

/-- The function puts a datum into one place of a larger one. -/
inductive Place : (Datum → Datum) → Prop where
  | listItem (before behind : List Datum) : Place fun part => .list (before ++ part :: behind)
  | dottedItem (before behind : List Datum) (tail : Datum) :
      Place fun part => .dotted (before ++ part :: behind) tail
  | tail (items : List Datum) : Place fun part => .dotted items part
  | element (before behind : List Datum) : Place fun part => .vector (before ++ part :: behind)
  | constant (literal : FunctionLiteral) (before behind : List Datum) :
      Place fun part => .function { literal with constants := before ++ part :: behind }
  | interactive (literal : FunctionLiteral) :
      Place fun part => .function { literal with interactive := some part }

/-- One step towards the normal form. -/
inductive Rewrites : Datum → Datum → Prop where
  | emptyList : Rewrites (.list []) .nil
  | nilSymbol : Rewrites (.symbol "nil") .nil
  | noItems (tail : Datum) : Rewrites (.dotted [] tail) tail
  | nilTail (items : List Datum) : Rewrites (.dotted items .nil) (.list items)
  | listTail (items rest : List Datum) :
      Rewrites (.dotted items (.list rest)) (.list (items ++ rest))
  | dottedTail (items rest : List Datum) (last : Datum) :
      Rewrites (.dotted items (.dotted rest last)) (.dotted (items ++ rest) last)
  /-- The parameters of a function are written as what they are read as. -/
  | parameters {literal : FunctionLiteral} {parameters : Parameters}
      (reads : literal.parameters.ReadsAs parameters)
      (different : literal.parameters ≠ .ofParameters parameters) :
      Rewrites (.function literal)
        (.function { literal with parameters := .ofParameters parameters })
  | inside {place : Datum → Datum} {part other : Datum} (isPlace : Place place)
      (step : Rewrites part other) : Rewrites (place part) (place other)

/-- No step leads on. -/
def IsNormal (datum : Datum) : Prop :=
  ∀ other, ¬ datum.Rewrites other

/-- The function is written somewhere in the datum, maybe among the parameters of another one. -/
inductive Contains : Datum → FunctionLiteral → Prop where
  | self (literal : FunctionLiteral) : Contains (.function literal) literal
  | inside {place : Datum → Datum} {part : Datum} {literal : FunctionLiteral}
      (isPlace : Place place) (within : Contains part literal) : Contains (place part) literal
  | parameters {literal inner : FunctionLiteral} (within : Contains literal.parameters inner) :
      Contains (.function literal) inner

/-! ## Parameters -/

section Parameters

variable {datum normal : Datum} {parameters : Parameters}

/-- The function that reads parameters and the relation that says how they are read agree. -/
theorem parameters?_eq_some_iff :
    datum.parameters? = some parameters ↔ datum.ReadsAs parameters := by
  constructor
  · intro read heap
    obtain ⟨normal, found⟩ :=
      Option.ne_none_iff_exists'.mp (normal?_ne_none_of_parameters? read)
    obtain ⟨value, after, made, -⟩ := exists_toValue found heap
    have same := toOption_ofValue_of_normal? found made
    refine ⟨value, after, made, ?_⟩
    rw [read] at same
    cases outcome : Parameters.ofValue after value with
    | error fault =>
        rw [outcome] at same
        cases same
    | ok others =>
        rw [outcome] at same
        cases same
        rfl
  · intro reads
    obtain ⟨value, after, made, read⟩ := reads {}
    rw [parameters?, made]
    dsimp only
    rw [read]
    rfl

/-- What is refused has no parameters to be read. -/
theorem Refused.parameters?_eq_none (refused : datum.Refused) : datum.parameters? = none := by
  obtain ⟨value, after, fault, made, read⟩ := refused {}
  rw [parameters?, made]
  dsimp only
  rw [read]
  rfl

/-- What has a value from which no parameters are read is refused. -/
theorem refused_of_parameters?_eq_none (found : datum.normal? = some normal)
    (unread : datum.parameters? = none) : datum.Refused := by
  intro heap
  obtain ⟨value, after, made, -⟩ := exists_toValue found heap
  have same := toOption_ofValue_of_normal? found made
  rw [unread] at same
  cases outcome : Parameters.ofValue after value with
  | error fault => exact ⟨value, after, fault, made, outcome⟩
  | ok parameters =>
      rw [outcome] at same
      cases same

/-- Parameters that have been read are written in a form that is read as the same. -/
theorem parameters?_ofParameters (reads : datum.ReadsAs parameters) :
    (ofParameters parameters).parameters? = some parameters := by
  obtain ⟨value, after, -, read⟩ := reads {}
  obtain ⟨copy, later, made, -, readAgain⟩ := ofValue_of_ofParameters ⟨after, value, read⟩ {}
  rw [parameters?, made]
  dsimp only
  rw [readAgain later (.refl later)]
  rfl

end Parameters

/-! ## One step -/

/-- The items of a list have their normal forms one after the other. -/
theorem normalItems?_append (items others : List Datum) :
    normalItems? (items ++ others) =
      do return (← normalItems? items) ++ (← normalItems? others) := by
  induction items with
  | nil =>
      rw [List.nil_append, normalItems?]
      simp
  | cons item items ih =>
      rw [List.cons_append, normalItems?, normalItems?, ih]
      simp [Option.bind_assoc]

/-- The normal form of a datum depends only on the normal form of its parts. -/
theorem Place.normal?_congr {place : Datum → Datum} (isPlace : Place place) {part other : Datum}
    (same : part.normal? = other.normal?) : (place part).normal? = (place other).normal? := by
  have items : ∀ before behind, normalItems? (before ++ part :: behind) =
      normalItems? (before ++ other :: behind) := by
    intro before behind
    rw [normalItems?_append, normalItems?_append, normalItems?, normalItems?, same]
  cases isPlace with
  | listItem before behind | dottedItem before behind | element before behind =>
      simp only [normal?, items]
  | tail items => simp only [normal?, same]
  | constant literal before behind =>
      simp only [normal?, normalLiteral?, items]
  | interactive literal => simp only [normal?, normalLiteral?, normalOption?, same]

/-- A step preserves the normal form. -/
theorem Rewrites.normal?_eq {datum other : Datum} (step : datum.Rewrites other) :
    datum.normal? = other.normal? := by
  induction step with
  | emptyList => simp [normal?, normalItems?]
  | nilSymbol => simp [normal?, ofSymbol, Symbol.isNil]
  | noItems tail => simp [normal?, normalItems?]
  | nilTail items =>
      simp only [normal?]
      cases normalItems? items <;> rfl
  | listTail items rest =>
      simp only [normal?, normalItems?_append]
      cases normalItems? items <;> cases normalItems? rest <;> simp [onto_onto]
  | dottedTail items rest last =>
      simp only [normal?, normalItems?_append]
      cases normalItems? items <;> cases normalItems? rest <;> cases last.normal? <;>
        simp [onto_onto]
  | @parameters literal parameters reads different =>
      obtain ⟨given, code, constants, maxDepth, documentation, interactive⟩ := literal
      have read : given.parameters? = some parameters := parameters?_eq_some_iff.mpr reads
      simp only [normal?, normalLiteral?, read, parameters?_ofParameters reads]
  | inside isPlace _ ih => exact isPlace.normal?_congr ih

/-- Data that are rewritten step by step have the same normal form. -/
theorem normal?_eq_of_reaches {datum other : Datum}
    (steps : Relation.ReflTransGen Rewrites datum other) : datum.normal? = other.normal? := by
  induction steps with
  | refl => rfl
  | tail _ step ih => rw [ih, step.normal?_eq]

/-! ## Where no step leads on -/

section IsNormal

variable {items : List Datum} {tail : Datum}

/-- Whether the datum is neither a list nor `nil`. -/
def isAtom : Datum → Bool
  | .nil | .list _ | .dotted _ _ => false
  | _ => true

/-- Every part of a normal datum is normal. -/
theorem IsNormal.part {place : Datum → Datum} {part : Datum} (normal : (place part).IsNormal)
    (isPlace : Place place) : part.IsNormal :=
  fun _ step => normal _ (.inside isPlace step)

/-- Every item of a normal datum is normal, whatever the datum is made of. -/
theorem IsNormal.of_mem (whole : List Datum → Datum) (normal : (whole items).IsNormal)
    (isPlace : ∀ before behind, Place fun part => whole (before ++ part :: behind)) :
    ∀ item ∈ items, item.IsNormal := by
  intro item member
  obtain ⟨before, behind, rfl⟩ := List.append_of_mem member
  exact IsNormal.part normal (isPlace before behind)

/-- A normal dotted list ends in an atom: anything else would have been joined on. -/
theorem IsNormal.isAtom_tail (normal : (dotted items tail).IsNormal) : tail.isAtom = true := by
  cases tail with
  | nil => exact absurd (.nilTail items) (normal _)
  | list rest => exact absurd (.listTail items rest) (normal _)
  | dotted rest last => exact absurd (.dottedTail items rest last) (normal _)
  | _ => rfl

/-- Whether the datum has no parts and is not the symbol `nil`. -/
def isLeaf : Datum → Bool
  | .nil | .int _ | .float _ | .string _ => true
  | .symbol name => name != "nil"
  | .list _ | .dotted _ _ | .vector _ | .function _ => false

/-- A datum without parts is normal. -/
theorem isNormal_of_isLeaf {datum : Datum} (leaf : datum.isLeaf = true) : datum.IsNormal := by
  intro other step
  cases step with
  | inside isPlace step => cases isPlace <;> cases leaf
  | _ => cases leaf

/-- A list that has items, all of them normal, is normal. -/
theorem isNormal_list (nonempty : items ≠ []) (each : ∀ item ∈ items, item.IsNormal) :
    (list items).IsNormal := by
  intro other step
  -- A place is a function, so what the whole looks like is kept as an equation.
  generalize whole : Datum.list items = datum at step
  cases step with
  | emptyList =>
      cases whole
      contradiction
  | inside isPlace step =>
      cases isPlace with
      | listItem before behind =>
          cases whole
          exact each _ (by simp) _ step
      | _ => cases whole
  | _ => cases whole

/-- So is a dotted list with a normal atom at its end. -/
theorem isNormal_dotted (nonempty : items ≠ []) (each : ∀ item ∈ items, item.IsNormal)
    (atom : tail.isAtom = true) (ends : tail.IsNormal) : (dotted items tail).IsNormal := by
  intro other step
  generalize whole : Datum.dotted items tail = datum at step
  cases step with
  | noItems =>
      cases whole
      contradiction
  | nilTail | listTail | dottedTail =>
      cases whole
      cases atom
  | inside isPlace step =>
      cases isPlace with
      | dottedItem before behind tail =>
          cases whole
          exact each _ (by simp) _ step
      | tail items =>
          cases whole
          exact ends _ step
      | _ => cases whole
  | _ => cases whole

/-- A vector of normal items is normal. -/
theorem isNormal_vector (each : ∀ item ∈ items, item.IsNormal) : (vector items).IsNormal := by
  intro other step
  generalize whole : Datum.vector items = datum at step
  cases step with
  | inside isPlace step =>
      cases isPlace with
      | element before behind =>
          cases whole
          exact each _ (by simp) _ step
      | _ => cases whole
  | _ => cases whole

/-- A function is normal when its parameters are written as they are read and its parts are normal.
-/
theorem isNormal_function {literal : FunctionLiteral}
    (written : ∀ parameters, literal.parameters.ReadsAs parameters →
      literal.parameters = ofParameters parameters)
    (each : ∀ item ∈ literal.constants, item.IsNormal)
    (form : ∀ item ∈ literal.interactive, item.IsNormal) : (function literal).IsNormal := by
  intro other step
  generalize whole : Datum.function literal = datum at step
  cases step with
  | parameters reads different =>
      cases whole
      exact different (written _ reads)
  | inside isPlace step =>
      cases isPlace with
      | constant literal before behind =>
          cases whole
          exact each _ (by simp) _ step
      | interactive literal =>
          cases whole
          exact form _ rfl _ step
      | _ => cases whole
  | _ => cases whole

/-- Normal items put onto a normal end give a normal datum. -/
theorem isNormal_onto (each : ∀ item ∈ items, item.IsNormal) (ends : tail.IsNormal) :
    (onto items tail).IsNormal := by
  cases items with
  | nil => exact ends
  | cons item items =>
      cases tail with
      | nil => exact isNormal_list (by simp) each
      | list rest =>
          exact isNormal_list (by simp)
            (List.forall_mem_append.mpr ⟨each, IsNormal.of_mem .list ends .listItem⟩)
      | dotted rest last =>
          have others : ∀ item ∈ rest, item.IsNormal :=
            IsNormal.of_mem (.dotted · last) ends fun before behind =>
              .dottedItem before behind last
          exact isNormal_dotted (by simp) (List.forall_mem_append.mpr ⟨each, others⟩)
            ends.isAtom_tail (ends.part (.tail rest))
      | _ => exact isNormal_dotted (by simp) each rfl ends

end IsNormal

/-! ## The way to the normal form -/

/-- A part can be rewritten where it stands, as often as on its own. -/
theorem Place.reaches {place : Datum → Datum} (isPlace : Place place) {part other : Datum}
    (steps : Relation.ReflTransGen Rewrites part other) :
    Relation.ReflTransGen Rewrites (place part) (place other) :=
  steps.lift place fun _ _ step => .inside isPlace step

/-- Items are rewritten one after the other, wherever each of them has its place. -/
theorem reaches_items (whole : List Datum → Datum)
    (isPlace : ∀ before behind, Place fun part => whole (before ++ part :: behind))
    {items data : List Datum} (each : List.Forall₂ (Relation.ReflTransGen Rewrites) items data) :
    Relation.ReflTransGen Rewrites (whole items) (whole data) := by
  have fromFront : ∀ front, Relation.ReflTransGen Rewrites (whole (front ++ items))
      (whole (front ++ data)) := by
    induction each with
    | nil => exact fun front => .refl
    | @cons item datum items data first _ ih =>
        intro front
        have rest := ih (front ++ [datum])
        rw [List.append_assoc, List.append_assoc] at rest
        exact ((isPlace front items).reaches first).trans rest
  exact fromFront []

/-- A dotted list can be rewritten to its items put onto its end. -/
theorem reaches_onto (data : List Datum) (last : Datum) :
    Relation.ReflTransGen Rewrites (.dotted data last) (onto data last) := by
  cases data with
  | nil => exact .single (.noItems last)
  | cons datum data =>
      cases last with
      | nil => exact .single (.nilTail _)
      | list rest => exact .single (.listTail _ rest)
      | dotted rest last => exact .single (.dottedTail _ rest last)
      | _ => exact .refl

/-- Rewriting leads to the other datum, and there it ends. -/
structure NormalisesTo (datum normal : Datum) : Prop where
  steps : Relation.ReflTransGen Rewrites datum normal
  isNormal : normal.IsNormal

namespace NormalisesTo

variable {items data : List Datum} {tail last : Datum}

/-- A datum without parts is its own normal form. -/
theorem of_isLeaf {datum : Datum} (leaf : datum.isLeaf = true) : datum.NormalisesTo datum :=
  ⟨.refl, isNormal_of_isLeaf leaf⟩

/-- The normal forms of items are normal. -/
theorem isNormal_of_mem (each : List.Forall₂ NormalisesTo items data) :
    ∀ datum ∈ data, datum.IsNormal := by
  induction each with
  | nil => exact List.forall_mem_nil _
  | cons first _ ih => exact List.forall_mem_cons.mpr ⟨first.isNormal, ih⟩

/-- A list has its items' normal forms put onto `nil`. -/
theorem list (each : List.Forall₂ NormalisesTo items data) :
    (Datum.list items).NormalisesTo (onto data .nil) := by
  refine ⟨?_, isNormal_onto (isNormal_of_mem each) (isNormal_of_isLeaf rfl)⟩
  refine (reaches_items .list .listItem (each.imp fun _ _ found => found.steps)).trans ?_
  cases data with
  | nil => exact .single .emptyList
  | cons datum data => exact .refl

/-- A dotted list has its items' normal forms put onto that of its end. -/
theorem dotted (each : List.Forall₂ NormalisesTo items data) (ends : tail.NormalisesTo last) :
    (Datum.dotted items tail).NormalisesTo (onto data last) := by
  refine ⟨?_, isNormal_onto (isNormal_of_mem each) ends.isNormal⟩
  calc Relation.ReflTransGen Rewrites (.dotted items tail) (.dotted data tail) :=
        reaches_items (.dotted · tail) (fun before behind => .dottedItem before behind tail)
          (each.imp fun _ _ found => found.steps)
    Relation.ReflTransGen Rewrites _ (.dotted data last) := (Place.tail data).reaches ends.steps
    Relation.ReflTransGen Rewrites _ (onto data last) := reaches_onto data last

/-- A vector has its items' normal forms. -/
theorem vector (each : List.Forall₂ NormalisesTo items data) :
    (Datum.vector items).NormalisesTo (.vector data) :=
  ⟨reaches_items .vector .element (each.imp fun _ _ found => found.steps),
    isNormal_vector (isNormal_of_mem each)⟩

/-- A function has the normal form of its parameters and of its parts. -/
theorem function {given : Datum} {parameters : Parameters} {code : Bytes} {constants : List Datum}
    {maxDepth : UInt32} {documentation : Option Documentation} {interactive form : Option Datum}
    (reads : given.ReadsAs parameters) (each : List.Forall₂ NormalisesTo constants data)
    (both : Option.Rel NormalisesTo interactive form) :
    (Datum.function ⟨given, code, constants, maxDepth, documentation, interactive⟩).NormalisesTo
      (.function ⟨.ofParameters parameters, code, data, maxDepth, documentation, form⟩) := by
  refine ⟨?_, isNormal_function ?_ (isNormal_of_mem each) ?_⟩
  · refine (reaches_items
      (fun items => .function ⟨given, code, items, maxDepth, documentation, interactive⟩)
      (.constant ⟨given, code, constants, maxDepth, documentation, interactive⟩)
      (each.imp fun _ _ found => found.steps)).trans ?_
    have toForm : Relation.ReflTransGen Rewrites
        (.function ⟨given, code, data, maxDepth, documentation, interactive⟩)
        (.function ⟨given, code, data, maxDepth, documentation, form⟩) := by
      cases both with
      | none => exact .refl
      | some found =>
          exact (Place.interactive ⟨given, code, data, maxDepth, documentation, none⟩).reaches
            found.steps
    refine toForm.trans ?_
    by_cases same : given = .ofParameters parameters
    · rw [same]
    · exact .single (.parameters reads same)
  · intro others readsOthers
    have read := parameters?_ofParameters reads
    rw [parameters?_eq_some_iff.mpr readsOthers] at read
    cases read
    rfl
  · intro item isForm
    cases both with
    | none => cases isForm
    | some found =>
        cases isForm
        exact found.isNormal

end NormalisesTo

mutual

/-- Rewriting leads to the normal form. -/
theorem normalisesTo_normal? : (datum normal : Datum) → datum.normal? = some normal →
    datum.NormalisesTo normal
  | .nil, _, found | .int _, _, found | .float _, _, found | .string _, _, found => by
    rw [normal?] at found
    cases found
    exact .of_isLeaf rfl
  | .symbol name, _, found => by
    rw [normal?, ofSymbol] at found
    split at found
    · rename_i isNil
      cases found
      obtain rfl := beq_iff_eq.mp isNil
      exact ⟨.single .nilSymbol, isNormal_of_isLeaf rfl⟩
    · rename_i notNil
      cases found
      exact .of_isLeaf (bne_iff_ne.mpr fun same => notNil (beq_iff_eq.mpr same))
  | .list items, _, found => by
    rw [normal?, Option.map_eq_some_iff] at found
    obtain ⟨data, each, rfl⟩ := found
    exact .list (normalisesTo_normalItems? items data each)
  | .dotted items tail, _, found => by
    simp only [normal?, Option.pure_def, Option.bind_eq_bind, Option.bind_eq_some_iff,
      Option.some.injEq] at found
    obtain ⟨data, each, last, ends, rfl⟩ := found
    exact .dotted (normalisesTo_normalItems? items data each) (normalisesTo_normal? tail last ends)
  | .vector items, _, found => by
    rw [normal?, Option.map_eq_some_iff] at found
    obtain ⟨data, each, rfl⟩ := found
    exact .vector (normalisesTo_normalItems? items data each)
  | .function literal, _, found => by
    rw [normal?, Option.map_eq_some_iff] at found
    obtain ⟨normal, fields, rfl⟩ := found
    exact normalisesTo_normalLiteral? literal normal fields

/-- The normal forms that are computed of items are reached by rewriting, item by item. -/
theorem normalisesTo_normalItems? : (items data : List Datum) → normalItems? items = some data →
    List.Forall₂ NormalisesTo items data
  | [], _, found => by
    rw [normalItems?] at found
    cases found
    exact .nil
  | item :: items, _, found => by
    simp only [normalItems?, Option.pure_def, Option.bind_eq_bind, Option.bind_eq_some_iff,
      Option.some.injEq] at found
    obtain ⟨datum, first, data, each, rfl⟩ := found
    exact .cons (normalisesTo_normal? item datum first) (normalisesTo_normalItems? items data each)

/-- So is the one of a datum that may be missing. -/
theorem normalisesTo_normalOption? : (datum normal : Option Datum) →
    normalOption? datum = some normal → Option.Rel NormalisesTo datum normal
  | none, _, found => by
    rw [normalOption?] at found
    cases found
    exact .none
  | some datum, _, found => by
    rw [normalOption?, Option.map_eq_some_iff] at found
    obtain ⟨normal, inner, rfl⟩ := found
    exact .some (normalisesTo_normal? datum normal inner)

/-- So is the one of the literal of a function. -/
theorem normalisesTo_normalLiteral? : (literal normal : Literal Datum) →
    normalLiteral? literal = some normal → (function literal).NormalisesTo (.function normal)
  | ⟨parameters, code, constants, maxDepth, documentation, interactive⟩, _, found => by
    simp only [normalLiteral?, Option.pure_def, Option.bind_eq_bind, Option.bind_eq_some_iff,
      Option.some.injEq] at found
    obtain ⟨data, each, form, both, spec, read, rfl⟩ := found
    exact .function (parameters?_eq_some_iff.mp read)
      (normalisesTo_normalItems? constants data each) (normalisesTo_normalOption? interactive form both)

end

/-! ## Data without a value -/

/-- A function whose parameters cannot be read has no normal form. -/
theorem normal?_function_eq_none {literal : FunctionLiteral}
    (unread : literal.parameters.parameters? = none) : (function literal).normal? = none := by
  obtain ⟨parameters, code, constants, maxDepth, documentation, interactive⟩ := literal
  rw [normal?, normalLiteral?, unread]
  cases normalItems? constants <;> cases normalOption? interactive <;> rfl

/-- Neither has a datum with a part that has none. -/
theorem Place.normal?_eq_none {place : Datum → Datum} (isPlace : Place place) {part : Datum}
    (missing : part.normal? = none) : (place part).normal? = none := by
  have items : ∀ before behind, normalItems? (before ++ part :: behind) = none := by
    intro before behind
    rw [normalItems?_append, normalItems?, missing]
    cases normalItems? before <;> rfl
  cases isPlace with
  | listItem before behind | element before behind =>
      rw [normal?, items]
      rfl
  | dottedItem before behind tail =>
      rw [normal?, items]
      rfl
  | tail items =>
      rw [normal?, missing]
      cases normalItems? items <;> rfl
  | constant literal before behind =>
      rw [normal?, normalLiteral?, items]
      rfl
  | interactive literal =>
      rw [normal?, normalLiteral?, normalOption?, missing]
      cases normalItems? literal.constants <;> rfl

/-- Neither has a datum in which, however deep, such a function stands. -/
theorem Contains.normal?_eq_none {datum : Datum} {literal : FunctionLiteral}
    (contains : datum.Contains literal) (refused : literal.parameters.Refused) :
    datum.normal? = none := by
  induction contains with
  | self literal => exact normal?_function_eq_none refused.parameters?_eq_none
  | inside isPlace _ ih => exact isPlace.normal?_eq_none (ih refused)
  | @parameters literal inner _ ih =>
      refine normal?_function_eq_none (Option.eq_none_iff_forall_ne_some.mpr fun read => ?_)
      exact fun given => normal?_ne_none_of_parameters? given (ih refused)

mutual

/-- A datum that has no normal form contains a function whose parameters are refused. -/
theorem exists_refused : (datum : Datum) → datum.normal? = none →
    ∃ literal, datum.Contains literal ∧ literal.parameters.Refused
  | .nil, failed | .int _, failed | .float _, failed | .string _, failed | .symbol _, failed => by
    rw [normal?] at failed
    cases failed
  | .list items, failed => by
    rw [normal?, Option.map_eq_none_iff] at failed
    obtain ⟨before, item, behind, rfl, literal, within, refused⟩ :=
      exists_refused_item items failed
    exact ⟨literal, .inside (.listItem before behind) within, refused⟩
  | .dotted items tail, failed => by
    cases each : normalItems? items with
    | none =>
        obtain ⟨before, item, behind, rfl, literal, within, refused⟩ :=
          exists_refused_item items each
        have whole := Contains.inside (.dottedItem before behind tail) within
        exact ⟨literal, whole, refused⟩
    | some data =>
        have ends : tail.normal? = none := by
          rw [Option.eq_none_iff_forall_ne_some]
          simpa [normal?, each] using failed
        obtain ⟨literal, within, refused⟩ := exists_refused tail ends
        exact ⟨literal, .inside (.tail items) within, refused⟩
  | .vector items, failed => by
    rw [normal?, Option.map_eq_none_iff] at failed
    obtain ⟨before, item, behind, rfl, literal, within, refused⟩ :=
      exists_refused_item items failed
    exact ⟨literal, .inside (.element before behind) within, refused⟩
  | .function literal, failed => by
    rw [normal?, Option.map_eq_none_iff] at failed
    exact exists_refused_literal literal failed

/-- A list without normal forms has an item with such a function in it. -/
theorem exists_refused_item : (items : List Datum) → normalItems? items = none →
    ∃ before item behind, items = before ++ item :: behind ∧
      ∃ literal, item.Contains literal ∧ literal.parameters.Refused
  | [], failed => by
    rw [normalItems?] at failed
    cases failed
  | item :: items, failed => by
    cases first : item.normal? with
    | none => exact ⟨[], item, items, rfl, exists_refused item first⟩
    | some datum =>
        have rest : normalItems? items = none := by
          rw [Option.eq_none_iff_forall_ne_some]
          simpa [normalItems?, first] using failed
        obtain ⟨before, other, behind, rfl, found⟩ := exists_refused_item items rest
        exact ⟨item :: before, other, behind, rfl, found⟩

/-- An optional datum without a normal form is one with such a function in it. -/
theorem exists_refused_form : (form : Option Datum) → normalOption? form = none →
    ∃ datum, form = some datum ∧ ∃ literal, datum.Contains literal ∧ literal.parameters.Refused
  | none, failed => by
    rw [normalOption?] at failed
    cases failed
  | some datum, failed => by
    rw [normalOption?, Option.map_eq_none_iff] at failed
    exact ⟨datum, rfl, exists_refused datum failed⟩

/-- A literal without a normal form has such a function in it, or is one. -/
theorem exists_refused_literal : (literal : Literal Datum) → normalLiteral? literal = none →
    ∃ inner, (function literal).Contains inner ∧ inner.parameters.Refused
  | ⟨parameters, code, constants, maxDepth, documentation, interactive⟩, failed => by
    cases each : normalItems? constants with
    | none =>
        obtain ⟨before, item, behind, rfl, inner, within, refused⟩ :=
          exists_refused_item constants each
        exact ⟨inner, .inside (.constant ⟨parameters, code, [], maxDepth, documentation,
          interactive⟩ before behind) within, refused⟩
    | some data =>
        cases both : normalOption? interactive with
        | none =>
            obtain ⟨form, rfl, inner, within, refused⟩ := exists_refused_form interactive both
            exact ⟨inner, .inside (.interactive ⟨parameters, code, constants, maxDepth,
              documentation, none⟩) within, refused⟩
        | some form =>
            have unread : parameters.parameters? = none := by
              rw [Option.eq_none_iff_forall_ne_some]
              simpa [normalLiteral?, each, both] using failed
            cases normal : parameters.normal? with
            | none =>
                obtain ⟨inner, within, refused⟩ := exists_refused parameters normal
                exact ⟨inner, .parameters within, refused⟩
            | some _ => exact ⟨_, .self _, refused_of_parameters?_eq_none normal unread⟩

end

/-- For all data and heaps:
- When the datum has a value, this value is written down as a datum to which rewriting leads, and
  the only one where rewriting ends. Made into a value and written down once more, in any heap, it
  does not change.
- The datum has no value exactly when the parameters of some function in it are refused. -/
theorem normal_after_one_trip (datum : Datum) (heap : Heap) :
    (∀ value after, datum.toValue heap = (.ok value, after) →
      ∃ normal, after.datum value = .ok normal ∧
        Relation.ReflTransGen Rewrites datum normal ∧ normal.IsNormal ∧
        (∀ other, Relation.ReflTransGen Rewrites datum other → other.IsNormal → other = normal) ∧
        ∀ target, ∃ copy later, normal.toValue target = (.ok copy, later) ∧
          later.datum copy = .ok normal) ∧
    ((∃ fault after, datum.toValue heap = (.error fault, after)) ↔
      ∃ literal, datum.Contains literal ∧ literal.parameters.Refused) := by
  cases found : datum.normal? with
  | none =>
      have failed := exists_toValue_error found heap
      refine ⟨?_, iff_of_true failed (exists_refused datum found)⟩
      intro value after made
      obtain ⟨fault, later, error⟩ := failed
      rw [made] at error
      cases error
  | some normal =>
      obtain ⟨value, after, made, written⟩ := exists_toValue found heap
      have ends := normalisesTo_normal? datum normal found
      refine ⟨?_, iff_of_false ?_ ?_⟩
      · intro other later succeeded
        rw [made] at succeeded
        cases succeeded
        refine ⟨normal, written, ends.steps, ends.isNormal, ?_, ?_⟩
        · intro other steps isNormal
          have same : other.normal? = some normal := by rw [← normal?_eq_of_reaches steps, found]
          have further := normalisesTo_normal? other normal same
          obtain rfl | ⟨next, step, -⟩ := further.steps.cases_head
          · rfl
          · exact absurd step (isNormal next)
        · have fixed : normal.normal? = some normal := by
            rw [← normal?_eq_of_reaches ends.steps, found]
          exact exists_toValue fixed
      · rintro ⟨fault, later, error⟩
        rw [made] at error
        cases error
      · rintro ⟨literal, contains, refused⟩
        rw [contains.normal?_eq_none refused] at found
        cases found

/-- A function that is written with an empty section, and with lists that end in lists. -/
def tangledFunction : FunctionLiteral where
  parameters := .dotted [.symbol "a"] (.list [.symbol "&optional"])
  code := #[192, 135]
  constants := [.dotted [.int 2] (.dotted [.list []] (.symbol "nil")), .dotted [] (.float ⟨0⟩)]
  maxDepth := 1
  interactive := some (.dotted [] (.symbol "nil"))

/-- The function in a list with two tails. -/
def tangled : Datum :=
  .dotted [.symbol "nil"]
    (.dotted [.function tangledFunction, .dotted [.int 1] (.int 2)] (.list []))

/-- What becomes of it. -/
def tidy : Datum :=
  .list [.nil,
    .function
      ⟨.list [.symbol "a"], #[192, 135], [.list [.int 2, .nil], .float ⟨0⟩], 1, none, some .nil⟩,
    .dotted [.int 1] (.int 2)]

/-- The function with a marker at the end of its parameters. -/
def markedFunction : FunctionLiteral :=
  { tangledFunction with parameters := .dotted [.symbol "a"] (.list [.symbol "&rest"]) }

/-- The function with the marker as a constant of another one, in a vector. -/
def marked : Datum :=
  .vector [.int 1, .function { tangledFunction with constants := [.function markedFunction] }]

/-- The first list is tidied up. The vector has no value. -/
theorem tangled_after_one_trip :
    (∃ value after, tangled.toValue {} = (.ok value, after) ∧ after.datum value = .ok tidy ∧
      Relation.ReflTransGen Rewrites tangled tidy) ∧
    ∃ fault after, marked.toValue {} = (.error fault, after) := by
  constructor
  · have found : tangled.normal? = some tidy := rfl
    obtain ⟨value, after, made, written⟩ := exists_toValue found {}
    obtain ⟨normal, same, steps, -⟩ := (normal_after_one_trip tangled {}).1 value after made
    rw [written] at same
    cases same
    exact ⟨value, after, made, written, steps⟩
  · have found : markedFunction.parameters.normal? =
        some (.list [.symbol "a", .symbol "&rest"]) := rfl
    have refused := refused_of_parameters?_eq_none found rfl
    have within := Contains.inside (.constant tangledFunction [] []) (.self markedFunction)
    have whole := Contains.inside (.element [.int 1] []) within
    exact (normal_after_one_trip _ {}).2.mpr ⟨markedFunction, whole, refused⟩

end Datum

end ByteLisp
