import ByteLisp.Proofs.JsonTokens

/-!
# Written JSON can be read

A value that is written without blanks is read back as it was, whatever comes after it in the
input, as long as that cannot be taken for more of a number. Arrays and objects are read part
by part: the fuel of the reader is never used up, since every part takes up room in the text.
-/

namespace ByteLisp

namespace Json.Reader

/-- The bytes of a value that is written without blanks. -/
def written (value : Json) : List UInt8 :=
  utf8 value.render

/-- The bytes between the brackets of an array. -/
def itemBytes (items : List Json) : List UInt8 :=
  utf8 (appendItems "" items)

/-- The bytes between the braces of an object. -/
def memberBytes (members : List (Option String × Json)) : List UInt8 :=
  utf8 (appendMembers "" members)

/-- An array is written between brackets. -/
theorem written_array (items : List Json) :
    written (.array items) = ascii '[' :: (itemBytes items ++ [ascii ']']) := by
  have brackets : utf8 "[" = [ascii '['] ∧ utf8 "]" = [ascii ']'] := by decide
  rw [written, render, append, appendItems_eq, String.empty_append]
  simp [itemBytes, brackets]

/-- An object is written between braces. -/
theorem written_object (members : List (Option String × Json)) :
    written (.object members) = ascii '\x7b' :: (memberBytes members ++ [ascii '\x7d']) := by
  have braces : utf8 "\x7b" = [ascii '\x7b'] ∧ utf8 "\x7d" = [ascii '\x7d'] := by decide
  rw [written, render, append, appendMembers_eq, String.empty_append]
  simp [memberBytes, braces]

/-- A single item is written without a comma. -/
theorem itemBytes_singleton (item : Json) : itemBytes [item] = written item :=
  rfl

/-- Further items follow behind commas. -/
theorem itemBytes_cons (item next : Json) (items : List Json) :
    itemBytes (item :: next :: items) = written item ++ ascii ',' :: itemBytes (next :: items) := by
  have comma : utf8 "," = [ascii ','] := by decide
  rw [itemBytes, appendItems, appendItems_eq]
  · simp [itemBytes, written, render, comma]
  · nofun

/-- A member is its quoted name, a colon and its value. -/
theorem memberBytes_singleton (name : String) (value : Json) :
    memberBytes [(some name, value)] =
      ascii '"' :: (quotedTail name ++ ascii ':' :: written value) := by
  have colon : utf8 ":" = [ascii ':'] := by decide
  rw [memberBytes, appendMembers, append_eq]
  simp [label, utf8_quoted, colon, written, render]

/-- Further members follow behind commas. -/
theorem memberBytes_cons (name : String) (value : Json) (next : Option String × Json)
    (members : List (Option String × Json)) :
    memberBytes ((some name, value) :: next :: members) =
      ascii '"' :: (quotedTail name ++ ascii ':' ::
        (written value ++ ascii ',' :: memberBytes (next :: members))) := by
  have marks : utf8 ":" = [ascii ':'] ∧ utf8 "," = [ascii ','] := by decide
  rw [memberBytes, appendMembers, appendMembers_eq, append_eq]
  · simp [label, utf8_quoted, marks, written, render, memberBytes]
  · nofun

end Json.Reader

/-- All that the value says can be written: its strings are texts, and its numerals are
spelled as they should be. -/
inductive Json.Writable : Json → Prop
  | null : Writable .null
  | bool (truth : Bool) : Writable (.bool truth)
  | number {numeral : Numeral} (canonical : numeral.Canonical) : Writable (.number numeral)
  | string (text : String) : Writable (.string (some text))
  | array {items : List Json} (writable : ∀ item ∈ items, Writable item) : Writable (.array items)
  | object {members : List (Option String × Json)}
      (named : ∀ member ∈ members, member.1.isSome)
      (writable : ∀ member ∈ members, Writable member.2) : Writable (.object members)

namespace Json.Reader

/-- Nothing is skipped in front of a visible byte. -/
@[simp] theorem skipBlanks_cons {byte : UInt8} (visible : isBlank byte = false) (rest : Input) :
    skipBlanks (byte :: rest) = byte :: rest := by
  rw [skipBlanks, List.dropWhile_cons, visible]
  rfl

/-- A byte that can start a number. -/
def StartsNumber (byte : UInt8) : Prop :=
  byte = ascii '-' ∨ ∃ digit, byte = digitByte digit

/-- A number starts with nothing that starts another value. -/
theorem StartsNumber.not_mem {byte : UInt8} (starts : StartsNumber byte) :
    byte ∉ [ascii '"', ascii '[', ascii '\x7b', ascii 'n', ascii 't', ascii 'f', ascii ']'] := by
  obtain rfl | ⟨digit, rfl⟩ := starts
  · decide
  · revert digit
    decide

/-- A number does not begin with a blank. -/
theorem StartsNumber.isBlank {byte : UInt8} (starts : StartsNumber byte) :
    isBlank byte = false := by
  obtain rfl | ⟨digit, rfl⟩ := starts
  · decide
  · revert digit
    decide

/-- A numeral is written with at least one byte, which begins a number. -/
theorem exists_numeral_cons {numeral : Numeral} (canonical : numeral.Canonical) :
    ∃ first tail, utf8 numeral.text = first :: tail ∧ StartsNumber first := by
  obtain ⟨digit, tail, unsigned⟩ := exists_unsignedBytes canonical
  rw [utf8_numeral, unsigned]
  split
  · exact ⟨_, _, rfl, .inl rfl⟩
  · exact ⟨_, _, rfl, .inr ⟨digit, rfl⟩⟩

/-- A written value starts with a byte that is neither a blank nor a closing bracket. -/
theorem exists_written_cons {value : Json} (writable : value.Writable) :
    ∃ first tail, written value = first :: tail ∧ isBlank first = false ∧ first ≠ ascii ']' := by
  cases writable with
  | null => exact ⟨_, _, rfl, by decide, by decide⟩
  | bool truth => cases truth <;> exact ⟨_, _, rfl, by decide, by decide⟩
  | number canonical =>
      obtain ⟨first, tail, text, starts⟩ := exists_numeral_cons canonical
      have noBracket : first ≠ ascii ']' := by
        have apart := starts.not_mem
        simp_all
      exact ⟨first, tail, by simpa [written, render, append] using text, starts.isBlank, noBracket⟩
  | string text =>
      refine ⟨ascii '"', quotedTail text, ?_, by decide, by decide⟩
      simp [written, render, append, label, utf8_quoted]
  | array => exact ⟨_, _, written_array _, by decide, by decide⟩
  | object => exact ⟨_, _, written_object _, by decide, by decide⟩

/-- The value is read off its written form, whatever follows it, with fuel for each byte. -/
def Reads (value : Json) : Prop :=
  ∀ fuel rest, Stops rest → 2 * (written value).length ≤ fuel →
    value? fuel (written value ++ rest) = some (value, rest)

/-- Commas and closing brackets end a number. -/
theorem stops_cons {byte : UInt8} (mark : byte ∈ [ascii ',', ascii ']', ascii '\x7d'])
    (rest : Input) : Stops (byte :: rest) := by
  simp only [List.mem_cons, List.not_mem_nil, or_false] at mark
  have apart : digit? byte = none ∧ byte ≠ ascii '.' ∧ byte ≠ ascii 'e' ∧ byte ≠ ascii 'E' := by
    rcases mark with rfl | rfl | rfl <;> decide
  obtain ⟨noDigit, others⟩ := apart
  refine ⟨?_, ?_⟩
  · rintro _ ⟨⟩
    exact noDigit
  · rintro _ ⟨⟩
    exact others

/-- A word is read after its first letter. -/
theorem word?_append (expected : List Char) (rest : Input) :
    word? expected (expected.map ascii ++ rest) = some rest := by
  induction expected with
  | nil => rfl
  | cons c expected ih =>
      rw [List.map_cons, List.cons_append, word?, if_pos rfl]
      exact ih

/-- A value that is written as a word is read when the reader knows the word by its first
letter. -/
theorem reads_word {value : Json} {letter : Char} {others : List Char}
    (text : written value = ascii letter :: others.map ascii)
    (known : ∀ fuel rest, value? (fuel + 1) (ascii letter :: rest) =
      (word? others rest).map fun rest => (value, rest)) : Reads value := by
  intro fuel rest _ enough
  rw [text] at enough ⊢
  obtain _ | fuel := fuel
  · simp at enough
  rw [List.cons_append, known, word?_append]
  rfl

/-- The word for null is read back. -/
theorem reads_null : Reads .null := by
  have text : written .null = ascii 'n' :: ['u', 'l', 'l'].map ascii := by decide
  refine reads_word text fun fuel rest => ?_
  rw [value?, skipBlanks_cons (by decide)]
  rfl

/-- The words for truth and falsehood are read back. -/
theorem reads_bool (truth : Bool) : Reads (.bool truth) := by
  cases truth with
  | true =>
      have text : written (.bool true) = ascii 't' :: ['r', 'u', 'e'].map ascii := by decide
      refine reads_word text fun fuel rest => ?_
      rw [value?, skipBlanks_cons (by decide)]
      rfl
  | false =>
      have text : written (.bool false) = ascii 'f' :: ['a', 'l', 's', 'e'].map ascii := by decide
      refine reads_word text fun fuel rest => ?_
      rw [value?, skipBlanks_cons (by decide)]
      rfl

/-- A canonical numeral is read back. -/
theorem reads_number {numeral : Numeral} (canonical : numeral.Canonical) :
    Reads (.number numeral) := by
  intro fuel rest stops enough
  have text : written (.number numeral) = utf8 numeral.text := by simp [written, render, append]
  have read := numeral?_text canonical stops
  obtain ⟨first, tail, cons, starts⟩ := exists_numeral_cons canonical
  have apart := starts.not_mem
  simp only [List.mem_cons, not_or] at apart
  obtain ⟨noQuote, noBracket, noBrace, noNull, noTrue, noFalse, _⟩ := apart
  rw [text, cons] at enough ⊢
  rw [cons, List.cons_append] at read
  obtain _ | fuel := fuel
  · simp at enough
  rw [List.cons_append, value?, skipBlanks_cons starts.isBlank]
  dsimp only
  rw [if_neg noQuote, if_neg noBracket, if_neg noBrace, if_neg noNull, if_neg noTrue,
    if_neg noFalse, read]
  rfl

/-- Every text is read back from its quoted form. -/
theorem reads_string (text : String) : Reads (.string (some text)) := by
  intro fuel rest _ enough
  have bytes : written (.string (some text)) = ascii '"' :: quotedTail text := by
    simp [written, render, append, label, utf8_quoted]
  rw [bytes] at enough ⊢
  obtain _ | fuel := fuel
  · simp at enough
  rw [List.cons_append, value?, skipBlanks_cons (by decide)]
  dsimp only
  rw [if_pos rfl, string?_quotedTail]

/-- The items of an array are read back in their order. -/
theorem items?_itemBytes {items : List Json} (nonempty : items ≠ [])
    (reads : ∀ item ∈ items, Reads item) (fuel : Nat) (rest : Input) (done : List Json)
    (enough : 2 * (itemBytes items).length + 1 ≤ fuel) :
    items? fuel (itemBytes items ++ ascii ']' :: rest) done =
      some (.array (done.reverse ++ items), rest) := by
  induction items generalizing fuel done with
  | nil => exact absurd rfl nonempty
  | cons item items ih =>
      have first := reads item List.mem_cons_self
      obtain _ | fuel := fuel
      · simp at enough
      cases items with
      | nil =>
          rw [itemBytes_singleton] at enough ⊢
          rw [items?, first fuel _ (stops_cons (by decide) rest) (by omega)]
          dsimp only
          rw [skipBlanks_cons (by decide)]
          dsimp only
          rw [if_pos rfl, List.reverse_cons]
      | cons next items =>
          have others : ∀ other ∈ next :: items, Reads other := fun other member =>
            reads other (List.mem_cons_of_mem _ member)
          rw [itemBytes_cons, List.length_append, List.length_cons] at enough
          rw [itemBytes_cons, List.append_assoc, List.cons_append, items?,
            first fuel _ (stops_cons (by decide) _) (by omega)]
          dsimp only
          rw [skipBlanks_cons (by decide)]
          dsimp only
          rw [if_neg (by decide), if_pos rfl, ih (List.cons_ne_nil _ _) others fuel _ (by omega)]
          simp

/-- An array is read back when its items are. -/
theorem reads_array {items : List Json} (writable : ∀ item ∈ items, item.Writable)
    (reads : ∀ item ∈ items, Reads item) : Reads (.array items) := by
  intro fuel rest _ enough
  rw [written_array] at enough ⊢
  simp only [List.length_cons, List.length_append, List.length_nil] at enough
  obtain _ | fuel := fuel
  · omega
  rw [List.cons_append, List.append_assoc, List.singleton_append, value?,
    skipBlanks_cons (by decide)]
  dsimp only
  rw [if_neg (by decide), if_pos rfl]
  cases items with
  | nil =>
      have empty : itemBytes [] = [] := by decide
      rw [empty, List.nil_append, skipBlanks_cons (by decide)]
      rfl
  | cons item items =>
      have read := items?_itemBytes (List.cons_ne_nil item items) reads fuel rest [] (by omega)
      obtain ⟨first, tail, cons, visible, noBracket⟩ :=
        exists_written_cons (writable item List.mem_cons_self)
      have start : ∃ more, itemBytes (item :: items) = first :: more := by
        cases items with
        | nil => exact ⟨_, cons⟩
        | cons next items => exact ⟨_, by rw [itemBytes_cons, cons]; rfl⟩
      obtain ⟨more, start⟩ := start
      rw [start, List.cons_append] at read ⊢
      rw [skipBlanks_cons visible]
      dsimp only
      rw [if_neg noBracket, read]
      rfl

/-- The members of an object are read back in their order. -/
theorem members?_memberBytes {members : List (Option String × Json)} (nonempty : members ≠ [])
    (named : ∀ member ∈ members, member.1.isSome) (reads : ∀ member ∈ members, Reads member.2)
    (fuel : Nat) (rest : Input) (done : List (Option String × Json))
    (enough : 2 * (memberBytes members).length + 1 ≤ fuel) :
    members? fuel (memberBytes members ++ ascii '\x7d' :: rest) done =
      some (.object (done.reverse ++ members), rest) := by
  induction members generalizing fuel done with
  | nil => exact absurd rfl nonempty
  | cons member members ih =>
      obtain ⟨name, value⟩ := member
      have first : Reads value := reads (name, value) List.mem_cons_self
      obtain ⟨name, rfl⟩ := Option.isSome_iff_exists.mp (named _ List.mem_cons_self)
      obtain _ | fuel := fuel
      · simp at enough
      cases members with
      | nil =>
          rw [memberBytes_singleton] at enough ⊢
          simp only [List.length_cons, List.length_append] at enough
          rw [List.cons_append, List.append_assoc, List.cons_append, members?,
            skipBlanks_cons (by decide)]
          dsimp only
          rw [if_pos rfl, string?_quotedTail]
          dsimp only
          rw [skipBlanks_cons (by decide)]
          dsimp only
          rw [if_pos rfl, first fuel _ (stops_cons (by decide) rest) (by omega)]
          dsimp only
          rw [skipBlanks_cons (by decide)]
          dsimp only
          rw [if_pos rfl, List.reverse_cons]
      | cons next members =>
          have others : ∀ other ∈ next :: members, Reads other.2 := fun other member =>
            reads other (List.mem_cons_of_mem _ member)
          have othersNamed : ∀ other ∈ next :: members, other.1.isSome := fun other member =>
            named other (List.mem_cons_of_mem _ member)
          rw [memberBytes_cons] at enough ⊢
          simp only [List.length_cons, List.length_append] at enough
          rw [List.cons_append, List.append_assoc, List.cons_append, List.append_assoc,
            List.cons_append, members?, skipBlanks_cons (by decide)]
          dsimp only
          rw [if_pos rfl, string?_quotedTail]
          dsimp only
          rw [skipBlanks_cons (by decide)]
          dsimp only
          rw [if_pos rfl, first fuel _ (stops_cons (by decide) _) (by omega)]
          dsimp only
          rw [skipBlanks_cons (by decide)]
          dsimp only
          rw [if_neg (by decide), if_pos rfl,
            ih (List.cons_ne_nil _ _) othersNamed others fuel _ (by omega)]
          simp

/-- An object is read back when its members are. -/
theorem reads_object {members : List (Option String × Json)}
    (named : ∀ member ∈ members, member.1.isSome) (reads : ∀ member ∈ members, Reads member.2) :
    Reads (.object members) := by
  intro fuel rest _ enough
  rw [written_object] at enough ⊢
  simp only [List.length_cons, List.length_append, List.length_nil] at enough
  obtain _ | fuel := fuel
  · omega
  rw [List.cons_append, List.append_assoc, List.singleton_append, value?,
    skipBlanks_cons (by decide)]
  dsimp only
  rw [if_neg (by decide), if_neg (by decide), if_pos rfl]
  cases members with
  | nil =>
      have empty : memberBytes [] = [] := by decide
      rw [empty, List.nil_append, skipBlanks_cons (by decide)]
      rfl
  | cons member members =>
      have read := members?_memberBytes (List.cons_ne_nil member members) named reads fuel rest []
        (by omega)
      have start : ∃ more, memberBytes (member :: members) = ascii '"' :: more := by
        obtain ⟨name, value⟩ := member
        obtain ⟨name, rfl⟩ := Option.isSome_iff_exists.mp (named _ List.mem_cons_self)
        cases members with
        | nil => exact ⟨_, memberBytes_singleton name value⟩
        | cons next members => exact ⟨_, memberBytes_cons name value next members⟩
      obtain ⟨more, start⟩ := start
      rw [start, List.cons_append] at read ⊢
      rw [skipBlanks_cons (by decide)]
      dsimp only
      rw [if_neg (by decide), read]
      rfl

/-- Every value that can be written is read off its written form. -/
theorem reads_of_writable {value : Json} (writable : value.Writable) : Reads value := by
  induction writable with
  | null => exact reads_null
  | bool truth => exact reads_bool truth
  | number canonical => exact reads_number canonical
  | string text => exact reads_string text
  | array writable ih => exact reads_array writable ih
  | object named _ ih => exact reads_object named ih

end Json.Reader

/-- A written value can be read, and nothing of it is lost. -/
theorem Json.parse?_render {value : Json} (writable : value.Writable) :
    Json.parse? (Bytes.ofText value.render) = some value := by
  have size : (Bytes.ofText value.render).size = (Reader.written value).length := by
    simp [Reader.written, utf8]
  have ends : Reader.Stops [] := by simp [Reader.Stops, Reader.NoDigit]
  have read := Reader.reads_of_writable writable (2 * (Bytes.ofText value.render).size + 2) [] ends
    (by omega)
  rw [List.append_nil] at read
  rw [Json.parse?, show (Bytes.ofText value.render).toList = Reader.written value from rfl, read]
  rfl

end ByteLisp
