import ByteLisp.Image
import ByteLisp.Proofs.LiteralJson

/-!
# Images

Every image starts with the same sixteen bytes, up to the length of its payload. `Image.read`
looks at no more than the header and as many bytes as the header announces, so that it gives
the same answer whatever follows an image, and it notices every image that was cut short.
-/

namespace ByteLisp

namespace Bytes

/-- What is put behind does not change the bytes before it. -/
theorem getD_append {first : Bytes} {offset : Nat} (inside : offset < first.size) (rest : Bytes) :
    (first ++ rest).getD offset 0 = first.getD offset 0 := by
  simp [Array.getElem?_append_left inside]

/-- A number is read off the bytes in which it lies. -/
theorem longAt_append {first : Bytes} {offset : Nat} (inside : offset + 4 ≤ first.size)
    (rest : Bytes) : (first ++ rest).longAt offset = first.longAt offset := by
  unfold longAt
  rw [getD_append (by omega), getD_append (by omega), getD_append (by omega),
    getD_append (by omega)]

end Bytes

namespace Image

/-- The bytes before a payload of a length. -/
def header (length : Nat) : Bytes :=
  magic ++ Bytes.ofLong version ++ Bytes.ofLong length

/-- An image begins with eight bytes that mark it. -/
theorem size_magic : magic.size = 8 := by
  decide

/-- The header has a fixed size, whatever it announces. -/
theorem size_header (length : Nat) : (header length).size = headerSize := by
  simp [header, size_magic, Bytes.ofLong, headerSize]

/-- The mark is found at the beginning of what it begins. -/
theorem extract_magic_append (rest : Bytes) : (magic ++ rest).extract 0 8 = magic := by
  rw [← size_magic, Array.extract_append_left, Array.extract_size]

/-- The header gives the version that is written. -/
theorem version_header (length : Nat) : (header length).longAt 8 = version := by
  have first : (magic ++ Bytes.ofLong version).longAt 8 = version := by decide
  rw [header, Bytes.longAt_append (by simp [size_magic, Bytes.ofLong]), first]

/-- The header gives the length of what follows, if it fits in four bytes. -/
theorem length_header {length : Nat} (fits : length < UInt32.size) :
    (header length).longAt 12 = length := by
  have parts : (header length).longAt 12 = length % 256 + 256 * (length / 256 % 256) +
      65536 * (length / 65536 % 256) + 16777216 * (length / 16777216 % 256) := by
    simp [header, Bytes.longAt, size_magic, Bytes.ofLong]
  rw [parts]
  simp only [UInt32.size] at fits
  omega

/-- The answer to bytes that start with a header. -/
theorem read_header_append {length : Nat} (fits : length < UInt32.size) (rest : Bytes) :
    read (header length ++ rest) =
      if rest.size < length then .error (.unexpectedEnd (header length ++ rest).size)
      else match FunctionLiteral.parse? (rest.extract 0 length) with
        | some literal => .ok literal
        | none => .error .malformedImage := by
  have size : (header length ++ rest).size = headerSize + rest.size := by
    rw [Array.size_append, size_header]
  have first : (header length ++ rest).extract 0 8 = magic := by
    rw [header, Array.append_assoc, Array.append_assoc, extract_magic_append]
  have second : (header length ++ rest).longAt 8 = version := by
    rw [Bytes.longAt_append (by rw [size_header]; decide), version_header]
  have third : (header length ++ rest).longAt 12 = length := by
    rw [Bytes.longAt_append (by rw [size_header]; decide), length_header fits]
  have payload : (header length ++ rest).extract headerSize (headerSize + length) =
      rest.extract 0 length := by
    rw [Array.extract_append, size_header]
    simp [size_header]
  rw [read, if_neg (by omega), if_neg (not_not_intro first), if_neg (not_not_intro second)]
  dsimp only
  rw [third, payload]
  by_cases short : rest.size < length
  · rw [if_pos (by omega), if_pos short]
  · exact (if_neg (by omega)).trans (if_neg short).symm

/-- Saving puts the header before the text, when its length fits. -/
theorem write_eq_ok_iff {literal : FunctionLiteral} {image : Bytes} :
    write literal = .ok image ↔ (Bytes.ofText literal.jsonText).size < UInt32.size ∧
      image = header (Bytes.ofText literal.jsonText).size ++ Bytes.ofText literal.jsonText := by
  unfold write
  dsimp only
  split
  · rename_i fits
    constructor
    · intro same
      cases same
      exact ⟨fits, rfl⟩
    · rintro ⟨_, rfl⟩
      rfl
  · rename_i large
    constructor
    · intro same
      cases same
    · rintro ⟨fits, _⟩
      exact absurd fits large

/-- A saved image is read as its text says, whatever follows it. -/
theorem read_append_of_write {literal : FunctionLiteral} {image : Bytes}
    (saved : write literal = .ok image) (suffix : Bytes) :
    read (image ++ suffix) =
      if literal.toJson.depth ≤ Json.maxLevels then
        match Datum.rereadLiteral? literal with
        | some loaded => .ok loaded
        | none => .error .malformedImage
      else .error .malformedImage := by
  obtain ⟨fits, rfl⟩ := write_eq_ok_iff.mp saved
  have payload : (Bytes.ofText literal.jsonText ++ suffix).extract 0
      (Bytes.ofText literal.jsonText).size = Bytes.ofText literal.jsonText := by
    rw [Array.extract_append_left, Array.extract_size]
  rw [Array.append_assoc, read_header_append fits, Array.size_append, if_neg (by omega), payload,
    FunctionLiteral.parse?_jsonText]
  by_cases shallow : literal.toJson.depth ≤ Json.maxLevels
  · rw [if_pos shallow, if_pos shallow]
    rfl
  · rw [if_neg shallow, if_neg shallow]

/-- An image that was cut short is noticed, wherever it was cut. -/
theorem read_of_append_eq {length : Nat} (fits : length < UInt32.size) {payload taken rest : Bytes}
    (size : payload.size = length) (cut : header length ++ payload = taken ++ rest)
    (some_rest : rest ≠ #[]) : read taken = .error (.unexpectedEnd taken.size) := by
  have missing : 0 < rest.size := Array.size_pos_iff.mpr some_rest
  have total := congrArg Array.size cut
  rw [Array.size_append, Array.size_append, size_header] at total
  by_cases short : taken.size < headerSize
  · rw [read, if_pos short]
  · obtain ⟨more, rfl⟩ : ∃ more, taken = header length ++ more := by
      obtain ⟨more, same, _⟩ | ⟨lost, same, _⟩ := Array.append_eq_append_iff.mp cut
      · exact ⟨more, same⟩
      · have sizes := congrArg Array.size same
        rw [Array.size_append, size_header] at sizes
        obtain rfl : lost = #[] := Array.eq_empty_of_size_eq_zero (by omega)
        exact ⟨#[], by rw [same, Array.append_empty, Array.append_empty]⟩
    rw [read_header_append fits, if_pos]
    rw [Array.size_append, size_header] at total
    omega

/-- The image of a function without floating point numbers is read back as the function,
whatever follows it. An image that was cut short, one with a foreign start and one of another
version are refused, each with its own error. -/
theorem written_image_is_recognized {literal : FunctionLiteral}
    (noFloat : Datum.literalFloats literal = []) (shallow : literal.toJson.depth < 128)
    (fits : (Bytes.ofText literal.jsonText).size < 2 ^ 32) :
    ∃ image, write literal = .ok image ∧
      (∀ suffix, read (image ++ suffix) = .ok literal) ∧
      (∀ taken rest, image = taken ++ rest → rest ≠ #[] →
        read taken = .error (.unexpectedEnd taken.size)) ∧
      (∀ changed : Bytes, headerSize ≤ changed.size → changed.extract 0 8 ≠ magic →
        read changed = .error .invalidMagic) ∧
      (∀ changed : Bytes, headerSize ≤ changed.size → changed.extract 0 8 = magic →
        changed.longAt 8 ≠ version →
        read changed = .error (.unsupportedVersion (changed.longAt 8))) := by
  have saved := write_eq_ok_iff.mpr ⟨fits, rfl⟩
  have within : literal.toJson.depth ≤ Json.maxLevels := Nat.le_of_lt_succ shallow
  refine ⟨_, saved, fun suffix => ?_, fun taken rest cut some_rest => ?_,
    fun changed long foreign => ?_, fun changed long known other => ?_⟩
  · rw [read_append_of_write saved, if_pos within,
      Datum.rereadLiteral?_eq_some literal noFloat]
  · exact read_of_append_eq fits rfl cut some_rest
  · rw [read, if_neg (Nat.not_lt.mpr long), if_pos foreign]
  · rw [read, if_neg (Nat.not_lt.mpr long), if_neg (not_not_intro known), if_pos other]

/-- A function with names that need escapes, bytes that are no text, and a function inside. -/
def quotedNames : FunctionLiteral where
  parameters := .list [.symbol "a\"b", .symbol "&rest", .symbol "\n\u00e9"]
  code := #[192, 135]
  constants := [.dotted [.int (-1)] (.string #[255, 0]),
    .function ⟨.int 0, #[], [], 0, none, some .nil⟩]
  maxDepth := 4294967295
  documentation := some (.external "\\" (-1))

/-- Names with quotes and backslashes in them come back from an image. -/
theorem quotedNames_recognized :
    Datum.literalFloats quotedNames = [] ∧ quotedNames.toJson.depth < 128 ∧
      (Bytes.ofText quotedNames.jsonText).size < 2 ^ 32 ∧
      ∃ image, write quotedNames = .ok image ∧
        (∀ suffix, read (image ++ suffix) = .ok quotedNames) ∧
        (∀ taken rest, image = taken ++ rest → rest ≠ #[] →
          read taken = .error (.unexpectedEnd taken.size)) ∧
        (∀ changed : Bytes, headerSize ≤ changed.size → changed.extract 0 8 ≠ magic →
          read changed = .error .invalidMagic) ∧
        (∀ changed : Bytes, headerSize ≤ changed.size → changed.extract 0 8 = magic →
          changed.longAt 8 ≠ version →
          read changed = .error (.unsupportedVersion (changed.longAt 8))) := by
  have noFloat : Datum.literalFloats quotedNames = [] := by decide
  have shallow : quotedNames.toJson.depth < 128 := by decide +kernel
  have fits : (Bytes.ofText quotedNames.jsonText).size < 2 ^ 32 := by decide +kernel
  exact ⟨noFloat, shallow, fits, written_image_is_recognized noFloat shallow fits⟩

/-- A saved image can be loaded if its nesting is bounded and its floats are finite. -/
theorem exists_read_of_write {literal : FunctionLiteral} {image : Bytes}
    (saved : write literal = .ok image) (shallow : literal.toJson.depth < 128)
    (finite : ∀ x ∈ Datum.literalFloats literal, x.isFinite) : ∃ loaded, read image = .ok loaded := by
  have answer := read_append_of_write saved #[]
  have within : literal.toJson.depth ≤ Json.maxLevels := Nat.le_of_lt_succ shallow
  have some_literal : (Datum.rereadLiteral? literal).isSome := by
    rw [Datum.isSome_rereadLiteral?]
    exact List.all_eq_true.mpr finite
  obtain ⟨loaded, reread⟩ := Option.isSome_iff_exists.mp some_literal
  rw [Array.append_empty, if_pos within, reread] at answer
  exact ⟨loaded, answer⟩

/-- Any other saved image is refused as malformed. -/
theorem malformed_of_write {literal : FunctionLiteral} {image : Bytes}
    (saved : write literal = .ok image)
    (unloadable : ¬(literal.toJson.depth < 128 ∧ ∀ x ∈ Datum.literalFloats literal, x.isFinite)) :
    read image = .error .malformedImage := by
  have answer := read_append_of_write saved #[]
  rw [Array.append_empty] at answer
  rw [answer]
  by_cases shallow : literal.toJson.depth ≤ Json.maxLevels
  · have none : Datum.rereadLiteral? literal = none := by
      rw [← Option.not_isSome_iff_eq_none, Datum.isSome_rereadLiteral?, List.all_eq_true]
      exact fun finite => unloadable ⟨Nat.lt_succ_of_le shallow, finite⟩
    rw [if_pos shallow, none]
  · rw [if_neg shallow]

/-- A saved image can be loaded exactly when the function is not nested too deeply and has only
finite floating point numbers. Any other is refused as malformed. -/
theorem saved_image_loads_iff {literal : FunctionLiteral} {image : Bytes}
    (saved : write literal = .ok image) :
    ((∃ loaded, read image = .ok loaded) ↔
      literal.toJson.depth < 128 ∧ ∀ x ∈ Datum.literalFloats literal, x.isFinite) ∧
    ((¬∃ loaded, read image = .ok loaded) → read image = .error .malformedImage) := by
  by_cases loadable :
      literal.toJson.depth < 128 ∧ ∀ x ∈ Datum.literalFloats literal, x.isFinite
  · have loads := exists_read_of_write saved loadable.1 loadable.2
    exact ⟨iff_of_true loads loadable, fun never => absurd loads never⟩
  · have refused := malformed_of_write saved loadable
    refine ⟨iff_of_false ?_ loadable, fun _ => refused⟩
    rintro ⟨loaded, read⟩
    rw [refused] at read
    cases read

/-- A function whose constants are the largest and the smallest positive number, a negative zero
and a number that has no short binary form. -/
def extremeFloats : FunctionLiteral where
  parameters := .int 0
  code := #[135]
  constants := [.float ⟨0x7fefffffffffffff⟩, .float ⟨1⟩, .float ⟨0x8000000000000000⟩,
    .float ⟨0x3fb999999999999a⟩]
  maxDepth := 1

/-- The function can be saved and loaded. -/
theorem extremeFloats_load : ∃ image, write extremeFloats = .ok image ∧
    ∃ loaded, read image = .ok loaded := by
  have fits : (Bytes.ofText extremeFloats.jsonText).size < UInt32.size := by decide +kernel
  have shallow : extremeFloats.toJson.depth < 128 := by decide +kernel
  have finite : ∀ x ∈ Datum.literalFloats extremeFloats, x.isFinite := by decide
  have saved := write_eq_ok_iff.mpr ⟨fits, rfl⟩
  exact ⟨_, saved, (saved_image_loads_iff saved).1.mpr ⟨shallow, finite⟩⟩

/-- A function with one constant. -/
def holding (constant : Datum) : FunctionLiteral where
  parameters := .int 0
  code := #[192, 135]
  constants := [constant]
  maxDepth := 1

/-- A number inside lists. -/
def nested : Nat → Datum
  | 0 => .int 0
  | depth + 1 => .list [nested depth]

open Json.Reader in
/-- The text of a nested list grows by eleven bytes with each level. -/
theorem length_written_nested (depth : Nat) :
    (written (nested depth).toJson).length = 11 * depth + 9 := by
  induction depth with
  | zero => decide +kernel
  | succ depth ih =>
      have value : (nested (depth + 1)).toJson =
          .object [(some "List", .array [(nested depth).toJson])] := rfl
      have name : (quotedTail "List").length = 5 := by decide
      rw [value, written_object, memberBytes_singleton, written_array, itemBytes_singleton]
      simp only [List.length_cons, List.length_append, List.length_nil, name, ih]
      omega

open Json.Reader in
/-- A function with one constant adds a fixed number of bytes to the text of the constant. -/
theorem size_jsonText_holding (constant : Datum) :
    (Bytes.ofText (holding constant).jsonText).size = (written constant.toJson).length + 67 := by
  have size : (Bytes.ofText (holding constant).jsonText).size =
      (written (holding constant).toJson).length := by
    simp [written, utf8, FunctionLiteral.jsonText]
  have value : (holding constant).toJson =
      .object [(some "arglist", .ofChoice "Int" (.ofInt 0)), (some "code", .ofByteList [192, 135]),
        (some "constants", .array [constant.toJson]), (some "max_depth", .ofNat 1)] := rfl
  have names : (quotedTail "arglist").length = 8 ∧ (quotedTail "code").length = 5 ∧
      (quotedTail "constants").length = 10 ∧ (quotedTail "max_depth").length = 10 := by decide
  have fields : (written (.ofChoice "Int" (.ofInt 0))).length = 9 ∧
      (written (.ofByteList [192, 135])).length = 9 ∧ (written (.ofNat 1)).length = 1 := by
    decide +kernel
  rw [size, value, written_object, memberBytes_cons, memberBytes_cons, memberBytes_cons,
    memberBytes_singleton, written_array, itemBytes_singleton]
  simp only [List.length_cons, List.length_append, List.length_nil, names, fields]
  omega

/-- Deep nesting and an infinite number are saved without complaint, and the images cannot be
loaded. -/
theorem saved_in_vain :
    (∃ image, write (holding (nested 63)) = .ok image ∧ read image = .error .malformedImage) ∧
    ∃ image, write (holding (.float ⟨0x7ff0000000000000⟩)) = .ok image ∧
      read image = .error .malformedImage := by
  constructor
  · have fits : (Bytes.ofText (holding (nested 63)).jsonText).size < UInt32.size := by
      rw [size_jsonText_holding, length_written_nested]
      decide
    have deep : ¬(holding (nested 63)).toJson.depth < 128 := by decide +kernel
    have saved := write_eq_ok_iff.mpr ⟨fits, rfl⟩
    exact ⟨_, saved, malformed_of_write saved fun loadable => deep loadable.1⟩
  · have fits : (Bytes.ofText (holding (.float ⟨0x7ff0000000000000⟩)).jsonText).size <
        UInt32.size := by
      decide +kernel
    have infinite : ¬∀ x ∈ Datum.literalFloats (holding (.float ⟨0x7ff0000000000000⟩)),
        x.isFinite := by decide
    have saved := write_eq_ok_iff.mpr ⟨fits, rfl⟩
    exact ⟨_, saved, malformed_of_write saved fun loadable => infinite loadable.2⟩

end Image

end ByteLisp
