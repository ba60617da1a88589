import ByteLisp.Code.Cursor
import ByteLisp.Proofs.Encoding

/-!
# Walking over code

A listing is what a walk over code shows, one instruction at a time: `Walk.next?` is one step of
it, and `Walk.Yields` says what a walk shows until it is over. The lines of a listing tile the
code. Each of them stands where the one before it ends, and behind the last of them is the end
of the code or the place at which the walk has met an error. Where the walk comes to the end,
more code may follow: its lines come behind, at places that are shifted by the length of what
was there before. `Listing.tiles_and_joins` says so for all code.
-/

namespace ByteLisp

namespace CodeError

/-- The place in the code that the error names. -/
def offset? : CodeError → Option Nat
  | invalidOpcode _ offset | unexpectedEnd offset | notAJump offset => some offset
  | invalidMagic | unsupportedVersion _ | operandOutOfRange _ _ | invalidDescriptor _
  | malformedImage => none

/-- The error in code that stands so many bytes further on. -/
def shifted (distance : Nat) : CodeError → CodeError
  | invalidOpcode byte offset => invalidOpcode byte (offset + distance)
  | unexpectedEnd offset => unexpectedEnd (offset + distance)
  | notAJump offset => notAJump (offset + distance)
  | invalidMagic => invalidMagic
  | unsupportedVersion version => unsupportedVersion version
  | operandOutOfRange opcode operand => operandOutOfRange opcode operand
  | invalidDescriptor raw => invalidDescriptor raw
  | malformedImage => malformedImage

end CodeError

namespace Instruction

variable {code : Bytes} {offset : Nat}

/-- The length that the byte at the offset gives to the instruction there. -/
def lengthAt? (code : Bytes) (offset : Nat) : Option Nat :=
  (code[offset]?.bind ByteCode.ofByte?).map fun meaning => meaning.operand.instructionLength

/-- An instruction ends as far behind its first byte as this says. -/
theorem exists_length_of_decode {instruction : Instruction} {next : Nat}
    (decoded : decode code offset = .ok (instruction, next)) :
    ∃ length, lengthAt? code offset = some length ∧ next = offset + length := by
  rw [decode_eq] at decoded
  split at decoded
  · cases decoded
  next byte found =>
    split at decoded
    · cases decoded
    next meaning known =>
      split at decoded
      · cases decoded
      next operand given =>
        cases decoded
        exact ⟨meaning.operand.instructionLength, by simp [lengthAt?, found, known], rfl⟩

/-- What cannot be decoded is reported with the offset at which it starts. -/
theorem offset?_of_decode_eq_error {error : CodeError}
    (failed : decode code offset = .error error) : error.offset? = some offset := by
  rw [decode_eq] at failed
  split at failed
  · cases failed
    rfl
  · split at failed
    · cases failed
      rfl
    · split at failed <;> cases failed
      rfl

/-- More code behind an instruction does not change what is decoded. -/
theorem decode_append_left {instruction : Instruction} {next : Nat}
    (decoded : decode code offset = .ok (instruction, next)) (more : Bytes) :
    decode (code ++ more) offset = .ok (instruction, next) := by
  have inside := lt_size_of_decode_eq_ok decoded
  obtain ⟨bytes, rest, spells, found, rfl⟩ := exists_spells_of_decode decoded
  refine decode_of_spells spells (?_ : _ = bytes ++ (rest ++ more.toList))
  rw [Array.toList_append, List.drop_append_of_le_length, found, List.append_assoc]
  exact Nat.le_of_lt inside

/-- Code that stands behind other code is decoded as it is alone, further on. -/
theorem decode_append_right (before code : Bytes) (offset : Nat) :
    decode (before ++ code) (offset + before.size) = match decode code offset with
      | .ok (instruction, next) => .ok (instruction, next + before.size)
      | .error error => .error (error.shifted before.size) := by
  have byteAt : ∀ place, (before ++ code)[place + before.size]? = code[place]? := by
    intro place
    rw [Array.getElem?_append_right (Nat.le_add_left _ _), Nat.add_sub_cancel]
  have operands : ∀ kind,
      operandAt? (before ++ code) (offset + before.size) kind = operandAt? code offset kind := by
    intro kind
    cases kind with
    | none | packed => rfl
    | byte | word => simp only [operandAt?, Nat.add_right_comm offset before.size, byteAt]
  simp only [decode_eq, byteAt, operands]
  cases code[offset]? with
  | none => rfl
  | some byte =>
      cases known : ByteCode.ofByte? byte with
      | none => simp only [known, CodeError.shifted]
      | some meaning =>
          cases given : operandAt? code offset meaning.operand with
          | none => simp only [known, given, CodeError.shifted]
          | some operand => simp only [known, given, Nat.add_right_comm offset before.size]

end Instruction

/-! ## Step by step -/

/-- A walk over code: where it is, and whether it has met an error. -/
structure Walk where
  cursor : Nat := 0
  failed : Bool := false

/-- What a walk shows: an instruction with its offset, or an error. -/
abbrev Walk.Item := Except CodeError (Nat × Instruction)

namespace Walk

/-- What the walk shows next, and how it goes on. It is over at the end of the code and after
an error. -/
def next? (code : Bytes) (walk : Walk) : Option (Item × Walk) :=
  if walk.failed || code.size ≤ walk.cursor then none
  else
    match Instruction.read code walk.cursor with
    | (.ok instruction, cursor) => some (.ok (walk.cursor, instruction), { walk with cursor })
    | (.error error, cursor) => some (.error error, ⟨cursor, true⟩)

/-- The walk shows these items and is over then. -/
inductive Yields (code : Bytes) : Walk → List Item → Prop where
  | finished {walk : Walk} (ended : walk.next? code = none) : Yields code walk []
  | shows {walk later : Walk} {item : Item} {items : List Item}
      (given : walk.next? code = some (item, later)) (rest : Yields code later items) :
      Yields code walk (item :: items)

variable {code : Bytes}

/-- A walk yields its items in one way only. -/
theorem Yields.unique {walk : Walk} {items others : List Item} (yields : Yields code walk items)
    (alike : Yields code walk others) : items = others := by
  induction yields generalizing others with
  | finished ended =>
      cases alike with
      | finished => rfl
      | shows given _ =>
          rw [ended] at given
          cases given
  | shows given _ ih =>
      cases alike with
      | finished ended =>
          rw [ended] at given
          cases given
      | shows givenAlike rest =>
          rw [given] at givenAlike
          cases givenAlike
          rw [ih rest]

/-- Where an instruction can be decoded, the walk yields it and goes on behind it. -/
theorem next?_of_ok {offset next : Nat} {instruction : Instruction}
    (decoded : Instruction.decode code offset = .ok (instruction, next)) :
    next? code ⟨offset, false⟩ = some (.ok (offset, instruction), ⟨next, false⟩) := by
  have inside := Instruction.lt_size_of_decode_eq_ok decoded
  simp [next?, Nat.not_le.mpr inside, Instruction.read_eq_ok_iff.mpr decoded]

/-- Where none can be decoded, the walk yields the error and is over. -/
theorem next?_of_error {offset : Nat} {error : CodeError} (inside : offset < code.size)
    (failed : Instruction.decode code offset = .error error) :
    next? code ⟨offset, false⟩ = some (.error error, ⟨offset, true⟩) := by
  simp [next?, Nat.not_le.mpr inside, Instruction.read_eq_error_iff.mpr ⟨failed, rfl⟩]

end Walk

namespace Listing

variable {code : Bytes} {offset : Nat}

/-- The listing as a walk shows it. -/
def items (listing : Listing) : List Walk.Item :=
  listing.lines.map .ok ++ listing.stoppedBy.toList.map .error

/-- A walk shows the listing from its cursor on. -/
theorem yields_startingAt (code : Bytes) (offset : Nat) :
    Walk.Yields code ⟨offset, false⟩ (startingAt code offset).items := by
  fun_induction startingAt code offset with
  | case1 offset inside error failed =>
      exact .shows (Walk.next?_of_error inside failed) (.finished rfl)
  | case2 offset inside instruction next decoded rest ih =>
      exact .shows (Walk.next?_of_ok decoded) ih
  | case3 offset outside =>
      refine .finished ?_
      simp [Walk.next?, Nat.le_of_not_lt outside]

/-! ## Tiles -/

/-- From the offset on the lines tile the code up to a place: each line has the instruction that
is decoded at its offset, and the next one starts where this instruction ends. -/
inductive Tiles (code : Bytes) : Nat → List (Nat × Instruction) → Nat → Prop where
  | nil (offset : Nat) : Tiles code offset [] offset
  | cons {offset length stop : Nat} {instruction : Instruction}
      {lines : List (Nat × Instruction)}
      (measured : Instruction.lengthAt? code offset = some length)
      (decoded : Instruction.decode code offset = .ok (instruction, offset + length))
      (behind : Tiles code (offset + length) lines stop) :
      Tiles code offset ((offset, instruction) :: lines) stop

/-- A listing is over at a place: at the end of the code, or with the error that decoding gives
there, which names the place. -/
inductive EndsAt (code : Bytes) : Nat → Option CodeError → Prop where
  | atEnd : EndsAt code code.size none
  | failed {stop : Nat} {error : CodeError} (inside : stop < code.size)
      (undecoded : Instruction.decode code stop = .error error)
      (named : error.offset? = some stop) : EndsAt code stop (some error)

/-- The lines of a listing lie end to end, up to the place where the listing stops. -/
theorem exists_tiles (within : offset ≤ code.size) :
    ∃ stop, Tiles code offset (startingAt code offset).lines stop ∧
      EndsAt code stop (startingAt code offset).stoppedBy := by
  fun_induction startingAt code offset with
  | case1 offset inside error failed =>
      exact ⟨offset, .nil offset,
        .failed inside failed (Instruction.offset?_of_decode_eq_error failed)⟩
  | case2 offset inside instruction next decoded rest ih =>
      obtain ⟨stop, tiles, ends⟩ := ih (Instruction.le_size_of_decode_eq_ok decoded)
      obtain ⟨length, measured, rfl⟩ := Instruction.exists_length_of_decode decoded
      exact ⟨stop, .cons measured decoded tiles, ends⟩
  | case3 offset outside =>
      obtain rfl := Nat.le_antisymm within (Nat.le_of_not_lt outside)
      exact ⟨_, .nil _, .atEnd⟩

/-! ## Code behind code -/

/-- The listing of code that stands so many bytes further on. -/
def shifted (distance : Nat) (listing : Listing) : Listing where
  lines := listing.lines.map fun line => (line.1 + distance, line.2)
  stoppedBy := listing.stoppedBy.map (CodeError.shifted distance)

/-- Code that stands behind other code is listed as it is alone, further on. -/
theorem startingAt_append_right (before code : Bytes) (offset : Nat) :
    startingAt (before ++ code) (offset + before.size) =
      (startingAt code offset).shifted before.size := by
  have size : (before ++ code).size = code.size + before.size := by
    rw [Array.size_append, Nat.add_comm]
  fun_induction startingAt code offset with
  | case1 offset inside error failed =>
      have failedBehind := Instruction.decode_append_right before code offset
      rw [failed] at failedBehind
      rw [startingAt_of_error (by omega) failedBehind]
      rfl
  | case2 offset inside instruction next decoded rest ih =>
      have decodedBehind := Instruction.decode_append_right before code offset
      rw [decoded] at decodedBehind
      rw [startingAt_of_ok decodedBehind, ih]
      rfl
  | case3 offset outside =>
      rw [startingAt_of_size_le (by omega)]
      rfl

/-- More code behind the lines does not change them. -/
theorem Tiles.startingAt_append_left {lines : List (Nat × Instruction)} {stop : Nat}
    (tiles : Tiles code offset lines stop) (more : Bytes) :
    startingAt (code ++ more) offset =
      ⟨lines ++ (startingAt (code ++ more) stop).lines,
        (startingAt (code ++ more) stop).stoppedBy⟩ := by
  induction tiles with
  | nil offset => rfl
  | cons measured decoded behind ih =>
      rw [startingAt_of_ok (Instruction.decode_append_left decoded more), ih]
      rfl

/-- Where the listing comes to the end of the code, it goes on with what stands behind. -/
theorem ofCode_append (complete : (ofCode code).stoppedBy = none) (more : Bytes) :
    ofCode (code ++ more) =
      ⟨(ofCode code).lines ++ ((ofCode more).shifted code.size).lines,
        ((ofCode more).shifted code.size).stoppedBy⟩ := by
  obtain ⟨stop, tiles, ends⟩ := exists_tiles (Nat.zero_le code.size)
  have stopped : (startingAt code 0).stoppedBy = none := complete
  rw [stopped] at ends
  cases ends with
  | atEnd =>
      have behind := startingAt_append_right code more 0
      rw [Nat.zero_add] at behind
      rw [ofCode, tiles.startingAt_append_left more, behind]
      rfl

/-- For all code:
- A walk over it is over after finitely many steps, and shows the lines of the listing and then
  the error at which it stopped, if there is one.
- The lines start at the offset zero, and each next offset is the one before it plus the length
  of the instruction there. Behind the last line is the end of the code, or the place of the
  error, the first one at which nothing can be decoded.
- If there is no error, more code may follow. The listing of all of it has the lines of the first
  part and then those of the second, and ends as that one does, with all offsets of the second
  part shifted by the length of the first. -/
theorem tiles_and_joins (code : Bytes) :
    (∀ items, Walk.Yields code {} items ↔ items = (ofCode code).items) ∧
    (∃ stop, Tiles code 0 (ofCode code).lines stop ∧
      EndsAt code stop (ofCode code).stoppedBy) ∧
    ((ofCode code).stoppedBy = none → ∀ more,
      ofCode (code ++ more) =
        ⟨(ofCode code).lines ++ ((ofCode more).shifted code.size).lines,
          ((ofCode more).shifted code.size).stoppedBy⟩) := by
  refine ⟨?_, exists_tiles (Nat.zero_le _), ofCode_append⟩
  intro items
  have yields := yields_startingAt code 0
  constructor
  · exact fun alike => alike.unique yields
  · rintro rfl
    exact yields

/-- A jump with one of the two bytes of its target is where the listing stops. -/
theorem ofCode_cutJump : ofCode #[137, 130, 1] = ⟨[(0, ⟨.dup, 0⟩)], some (.unexpectedEnd 1)⟩ := by
  have isDup : ByteCode.ofByte? 137 = some ⟨.dup, .none⟩ :=
    ByteCode.ofByte?_dedicated .dup (by decide)
  have isGoto : ByteCode.ofByte? 130 = some ⟨.goto, .word⟩ :=
    ByteCode.ofByte?_dedicated .goto (by decide)
  have decoded : Instruction.decode #[137, 130, 1] 0 = .ok (⟨.dup, 0⟩, 1) := by
    simp [Instruction.decode_eq, Instruction.operandAt?, isDup, OperandKind.instructionLength]
  have cut : Instruction.decode #[137, 130, 1] 1 = .error (.unexpectedEnd 1) := by
    simp [Instruction.decode_eq, Instruction.operandAt?, isGoto]
  rw [ofCode, startingAt_of_ok decoded, startingAt_of_error (by decide) cut]

/-- A constant and a call, with a jump behind them that is cut off. -/
theorem listing_up_to_cutJump :
    ofCode (#[192, 39, 0, 1] ++ #[137, 130, 1]) =
      ⟨[(0, ⟨.constant, 0⟩), (1, ⟨.call, 256⟩), (4, ⟨.dup, 0⟩)], some (.unexpectedEnd 5)⟩ := by
  have encoded : Instruction.encodeAll [⟨.constant, 0⟩, ⟨.call, 256⟩] = .ok #[192, 39, 0, 1] := rfl
  have complete : ofCode #[192, 39, 0, 1] = ⟨[(0, ⟨.constant, 0⟩), (1, ⟨.call, 256⟩)], none⟩ :=
    startingAt_of_encodeAll encoded (by simp)
  have joined := (tiles_and_joins #[192, 39, 0, 1]).2.2 (by rw [complete]) #[137, 130, 1]
  rw [joined, complete, ofCode_cutJump]
  rfl

end Listing

end ByteLisp
