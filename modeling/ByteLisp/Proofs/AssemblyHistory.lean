import ByteLisp.Code.Assembler
import ByteLisp.Proofs.Encoding
import Mathlib.Data.List.Basic

/-!
# Code under construction

An assembler is asked for one step after the other, and some steps fail. The journal of a
history holds what the successful steps have done: an instruction was written, a jump
without a target was put at an offset, or a jump was pointed to a target. A jump is pointed
to its target by overwriting two bytes in the middle of the code, as often as one likes and
at any later time. Still the code lists exactly what the journal holds, because these bytes
are the operand of an instruction that starts where the jump was put.
-/

namespace ByteLisp

/-- Only codes with a two-byte operand jump. -/
theorem ByteCode.word_of_isJump {byte : UInt8} {opcode : Opcode} {kind : OperandKind}
    (meaning : ofByte? byte = some ⟨opcode, kind⟩) (jumps : opcode.isJump = true) :
    kind = .word := by
  have checked : ∀ byte < 256, ∀ meaning ∈ ofByte? (UInt8.ofNat byte),
      meaning.opcode.isJump = true → meaning.operand = .word := by
    decide +kernel
  have known := checked byte.toNat byte.toNat_lt ⟨opcode, kind⟩
  rw [UInt8.ofNat_toNat] at known
  exact known meaning jumps

/-- Every jump has a byte code of its own. -/
theorem Opcode.ofByte?_of_isJump {opcode : Opcode} (jumps : opcode.isJump = true) :
    ByteCode.ofByte? opcode.byte = some ⟨opcode, .word⟩ := by
  have own : ∀ opcode ∈ all, opcode.isJump = true →
      ByteCode.ofByte? opcode.byte = some ⟨opcode, .word⟩ := by
    decide +kernel
  exact own opcode opcode.mem_all jumps

namespace Instruction

/-- A jump is spelled as its code and the two bytes of its target. -/
theorem Spells.of_isJump {bytes : List UInt8} {instruction : Instruction}
    (spells : Spells bytes instruction) (jumps : instruction.opcode.isJump = true) :
    ∃ byte low high, bytes = [byte, low, high] ∧
      ByteCode.ofByte? byte = some ⟨instruction.opcode, .word⟩ := by
  cases spells with
  | none meaning | packed meaning | byte meaning =>
      cases ByteCode.word_of_isJump meaning jumps
  | word meaning => exact ⟨_, _, _, rfl, meaning⟩

/-- Every spelling has at least the byte of its opcode. -/
theorem Spells.length_pos {bytes : List UInt8} {instruction : Instruction}
    (spells : Spells bytes instruction) : 0 < bytes.length := by
  cases spells <;> simp

end Instruction

/-! ## Pointing a jump to a target -/

namespace Listing

/-- The line with another operand, where it stands at `position`. -/
def retarget (position : Nat) (target : UInt16) (line : Nat × Instruction) : Nat × Instruction :=
  if line.1 = position then (position, ⟨line.2.opcode, target⟩) else line

namespace Spelled

variable {offset position : Nat} {bytes : List UInt8} {lines : List (Nat × Instruction)}
  {instruction : Instruction}

/-- Spelled code can be put together where one piece ends and the next begins. -/
theorem append {further : List UInt8} {behind : List (Nat × Instruction)}
    (spelled : Spelled offset bytes lines)
    (spelledBehind : Spelled (offset + bytes.length) further behind) :
    Spelled offset (bytes ++ further) (lines ++ behind) := by
  induction spelled with
  | nil offset => simpa using spelledBehind
  | cons spells rest ih =>
      rw [List.append_assoc]
      apply Spelled.cons spells
      apply ih
      rwa [Nat.add_assoc, ← List.length_append]

/-- One more instruction behind the others. -/
theorem snoc {further : List UInt8} (spelled : Spelled offset bytes lines)
    (spells : Instruction.Spells further instruction) :
    Spelled offset (bytes ++ further) (lines ++ [(offset + bytes.length, instruction)]) := by
  apply spelled.append
  simpa using Spelled.cons spells (.nil _)

/-- No line stands before the offset at which the listing begins. -/
theorem le_of_mem (spelled : Spelled offset bytes lines) (listed : (position, instruction) ∈ lines) :
    offset ≤ position := by
  induction spelled with
  | nil => cases listed
  | cons spells rest ih =>
      obtain same | later := List.mem_cons.mp listed
      · cases same
        exact Nat.le_refl _
      · exact Nat.le_trans (Nat.le_add_right _ _) (ih later)

/-- The line of a jump has the code of the jump at its offset and two bytes behind it. -/
theorem code_of_mem (spelled : Spelled offset bytes lines)
    (listed : (position, instruction) ∈ lines) (jumps : instruction.opcode.isJump = true) :
    ∃ byte, bytes[position - offset]? = some byte ∧
      ByteCode.ofByte? byte = some ⟨instruction.opcode, .word⟩ ∧
      position - offset + 3 ≤ bytes.length := by
  induction spelled with
  | nil => cases listed
  | @cons offset bytes rest first lines spells behind ih =>
      obtain same | later := List.mem_cons.mp listed
      · cases same
        obtain ⟨byte, low, high, rfl, meaning⟩ := spells.of_isJump jumps
        exact ⟨byte, by simp, meaning, by simp⟩
      · obtain ⟨byte, found, meaning, within⟩ := ih later
        have beyond := behind.le_of_mem later
        have shift : position - offset = bytes.length + (position - (offset + bytes.length)) := by
          omega
        refine ⟨byte, ?_, meaning, ?_⟩
        · rw [shift, List.getElem?_append_right (Nat.le_add_right _ _), Nat.add_sub_cancel_left]
          exact found
        · rw [shift, List.length_append]
          omega

/-- Lines elsewhere keep their operands. -/
theorem map_retarget_of_lt (target : UInt16) (spelled : Spelled offset bytes lines)
    (before : position < offset) : lines.map (retarget position target) = lines := by
  have same : ∀ line ∈ lines, retarget position target line = id line := by
    rintro ⟨place, instruction⟩ listed
    have behind := spelled.le_of_mem listed
    exact if_neg (by simp only; omega)
  rw [List.map_congr_left same, List.map_id]

/-- Overwriting the two bytes behind the code of a jump gives this one line another target
and leaves all others as they are. -/
theorem set_target (target : UInt16) (spelled : Spelled offset bytes lines)
    (listed : (position, instruction) ∈ lines) (jumps : instruction.opcode.isJump = true) :
    Spelled offset
      ((bytes.set (position - offset + 1) (Word.low target)).set (position - offset + 2)
        (Word.high target))
      (lines.map (retarget position target)) := by
  induction spelled with
  | nil => cases listed
  | @cons offset bytes rest first lines spells behind ih =>
      obtain same | later := List.mem_cons.mp listed
      · cases same
        obtain ⟨byte, low, high, rfl, meaning⟩ := spells.of_isJump jumps
        have others := behind.map_retarget_of_lt target
          (Nat.lt_add_of_pos_right spells.length_pos)
        have pointed : Instruction.Spells [byte, Word.low target, Word.high target]
            ⟨instruction.opcode, target⟩ := by
          rw [← Word.ofBytes_low_high target, Word.low_ofBytes, Word.high_ofBytes]
          exact .word meaning
        rw [List.map_cons, others, retarget, if_pos rfl]
        simpa using Spelled.cons pointed behind
      · -- The line lies behind the first one, and the bytes to overwrite with it.
        have beyond := behind.le_of_mem later
        have nonempty := spells.length_pos
        have first_ne : ¬ offset = position := by omega
        have shift : ∀ place, position - offset + place =
            bytes.length + (position - (offset + bytes.length) + place) := by
          omega
        rw [List.map_cons, retarget, if_neg first_ne, shift 1, shift 2,
          List.set_append_right _ _ (Nat.le_add_right _ _), Nat.add_sub_cancel_left,
          List.set_append_right _ _ (Nat.le_add_right _ _), Nat.add_sub_cancel_left]
        exact .cons spells (ih later)

end Spelled

end Listing

namespace Assembler

/-! ## Histories -/

/-- What can be asked of an assembler. -/
inductive Step where
  /-- An instruction; one without an operand has the operand zero. -/
  | emit (instruction : Instruction)
  /-- A jump without a target. -/
  | emitJump (opcode : Opcode)
  /-- A jump to a target. -/
  | jumpTo (opcode : Opcode) (target : Nat)
  /-- That the jump at an offset go to a target. -/
  | patchJump (position target : Nat)
  /-- That the jump at an offset go to the end of the code. -/
  | patchHere (position : Nat)
deriving DecidableEq, Repr

/-- Performs a step. The answer to a jump without a target is its offset. -/
def perform (assembler : Assembler) : Step → Except CodeError (Option Nat) × Assembler
  | .emit instruction =>
    match assembler.emit instruction with
    | .ok emitted => (.ok none, emitted)
    | .error error => (.error error, assembler)
  | .emitJump opcode =>
    match assembler.emitJump opcode with
    | .ok (position, emitted) => (.ok (some position), emitted)
    | .error error => (.error error, assembler)
  | .jumpTo opcode target =>
    match assembler.jumpTo opcode target with
    | (.ok (), emitted) => (.ok none, emitted)
    | (.error error, emitted) => (.error error, emitted)
  | .patchJump position target =>
    match assembler.patchJump position target with
    | .ok patched => (.ok none, patched)
    | .error error => (.error error, assembler)
  | .patchHere position =>
    match assembler.patchHere position with
    | .ok patched => (.ok none, patched)
    | .error error => (.error error, assembler)

/-- What a step has done. -/
inductive Entry where
  /-- An instruction was written at an offset. -/
  | instruction (position : Nat) (instruction : Instruction)
  /-- A jump without a target was put at an offset. -/
  | jump (position : Nat) (opcode : Opcode)
  /-- The jump at an offset was pointed to a target. -/
  | target (position destination : Nat)
deriving DecidableEq, Repr

namespace Entry

/-- The offset that the entry is about. -/
def position : Entry → Nat
  | instruction position _ | jump position _ | target position _ => position

/-- The target that the entry gives to the jump at an offset. -/
def targetAt? (place : Nat) : Entry → Option UInt16
  | target position destination =>
    if position = place then some (UInt16.ofNat destination) else none
  | _ => none

end Entry

/-- The entries for a step that was answered where the code had the length `offset`. A jump
to a target that is out of range stays behind without a target. -/
def Step.entries (offset : Nat) (step : Step) : Except CodeError (Option Nat) → List Entry
  | .ok answer =>
    match step with
    | emit instruction => [.instruction offset instruction.shown]
    | emitJump opcode => answer.toList.map (.jump · opcode)
    | jumpTo opcode target => [.jump offset opcode, .target offset target]
    | patchJump position target => [.target position target]
    | patchHere position => [.target position offset]
  | .error _ =>
    match step with
    | jumpTo opcode _ => if opcode.isJump then [.jump offset opcode] else []
    | _ => []

/-- The entries for a step. -/
def entries (assembler : Assembler) (step : Step) : List Entry :=
  step.entries assembler.offset (assembler.perform step).1

/-- The assembler after some steps. -/
def performAll (assembler : Assembler) (steps : List Step) : Assembler :=
  steps.foldl (fun assembler step => (assembler.perform step).2) assembler

/-- The entries for some steps. -/
def journal (assembler : Assembler) : List Step → List Entry
  | [] => []
  | step :: steps => assembler.entries step ++ journal (assembler.perform step).2 steps

/-- The target that the jump at an offset was pointed to last. -/
def lastTarget? (journal : List Entry) (place : Nat) : Option UInt16 :=
  (journal.filterMap (Entry.targetAt? place)).getLast?

/-- The line of a listing for an entry: a jump has the target it was pointed to last, and
zero before that. -/
def line? (journal : List Entry) : Entry → Option (Nat × Instruction)
  | .instruction position instruction => some (position, instruction)
  | .jump position opcode => some (position, ⟨opcode, (lastTarget? journal position).getD 0⟩)
  | .target _ _ => none

/-- The lines of a listing for all that was written and put, in this order. -/
def lines (journal : List Entry) : List (Nat × Instruction) :=
  journal.filterMap (line? journal)

/-- The offset at which the step overwrites a target. -/
def Step.patched? : Step → Option Nat
  | .patchJump position _ | .patchHere position => some position
  | _ => none

/-- A step that overwrites a target does so for a jump that was put without one. -/
def Step.Known (journal : List Entry) (step : Step) : Prop :=
  ∀ position, step.patched? = some position → ∃ opcode, .jump position opcode ∈ journal

/-- A history of a new assembler in which only jumps that were put without a target are
pointed to one afterwards. -/
inductive History : List Step → Prop where
  | start : History []
  | step {steps : List Step} {step : Step} (earlier : History steps)
      (known : step.Known (journal {} steps)) : History (steps ++ [step])

/-! ## The journal -/

/-- The last step is performed by what the steps before it have left. -/
theorem performAll_snoc (assembler : Assembler) (steps : List Step) (step : Step) :
    assembler.performAll (steps ++ [step]) = ((assembler.performAll steps).perform step).2 := by
  simp [performAll]

/-- The last step adds its entries to the journal of those before it. -/
theorem journal_snoc (assembler : Assembler) (steps : List Step) (step : Step) :
    assembler.journal (steps ++ [step]) =
      assembler.journal steps ++ (assembler.performAll steps).entries step := by
  induction steps generalizing assembler with
  | nil => simp [journal, performAll]
  | cons first steps ih =>
      rw [List.cons_append, journal, ih, journal, List.append_assoc]
      rfl

/-- The last entry decides, where it is about this place. -/
theorem lastTarget?_snoc (journal : List Entry) (entry : Entry) (place : Nat) :
    lastTarget? (journal ++ [entry]) place =
      (entry.targetAt? place).or (lastTarget? journal place) := by
  unfold lastTarget?
  cases given : entry.targetAt? place <;> simp [given]

/-- A place that no entry is about has never been given a target. -/
theorem lastTarget?_eq_none {journal : List Entry} {place : Nat}
    (apart : ∀ entry ∈ journal, entry.position ≠ place) : lastTarget? journal place = none := by
  have empty : journal.filterMap (Entry.targetAt? place) = [] := by
    rw [List.filterMap_eq_nil_iff]
    intro entry member
    cases entry with
    | target position target => exact if_neg (apart _ member)
    | instruction | jump => rfl
  rw [lastTarget?, empty]
  rfl

/-- A jump in the journal is listed with the target that it was given last. -/
theorem mem_lines {journal : List Entry} {position : Nat} {opcode : Opcode}
    (known : .jump position opcode ∈ journal) :
    (position, ⟨opcode, (lastTarget? journal position).getD 0⟩) ∈ lines journal :=
  List.mem_filterMap.mpr ⟨_, known, rfl⟩

/-- An entry that gives no target leaves the lines that are there. -/
theorem lines_snoc {journal : List Entry} {entry : Entry}
    (plain : ∀ place, entry.targetAt? place = none) :
    lines (journal ++ [entry]) = lines journal ++ (line? (journal ++ [entry]) entry).toList := by
  have same : line? (journal ++ [entry]) = line? journal := by
    funext other
    cases other with
    | jump position opcode => simp [line?, lastTarget?_snoc, plain]
    | instruction | target => rfl
  rw [lines, List.filterMap_append, same, lines]
  cases line : line? journal entry <;> simp [line]

/-- A jump that is pointed to a target has it in its line from then on. -/
theorem lines_target {journal : List Entry} {position : Nat} (target : Nat)
    (apart : ∀ instruction, .instruction position instruction ∉ journal) :
    lines (journal ++ [.target position target]) =
      (lines journal).map (Listing.retarget position (UInt16.ofNat target)) := by
  rw [lines, List.filterMap_append, lines, List.map_filterMap]
  simp only [List.filterMap_cons, line?, List.filterMap_nil, List.append_nil]
  apply List.filterMap_congr
  intro entry member
  cases entry with
  | target => rfl
  | instruction place instruction =>
      have elsewhere : ¬ place = position := by
        rintro rfl
        exact apart instruction member
      simp [line?, Listing.retarget, elsewhere]
  | jump place opcode =>
      by_cases here : place = position
      · subst here
        simp [line?, lastTarget?_snoc, Entry.targetAt?, Listing.retarget]
      · have elsewhere : ¬ position = place := fun same => here same.symm
        simp [line?, lastTarget?_snoc, Entry.targetAt?, Listing.retarget, here, elsewhere]

/-- The code with a target written behind the byte at `position`. -/
def pointed (code : Bytes) (position : Nat) (target : UInt16) : Bytes :=
  (code.setIfInBounds (position + 1) (Word.low target)).setIfInBounds (position + 2)
    (Word.high target)

/-- The code of the assembler is what the journal says, and the journal speaks of places
before the end of the code. -/
structure Records (assembler : Assembler) (journal : List Entry) : Prop where
  spelled : Listing.Spelled 0 assembler.code.toList (lines journal)
  before : ∀ entry ∈ journal, entry.position < assembler.offset
  apart : ∀ position opcode instruction, .jump position opcode ∈ journal →
    .instruction position instruction ∉ journal
  jumps : ∀ position opcode, .jump position opcode ∈ journal → opcode.isJump = true

namespace Records

variable {assembler : Assembler} {journal : List Entry}

/-- An assembler without code has an empty journal. -/
theorem empty : Records {} [] where
  spelled := .nil 0
  before := List.forall_mem_nil _
  apart := by
    intro position opcode instruction member
    cases member
  jumps := by
    intro position opcode member
    cases member

/-- An instruction or a jump comes behind the code. -/
theorem snoc {entry : Entry} {bytes : List UInt8} {instruction : Instruction} {code : Bytes}
    (records : assembler.Records journal) (atEnd : entry.position = assembler.offset)
    (line : line? (journal ++ [entry]) entry = some (assembler.offset, instruction))
    (spells : Instruction.Spells bytes instruction)
    (jumps : ∀ position opcode, entry = .jump position opcode → opcode.isJump = true)
    (written : code.toList = assembler.code.toList ++ bytes) :
    Records ⟨code⟩ (journal ++ [entry]) where
  spelled := by
    have plain : ∀ place, entry.targetAt? place = none := by
      intro place
      cases entry with
      | target => cases line
      | instruction | jump => rfl
    have spelled := records.spelled.snoc spells
    rw [Nat.zero_add, Array.length_toList] at spelled
    rw [lines_snoc plain, line, written]
    exact spelled
  before := by
    intro other member
    have longer : code.size = assembler.offset + bytes.length := by
      have lengths := congrArg List.length written
      simpa [offset] using lengths
    have nonempty := spells.length_pos
    simp only [offset] at longer atEnd ⊢
    rw [longer]
    obtain old | new := List.mem_append.mp member
    · have inside := records.before other old
      simp only [offset] at inside
      omega
    · cases List.mem_singleton.mp new
      omega
  apart := by
    intro position opcode other isJump isInstruction
    obtain oldJump | newJump := List.mem_append.mp isJump
    · obtain old | new := List.mem_append.mp isInstruction
      · exact records.apart position opcode other oldJump old
      · cases List.mem_singleton.mp new
        exact absurd atEnd (Nat.ne_of_lt (records.before (.jump position opcode) oldJump))
    · cases List.mem_singleton.mp newJump
      obtain old | new := List.mem_append.mp isInstruction
      · exact absurd atEnd (Nat.ne_of_lt (records.before (.instruction position other) old))
      · cases List.mem_singleton.mp new
  jumps := by
    intro position opcode member
    obtain old | new := List.mem_append.mp member
    · exact records.jumps position opcode old
    · exact jumps position opcode (List.mem_singleton.mp new).symm

/-- A new jump has no target yet. -/
theorem jump {opcode : Opcode} (records : assembler.Records journal)
    (isJump : opcode.isJump = true) :
    Records ⟨assembler.code ++ [opcode.byte, 0, 0]⟩
      (journal ++ [.jump assembler.offset opcode]) := by
  -- No earlier entry can be about the end of the code, not even one that gives a target.
  have untargeted : lastTarget? journal assembler.offset = none := by
    apply lastTarget?_eq_none
    intro entry member
    exact Nat.ne_of_lt (records.before entry member)
  have spells : Instruction.Spells [opcode.byte, 0, 0] ⟨opcode, 0⟩ :=
    .word (Opcode.ofByte?_of_isJump isJump)
  refine records.snoc rfl ?_ spells ?_ (by simp)
  · simp [line?, lastTarget?_snoc, Entry.targetAt?, untargeted]
  · rintro position other ⟨rfl, rfl⟩
    exact isJump

/-- A jump that was put without a target is there to be pointed to one. -/
theorem isJumpAt {position : Nat} {opcode : Opcode} (records : assembler.Records journal)
    (known : .jump position opcode ∈ journal) :
    assembler.isJumpAt position = true ∧ position + 3 ≤ assembler.code.size := by
  have isJump := records.jumps position opcode known
  obtain ⟨byte, found, meaning, within⟩ := records.spelled.code_of_mem (mem_lines known) isJump
  rw [Nat.sub_zero] at found within
  rw [Array.getElem?_toList] at found
  refine ⟨?_, by simpa using within⟩
  simp [Assembler.isJumpAt, found, meaning, isJump]

/-- A jump is pointed to every target within 16 bits, and to no other. -/
theorem patchJump_eq {position : Nat} {opcode : Opcode} (records : assembler.Records journal)
    (known : .jump position opcode ∈ journal) (target : Nat) :
    assembler.patchJump position target =
      if target < 65536 then .ok ⟨pointed assembler.code position (UInt16.ofNat target)⟩
      else .error (.operandOutOfRange .goto (target % 4294967296)) := by
  obtain ⟨isJumpAt, within⟩ := records.isJumpAt known
  rw [Assembler.patchJump, isJumpAt, if_neg (by simpa using within)]
  rfl

/-- Giving a jump of the journal a target is one more entry of it. -/
theorem point {position : Nat} {opcode : Opcode} (records : assembler.Records journal)
    (known : .jump position opcode ∈ journal) (target : Nat) :
    Records ⟨pointed assembler.code position (UInt16.ofNat target)⟩
      (journal ++ [.target position target]) where
  spelled := by
    have spelled := records.spelled.set_target (UInt16.ofNat target) (mem_lines known)
      (records.jumps position opcode known)
    rw [lines_target target (records.apart position opcode · known)]
    simpa [pointed] using spelled
  before := by
    intro entry member
    have sameSize : (pointed assembler.code position (UInt16.ofNat target)).size =
        assembler.code.size := by
      simp [pointed]
    simp only [offset, sameSize]
    obtain old | new := List.mem_append.mp member
    · exact records.before entry old
    · cases List.mem_singleton.mp new
      exact records.before (.jump position opcode) known
  apart := by
    intro place other instruction isJump isInstruction
    simp only [List.mem_append, List.mem_singleton, reduceCtorEq, or_false] at isJump isInstruction
    exact records.apart place other instruction isJump isInstruction
  jumps := by
    intro place other isJump
    simp only [List.mem_append, List.mem_singleton, reduceCtorEq, or_false] at isJump
    exact records.jumps place other isJump

end Records

/-! ## Steps -/

namespace Step

/-- The step can be done where the code has the length `offset`: the operand has an
encoding, the operation is a jump, the target is within 16 bits. -/
def Fits (offset : Nat) : Step → Prop
  | emit instruction => instruction.Encodable
  | emitJump opcode => opcode.isJump = true
  | jumpTo opcode target => opcode.isJump = true ∧ target ≤ 65535
  | patchJump _ target => target ≤ 65535
  | patchHere _ => offset ≤ 65535

/-- What the step leaves behind the code when it fails. -/
def remnant : Step → List UInt8
  | jumpTo opcode _ => if opcode.isJump then [opcode.byte, 0, 0] else []
  | _ => []

end Step

/-- The step does what its answer says, and succeeds where it fits. -/
structure Keeps (assembler : Assembler) (journal : List Entry) (step : Step) : Prop where
  records : (assembler.perform step).2.Records (journal ++ assembler.entries step)
  succeeds_iff : (assembler.perform step).1.isOk = true ↔ step.Fits assembler.offset
  remains : (assembler.perform step).1.isOk = false →
    (assembler.perform step).2.code = assembler.code ++ step.remnant

namespace Records

variable {assembler : Assembler} {journal : List Entry}

/-- A step that fails and leaves nothing behind. -/
theorem keeps_of_error {step : Step} {error : CodeError} (records : assembler.Records journal)
    (failed : assembler.perform step = (.error error, assembler))
    (unfit : ¬ step.Fits assembler.offset) (nothing : step.remnant = [])
    (unrecorded : step.entries assembler.offset (.error error) = []) :
    assembler.Keeps journal step where
  records := by
    rw [entries, failed, unrecorded, List.append_nil]
    exact records
  succeeds_iff := by
    rw [failed]
    constructor
    · intro succeeded
      cases succeeded
    · intro fits
      exact absurd fits unfit
  remains := by
    intro _
    rw [failed, nothing]
    simp

/-- A step that succeeds. -/
theorem keeps_of_ok {step : Step} {answer : Option Nat} {after : Assembler}
    (succeeded : assembler.perform step = (.ok answer, after))
    (fits : step.Fits assembler.offset)
    (records : after.Records (journal ++ step.entries assembler.offset (.ok answer))) :
    assembler.Keeps journal step where
  records := by rwa [entries, succeeded]
  succeeds_iff := by
    rw [succeeded]
    exact ⟨fun _ => fits, fun _ => rfl⟩
  remains := by
    intro failed
    rw [succeeded] at failed
    cases failed

/-- An instruction is added at the end or refused, and the journal says which. -/
theorem keeps_emit (records : assembler.Records journal) (instruction : Instruction) :
    assembler.Keeps journal (.emit instruction) := by
  have outcome := instruction.encoded
  cases encoded : instruction.encode with
  | error error =>
      have failed : assembler.perform (.emit instruction) = (.error error, assembler) := by
        rw [perform, emit, encoded]
        rfl
      rw [encoded] at outcome
      cases outcome with
      | refused unfit => exact records.keeps_of_error failed unfit rfl rfl
  | ok bytes =>
      have succeeded : assembler.perform (.emit instruction) =
          (.ok none, ⟨assembler.code ++ bytes⟩) := by
        rw [perform, emit, encoded]
        rfl
      rw [encoded] at outcome
      cases outcome with
      | written encodable spells =>
          refine keeps_of_ok succeeded encodable (records.snoc rfl rfl spells ?_ (by simp))
          intro position opcode same
          cases same

/-- A jump is added without a target, and the journal has it from then on. -/
theorem keeps_emitJump (records : assembler.Records journal) (opcode : Opcode) :
    assembler.Keeps journal (.emitJump opcode) := by
  by_cases isJump : opcode.isJump = true
  · have succeeded : assembler.perform (.emitJump opcode) =
        (.ok (some assembler.offset), ⟨assembler.code ++ [opcode.byte, 0, 0]⟩) := by
      rw [perform, emitJump, if_pos isJump]
    exact keeps_of_ok succeeded isJump (records.jump isJump)
  · have failed : assembler.perform (.emitJump opcode) =
        (.error (.notAJump assembler.offset), assembler) := by
      rw [perform, emitJump, if_neg isJump]
    exact records.keeps_of_error failed isJump rfl rfl

/-- A jump of the journal is given its target, which fits or is refused. -/
theorem keeps_patchJump {position : Nat} {opcode : Opcode} (records : assembler.Records journal)
    (known : .jump position opcode ∈ journal) (target : Nat) :
    assembler.Keeps journal (.patchJump position target) := by
  have patched := records.patchJump_eq known target
  by_cases small : target < 65536
  · have succeeded : assembler.perform (.patchJump position target) =
        (.ok none, ⟨pointed assembler.code position (UInt16.ofNat target)⟩) := by
      rw [perform, patched, if_pos small]
    exact keeps_of_ok succeeded (Nat.le_of_lt_succ small) (records.point known target)
  · have failed : assembler.perform (.patchJump position target) =
        (.error (.operandOutOfRange .goto (target % 4294967296)), assembler) := by
      rw [perform, patched, if_neg small]
    exact records.keeps_of_error failed (fun fits => small (Nat.lt_succ_of_le fits)) rfl rfl

/-- Pointing a jump to the end of the code is pointing it to a target like any other. -/
theorem keeps_patchHere {position : Nat} {opcode : Opcode} (records : assembler.Records journal)
    (known : .jump position opcode ∈ journal) :
    assembler.Keeps journal (.patchHere position) := by
  obtain ⟨recorded, succeeds_iff, remains⟩ := records.keeps_patchJump known assembler.offset
  refine ⟨?_, succeeds_iff, remains⟩
  have entries : ∀ answer, Step.entries assembler.offset (.patchHere position) answer =
      Step.entries assembler.offset (.patchJump position assembler.offset) answer := by
    rintro (error | _) <;> rfl
  rw [Assembler.entries, entries]
  exact recorded

/-- A jump to a target is a jump without one that is pointed to it at once. -/
theorem keeps_jumpTo (records : assembler.Records journal) (opcode : Opcode) (target : Nat) :
    assembler.Keeps journal (.jumpTo opcode target) := by
  by_cases isJump : opcode.isJump = true
  · have emitted : assembler.emitJump opcode =
        .ok (assembler.offset, ⟨assembler.code ++ [opcode.byte, 0, 0]⟩) := by
      rw [emitJump, if_pos isJump]
    have recorded := records.jump isJump
    have known : .jump assembler.offset opcode ∈ journal ++ [.jump assembler.offset opcode] := by
      simp
    have patched := recorded.patchJump_eq known target
    by_cases small : target < 65536
    · have succeeded : assembler.perform (.jumpTo opcode target) =
          (.ok none, ⟨pointed (assembler.code ++ [opcode.byte, 0, 0]) assembler.offset
            (UInt16.ofNat target)⟩) := by
        simp only [perform, jumpTo, emitted, patched, if_pos small]
      have pointed := recorded.point known target
      rw [List.append_assoc] at pointed
      exact keeps_of_ok succeeded ⟨isJump, Nat.le_of_lt_succ small⟩ pointed
    · have failed : assembler.perform (.jumpTo opcode target) =
          (.error (.operandOutOfRange .goto (target % 4294967296)),
            ⟨assembler.code ++ [opcode.byte, 0, 0]⟩) := by
        simp only [perform, jumpTo, emitted, patched, if_neg small]
      constructor
      · rw [entries, failed, Step.entries, if_pos isJump]
        exact recorded
      · rw [failed]
        constructor
        · intro succeeded
          cases succeeded
        · intro fits
          exact absurd (Nat.lt_succ_of_le fits.2) small
      · intro _
        rw [failed, Step.remnant, if_pos isJump]
  · have failed : assembler.perform (.jumpTo opcode target) =
        (.error (.notAJump assembler.offset), assembler) := by
      simp only [perform, jumpTo, emitJump, if_neg isJump]
    exact records.keeps_of_error failed (fun fits => isJump fits.1) (if_neg isJump) (if_neg isJump)

/-- Whatever the step is, the journal goes on to describe the code. -/
theorem keeps {step : Step} (records : assembler.Records journal) (known : step.Known journal) :
    assembler.Keeps journal step := by
  cases step with
  | emit instruction => exact records.keeps_emit instruction
  | emitJump opcode => exact records.keeps_emitJump opcode
  | jumpTo opcode target => exact records.keeps_jumpTo opcode target
  | patchJump position target =>
      obtain ⟨opcode, isJump⟩ := known position rfl
      exact records.keeps_patchJump isJump target
  | patchHere position =>
      obtain ⟨opcode, isJump⟩ := known position rfl
      exact records.keeps_patchHere isJump

end Records

/-- After every history the code is what the journal says. -/
theorem History.records {steps : List Step} (history : History steps) :
    (performAll {} steps).Records (journal {} steps) := by
  induction history with
  | start => exact .empty
  | step earlier known ih =>
      rw [performAll_snoc, journal_snoc]
      exact (ih.keeps known).records

/-- After every history of a new assembler its code lists, to the end, all that was written
and all jumps that were put, in this order and at their offsets, each jump with the target
that it was pointed to last, or zero. A further step succeeds exactly when its operand or
target fits; so pointing such a jump to a target within 16 bits never fails. A step that fails
leaves the code as it was, but for a jump to a target out of range, which is put without one. -/
theorem listing_after_history (steps : List Step) (history : History steps) :
    Listing.ofCode (performAll {} steps).code = ⟨lines (journal {} steps), none⟩ ∧
    ∀ step : Step, step.Known (journal {} steps) →
      (((performAll {} steps).perform step).1.isOk = true ↔
        step.Fits (performAll {} steps).offset) ∧
      (((performAll {} steps).perform step).1.isOk = false →
        ((performAll {} steps).perform step).2.code =
          (performAll {} steps).code ++ step.remnant) := by
  constructor
  · exact Listing.startingAt_of_spelled history.records.spelled (by simp)
  · intro step known
    obtain ⟨_, succeeds_iff, remains⟩ := history.records.keeps known
    exact ⟨succeeds_iff, remains⟩

/-- A jump over a constant that is pointed to three targets, one of them out of range, and a
jump back that cannot be put. -/
def branching : List Step :=
  [.emit ⟨.stackRef, 0⟩, .emitJump .gotoIfNil, .patchJump 1 65535, .emit ⟨.constant, 64⟩,
    .patchJump 1 65536, .emit ⟨.dup, 1⟩, .patchHere 1, .jumpTo .goto 70000]

/-- The example is a history: it gives targets to jumps of its own only. -/
theorem history_branching : History branching := by
  have plain : ∀ {steps : List Step} {step : Step}, step.patched? = none → History steps →
      History (steps ++ [step]) := by
    intro steps step unpatched earlier
    refine earlier.step fun position patched => ?_
    rw [unpatched] at patched
    cases patched
  have patching : ∀ {steps : List Step} {step : Step}, step.patched? = some 1 →
      .jump 1 .gotoIfNil ∈ journal {} steps → History steps → History (steps ++ [step]) := by
    intro steps step patched known earlier
    refine earlier.step fun position same => ?_
    rw [patched] at same
    cases same
    exact ⟨.gotoIfNil, known⟩
  have first : History (branching.take 2) := plain rfl (plain rfl .start)
  have second : History (branching.take 4) := plain rfl (patching rfl (by decide) first)
  have third : History (branching.take 6) := plain rfl (patching rfl (by decide) second)
  exact plain rfl (patching rfl (by decide) third)

/-- The first jump goes where it was pointed to last, and the second one has stayed behind
without a target. A further target within 16 bits is accepted. -/
theorem listing_after_branching :
    Listing.ofCode (performAll {} branching).code =
      ⟨[(0, ⟨.stackRef, 0⟩), (1, ⟨.gotoIfNil, 7⟩), (4, ⟨.constant2, 64⟩), (7, ⟨.goto, 0⟩)], none⟩ ∧
    ((performAll {} branching).perform (.patchJump 7 0)).1.isOk = true := by
  obtain ⟨listed, further⟩ := listing_after_history branching history_branching
  have known : (Step.patchJump 7 0).Known (journal {} branching) := by
    intro position same
    cases same
    exact ⟨.goto, by decide⟩
  refine ⟨listed.trans ?_, (further _ known).1.mpr (Nat.zero_le _)⟩
  decide

end Assembler

end ByteLisp
