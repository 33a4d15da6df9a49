import Mathlib.Computability.StateTransition
import ExistentOS.Library.ByteMemory

/-!
# A fragment of the 64-bit processor

The instructions that save and restore registers on the stack, choose between places of the
program by comparisons, call and return from interrupts, and the delivery of an exception
through a gate of the descriptor table. The program itself is not a part of the memory: a
text gives the instruction at an address together with the address that follows it, which
leaves the lengths of the instructions to the assembler.

Exceptions are taken at the privilege of their handler and without a stack of their own, so
that no task state segment takes part; no check of an address or of a segment fails.
-/

namespace LongMode

open ByteMemory Codecs

/-- The general registers. The stack pointer is one of them, as instructions may name it. -/
inductive Register
  | rax | rbx | rcx | rdx | rsi | rdi | rbp | rsp
  | r8 | r9 | r10 | r11 | r12 | r13 | r14 | r15
  deriving DecidableEq, Repr

/-- The register of the descriptor table: the last byte's offset and the first byte's address. -/
structure TableRegister where
  limit : BitVec 16
  base : BitVec 64
  deriving DecidableEq, Repr

/-- The state of the processor and its memory, as far as the instructions below read or change
it. -/
structure Cpu where
  registers : Register → BitVec 64
  rip : BitVec 64
  rflags : BitVec 64
  cs : BitVec 16
  ss : BitVec 16
  idtr : TableRegister
  memory : Image 64

/-- Words of the stack, of eight bytes each. -/
def quad : Codec (BitVec 64) 8 := words 8

/-- The number in some bytes of a descriptor. -/
def field (bytes : List UInt8) (start count : Nat) : Nat := value ((bytes.drop start).take count)

/-- The number of a word that begins a descriptor. -/
theorem field_word (width : Nat) (word : BitVec (8 * width)) (rest : List UInt8) :
    field ((words width).encode word ++ rest) 0 width = word.toNat := by
  have length : ((words width).encode word).length = width := (words width).encode_length word
  have size : 2 ^ (8 * width) = 256 ^ width := Nat.pow_mul 2 8 width
  rw [field, List.drop_zero, List.take_left' length]
  exact (value_littleEndian width word.toNat).trans (Nat.mod_eq_of_lt (size ▸ word.isLt))

/-- Numbers after a word do not depend on it. -/
theorem field_skip (width start count : Nat) (word : BitVec (8 * width)) (rest : List UInt8) :
    field ((words width).encode word ++ rest) (start + width) count = field rest start count := by
  have length : ((words width).encode word).length = width := (words width).encode_length word
  rw [field, field, Nat.add_comm, ← List.drop_drop, List.drop_left' length]

/-- The table register as it is loaded from ten bytes: two of the limit and eight of the base. -/
def TableRegister.decode (bytes : List UInt8) : TableRegister where
  limit := BitVec.ofNat 16 (field bytes 0 2)
  base := BitVec.ofNat 64 (field bytes 2 8)

/-! ## Status flags -/

/-- A word with one bit replaced. The others stay as they are. -/
def withBit (position : Nat) (bit : Bool) (word : BitVec 64) : BitVec 64 :=
  if bit then word ||| BitVec.twoPow 64 position else word &&& ~~~BitVec.twoPow 64 position

/-- A replaced bit is the new one, and the others are the old ones. -/
theorem getLsbD_withBit (position : Nat) (bit : Bool) (word : BitVec 64) (index : Nat)
    (inside : index < 64) :
    (withBit position bit word).getLsbD index =
      if position = index then bit else word.getLsbD index := by
  by_cases same : position = index <;> cases bit <;> simp [withBit, same, inside, Ne.symm]

/-- The position of the zero flag in the flags register. -/
def zeroFlag : Nat := 6

/-- The flags after an operation on two words with a result and its two kinds of overflow. -/
def statusFlags (left right result : BitVec 64) (carry overflow : Bool)
    (rflags : BitVec 64) : BitVec 64 :=
  let parity := ((List.range 8).map result.getLsbD).count true % 2 == 0
  let auxiliary := (left ^^^ right ^^^ result).getLsbD 4
  withBit 0 carry (withBit 2 parity (withBit 4 auxiliary (withBit zeroFlag (result == 0)
    (withBit 7 result.msb (withBit 11 overflow rflags)))))

/-- The zero flag tells whether the result is zero. -/
theorem statusFlags_zero (left right result : BitVec 64) (carry overflow : Bool)
    (rflags : BitVec 64) :
    (statusFlags left right result carry overflow rflags).getLsbD zeroFlag = (result == 0) := by
  simp only [statusFlags, zeroFlag, getLsbD_withBit _ _ _ 6 (by decide)]
  rfl

/-! ## Instructions -/

/-- Instructions over a type of places in the program. Places may be labels before linking and
addresses behind it. -/
inductive Instruction (Place : Type)
  | pushImmediate (word : BitVec 64)
  | push (source : Register)
  | pop (destination : Register)
  | load (displacement : BitVec 64) (base destination : Register)
  | move (source destination : Register)
  | compare (word : BitVec 64) (register : Register)
  | jumpEqual (place : Place)
  | jump (place : Place)
  | call (place : Place)
  | add (word : BitVec 64) (destination : Register)
  | interruptReturn
  deriving DecidableEq, Repr

/-- The instruction with its place resolved, which is what linking does. -/
def Instruction.resolve {First Second : Type} (address : First → Second) :
    Instruction First → Instruction Second
  | .pushImmediate word => .pushImmediate word
  | .push source => .push source
  | .pop destination => .pop destination
  | .load displacement base destination => .load displacement base destination
  | .move source destination => .move source destination
  | .compare word register => .compare word register
  | .jumpEqual place => .jumpEqual (address place)
  | .jump place => .jump (address place)
  | .call place => .call (address place)
  | .add word destination => .add word destination
  | .interruptReturn => .interruptReturn

namespace Cpu

/-- One register replaced. The others stay as they are. -/
def set (cpu : Cpu) (register : Register) (word : BitVec 64) : Cpu :=
  { cpu with registers := Function.update cpu.registers register word }

/-- A word pushed on the stack: the pointer is lowered first, and the word stored where it points
then. -/
def push (cpu : Cpu) (word : BitVec 64) : Cpu :=
  { cpu.set .rsp (cpu.registers .rsp - 8) with
    memory := storeWord quad cpu.memory (cpu.registers .rsp - 8) word }

/-- A push moves the stack pointer down by a word. -/
@[simp] theorem push_pointer (cpu : Cpu) (word : BitVec 64) :
    (cpu.push word).registers .rsp = cpu.registers .rsp - 8 := by
  simp [Cpu.push, Cpu.set]

/-- A push changes no register but the stack pointer. -/
theorem push_registers (cpu : Cpu) (word : BitVec 64) {register : Register}
    (other : register ≠ .rsp) :
    (cpu.push word).registers register = cpu.registers register := by
  simp [Cpu.push, Cpu.set, other]

/-- A pushed word is below the words that were there. -/
theorem push_stacked {cpu : Cpu} {words : List (BitVec 64)} (word : BitVec 64)
    (stacked : Stacked quad cpu.memory (cpu.registers .rsp) words)
    (room : 8 * (words.length + 1) ≤ 2 ^ 64) :
    Stacked quad (cpu.push word).memory ((cpu.push word).registers .rsp) (word :: words) := by
  rw [push_pointer]
  exact stacked_push quad stacked word room

/-- The word at a distance above the stack pointer. -/
def peek (cpu : Cpu) (distance : BitVec 64) : BitVec 64 :=
  loadWord quad cpu.memory (cpu.registers .rsp + distance)

end Cpu

/-- What an instruction does; the second argument is the address that follows it. -/
def execute (instruction : Instruction (BitVec 64)) (next : BitVec 64) (cpu : Cpu) : Cpu :=
  match instruction with
  | .pushImmediate word => { cpu.push word with rip := next }
  | .push source => { cpu.push (cpu.registers source) with rip := next }
  | .pop destination =>
    { (cpu.set .rsp (cpu.registers .rsp + 8)).set destination (cpu.peek 0) with rip := next }
  | .load displacement base destination =>
    { cpu.set destination (loadWord quad cpu.memory (cpu.registers base + displacement)) with
      rip := next }
  | .move source destination =>
    { cpu.set destination (cpu.registers source) with rip := next }
  | .compare word register =>
    let left := cpu.registers register
    { cpu with
      rip := next
      rflags := statusFlags left word (left - word) (left.ult word) (left.ssubOverflow word)
        cpu.rflags }
  | .jumpEqual place => { cpu with rip := if cpu.rflags.getLsbD zeroFlag then place else next }
  | .jump place => { cpu with rip := place }
  | .call place => { cpu.push next with rip := place }
  | .add word destination =>
    let left := cpu.registers destination
    { cpu.set destination (left + word) with
      rip := next
      rflags := statusFlags left word (left + word) (left.uaddOverflow word)
        (left.saddOverflow word) cpu.rflags }
  | .interruptReturn =>
    { cpu.set .rsp (cpu.peek 24) with
      rip := cpu.peek 0
      cs := (cpu.peek 8).setWidth 16
      rflags := cpu.peek 16
      ss := (cpu.peek 32).setWidth 16 }

/-- The instruction at each address of the program, with the address that follows it. -/
abbrev Listing := BitVec 64 → Option (Instruction (BitVec 64) × BitVec 64)

/-- One step of the processor; there is none where the program has no instruction. -/
def step (text : Listing) (cpu : Cpu) : Option Cpu :=
  (text cpu.rip).map fun (instruction, next) => execute instruction next cpu

/-- The processor gets from one state to another by running the program. -/
def Reaches (text : Listing) : Cpu → Cpu → Prop := StateTransition.Reaches (step text)

/-- No instruction loads the table register. The one of the source that does is a part of
`idt_init`. -/
theorem execute_idtr (instruction : Instruction (BitVec 64)) (next : BitVec 64) (cpu : Cpu) :
    (execute instruction next cpu).idtr = cpu.idtr := by
  cases instruction <;> rfl

/-- A run of the program leaves the table register. -/
theorem Reaches.idtr {text : Listing} {cpu after : Cpu} (reached : Reaches text cpu after) :
    after.idtr = cpu.idtr := by
  induction reached with
  | refl => rfl
  | tail _ stepped ih =>
    obtain ⟨⟨instruction, next⟩, _, rfl⟩ := Option.map_eq_some_iff.mp stepped
    exact (execute_idtr instruction next _).trans ih

/-- Instructions that follow one another in the program from one address to another. -/
def Loaded (text : Listing) : List (Instruction (BitVec 64)) → BitVec 64 → BitVec 64 → Prop
  | [], start, stop => start = stop
  | instruction :: rest, start, stop =>
    ∃ next, text start = some (instruction, next) ∧ Loaded text rest next stop

/-! ## Exceptions -/

/-- A gate of the descriptor table, taken apart. The bits that the processor ignores are not
kept. -/
structure Gate where
  offset : BitVec 64
  selector : BitVec 16
  stackTable : BitVec 3
  kind : BitVec 4
  present : Bool
  deriving DecidableEq, Repr

/-- The gate in the sixteen bytes of its descriptor, its address put together from three parts. -/
def Gate.decode (bytes : List UInt8) : Gate where
  offset := BitVec.ofNat 64
    (field bytes 0 2 + 2 ^ 16 * field bytes 6 2 + 2 ^ 32 * field bytes 8 4)
  selector := BitVec.ofNat 16 (field bytes 2 2)
  stackTable := BitVec.ofNat 3 (field bytes 4 1)
  kind := BitVec.ofNat 4 (field bytes 5 1)
  present := (field bytes 5 1).testBit 7

/-- The kind of a gate that masks interrupts. -/
def interruptGate : BitVec 4 := 0xE

/-- The kind of a gate that leaves interrupts as they are. -/
def trapGate : BitVec 4 := 0xF

/-- The gate of a vector, when the table has a usable one within its limit. -/
def fetchGate (cpu : Cpu) (vector : Nat) : Option Gate :=
  if 16 * vector + 15 ≤ cpu.idtr.limit.toNat then
    let gate := Gate.decode (ByteMemory.load cpu.memory
      (cpu.idtr.base + BitVec.ofNat 64 (16 * vector)) 16)
    if gate.present ∧ gate.stackTable = 0 ∧ (gate.kind = interruptGate ∨ gate.kind = trapGate) then
      some gate
    else none
  else none

/-- The vectors whose exceptions come with an error code. It is the vector that decides, and not
the cause. -/
def codedVectors : List Nat := [8, 10, 11, 12, 13, 14, 17, 21]

/-- The flags that a handler starts with: traps off, and interrupts off behind an interrupt gate. -/
def handlerFlags (gate : Gate) (rflags : BitVec 64) : BitVec 64 :=
  let quiet := withBit 8 false (withBit 14 false (withBit 16 false (withBit 17 false rflags)))
  if gate.kind = interruptGate then withBit 9 false quiet else quiet

/-- The frame of an exception: the stack aligned, then what is needed to resume. -/
def pushFrame (cpu : Cpu) : Cpu :=
  let aligned := cpu.set .rsp (cpu.registers .rsp &&& ~~~15)
  ((((aligned.push (cpu.ss.setWidth 64)).push (cpu.registers .rsp)).push cpu.rflags).push
    (cpu.cs.setWidth 64)).push cpu.rip

/-- The processor delivers an exception with an error code through the gate of its vector. -/
def deliver (vector : Nat) (code : BitVec 64) (cpu : Cpu) : Option Cpu :=
  (fetchGate cpu vector).map fun gate =>
    let framed := pushFrame cpu
    let coded := if vector ∈ codedVectors then framed.push code else framed
    { coded with
      rip := gate.offset
      cs := gate.selector
      rflags := handlerFlags gate cpu.rflags }

end LongMode
