import ExistentOS.Kernel.Idt
import ExistentOS.Library.StackViews

/-!
# Interrupt entry and exit

`drivers/system/interrupts.S`: the stubs, the common code that saves the registers and
chooses the C handler by the number on the stack, and the way back. The handlers of
`irq_handlers.c` get a pointer to a `struct irq_context`, which is nothing but the words that
the stubs, the common code and the processor pushed. Whatever the stubs' addresses and the
interrupted state are, a handler that keeps to its calling convention and leaves these words
alone is invisible to the interrupted program.
-/

namespace ExistentOS.Kernel

open Codecs ByteMemory LongMode

/-! ## The assembly -/

/-- The labels of `interrupts.S` and the handlers it calls. Where the linker puts them is left
open. -/
inductive Label
  | irq (vector : Fin 16)
  | irqCommon
  | irqCase (vector : Fin 16)
  | done
  | handler (vector : Fin 16)
  deriving DecidableEq, Repr

/-- A stub that pushes a zero in place of the error code and the number of its vector. -/
def zeroStub (vector : BitVec 64) : List (Instruction Label) :=
  [.pushImmediate 0, .pushImmediate vector, .jump .irqCommon]

/-- A stub that pushes the number of its vector on top of the processor's error code. -/
def codedStub (vector : BitVec 64) : List (Instruction Label) :=
  [.pushImmediate vector, .jump .irqCommon]

/-- `irq0` to `irq15`. Where the processor pushes an error code the stub pushes the number only,
and elsewhere a zero first. -/
def irq (vector : Fin 16) : List (Instruction Label) :=
  #v[zeroStub 0, zeroStub 1, zeroStub 2, zeroStub 3, zeroStub 4, zeroStub 5, zeroStub 6, zeroStub 7,
    codedStub 8, zeroStub 9, codedStub 10, codedStub 11, codedStub 12, codedStub 13, codedStub 14,
    zeroStub 15][vector]

/-- The registers that `irq_common` pushes, in its order. The stack pointer is not one of them. -/
def saved : List Register :=
  [.rax, .rbx, .rcx, .rdx, .rsi, .rdi, .rbp, .r8, .r9, .r10, .r11, .r12, .r13, .r14, .r15]

/-- The comparisons of `irq_common`: each number with the place of its call. -/
def dispatch : List (BitVec 64 × Label) :=
  (List.finRange 16).map fun vector : Fin 16 => (BitVec.ofNat 64 vector, .irqCase vector)

/-- `irq_common`. It saves the registers and then compares the number case by case. -/
def irqCommon : List (Instruction Label) :=
  saved.map .push ++ ([.load 120 .rsp .rax] ++ (chain .rax dispatch ++ [.jump .done]))

/-- `.irq0` to `.irq15`, each of which calls its handler with the address of the context. -/
def irqCase (vector : Fin 16) : List (Instruction Label) :=
  [.move .rsp .rdi, .call (.handler vector), .jump .done]

/-- The registers that `.done` pops, in its order, which is the other way round. -/
def restored : List Register :=
  [.r15, .r14, .r13, .r12, .r11, .r10, .r9, .r8, .rbp, .rdi, .rsi, .rdx, .rcx, .rbx, .rax]

/-- `.done`. It also takes the number and the error code off the stack before it returns. -/
def done : List (Instruction Label) :=
  restored.map .pop ++ [.add 16 .rsp, .interruptReturn]

/-- The code at each label; the handlers are compiled from C. -/
def body : Label → List (Instruction Label)
  | .irq vector => irq vector
  | .irqCommon => irqCommon
  | .irqCase vector => irqCase vector
  | .done => done
  | .handler _ => []

/-- The program has the code of each label at the label's address. -/
def Placed (text : Listing) (address : Label → BitVec 64) : Prop :=
  ∀ label, ∃ stop, Loaded text ((body label).map (.resolve address)) (address label) stop

/-! ## The handlers -/

/-- `struct irq_context`, in the order of its fields in memory: the register that is pushed last
comes first. -/
structure IrqContext where
  r15 : BitVec 64
  r14 : BitVec 64
  r13 : BitVec 64
  r12 : BitVec 64
  r11 : BitVec 64
  r10 : BitVec 64
  r9 : BitVec 64
  r8 : BitVec 64
  rbp : BitVec 64
  rdi : BitVec 64
  rsi : BitVec 64
  rdx : BitVec 64
  rcx : BitVec 64
  rbx : BitVec 64
  rax : BitVec 64
  irqNumber : BitVec 64
  errorCode : BitVec 64
  deriving DecidableEq, Repr

/-- The packed context at an address. The frame of the processor follows it. -/
def irqContextAt (memory : Image 64) (pointer : BitVec 64) : IrqContext where
  r15 := loadWord quad memory pointer
  r14 := loadWord quad memory (pointer + 8)
  r13 := loadWord quad memory (pointer + 16)
  r12 := loadWord quad memory (pointer + 24)
  r11 := loadWord quad memory (pointer + 32)
  r10 := loadWord quad memory (pointer + 40)
  r9 := loadWord quad memory (pointer + 48)
  r8 := loadWord quad memory (pointer + 56)
  rbp := loadWord quad memory (pointer + 64)
  rdi := loadWord quad memory (pointer + 72)
  rsi := loadWord quad memory (pointer + 80)
  rdx := loadWord quad memory (pointer + 88)
  rcx := loadWord quad memory (pointer + 96)
  rbx := loadWord quad memory (pointer + 104)
  rax := loadWord quad memory (pointer + 112)
  irqNumber := loadWord quad memory (pointer + 120)
  errorCode := loadWord quad memory (pointer + 128)

/-- The context that describes some registers, a number and an error code. -/
def contextOf (registers : Register → BitVec 64) (number errorCode : BitVec 64) : IrqContext where
  r15 := registers .r15
  r14 := registers .r14
  r13 := registers .r13
  r12 := registers .r12
  r11 := registers .r11
  r10 := registers .r10
  r9 := registers .r9
  r8 := registers .r8
  rbp := registers .rbp
  rdi := registers .rdi
  rsi := registers .rsi
  rdx := registers .rdx
  rcx := registers .rcx
  rbx := registers .rbx
  rax := registers .rax
  irqNumber := number
  errorCode := errorCode

/-- The registers that a called function gives back as they were. -/
def calleeSaved : List Register := [.rbx, .rbp, .r12, .r13, .r14, .r15]

/-- The bytes of the frame: the context and the five words of the processor under it. -/
def frameSize : Nat := 8 * 22

/-- A handler returns to its caller by the calling convention and leaves the frame alone. -/
structure Conforms (entered returned : Cpu) : Prop where
  rip : returned.rip = entered.peek 0
  rsp : returned.registers .rsp = entered.registers .rsp + 8
  preserved : ∀ register ∈ calleeSaved, returned.registers register = entered.registers register
  frame : ∀ index < frameSize,
    returned.memory (entered.registers .rsp + 8 + BitVec.ofNat 64 index) =
      entered.memory (entered.registers .rsp + 8 + BitVec.ofNat 64 index)

/-- `irq_handler_generic`, and each handler through it: the return alone. The handlers of the
source do nothing. -/
def irqHandlerGeneric (entered : Cpu) : Cpu :=
  { entered.set .rsp (entered.registers .rsp + 8) with rip := entered.peek 0 }

/-- The stub of a vector leaves the error code to the processor exactly if that pushes one. -/
theorem irq_eq (vector : Fin 16) :
    irq vector = if vector.val ∈ codedVectors then codedStub (BitVec.ofNat 64 vector)
      else zeroStub (BitVec.ofNat 64 vector) := by
  revert vector
  decide

/-! ## Entry -/

/-- The error code that a handler is told: the processor's, or zero. -/
def errorCodeOf (vector : Fin 16) (code : BitVec 64) : BitVec 64 :=
  if vector.val ∈ codedVectors then code else 0

/-- The words that every stub leaves: the number, the error code and the way back. -/
def stubWords (vector : Fin 16) (code : BitVec 64) (cpu : Cpu) : List (BitVec 64) :=
  [BitVec.ofNat 64 vector, errorCodeOf vector code, cpu.rip, cpu.cs.setWidth 64, cpu.rflags,
    cpu.registers .rsp, cpu.ss.setWidth 64]

/-- The words of a context and of the frame under it. -/
def contextWords (vector : Fin 16) (code : BitVec 64) (cpu : Cpu) : List (BitVec 64) :=
  restored.map cpu.registers ++ stubWords vector code cpu

/-- The aligned stack pointer of the interrupted program. The processor aligns it before it
pushes the frame. -/
def aligned (cpu : Cpu) : BitVec 64 := cpu.registers .rsp &&& ~~~15

variable {text : Listing} {address : Label → BitVec 64}

/-- From the stub of a vector to the common code, the stack has one form for all vectors, whatever
words are above the frame. -/
theorem goes_irq_above (placed : Placed text address) (vector : Fin 16) (code : BitVec 64)
    (cpu : Cpu) (words : List (BitVec 64)) (room : 8 * (words.length + 23) ≤ 2 ^ 64) :
    Goes text
      ⟨address (.irq vector), cpu.registers, framePointer vector cpu,
        frameWords vector code cpu ++ words⟩
      ⟨address .irqCommon, cpu.registers, aligned cpu - 56, stubWords vector code cpu ++ words⟩ := by
  obtain ⟨stop, loaded⟩ := placed (.irq vector)
  simp only [body, irq_eq] at loaded
  by_cases coded : vector.val ∈ codedVectors
  · rw [if_pos coded] at loaded
    obtain ⟨next, numbers, last, jumps, _⟩ := loaded
    have pointer : framePointer vector cpu - 8 = aligned cpu - 56 := by
      rw [framePointer, if_pos coded, aligned]
      grind
    have stacked : BitVec.ofNat 64 vector :: (frameWords vector code cpu ++ words) =
        stubWords vector code cpu ++ words := by
      rw [frameWords, stubWords, errorCodeOf, if_pos coded, if_pos coded]
      rfl
    have numbered := goes_pushImmediate cpu.registers (framePointer vector cpu)
      (frameWords vector code cpu ++ words) numbers (by simp [frameWords, coded]; omega)
    rw [pointer, stacked] at numbered
    exact numbered.trans (goes_jump _ _ _ jumps)
  · rw [if_neg coded] at loaded
    obtain ⟨next, zeros, middle, numbers, last, jumps, _⟩ := loaded
    have pointer : framePointer vector cpu - 8 - 8 = aligned cpu - 56 := by
      rw [framePointer, if_neg coded, aligned]
      grind
    have stacked : BitVec.ofNat 64 vector :: 0 :: (frameWords vector code cpu ++ words) =
        stubWords vector code cpu ++ words := by
      rw [frameWords, stubWords, errorCodeOf, if_neg coded, if_neg coded]
      rfl
    have zeroed := goes_pushImmediate cpu.registers (framePointer vector cpu)
      (frameWords vector code cpu ++ words) zeros (by simp [frameWords, coded]; omega)
    have numbered := goes_pushImmediate cpu.registers (framePointer vector cpu - 8)
      (0 :: (frameWords vector code cpu ++ words)) numbers (by simp [frameWords, coded]; omega)
    rw [pointer, stacked] at numbered
    exact (zeroed.trans numbered).trans (goes_jump _ _ _ jumps)

/-- From the stub of a vector to the common code, the stack has one form for all vectors. -/
theorem goes_irq (placed : Placed text address) (vector : Fin 16) (code : BitVec 64) (cpu : Cpu) :
    Goes text
      ⟨address (.irq vector), cpu.registers, framePointer vector cpu, frameWords vector code cpu⟩
      ⟨address .irqCommon, cpu.registers, aligned cpu - 56, stubWords vector code cpu⟩ := by
  simpa using goes_irq_above placed vector code cpu [] (by simp)

/-- The context is the words of the saved registers over the number and the error code. -/
theorem contextWords_eq (vector : Fin 16) (code : BitVec 64) (cpu : Cpu) :
    (saved.map cpu.registers).reverse ++ stubWords vector code cpu =
      contextWords vector code cpu := rfl

/-- The word that selects a vector and the place of its call. -/
def dispatchRow (address : Label → BitVec 64) (vector : Fin 16) : BitVec 64 × BitVec 64 :=
  (BitVec.ofNat 64 vector, address (.irqCase vector))

/-- The chain of the common code compares with no other vector's word that is the same. -/
theorem dispatchRow_apart (address : Label → BitVec 64) {first second : Fin 16}
    (same : (dispatchRow address first).1 = (dispatchRow address second).1) : first = second := by
  have numbers : (BitVec.ofNat 64 first).toNat = (BitVec.ofNat 64 second).toNat :=
    congrArg BitVec.toNat same
  have below := first.isLt
  have below' := second.isLt
  rw [BitVec.toNat_ofNat, BitVec.toNat_ofNat] at numbers
  exact Fin.ext (by omega)

/-- The common code as it is loaded, with addresses in place of labels. -/
theorem resolve_irqCommon (address : Label → BitVec 64) :
    (body .irqCommon).map (.resolve address) =
      saved.map .push ++ ([.load (BitVec.ofNat 64 (8 * 15)) .rsp .rax] ++
        (chain .rax ((List.finRange 16).map (dispatchRow address)) ++ [.jump (address .done)])) := by
  have rows : (List.finRange 16).map (dispatchRow address) =
      dispatch.map fun (word, place) => (word, address place) := by
    rw [dispatch, List.map_map]
    rfl
  rw [rows, ← chain_resolve, body, irqCommon, List.map_append, List.map_append, List.map_append]
  rfl

/-- The common code saves the registers and goes to the call for the number on the stack, whatever
words are above the frame. -/
theorem goes_irqCommon_above (placed : Placed text address) (vector : Fin 16) (code : BitVec 64)
    (cpu : Cpu) (words : List (BitVec 64)) (room : 8 * (words.length + 23) ≤ 2 ^ 64) :
    Goes text
      ⟨address .irqCommon, cpu.registers, aligned cpu - 56, stubWords vector code cpu ++ words⟩
      ⟨address (.irqCase vector),
        Function.update cpu.registers .rax (BitVec.ofNat 64 vector), aligned cpu - 176,
        contextWords vector code cpu ++ words⟩ := by
  obtain ⟨stop, loaded⟩ := placed .irqCommon
  rw [resolve_irqCommon] at loaded
  obtain ⟨reading, pushes, rest⟩ := loaded_append.mp loaded
  obtain ⟨_, ⟨choosing, reads, rfl⟩, rest'⟩ := loaded_append.mp rest
  obtain ⟨last, compares, _⟩ := loaded_append.mp rest'
  have pointer : aligned cpu - 56 - BitVec.ofNat 64 (8 * saved.length) = aligned cpu - 176 := by
    have size : BitVec.ofNat 64 (8 * saved.length) = 120 := rfl
    rw [size]
    grind
  have saves := goes_pushes cpu.registers (aligned cpu - 56) (stubWords vector code cpu ++ words)
    saved pushes (by decide) (by simp [saved, stubWords]; omega)
  rw [← List.append_assoc, contextWords_eq, pointer] at saves
  have number := goes_load cpu.registers (aligned cpu - 176) (contextWords vector code cpu ++ words)
    reads (by decide)
    (rfl : (contextWords vector code cpu ++ words)[15]? = some (BitVec.ofNat 64 vector))
  obtain ⟨before, after, split, absent⟩ :=
    List.eq_append_cons_of_mem (List.mem_finRange vector)
  have selected : Function.update cpu.registers .rax (BitVec.ofNat 64 vector) .rax =
      BitVec.ofNat 64 vector := Function.update_self ..
  rw [split, List.map_append, List.map_cons, dispatchRow, ← selected] at compares
  have different : ∀ row ∈ before.map (dispatchRow address),
      Function.update cpu.registers .rax (BitVec.ofNat 64 vector) .rax ≠ row.1 := by
    intro row member same
    obtain ⟨other, place, rfl⟩ := List.mem_map.mp member
    exact absent (dispatchRow_apart address (selected.symm.trans same) ▸ place)
  have chosen := goes_chain _ (aligned cpu - 176) (contextWords vector code cpu ++ words) (by decide)
    (before.map (dispatchRow address)) (after.map (dispatchRow address)) compares different
  exact (saves.trans number).trans chosen

/-- The common code saves the registers and goes to the call for the number on the stack. -/
theorem goes_irqCommon (placed : Placed text address) (vector : Fin 16) (code : BitVec 64)
    (cpu : Cpu) :
    Goes text ⟨address .irqCommon, cpu.registers, aligned cpu - 56, stubWords vector code cpu⟩
      ⟨address (.irqCase vector),
        Function.update cpu.registers .rax (BitVec.ofNat 64 vector), aligned cpu - 176,
        contextWords vector code cpu⟩ := by
  simpa using goes_irqCommon_above placed vector code cpu [] (by simp)

/-- The registers at the call of a handler: the number and the pointer are in theirs. -/
def calling (vector : Fin 16) (cpu : Cpu) : Register → BitVec 64 :=
  Function.update (Function.update cpu.registers .rax (BitVec.ofNat 64 vector)) .rdi
    (aligned cpu - 176)

/-- The call of a handler, to return to a jump to the way back, whatever words are above the
frame. -/
theorem goes_irqCase_above (placed : Placed text address) (vector : Fin 16) (code : BitVec 64)
    (cpu : Cpu) (words : List (BitVec 64)) (room : 8 * (words.length + 23) ≤ 2 ^ 64) :
    ∃ back next, text back = some (.jump (address .done), next) ∧
      Goes text
        ⟨address (.irqCase vector),
          Function.update cpu.registers .rax (BitVec.ofNat 64 vector), aligned cpu - 176,
          contextWords vector code cpu ++ words⟩
        ⟨address (.handler vector), calling vector cpu, aligned cpu - 176 - 8,
          back :: (contextWords vector code cpu ++ words)⟩ := by
  obtain ⟨stop, middle, moves, back, calls, next, returns, _⟩ := placed (.irqCase vector)
  have passed := goes_move (Function.update cpu.registers .rax (BitVec.ofNat 64 vector))
    (aligned cpu - 176) (contextWords vector code cpu ++ words) moves (by decide)
  have called := goes_call (calling vector cpu) (aligned cpu - 176)
    (contextWords vector code cpu ++ words) calls (by simp [contextWords, stubWords, restored]; omega)
  exact ⟨back, next, returns, passed.trans called⟩

/-- The call of a handler, to return to a jump to the way back. -/
theorem goes_irqCase (placed : Placed text address) (vector : Fin 16) (code : BitVec 64)
    (cpu : Cpu) :
    ∃ back next, text back = some (.jump (address .done), next) ∧
      Goes text
        ⟨address (.irqCase vector),
          Function.update cpu.registers .rax (BitVec.ofNat 64 vector), aligned cpu - 176,
          contextWords vector code cpu⟩
        ⟨address (.handler vector), calling vector cpu, aligned cpu - 176 - 8,
          back :: contextWords vector code cpu⟩ := by
  simpa using goes_irqCase_above placed vector code cpu [] (by simp)

/-- The words of a context are the context of the interrupted registers. -/
theorem irqContextAt_stacked {memory : Image 64} {pointer : BitVec 64} {vector : Fin 16}
    {code : BitVec 64} {cpu : Cpu}
    (stacked : Stacked quad memory pointer (contextWords vector code cpu)) :
    irqContextAt memory pointer =
      contextOf cpu.registers (BitVec.ofNat 64 vector) (errorCodeOf vector code) := by
  have read : ∀ index word, (contextWords vector code cpu)[index]? = some word →
      loadWord quad memory (pointer + BitVec.ofNat 64 (8 * index)) = word :=
    fun _ _ found => loadWord_of_stacked quad stacked found
  simp only [irqContextAt, contextOf, IrqContext.mk.injEq]
  exact ⟨stacked.1, read 1 _ rfl, read 2 _ rfl, read 3 _ rfl, read 4 _ rfl, read 5 _ rfl,
    read 6 _ rfl, read 7 _ rfl, read 8 _ rfl, read 9 _ rfl, read 10 _ rfl, read 11 _ rfl,
    read 12 _ rfl, read 13 _ rfl, read 14 _ rfl, read 15 _ rfl, read 16 _ rfl⟩

/-! ## Exit -/

/-- A handler that conforms returns to the view it was called from, whatever its registers. -/
theorem view_returned {vector : Fin 16} {code back : BitVec 64} {cpu entered returned : Cpu}
    (shown : View.Of ⟨address (.handler vector), calling vector cpu, aligned cpu - 176 - 8,
      back :: contextWords vector code cpu⟩ entered)
    (conforms : Conforms entered returned) :
    View.Of ⟨back, returned.registers, aligned cpu - 176, contextWords vector code cpu⟩ returned := by
  have entry : entered.registers .rsp = aligned cpu - 176 - 8 := shown.pointer
  have pointer : entered.registers .rsp + 8 = aligned cpu - 176 := by
    rw [entry, BitVec.sub_add_cancel]
  have address : entered.peek 0 = back := by
    rw [Cpu.peek, entry]
    exact (BitVec.add_zero (aligned cpu - 176 - 8)).symm ▸ shown.stacked.1
  have above : Stacked quad entered.memory (aligned cpu - 176) (contextWords vector code cpu) := by
    have stacked := shown.stacked.2
    rw [← pointer, entry]
    exact stacked
  have kept : ∀ index < 8 * (contextWords vector code cpu).length,
      returned.memory (aligned cpu - 176 + BitVec.ofNat 64 index) =
        entered.memory (aligned cpu - 176 + BitVec.ofNat 64 index) := by
    rw [← pointer]
    exact conforms.frame
  exact ⟨conforms.rip.trans address, fun _ _ => rfl, conforms.rsp.trans pointer,
    stacked_congr quad above kept⟩

/-- The way back restores the registers, returns from the interrupt and leaves the words above
the frame. -/
theorem reaches_resumed_above (placed : Placed text address) {vector : Fin 16}
    {code back next : BitVec 64} {cpu returned : Cpu} (words : List (BitVec 64))
    (jumps : text back = some (.jump (address .done), next))
    (shown : View.Of ⟨back, returned.registers, aligned cpu - 176,
      contextWords vector code cpu ++ words⟩ returned) :
    ∃ resumed, Reaches text returned resumed ∧ resumed.registers = cpu.registers ∧
      resumed.rip = cpu.rip ∧ resumed.rflags = cpu.rflags ∧ resumed.cs = cpu.cs ∧
      resumed.ss = cpu.ss ∧ Stacked quad resumed.memory (aligned cpu) words := by
  obtain ⟨stop, loaded⟩ := placed .done
  have parts : Loaded text (restored.map .pop ++ [.add 16 .rsp, .interruptReturn])
      (address .done) stop := loaded
  obtain ⟨dropping, pops, resuming, drops, after, returns, _⟩ := loaded_append.mp parts
  have jumped := goes_jump returned.registers (aligned cpu - 176)
    (contextWords vector code cpu ++ words) jumps
  have popped := goes_pops returned.registers (aligned cpu - 176) (stubWords vector code cpu ++ words)
    cpu.registers restored pops (by decide)
  rw [← List.append_assoc] at popped
  have dropped := goes_drop
    (fun register => if register ∈ restored then cpu.registers register
      else returned.registers register)
    (aligned cpu - 176 + BitVec.ofNat 64 (8 * restored.length))
    (cpu.rip :: cpu.cs.setWidth 64 :: cpu.rflags :: cpu.registers .rsp :: cpu.ss.setWidth 64 :: words)
    [BitVec.ofNat 64 vector, errorCodeOf vector code] drops
  obtain ⟨leaving, reached, seen⟩ := ((jumped.trans popped).trans dropped) returned shown
  have here : text leaving.rip = some (.interruptReturn, after) := by
    rw [seen.address]
    exact returns
  have final := reaches_execute here
  rw [execute_interruptReturn _ _ _ seen] at final
  have registers : Function.update (fun register => if register ∈ restored then
      cpu.registers register else returned.registers register) .rsp (cpu.registers .rsp) =
        cpu.registers := by
    funext register
    cases register <;> rfl
  have frame : Stacked quad leaving.memory _
      ([cpu.rip, cpu.cs.setWidth 64, cpu.rflags, cpu.registers .rsp, cpu.ss.setWidth 64] ++ words) :=
    seen.stacked
  have above := ((stacked_append quad).mp frame).2
  have place : aligned cpu - 176 + BitVec.ofNat 64 (8 * restored.length) +
      BitVec.ofNat 64 (8 * 2) + BitVec.ofNat 64 (8 * 5) = aligned cpu := by
    have size : BitVec.ofNat 64 (8 * restored.length) = 120 := rfl
    rw [size]
    grind
  exact ⟨_, reached.trans final, registers, rfl, rfl, by simp, by simp, place ▸ above⟩

/-- The way back restores the registers and returns from the interrupt. -/
theorem reaches_resumed (placed : Placed text address) {vector : Fin 16}
    {code back next : BitVec 64} {cpu returned : Cpu}
    (jumps : text back = some (.jump (address .done), next))
    (shown : View.Of ⟨back, returned.registers, aligned cpu - 176, contextWords vector code cpu⟩
      returned) :
    ∃ resumed, Reaches text returned resumed ∧ resumed.registers = cpu.registers ∧
      resumed.rip = cpu.rip ∧ resumed.rflags = cpu.rflags ∧ resumed.cs = cpu.cs ∧
      resumed.ss = cpu.ss := by
  rw [← List.append_nil (contextWords vector code cpu)] at shown
  obtain ⟨resumed, reached, registers, rip, rflags, cs, ss, _⟩ :=
    reaches_resumed_above placed [] jumps shown
  exact ⟨resumed, reached, registers, rip, rflags, cs, ss⟩

/-! ## Exceptions as a whole -/

/-- Interrupt entry and exit are transparent. After `idt_init` the gate of each vector leads
to its stub, whatever the addresses are. Where the code is at its labels, the exception calls
the vector's handler on an aligned stack with the context of the interrupted registers, and
from wherever a handler that conforms returns to, the interrupted program resumes. -/
theorem exception_transparent (table : BitVec 64) (address : Label → BitVec 64) (text : Listing)
    (vector : Fin 16) (code : BitVec 64) (cpu : Cpu)
    (installed : Installed table (fun vec => address (.irq vec)) cpu) :
    (fetchGate cpu vector).map Gate.offset = some (address (.irq vector)) ∧
      (Placed text address →
        ∃ delivered entered, deliver vector code cpu = some delivered ∧
          Reaches text delivered entered ∧ entered.rip = address (.handler vector) ∧
          (entered.registers .rsp + 8).toNat % 16 = 0 ∧
          irqContextAt entered.memory (entered.registers .rdi) =
            contextOf cpu.registers (BitVec.ofNat 64 vector)
              (if vector.val ∈ codedVectors then code else 0) ∧
          ∀ returned, Conforms entered returned →
            ∃ resumed, Reaches text returned resumed ∧ resumed.registers = cpu.registers ∧
              resumed.rip = cpu.rip ∧ resumed.rflags = cpu.rflags ∧ resumed.cs = cpu.cs ∧
              resumed.ss = cpu.ss) := by
  have gate := fetchGate_installed installed vector
  refine ⟨by rw [gate]; rfl, ?_⟩
  intro placed
  obtain ⟨delivered, delivers⟩ : ∃ delivered, deliver vector code cpu = some delivered := by
    rw [deliver, gate]
    exact ⟨_, rfl⟩
  have start := view_deliver gate delivers
  obtain ⟨back, next, jumps, calls⟩ := goes_irqCase placed vector code cpu
  have entry := ((goes_irq placed vector code cpu).trans
    (goes_irqCommon placed vector code cpu)).trans calls
  obtain ⟨entered, reached, shown⟩ := entry delivered start
  have pointer : entered.registers .rsp + 8 = aligned cpu - 176 := by
    rw [shown.pointer]
    exact BitVec.sub_add_cancel _ _
  have argument : entered.registers .rdi = aligned cpu - 176 := shown.registers .rdi (by decide)
  have even : (aligned cpu - 176).toNat % 16 = 0 := by
    have multiple : (aligned cpu).toNat % 16 = 0 := align_toNat _
    have size : (176 : BitVec 64).toNat = 176 := rfl
    rw [BitVec.toNat_sub, size]
    omega
  have context : irqContextAt entered.memory (aligned cpu - 176) =
      contextOf cpu.registers (BitVec.ofNat 64 vector) (errorCodeOf vector code) := by
    rw [← pointer]
    apply irqContextAt_stacked
    rw [shown.pointer]
    exact shown.stacked.2
  refine ⟨delivered, entered, delivers, reached, shown.address, pointer ▸ even, ?_, ?_⟩
  · rw [argument]
    exact context
  · intro returned conforms
    exact reaches_resumed placed jumps (view_returned shown conforms)

/-- The handlers of the kernel conform: they return to their caller and write nowhere. -/
theorem conforms_irqHandlerGeneric (entered : Cpu) : Conforms entered (irqHandlerGeneric entered) where
  rip := rfl
  rsp := by simp [irqHandlerGeneric, Cpu.set]
  preserved register member := by
    have other : register ≠ .rsp := fun same => absurd (same ▸ member) (by decide)
    exact Function.update_of_ne other ..
  frame _ _ := rfl

/-! ## A placement -/

/-- The number of a label among all labels, so that labels can be told apart by numbers. -/
def labelNumber : Label → Nat
  | .irq vector => vector
  | .irqCommon => 16
  | .irqCase vector => 17 + vector
  | .done => 33
  | .handler vector => 34 + vector

/-- The label of a number, if there is one. -/
def labelAt (number : Nat) : Option Label :=
  if number = 16 then some .irqCommon
  else if number = 33 then some .done
  else if inside : number < 16 then some (.irq ⟨number, inside⟩)
  else if inside : number - 17 < 16 then some (.irqCase ⟨number - 17, inside⟩)
  else none

/-- Labels at every sixty-fourth address, as one linker might put them. -/
def spacedAddress (label : Label) : BitVec 64 := BitVec.ofNat 64 (64 * labelNumber label)

/-- The code at these addresses, with instructions of one byte. -/
def spacedText : Listing := fun address =>
  (labelAt (address.toNat / 64)).bind fun label =>
    (body label)[address.toNat % 64]?.map fun instruction =>
      (instruction.resolve spacedAddress, address + 1)

/-- Sixty-four addresses have room enough for the code of a label. -/
theorem body_length (label : Label) : (body label).length ≤ 64 := by
  cases label with
  | irq vector =>
    rw [body, irq_eq]
    split <;> simp [codedStub, zeroStub]
  | irqCommon => decide
  | irqCase vector => exact Nat.le_add_left 3 61
  | done => decide
  | handler vector => exact Nat.zero_le 64

/-- A label that has code is found by its number. -/
theorem labelAt_labelNumber (label : Label) (coded : 0 < (body label).length) :
    labelAt (labelNumber label) = some label := by
  cases label with
  | irq vector => revert vector; decide
  | irqCommon => rfl
  | irqCase vector => revert vector; decide
  | done => rfl
  | handler vector => exact absurd coded (Nat.lt_irrefl 0)

/-- The spaced text has all code at its labels. -/
theorem placed_spaced : Placed spacedText spacedAddress := by
  intro label
  refine ⟨_, loaded_of_bytes _ _ fun index inside => ?_⟩
  rw [List.length_map] at inside
  have room : index < 64 := Nat.lt_of_lt_of_le inside (body_length label)
  have few : labelNumber label < 64 := by
    cases label with
    | irq vector => exact Nat.lt_trans vector.isLt (by decide)
    | irqCommon => decide
    | irqCase vector => exact Nat.add_lt_add_left (Nat.lt_trans vector.isLt (by decide : 16 < 47)) 17
    | done => decide
    | handler vector => exact Nat.add_lt_add_left (Nat.lt_trans vector.isLt (by decide : 16 < 30)) 34
  have place : (spacedAddress label + BitVec.ofNat 64 index).toNat =
      64 * labelNumber label + index := by
    rw [spacedAddress, ← BitVec.ofNat_add, BitVec.toNat_ofNat]
    omega
  have number : (64 * labelNumber label + index) / 64 = labelNumber label := by omega
  have offset : (64 * labelNumber label + index) % 64 = index := by omega
  have found := labelAt_labelNumber label (Nat.lt_of_le_of_lt (Nat.zero_le index) inside)
  rw [spacedText, place, number, offset, found, Option.bind_some, List.getElem?_eq_getElem inside,
    List.getElem_map]
  rfl

/-- A program on an unaligned stack, before the table is set up. -/
def booted : Cpu where
  registers register := if register = .rsp then 0x7FF9 else 7
  rip := 0x401000
  rflags := 0x202
  cs := 0x08
  ss := 0x10
  idtr := ⟨0, 0⟩
  memory _ := 0

/-- The variables before `idt_init`, as static storage starts. -/
def zeroed : Globals := ⟨Vector.replicate idtEntries ⟨0, 0, 0, 0, 0, 0, 0⟩, ⟨0, 0⟩⟩

/-- The program after `idt_init`, which is where the exception comes. -/
def interrupted : Cpu := install 0x9000 (fun vec => spacedAddress (.irq vec)) zeroed booted

/-- A protection fault with an error code, through the handlers of the kernel and back. -/
theorem exception_transparent_fault :
    (fetchGate interrupted 13).map Gate.offset = some (spacedAddress (.irq 13)) ∧
      ∃ delivered entered resumed, deliver 13 0x10 interrupted = some delivered ∧
        Reaches spacedText delivered entered ∧ entered.rip = spacedAddress (.handler 13) ∧
        irqContextAt entered.memory (entered.registers .rdi) =
          contextOf (fun _ => 7) 13 0x10 ∧
        Reaches spacedText (irqHandlerGeneric entered) resumed ∧
        resumed.registers .rsp = 0x7FF9 ∧ resumed.registers .rax = 7 ∧
        resumed.rip = 0x401000 ∧ resumed.rflags = 0x202 := by
  have installed := installed_install 0x9000 (fun vec => spacedAddress (.irq vec)) zeroed booted
  obtain ⟨gate, run⟩ :=
    exception_transparent 0x9000 spacedAddress spacedText 13 0x10 interrupted installed
  obtain ⟨delivered, entered, delivers, reached, handler, _, context, back⟩ := run placed_spaced
  obtain ⟨resumed, returns, registers, rip, rflags, _, _⟩ :=
    back (irqHandlerGeneric entered) (conforms_irqHandlerGeneric entered)
  exact ⟨gate, delivered, entered, resumed, delivers, reached, handler, context, returns,
    congrFun registers .rsp, congrFun registers .rax, rip, rflags⟩

end ExistentOS.Kernel
