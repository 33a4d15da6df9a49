import ExistentOS.Kernel.Startup

/-!
# The start, disturbed by exceptions

Between any two statements of `kernel_startup`, and while the processor is halted behind them, any
number of exceptions and non-maskable interrupts may be taken, once the descriptor table is
there. Each of them ends, in one way only, and leaves everything but the free bytes of the
stack as it was. So every interleaving has the outcome of the statements alone.
-/

namespace ExistentOS.Kernel

open Codecs ByteMemory LongMode

/-! ## One exception -/

/-- An address outside of the assembly and of the handlers. -/
def Layout.Outside (layout : Layout) (rip : BitVec 64) : Prop :=
  layout.text rip = none ∧ ∀ vector, rip ≠ layout.label (.handler vector)

/-- A step while an exception is handled: an instruction of the assembly or a handler as a whole. -/
def handle (layout : Layout) (cpu : Cpu) : Option Cpu :=
  match step layout.text cpu with
  | some next => some next
  | none =>
    if ∃ vector, cpu.rip = layout.label (.handler vector) then some (irqHandlerGeneric cpu) else none

/-- An exception is taken, and the processor is at the first address outside of its handling. -/
def Serves (layout : Layout) (vector : Fin 16) (code : BitVec 64) (cpu resumed : Cpu) : Prop :=
  ∃ delivered, deliver vector code cpu = some delivered ∧
    resumed ∈ StateTransition.eval (handle layout) delivered

/-- An exception ends in one way at most. -/
theorem Serves.unique {layout : Layout} {vector : Fin 16} {code : BitVec 64} {cpu first second : Cpu}
    (once : Serves layout vector code cpu first) (again : Serves layout vector code cpu second) :
    first = second := by
  obtain ⟨delivered, delivers, ends⟩ := once
  obtain ⟨delivered', delivers', ends'⟩ := again
  obtain rfl := Option.some.inj (delivers.symm.trans delivers')
  exact Part.mem_unique ends ends'

/-- The bytes below the aligned stack pointer that an exception uses. -/
def free (cpu : Cpu) : Region 64 :=
  ⟨aligned cpu - BitVec.ofNat 64 exceptionSize, exceptionSize⟩

/-- A processor as it was, but for the free bytes of its stack. Below the stack pointer there is
nothing that an interrupted program may rely on. -/
structure Unchanged (cpu resumed : Cpu) : Prop where
  registers : resumed.registers = cpu.registers
  rip : resumed.rip = cpu.rip
  rflags : resumed.rflags = cpu.rflags
  cs : resumed.cs = cpu.cs
  ss : resumed.ss = cpu.ss
  idtr : resumed.idtr = cpu.idtr
  memory : SameOutside (free cpu) cpu.memory resumed.memory

/-- A delivery leaves the table register, so the next exception finds the same table. -/
theorem deliver_idtr {vector : Nat} {code : BitVec 64} {cpu delivered : Cpu}
    (delivers : deliver vector code cpu = some delivered) : delivered.idtr = cpu.idtr := by
  obtain ⟨gate, _, rfl⟩ := Option.map_eq_some_iff.mp delivers
  by_cases coded : vector ∈ codedVectors <;> simp only [coded, if_true, if_false] <;> rfl

/-- A run of the assembly is a part of the handling. -/
theorem Reaches.handle {layout : Layout} {cpu after : Cpu}
    (reached : Reaches layout.text cpu after) :
    StateTransition.Reaches (Kernel.handle layout) cpu after := by
  induction reached with
  | refl => exact .refl
  | tail _ stepped ih =>
    have here : step layout.text _ = some _ := stepped
    apply ih.tail
    rw [Option.mem_def, Kernel.handle, here]

/-- A handler of the kernel returns to the view it was called from. -/
theorem view_irqHandlerGeneric {place back pointer : BitVec 64} {registers : Register → BitVec 64}
    {words : List (BitVec 64)} {entered : Cpu}
    (shown : View.Of ⟨place, registers, pointer - 8, back :: words⟩ entered) :
    View.Of ⟨back, (irqHandlerGeneric entered).registers, pointer, words⟩
      (irqHandlerGeneric entered) := by
  have top : entered.registers .rsp = pointer - 8 := shown.pointer
  have address : entered.peek 0 = back := by
    rw [Cpu.peek, top]
    exact (BitVec.add_zero (pointer - 8)).symm ▸ shown.stacked.1
  have moved : (irqHandlerGeneric entered).registers .rsp = pointer := by
    simp only [irqHandlerGeneric, Cpu.set, Function.update_self, top, BitVec.sub_add_cancel]
  have above : Stacked quad entered.memory (pointer - 8 + 8) words := shown.stacked.2
  rw [BitVec.sub_add_cancel] at above
  exact ⟨address, fun _ _ => rfl, moved, above⟩

/-- Every exception ends, and leaves everything but the free bytes of the stack. -/
theorem serves_unchanged (layout : Layout) {cpu : Cpu}
    (installed : Installed layout.idt (fun vec => layout.label (.irq vec)) cpu)
    (outside : layout.Outside cpu.rip) (vector : Fin 16) (code : BitVec 64) :
    ∃ resumed, Serves layout vector code cpu resumed ∧ Unchanged cpu resumed := by
  have gate := fetchGate_installed installed vector
  obtain ⟨delivered, delivers⟩ : ∃ delivered, deliver vector code cpu = some delivered := by
    rw [deliver, gate]
    exact ⟨_, rfl⟩
  -- the words above are all of the memory but the bytes that the exception may use
  have stacked := stacked_wordsFrom quad cpu.memory (aligned cpu) (2 ^ 61 - 23)
  have length := wordsFrom_length quad cpu.memory (aligned cpu) (2 ^ 61 - 23)
  generalize wordsFrom quad cpu.memory (aligned cpu) (2 ^ 61 - 23) = words at stacked length
  have started := view_deliver_above words gate delivers stacked (by omega)
  obtain ⟨back, next, jumps, calls⟩ :=
    goes_irqCase_above layout.placed vector code cpu words (by omega)
  have entry := ((goes_irq_above layout.placed vector code cpu words (by omega)).trans
    (goes_irqCommon_above layout.placed vector code cpu words (by omega))).trans calls
  obtain ⟨entered, reached, shown⟩ := entry delivered started
  obtain ⟨resumed, leaves, registers, rip, rflags, cs, ss, above⟩ :=
    reaches_resumed_above layout.placed words jumps (view_irqHandlerGeneric shown)
  have stopped : step layout.text entered = none := by
    have here : entered.rip = layout.label (.handler vector) := shown.address
    rw [step, here, layout.compiled]
    rfl
  have handled : handle layout entered = some (irqHandlerGeneric entered) := by
    have here : ∃ vector, entered.rip = layout.label (.handler vector) := ⟨vector, shown.address⟩
    rw [handle, stopped]
    exact if_pos here
  have called : StateTransition.Reaches (handle layout) entered (irqHandlerGeneric entered) :=
    Relation.ReflTransGen.single handled
  have ended : handle layout resumed = none := by
    have away : ¬ ∃ vector, resumed.rip = layout.label (.handler vector) := by
      rintro ⟨other, here⟩
      exact outside.2 other (rip.symm.trans here)
    have last : step layout.text resumed = none := by
      rw [step, rip, outside.1]
      rfl
    rw [handle, last]
    exact if_neg away
  have whole : StateTransition.Reaches (handle layout) delivered resumed :=
    (Reaches.handle reached).trans (called.trans (Reaches.handle leaves))
  have idtr : resumed.idtr = cpu.idtr :=
    (Reaches.idtr leaves).trans ((Reaches.idtr reached).trans (deliver_idtr delivers))
  have size : exceptionSize = 184 := rfl
  have memory : SameOutside (free cpu) cpu.memory resumed.memory :=
    sameOutside_of_stacked quad stacked above (by omega)
  exact ⟨resumed, ⟨delivered, delivers, StateTransition.mem_eval.mpr ⟨whole, ended⟩⟩,
    registers, rip, rflags, cs, ss, idtr, memory⟩

/-! ## Statements and the bytes they write -/

/-- Two platforms that differ in free bytes of the stack at most. It is what an exception may
leave behind, and what the steps of the start do not depend on. -/
structure Alike (layout : Layout) (first second : Platform) : Prop where
  memory : SameOutside layout.stack first.cpu.memory second.cpu.memory
  ports : second.ports = first.ports
  idtr : second.cpu.idtr = first.cpu.idtr
  interrupts : second.cpu.rflags.getLsbD interruptFlag = first.cpu.rflags.getLsbD interruptFlag

/-- Platforms that are alike in turn are alike. -/
theorem Alike.trans {layout : Layout} {first second third : Platform}
    (early : Alike layout first second) (late : Alike layout second third) :
    Alike layout first third where
  memory := early.memory.trans late.memory
  ports := late.ports.trans early.ports
  idtr := late.idtr.trans early.idtr
  interrupts := late.interrupts.trans early.interrupts

namespace Layout

variable (layout : Layout)

/-- Every variable keeps apart from the stack, so a delivery cannot change one. -/
theorem apart_stack {region : Region 64} (variable' : region ∈ layout.regions) :
    region.Apart layout.stack := by
  have pairs := List.pairwise_append.mp
    (show List.Pairwise Region.Apart (layout.regions ++ [layout.stack]) from layout.apart)
  exact pairs.2.2 region variable' layout.stack List.mem_cons_self

/-- Each variable keeps apart from the later ones. -/
theorem regions_apart : layout.regions.Pairwise Region.Apart :=
  (List.pairwise_append.mp
    (show List.Pairwise Region.Apart (layout.regions ++ [layout.stack]) from layout.apart)).1

/-- The variables are different regions. -/
theorem regions_nodup : layout.regions.Nodup := by
  refine layout.regions_apart.imp_of_mem fun {first second} member _ apart same => ?_
  subst same
  have positive : 0 < first.size := by
    simp only [regions, List.mem_cons, List.not_mem_nil, or_false] at member
    obtain rfl | rfl | rfl | rfl | rfl := member <;> exact Nat.zero_lt_succ _
  have held := first.holds_offset positive
  exact apart _ held held

/-- Different variables keep apart from each other, so storing in one leaves the others. -/
theorem apart_of_ne {first second : Region 64} (member : first ∈ layout.regions)
    (member' : second ∈ layout.regions) (different : first ≠ second) : first.Apart second :=
  layout.regions_apart.forall member member' different

end Layout

/-- The regions that a statement may write, the stack of its functions apart. -/
def Statement.writes (layout : Layout) : Statement → List (Region 64)
  | .memorySetTotalBytes => [layout.total]
  | .acpiSetRsdp => [layout.rsdp]
  | .idtInit => [layout.table, layout.pointer]
  | .cpuInit => [layout.known]
  | _ => []

variable {layout : Layout} {cpuid : BitVec 32 → CpuidAnswer} {bootInfo : BitVec 64}

/-- What `cpu_init` does: the local of its caller is on the stack. -/
theorem cpuInit_same (layout : Layout) (memory : Image 64) (cpuid : BitVec 32 → CpuidAnswer) :
    SameOutside layout.stack
      (storeWord cpuInfo memory layout.gCpuInfo
        (infoFor cpuid (loadWord cpuInfo memory layout.gCpuInfo)))
      (cpuInit layout memory cpuid) := by
  rw [cpuInit, cpuGetInfo, if_neg layout.infoNonzero]
  exact (sameOutside_storeWord cpuInfo _ layout.info _).mono layout.infoStacked

/-- A statement changes no byte outside of the stack and of what it writes. -/
theorem run_memory (statement : Statement) (platform : Platform) {place : BitVec 64}
    (unstacked : ¬ layout.stack.Holds place)
    (unwritten : ∀ region ∈ statement.writes layout, ¬ region.Holds place) :
    (statement.run layout cpuid bootInfo platform).cpu.memory place = platform.cpu.memory place := by
  cases statement with
  | memorySetTotalBytes =>
    exact sameOutside_storeWord quad _ _ _ _ (unwritten _ List.mem_cons_self)
  | acpiSetRsdp => exact sameOutside_storeWord quad _ _ _ _ (unwritten _ List.mem_cons_self)
  | idtInit =>
    have clear : ¬ layout.table.Holds place := unwritten _ List.mem_cons_self
    have apart : ¬ layout.pointer.Holds place := unwritten _ (by simp [Statement.writes])
    have early := sameOutside_storeWord idtPtr64 platform.cpu.memory layout.idtp
      (initialised layout platform.cpu.memory).1.idtp place apart
    have late := sameOutside_storeWord idtTable
      (storeWord idtPtr64 platform.cpu.memory layout.idtp
        (initialised layout platform.cpu.memory).1.idtp)
      layout.idt (initialised layout platform.cpu.memory).1.idt place clear
    simp only [Statement.run, idtInitAt]
    exact late.trans early
  | cpuInit =>
    exact (cpuInit_same layout platform.cpu.memory cpuid place unstacked).trans
      (sameOutside_storeWord cpuInfo _ _ _ _ (unwritten _ List.mem_cons_self))
  | _ => rfl

/-- What a statement writes are variables of the layout. -/
theorem writes_regions {statement : Statement} {region : Region 64}
    (written : region ∈ statement.writes layout) : region ∈ layout.regions := by
  cases statement <;> simp_all [Statement.writes, Layout.regions]

/-- A statement keeps the variables that it does not write. -/
theorem run_load (statement : Statement) (platform : Platform) {region : Region 64}
    (member : region ∈ layout.regions) (unwritten : region ∉ statement.writes layout) :
    load (statement.run layout cpuid bootInfo platform).cpu.memory region.start region.size =
      load platform.cpu.memory region.start region.size := by
  apply load_congr
  intro index inside
  have held := region.holds_offset inside
  apply run_memory statement platform (layout.apart_stack member _ held)
  intro other written
  have different : region ≠ other := fun same => unwritten (same ▸ written)
  exact layout.apart_of_ne member (writes_regions written) different _ held

/-- Boot information that keeps apart from the stack and from the variables. The loader has it on
its own stack, and C does not let one object lie in another. -/
structure Layout.Clear (layout : Layout) (bootInfo : BitVec 64) : Prop where
  stack : Region.Apart ⟨bootInfo, 16⟩ layout.stack
  regions : ∀ region ∈ layout.regions, Region.Apart ⟨bootInfo, 16⟩ region

/-- A statement takes platforms that are alike to such platforms. -/
theorem Alike.run {first second : Platform} (alike : Alike layout first second)
    (clear : layout.Clear bootInfo) (statement : Statement) :
    Alike layout (statement.run layout cpuid bootInfo first)
      (statement.run layout cpuid bootInfo second) := by
  have low : Region.Apart ⟨bootInfo, 8⟩ layout.stack :=
    (clear.stack.symm.within (Region.within_start bootInfo (by decide))).symm
  have high : Region.Apart ⟨bootInfo + 8, 8⟩ layout.stack :=
    (clear.stack.symm.within (Region.within_offset bootInfo (by decide) (by decide))).symm
  have words : ∀ {Word : Type} {width : Nat} (codec : Codec Word width) (address : BitVec 64),
      ⟨address, width⟩ ∈ layout.regions →
        loadWord codec second.cpu.memory address = loadWord codec first.cpu.memory address :=
    fun codec _ member => alike.memory.loadWord codec (layout.apart_stack member)
  cases statement with
  | cli =>
    have off : ∀ rflags : BitVec 64,
        (withBit interruptFlag false rflags).getLsbD interruptFlag = false :=
      fun rflags => (getLsbD_withBit _ _ rflags _ (by decide)).trans (if_pos rfl)
    exact ⟨alike.memory, alike.ports, alike.idtr, (off _).trans (off _).symm⟩
  | memorySetTotalBytes =>
    have same := alike.memory.loadWord quad low
    refine ⟨?_, alike.ports, alike.idtr, alike.interrupts⟩
    simp only [Statement.run, Platform.withMemory, memorySetTotalBytes, same]
    exact alike.memory.store _ _
  | acpiSetRsdp =>
    have same := alike.memory.loadWord quad high
    refine ⟨?_, alike.ports, alike.idtr, alike.interrupts⟩
    simp only [Statement.run, Platform.withMemory, acpiSetRsdp, same]
    exact alike.memory.store _ _
  | memoryInit => exact ⟨alike.memory, alike.ports, alike.idtr, alike.interrupts⟩
  | acpiInit => exact ⟨alike.memory, alike.ports, alike.idtr, alike.interrupts⟩
  | idtInit =>
    have table := words idtTable layout.idt (by simp [Layout.regions, Layout.table])
    have pointer := words idtPtr64 layout.idtp (by simp [Layout.regions, Layout.pointer])
    have same : initialised layout second.cpu.memory = initialised layout first.cpu.memory := by
      rw [initialised, initialised, table, pointer]
    refine ⟨?_, alike.ports, ?_, alike.interrupts⟩ <;> simp only [Statement.run, idtInitAt, same]
    exact (alike.memory.store _ _).store _ _
  | cpuInit =>
    have same := words cpuInfo layout.gCpuInfo (by simp [Layout.regions, Layout.known])
    refine ⟨?_, alike.ports, alike.idtr, alike.interrupts⟩
    have stored := alike.memory.store layout.gCpuInfo
      (cpuInfo.encode (infoFor cpuid (loadWord cpuInfo first.cpu.memory layout.gCpuInfo)))
    have early := cpuInit_same layout first.cpu.memory cpuid
    have late := cpuInit_same layout second.cpu.memory cpuid
    rw [same] at late
    exact early.symm.trans (stored.trans late)
  | picDisable =>
    refine ⟨alike.memory, ?_, alike.idtr, alike.interrupts⟩
    simp only [Statement.run, picDisable, outb, alike.ports]

/-! ## The statements without a disturbance -/

/-- The table of `idt_init` on a platform: from here on an exception is delivered through a stub. -/
def Layout.Ready (layout : Layout) (cpu : Cpu) : Prop :=
  Installed layout.idt (fun vec => layout.label (.irq vec)) cpu

/-- The table is there on whatever is alike. -/
theorem Alike.ready {first second : Platform} (alike : Alike layout first second)
    (ready : layout.Ready first.cpu) : layout.Ready second.cpu := by
  obtain ⟨globals, register, table⟩ := ready
  have member : layout.table ∈ layout.regions := by simp [Layout.regions]
  exact ⟨globals, alike.idtr.trans register,
    (alike.memory.load (layout.apart_stack member)).trans table⟩

/-- `idt_init` leaves the table. -/
theorem ready_idtInit (platform : Platform) :
    layout.Ready (Statement.run layout cpuid bootInfo platform .idtInit).cpu := by
  simp only [Statement.run, idtInitAt]
  refine ⟨⟨loadWord idtTable platform.cpu.memory layout.idt,
    loadWord idtPtr64 platform.cpu.memory layout.idtp⟩, ?_⟩
  rw [← initialised]
  generalize initialised layout platform.cpu.memory = made
  exact ⟨rfl, load_storeWord idtTable _ layout.idt made.1.idt (by decide)⟩

/-- Every statement keeps the table once it is there. -/
theorem Layout.Ready.run {platform : Platform} (ready : layout.Ready platform.cpu)
    (statement : Statement) : layout.Ready (statement.run layout cpuid bootInfo platform).cpu := by
  by_cases again : statement = .idtInit
  · subst again
    exact ready_idtInit platform
  · obtain ⟨globals, register, table⟩ := ready
    have nodup := layout.regions_nodup
    have unwritten : layout.table ∉ statement.writes layout := by
      cases statement <;> simp_all [Statement.writes, Layout.regions, eq_comm]
    have idtr : (statement.run layout cpuid bootInfo platform).cpu.idtr = platform.cpu.idtr := by
      cases statement <;> first | rfl | exact absurd rfl again
    have member : layout.table ∈ layout.regions := by simp [Layout.regions]
    exact ⟨globals, idtr.trans register, (run_load statement platform member unwritten).trans table⟩

/-- The table is there behind any statements with `idt_init` among them. -/
theorem ready_runAll {statements : List Statement} (listed : .idtInit ∈ statements)
    (platform : Platform) :
    layout.Ready (runAll layout cpuid bootInfo platform statements).cpu := by
  induction statements using List.reverseRecOn with
  | nil => simp at listed
  | append_singleton earlier last ih =>
    have step : runAll layout cpuid bootInfo platform (earlier ++ [last]) =
        last.run layout cpuid bootInfo (runAll layout cpuid bootInfo platform earlier) :=
      List.foldl_append ..
    rw [step]
    by_cases before : .idtInit ∈ earlier
    · exact (ih before).run last
    · obtain rfl : last = .idtInit := by simpa [before, eq_comm] using listed
      exact ready_idtInit _

/-- What the kernel is at its first halt, for the processor that entered it. Each field says what
one step of the start has left, and the last one that nothing else has changed. -/
structure Started (layout : Layout) (cpuid : BitVec 32 → CpuidAnswer) (cpu : Cpu)
    (platform : Platform) : Prop where
  totalBytes : memoryTotalBytes layout platform.cpu.memory =
    if cpu.registers .rdi = 0 then memoryTotalBytes layout cpu.memory
    else loadWord quad cpu.memory (cpu.registers .rdi)
  rootPointer : loadWord quad platform.cpu.memory layout.rsdpAddress =
    if cpu.registers .rdi = 0 then loadWord quad cpu.memory layout.rsdpAddress
    else loadWord quad cpu.memory (cpu.registers .rdi + 8)
  info : loadWord cpuInfo platform.cpu.memory layout.gCpuInfo =
    infoFor cpuid (loadWord cpuInfo cpu.memory layout.gCpuInfo)
  ready : layout.Ready platform.cpu
  interrupts : platform.cpu.rflags.getLsbD interruptFlag = false
  masked : platform.ports 0x21 = 0xFF ∧ platform.ports 0xA1 = 0xFF
  others : ∀ place, ¬ layout.stack.Holds place →
    (∀ region ∈ layout.regions, ¬ region.Holds place) →
      platform.cpu.memory place = cpu.memory place

/-- ACPI is available exactly if the stored pointer is not null. -/
theorem Started.available {layout : Layout} {cpuid : BitVec 32 → CpuidAnswer} {cpu : Cpu}
    {platform : Platform} (started : Started layout cpuid cpu platform)
    (given : cpu.registers .rdi ≠ 0) : acpiIsAvailable layout platform.cpu.memory =
      decide (loadWord quad cpu.memory (cpu.registers .rdi + 8) ≠ 0) := by
  rw [acpiIsAvailable, started.rootPointer, if_neg given]

/-- The different variables, one inequality for each pair. -/
theorem Layout.distinct (layout : Layout) :
    (layout.total ≠ layout.rsdp ∧ layout.total ≠ layout.known ∧ layout.total ≠ layout.table ∧
      layout.total ≠ layout.pointer) ∧
    (layout.rsdp ≠ layout.known ∧ layout.rsdp ≠ layout.table ∧ layout.rsdp ≠ layout.pointer) ∧
    layout.known ≠ layout.table ∧ layout.known ≠ layout.pointer := by
  have nodup := layout.regions_nodup
  simp only [Layout.regions, List.nodup_cons, List.mem_cons, List.not_mem_nil, or_false, not_or]
    at nodup
  tauto

/-- An exception here uses bytes of the kernel's stack alone. -/
def Layout.Fits (layout : Layout) (cpu : Cpu) : Prop := (free cpu).Within layout.stack

/-- The platform and the statements that are left; behind the last one the processor is halted. -/
structure Moment where
  platform : Platform
  rest : List Statement

/-- A statement is executed, by code that keeps to its stack, or an exception is taken once the
register is loaded. -/
inductive Step (layout : Layout) (cpuid : BitVec 32 → CpuidAnswer) (bootInfo : BitVec 64) :
    Moment → Moment → Prop
  | executes {statement : Statement} {rest : List Statement} {before after : Platform}
      (does : Alike layout (statement.run layout cpuid bootInfo before) after)
      (outside : layout.Outside after.cpu.rip) (fits : layout.Fits after.cpu) :
      Step layout cpuid bootInfo ⟨before, statement :: rest⟩ ⟨after, rest⟩
  | exception {platform : Platform} {rest : List Statement} {resumed : Cpu} (vector : Fin 16)
      (code : BitVec 64) (loaded : .idtInit ∉ rest)
      (serves : Serves layout vector code platform.cpu resumed) :
      Step layout cpuid bootInfo ⟨platform, rest⟩ ⟨{ platform with cpu := resumed }, rest⟩

/-- A platform cannot be told from one that has run some of the statements alone. -/
structure Follows (layout : Layout) (cpuid : BitVec 32 → CpuidAnswer) (bootInfo : BitVec 64)
    (first : Platform) (ran : List Statement) (moment : Moment) : Prop where
  all : kernelStartup bootInfo = ran ++ moment.rest
  alike : Alike layout (runAll layout cpuid bootInfo first ran) moment.platform
  outside : layout.Outside moment.platform.cpu.rip
  fits : layout.Fits moment.platform.cpu

/-- The table is there as soon as `idt_init` is not among what is left. -/
theorem Follows.ready {first : Platform} {ran : List Statement} {moment : Moment}
    (follows : Follows layout cpuid bootInfo first ran moment) (loaded : .idtInit ∉ moment.rest) :
    layout.Ready moment.platform.cpu := by
  have listed : .idtInit ∈ ran ++ moment.rest := by
    rw [← follows.all]
    simp [kernelStartup]
  have early : .idtInit ∈ ran := (List.mem_append.mp listed).resolve_right loaded
  exact follows.alike.ready (ready_runAll early first)

/-- A step executes one more of the statements or none. -/
theorem Follows.step {first : Platform} {ran : List Statement} {moment next : Moment}
    (clear : layout.Clear bootInfo) (follows : Follows layout cpuid bootInfo first ran moment)
    (step : Step layout cpuid bootInfo moment next) :
    ∃ more, Follows layout cpuid bootInfo first (ran ++ more) next := by
  cases step with
  | @executes statement rest before after does outside fits =>
    have all : kernelStartup bootInfo = (ran ++ [statement]) ++ rest := by
      rw [follows.all, List.append_assoc]
      rfl
    have ran' : runAll layout cpuid bootInfo first (ran ++ [statement]) =
        statement.run layout cpuid bootInfo (runAll layout cpuid bootInfo first ran) :=
      List.foldl_append ..
    have alike : Alike layout (runAll layout cpuid bootInfo first (ran ++ [statement])) after := by
      rw [ran']
      exact (follows.alike.run clear statement).trans does
    exact ⟨[statement], all, alike, outside, fits⟩
  | @exception platform rest resumed vector code loaded serves =>
    have installed := follows.ready loaded
    obtain ⟨again, served, unchanged⟩ :=
      serves_unchanged layout installed follows.outside vector code
    obtain rfl := serves.unique served
    have same : Alike layout platform { platform with cpu := resumed } :=
      ⟨unchanged.memory.mono follows.fits, rfl, unchanged.idtr, by rw [unchanged.rflags]⟩
    have fits : layout.Fits resumed := by
      have place : free resumed = free platform.cpu := by
        rw [free, free, aligned, aligned, unchanged.registers]
      rw [Layout.Fits, place]
      exact follows.fits
    refine ⟨[], ?_, ?_, unchanged.rip ▸ follows.outside, fits⟩
    · rw [List.append_nil]
      exact follows.all
    · rw [List.append_nil]
      exact follows.alike.trans same

end ExistentOS.Kernel
