import ExistentOS.Kernel.Interrupts
import ExistentOS.Library.Regions

/-!
# The start of the kernel

`entry.S`, `kernel.c` and what `kernel_startup` calls: `memory.c`, `acpi.c`, `cpu.c`, `pic.c` and
the installation of the descriptor table. The kernel's variables are bytes of the memory, at the
addresses of a layout, next to the stack that `entry.S` sets up; nothing is assumed of what
the memory held before.
-/

namespace ExistentOS.Kernel

open Codecs ByteMemory LongMode

/-! ## What is stored -/

/-- `cpu_vendor_t`. Whatever names itself otherwise is unknown. -/
inductive CpuVendor
  | unknown
  | intel
  | amd
  deriving DecidableEq, Repr

/-- The number of a vendor, as the enumeration has it. -/
def CpuVendor.word : CpuVendor → BitVec 32
  | .unknown => 0
  | .intel => 1
  | .amd => 2

/-- `cpu_info_t`, as words of 32 bits in the order of its fields. -/
structure CpuInfo where
  vendor : BitVec 32
  family : BitVec 32
  model : BitVec 32
  stepping : BitVec 32
  featuresEcx : BitVec 32
  featuresEdx : BitVec 32
  deriving DecidableEq, Repr

/-- The bytes of a `cpu_info_t`, six words without padding. -/
def cpuInfo : Codec CpuInfo 24 :=
  transport
    (pair (words 4) (pair (words 4) (pair (words 4) (pair (words 4) (pair (words 4) (words 4))))))
    ⟨fun info => (info.vendor, info.family, info.model, info.stepping, info.featuresEcx,
        info.featuresEdx),
      fun ⟨vendor, family, model, stepping, featuresEcx, featuresEdx⟩ =>
        ⟨vendor, family, model, stepping, featuresEcx, featuresEdx⟩,
      fun _ => rfl, fun _ => rfl⟩

/-- The bytes of `idt`, entry by entry. -/
def idtTable : Codec (Vector IdtEntry64 idtEntries) (idtEntries * 16) := vector idtEntry64 idtEntries

/-- The bytes between `stack_bottom` and `stack_top`. -/
def stackSize : Nat := 65536

/-- The bytes that an exception needs on the stack: the context, the frame and a return address. -/
def exceptionSize : Nat := frameSize + 8

/-- Where the linker puts the code and the variables of the kernel, and the compiler the local of
`cpu_init`. No two variables overlap, and what is compiled from C is not a part of the assembly. -/
structure Layout where
  text : Listing
  label : Label → BitVec 64
  placed : Placed text label
  compiled : ∀ vector, text (label (.handler vector)) = none
  kernelStartup : BitVec 64
  outside : text kernelStartup = none ∧ ∀ vector, kernelStartup ≠ label (.handler vector)
  hang : BitVec 64
  totalMemoryBytes : BitVec 64
  rsdpAddress : BitVec 64
  gCpuInfo : BitVec 64
  idt : BitVec 64
  idtp : BitVec 64
  stackBottom : BitVec 64
  info : BitVec 64
  apart : List.Pairwise Region.Apart
    [⟨totalMemoryBytes, 8⟩, ⟨rsdpAddress, 8⟩, ⟨gCpuInfo, 24⟩, ⟨idt, idtEntries * 16⟩, ⟨idtp, 10⟩,
      ⟨stackBottom, stackSize⟩]
  infoNonzero : info ≠ 0
  infoStacked : Region.Within ⟨info, 24⟩ ⟨stackBottom, stackSize⟩

namespace Layout

variable (layout : Layout)

/-- The bytes of the stack. -/
def stack : Region 64 := ⟨layout.stackBottom, stackSize⟩

/-- The bytes of `total_memory_bytes`. -/
def total : Region 64 := ⟨layout.totalMemoryBytes, 8⟩

/-- The bytes of `rsdp_address`. -/
def rsdp : Region 64 := ⟨layout.rsdpAddress, 8⟩

/-- The bytes of `g_cpu_info`. -/
def known : Region 64 := ⟨layout.gCpuInfo, 24⟩

/-- The bytes of `idt`. -/
def table : Region 64 := ⟨layout.idt, idtEntries * 16⟩

/-- The bytes of `idtp`. -/
def pointer : Region 64 := ⟨layout.idtp, 10⟩

/-- All variables of the kernel. What is outside of them and of the stack is never written. -/
def regions : List (Region 64) :=
  [layout.total, layout.rsdp, layout.known, layout.table, layout.pointer]

end Layout

/-! ## The drivers -/

section Drivers

variable (layout : Layout) (memory : Image 64)

/-- `memory_set_total_bytes`. -/
def memorySetTotalBytes (bytes : BitVec 64) : Image 64 :=
  storeWord quad memory layout.totalMemoryBytes bytes

/-- `memory_init`, whose body is a comment. -/
def memoryInit : Image 64 := memory

/-- `memory_total_bytes`. -/
def memoryTotalBytes : BitVec 64 := loadWord quad memory layout.totalMemoryBytes

/-- `acpi_set_rsdp`. -/
def acpiSetRsdp (rsdp : BitVec 64) : Image 64 := storeWord quad memory layout.rsdpAddress rsdp

/-- `acpi_init`, whose body is a comment. -/
def acpiInit : Image 64 := memory

/-- `acpi_is_available`: the stored pointer is not null. The tables behind it are not looked at. -/
def acpiIsAvailable : Bool := loadWord quad memory layout.rsdpAddress ≠ 0

/-- What `cpuid` answers for a leaf: a word in each of four registers. -/
structure CpuidAnswer where
  eax : BitVec 32
  ebx : BitVec 32
  ecx : BitVec 32
  edx : BitVec 32
  deriving DecidableEq, Repr

/-- The vendor that `cpu_get_info` writes for the answer to leaf 0, over the earlier one. -/
def vendorFor (names : CpuidAnswer) (earlier : BitVec 32) : BitVec 32 :=
  if names.ebx = 0x756E6547 ∧ names.edx = 0x49656E69 ∧ names.ecx = 0x6C65746E then
    CpuVendor.intel.word
  else if names.ebx = 0x68747541 ∧ names.edx = 0x69746E65 ∧ names.ecx = 0x444D4163 then
    CpuVendor.amd.word
  else earlier

/-- The value of `g_cpu_info` after `cpu_get_info`. An unknown vendor leaves the vendor that was
there. -/
def infoFor (cpuid : BitVec 32 → CpuidAnswer) (earlier : CpuInfo) : CpuInfo where
  vendor := vendorFor (cpuid 0) earlier.vendor
  family := ((cpuid 1).eax >>> 8) &&& 0xF
  model := ((cpuid 1).eax >>> 4) &&& 0xF
  stepping := (cpuid 1).eax &&& 0xF
  featuresEcx := (cpuid 1).ecx
  featuresEdx := (cpuid 1).edx

/-- `cpu_get_info`, which stores the information twice: in the variable and through its pointer. -/
def cpuGetInfo (cpuid : BitVec 32 → CpuidAnswer) (info : BitVec 64) : BitVec 32 × Image 64 :=
  if info = 0 then (0, memory)
  else
    let known := infoFor cpuid (loadWord cpuInfo memory layout.gCpuInfo)
    (1, storeWord cpuInfo (storeWord cpuInfo memory layout.gCpuInfo known) info known)

/-- `cpu_init`. Its local is filled and then dropped. -/
def cpuInit (cpuid : BitVec 32 → CpuidAnswer) : Image 64 :=
  (cpuGetInfo layout memory cpuid layout.info).2

end Drivers

/-- The processor with its memory, and what was last written to each port. Nothing is read back
from a port during the start. -/
structure Platform where
  cpu : Cpu
  ports : BitVec 16 → BitVec 8

/-- `outb`. A port holds what was last written to it. -/
def outb (port : BitVec 16) (value : BitVec 8) (platform : Platform) : Platform :=
  { platform with ports := Function.update platform.ports port value }

/-- `pic_disable`: all lines of both controllers are masked. -/
def picDisable (platform : Platform) : Platform := outb 0xA1 0xFF (outb 0x21 0xFF platform)

/-- `idt_init` on the values that `idt` and `idtp` have. -/
def initialised (layout : Layout) (memory : Image 64) : Globals × TableRegister :=
  idtInit layout.idt (fun vec => layout.label (.irq vec))
    ⟨loadWord idtTable memory layout.idt, loadWord idtPtr64 memory layout.idtp⟩

/-- `idt_init` on the bytes of `idt` and `idtp`, and the loading of the table register. -/
def idtInitAt (layout : Layout) (cpu : Cpu) : Cpu :=
  { cpu with
    idtr := (initialised layout cpu.memory).2
    memory :=
      storeWord idtTable
        (storeWord idtPtr64 cpu.memory layout.idtp (initialised layout cpu.memory).1.idtp)
        layout.idt (initialised layout cpu.memory).1.idt }

/-! ## `kernel_startup` -/

/-- The position of the interrupt flag in the flags register. -/
def interruptFlag : Nat := 9

/-- The statements of `kernel_startup` before its loop. Which of them are run depends on whether
there is boot information. -/
inductive Statement
  | cli
  | memorySetTotalBytes
  | acpiSetRsdp
  | memoryInit
  | acpiInit
  | idtInit
  | cpuInit
  | picDisable
  deriving DecidableEq, Repr

/-- The processor with another memory. Registers and ports stay as they are. -/
def Platform.withMemory (platform : Platform) (memory : Image 64) : Platform :=
  { platform with cpu := { platform.cpu with memory := memory } }

/-- What a statement does, for boot information at an address. -/
def Statement.run (layout : Layout) (cpuid : BitVec 32 → CpuidAnswer) (bootInfo : BitVec 64)
    (platform : Platform) : Statement → Platform
  | .cli =>
    { platform with
      cpu := { platform.cpu with rflags := withBit interruptFlag false platform.cpu.rflags } }
  | .memorySetTotalBytes =>
    platform.withMemory (Kernel.memorySetTotalBytes layout platform.cpu.memory
      (loadWord quad platform.cpu.memory bootInfo))
  | .acpiSetRsdp =>
    platform.withMemory (Kernel.acpiSetRsdp layout platform.cpu.memory
      (loadWord quad platform.cpu.memory (bootInfo + 8)))
  | .memoryInit => platform.withMemory (Kernel.memoryInit platform.cpu.memory)
  | .acpiInit => platform.withMemory (Kernel.acpiInit platform.cpu.memory)
  | .idtInit => { platform with cpu := idtInitAt layout platform.cpu }
  | .cpuInit => platform.withMemory (Kernel.cpuInit layout platform.cpu.memory cpuid)
  | .picDisable => Kernel.picDisable platform

/-- `kernel_startup` up to its loop, which halts the processor for ever. -/
def kernelStartup (bootInfo : BitVec 64) : List Statement :=
  [.cli] ++ (if bootInfo ≠ 0 then [.memorySetTotalBytes, .acpiSetRsdp] else []) ++
    [.memoryInit, .acpiInit, .idtInit, .cpuInit, .picDisable]

/-- `_start` up to the first statement: no frame, the kernel's own stack and a call on it. -/
def start (layout : Layout) (cpu : Cpu) : Cpu :=
  let cleared := { cpu.set .rbp 0 with
    rflags := statusFlags (cpu.registers .rbp) (cpu.registers .rbp) 0 false false cpu.rflags }
  let stacked := cleared.set .rsp (layout.stackBottom + BitVec.ofNat 64 stackSize)
  { stacked.push layout.hang with rip := layout.kernelStartup }

/-- The statements one after the other, with nothing in between. -/
def runAll (layout : Layout) (cpuid : BitVec 32 → CpuidAnswer) (bootInfo : BitVec 64)
    (platform : Platform) (statements : List Statement) : Platform :=
  statements.foldl (fun platform statement => statement.run layout cpuid bootInfo platform) platform

end ExistentOS.Kernel
