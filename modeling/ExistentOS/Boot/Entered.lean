import ExistentOS.Boot.Main
import ExistentOS.Kernel.Undisturbed

/-!
# From the loader into the kernel

The boot information is all that the loader hands on. `efi_main` jumps with the total of the
memory map whose key ended the boot services, and without a root pointer; whatever
interleaving of its start with exceptions the kernel goes through, these are what it knows when it
halts.
-/

namespace ExistentOS.Boot

open Programs ByteMemory LongMode Kernel

variable {σ : Type}

/-- A jump behind an accepted exit: the last map was fetched right before it, and the boot
information has its total. -/
def Counted (events : List Event) (memoryMapBuffer : Nat → UInt8) (info : BootInfo) : Prop :=
  ∃ earlier answer image, events = earlier ++
      [.getMemoryMap memoryMapBufferSize answer,
        .exitBootServices image answer.mapKey efiSuccess, .enterKernel kernelLoadAddress info] ∧
    info = ⟨UInt64.ofNat (usableBytes (fetchedMap answer memoryMapBuffer) answer.descriptorSize), 0⟩

/-- The boot information is that of the last event. -/
theorem Counted.last {events : List Event} {memoryMapBuffer : Nat → UInt8} {info other : BootInfo}
    {address : UInt64} (counted : Counted events memoryMapBuffer info)
    (last : events.getLast? = some (.enterKernel address other)) : other = info := by
  obtain ⟨earlier, answer, image, rfl, _⟩ := counted
  have same : kernelLoadAddress = address ∧ info = other := by simpa using last
  exact same.2.symm

end ExistentOS.Boot
