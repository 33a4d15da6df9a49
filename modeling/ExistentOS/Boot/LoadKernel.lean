import ExistentOS.Machine

/-!
# Loading the kernel

`efi_load_kernel`: open `\kernel.bin`, claim one megabyte at the load address,
clear it and read the file into it. Every early exit hands back the status of the
call it follows, also where the reason for the exit is a null pointer and the
status is a success.
-/

namespace ExistentOS.Boot

open Programs Terminated

variable {σ : Type}

/-- `KERNEL_LOAD_ADDRESS`. -/
def kernelLoadAddress : UInt64 := 0x200000

/-- `KERNEL_MAX_BYTES`, what is claimed and cleared for the kernel. -/
def kernelMaxBytes : Nat := 1024 * 1024

/-- `AllocateAddress`: the pages are claimed at the given address or not at all. -/
def allocateAddress : UInt32 := 2

/-- `EfiLoaderData`, the type of the claimed pages. -/
def efiLoaderData : UInt32 := 2

/-- The path of the kernel image, in the root directory. -/
def kernelPath : Memory := constant "\\kernel.bin"

/-- Memory after bytes have been stored from an address on. All other addresses keep their bytes. -/
def stored (memory : UInt64 → UInt8) (address : UInt64) (bytes : List UInt8) : UInt64 → UInt8 :=
  fun place => (bytes[(place - address).toNat]?).getD (memory place)

/-- `gBS && gBS->LocateProtocol && gBS->AllocatePages`. The functions of the volume are not
tested. -/
def canLoad (machine : Machine σ) : Bool :=
  machine.gBS.any fun services => services.locateProtocol && services.allocatePages

/-- The claim of memory and the read into it, for an open kernel file. -/
def readKernel (fw : Firmware σ) (kernel : Handle) : Routine σ EfiStatus := do
  let allocated ← allocatePages fw allocateAddress efiLoaderData (kernelMaxBytes / 4096)
    kernelLoadAddress
  if efiError allocated.1 then return allocated.1
  modify fun machine => { machine with
    memory := stored machine.memory allocated.2 (List.replicate kernelMaxBytes 0) }
  let answer ← readPhysical fw kernel allocated.2 kernelMaxBytes
  modify fun machine => { machine with
    memory := stored machine.memory allocated.2 answer.bytes }
  return if answer.size = 0 then efiLoadError else answer.status

/-- The part of `efi_load_kernel` behind `OpenVolume`. Kernel and root are closed whatever the
read has answered. -/
def loadFromRoot (fw : Firmware σ) (root : Handle) : Routine σ EfiStatus := do
  let name ← orFault (scan kernelPath)
  let opened ← openFile fw root name efiFileModeRead 0
  if efiError opened.1 ∨ opened.2 = 0 then
    let _ ← closeFile fw root
    return opened.1
  else
    let status ← readKernel fw opened.2
    let _ ← closeFile fw opened.2
    let _ ← closeFile fw root
    return status

/-- `efi_load_kernel`. A null interface or a null root is returned with the success of its call. -/
def efiLoadKernel (fw : Firmware σ) : Routine σ EfiStatus := do
  let machine ← get
  if canLoad machine then
    let located ← locateProtocol fw
    if efiError located.1 ∨ located.2 = 0 then return located.1
    let volume ← openVolume fw located.2
    if efiError volume.1 ∨ volume.2 = 0 then return volume.1
    loadFromRoot fw volume.2
  else return efiLoadError

end ExistentOS.Boot
