import ExistentOS.Library.Codecs
import ExistentOS.Machine

/-!
# Leaving the boot services

`efi_leave_boot_services`: fetch the memory map, add up the usable memory and ask
the firmware to exit with the key of that very map, again and again while the
answer is `EFI_INVALID_PARAMETER`. The map lives in a static buffer, so a map
may leave bytes of an earlier one behind its end.
-/

namespace ExistentOS.Boot

open Programs Codecs

variable {σ : Type}

/-- `sizeof(memory_map_buffer)`, 128 kilobytes. -/
def memoryMapBufferSize : Nat := 128 * 1024

/-- `sizeof(EFI_MEMORY_DESCRIPTOR)`. A firmware may use longer descriptors, which is why the loop
steps by what it reports. -/
def memoryDescriptorSize : Nat := 40

/-- `offsetof(EFI_MEMORY_DESCRIPTOR, NumberOfPages)`. -/
def numberOfPagesOffset : Nat := 24

/-- The memory types that the kernel may use: loader code and data, boot services
code and data, conventional memory. -/
def isUsable (type : Nat) : Bool :=
  type = 7 || type = 1 || type = 2 || type = 3 || type = 4

/-- The buffer after bytes have been stored at its start. Behind them it keeps what it held. -/
def filled (buffer : Nat → UInt8) (bytes : List UInt8) : Nat → UInt8 :=
  fun place => (bytes[place]?).getD (buffer place)

/-- A little-endian word at an offset of the buffer. Beyond the buffer there is none. -/
def bufferWord (buffer : Nat → UInt8) (offset width : Nat) : Option Nat :=
  if offset + width ≤ memoryMapBufferSize then
    some (value ((List.range width).map fun place => buffer (offset + place)))
  else none

/-- What a descriptor adds to the total: its pages, if its type is one of the five that are
usable. -/
def descriptorBytes (buffer : Nat → UInt8) (cursor : Nat) : Option UInt64 := do
  let type ← bufferWord buffer cursor 4
  if isUsable type then
    let pages ← bufferWord buffer (cursor + numberOfPagesOffset) 8
    return UInt64.ofNat pages * 4096
  else return 0

/-- The loop over the descriptors that are left, with the total so far. The sum wraps as the 64
bits of the source do. -/
def addDescriptors (buffer : Nat → UInt8) (descriptorSize : Nat) :
    Nat → Nat → UInt64 → Option UInt64
  | 0, _, total => some total
  | left + 1, cursor, total => do
    let bytes ← descriptorBytes buffer cursor
    addDescriptors buffer descriptorSize left (cursor + descriptorSize) (total + bytes)

/-- `gBS && gBS->GetMemoryMap && gBS->ExitBootServices`. -/
def canExit (machine : Machine σ) : Bool :=
  machine.gBS.any fun services => services.getMemoryMap && services.exitBootServices

/-- One round of the loop. A map that does not fit the buffer it was given leaves
it. -/
def exitRound (fw : Firmware σ) (bootInfo : BootInfo) (_ : Unit) :
    Routine σ (Unit ⊕ (EfiStatus × BootInfo)) := do
  let answer ← getMemoryMap fw memoryMapBufferSize
  if answer.map.length > memoryMapBufferSize then throw .fault
  modify fun machine => { machine with
    memoryMapBuffer := filled machine.memoryMapBuffer answer.map }
  if efiError answer.status ∨ answer.descriptorSize = 0 then return .inr (answer.status, bootInfo)
  let machine ← get
  let total ← orFault (addDescriptors machine.memoryMapBuffer answer.descriptorSize
    (answer.mapSize / answer.descriptorSize) 0 0)
  let status ← exitBootServices fw machine.gImageHandle answer.mapKey
  if status = efiSuccess then
    modify fun machine => { machine with gBS := none }
    return .inr (efiSuccess, { bootInfo with memoryBytes := total })
  if status ≠ efiInvalidParameter then return .inr (status, bootInfo)
  return .inl ()

/-- `efi_leave_boot_services`, with the number of maps it may fetch. The source has no such
number and fetches as long as keys are stale. -/
def efiLeaveBootServices (fw : Firmware σ) (fuel : Nat) (bootInfo : BootInfo) :
    Routine σ (EfiStatus × BootInfo) := do
  let machine ← get
  if canExit machine then iterate .outOfFuel (exitRound fw bootInfo) fuel ()
  else return (efiLoadError, bootInfo)

/-! ## The sum over a map -/

/-- The memory that the kernel is given, by the numbers of `EFI_MEMORY_TYPE`. The specification
names the five types one by one; the test of the source is compared with it below. -/
inductive UsableType : Nat → Prop where
  | loaderCode : UsableType 1
  | loaderData : UsableType 2
  | bootServicesCode : UsableType 3
  | bootServicesData : UsableType 4
  | conventionalMemory : UsableType 7

/-- The test of the source accepts exactly the five types. -/
theorem isUsable_iff (type : Nat) : isUsable type = true ↔ UsableType type := by
  simp only [isUsable, Bool.or_eq_true, decide_eq_true_eq]
  constructor
  · rintro ((((rfl | rfl) | rfl) | rfl) | rfl)
    · exact .conventionalMemory
    · exact .loaderCode
    · exact .loaderData
    · exact .bootServicesCode
    · exact .bootServicesData
  · rintro (_ | _) <;> simp

/-- The test decides the specification. -/
instance (type : Nat) : Decidable (UsableType type) := decidable_of_iff _ (isUsable_iff type)

/-- The bytes of a map that occupies the start of the buffer. -/
def reportedMap (buffer : Nat → UInt8) (mapSize : Nat) : List UInt8 :=
  (List.range mapSize).map buffer

/-- The map of an answer, in the size that it reports: the bytes that the call has stored and,
where it reports more than it has stored, those that the buffer has behind them. -/
def fetchedMap (answer : MemoryMapAnswer) (buffer : Nat → UInt8) : List UInt8 :=
  answer.map.take answer.mapSize ++
    (List.range' answer.map.length (answer.mapSize - answer.map.length)).map buffer

/-- The call brings its map to the start of the buffer. -/
theorem reportedMap_filled (answer : MemoryMapAnswer) (buffer : Nat → UInt8) :
    reportedMap (filled buffer answer.map) answer.mapSize =
      fetchedMap answer (filled buffer answer.map) := by
  apply List.ext_getElem
  · simp only [reportedMap, fetchedMap, List.length_append, List.length_take, List.length_map,
      List.length_range, List.length_range']
    omega
  · intro place inside _
    have below : place < answer.mapSize := by simpa [reportedMap] using inside
    by_cases stored : place < answer.map.length
    · simp [reportedMap, fetchedMap, filled, stored, below]
    · have behind : answer.map.length + (place - min answer.mapSize answer.map.length) = place := by
        omega
      simp [reportedMap, fetchedMap, List.getElem_append, stored, behind]

/-- A call that has stored as many bytes as it reports has stored the map. -/
theorem fetchedMap_whole {answer : MemoryMapAnswer} (whole : answer.map.length = answer.mapSize)
    (buffer : Nat → UInt8) : fetchedMap answer buffer = answer.map := by
  rw [fetchedMap, whole, Nat.sub_self, ← whole, List.take_length]
  exact List.append_nil answer.map

/-- The type and the number of pages of a descriptor of a map. -/
def typeAt (map : List UInt8) (descriptorSize index : Nat) : Nat :=
  value ((map.drop (index * descriptorSize)).take 4)

/-- The number of pages of a descriptor of a map. -/
def pagesAt (map : List UInt8) (descriptorSize index : Nat) : Nat :=
  value ((map.drop (index * descriptorSize + numberOfPagesOffset)).take 8)

/-- The bytes that one descriptor of a map makes usable. -/
def usableAt (map : List UInt8) (descriptorSize index : Nat) : Nat :=
  if UsableType (typeAt map descriptorSize index) then 4096 * pagesAt map descriptorSize index else 0

/-- The usable bytes of the descriptors that fit into a map. A rest that is shorter than a
descriptor is left out. -/
def usableBytes (map : List UInt8) (descriptorSize : Nat) : Nat :=
  ((List.range (map.length / descriptorSize)).map (usableAt map descriptorSize)).sum

/-- A word inside the map is a word of its bytes. -/
theorem bufferWord_exact (buffer : Nat → UInt8) (mapSize offset width : Nat)
    (fits : mapSize ≤ memoryMapBufferSize) (inside : offset + width ≤ mapSize) :
    bufferWord buffer offset width =
      some (value (((reportedMap buffer mapSize).drop offset).take width)) := by
  have slice : ((reportedMap buffer mapSize).drop offset).take width =
      (List.range width).map fun place => buffer (offset + place) := by
    apply List.ext_getElem
    · simp only [reportedMap, List.length_take, List.length_drop, List.length_map,
        List.length_range]
      omega
    · intro place _ _
      simp [reportedMap]
  rw [bufferWord, if_pos (Nat.le_trans inside fits), slice]

/-- A descriptor inside the map contributes its usable bytes. -/
theorem descriptorBytes_exact (buffer : Nat → UInt8) (mapSize descriptorSize index : Nat)
    (fits : mapSize ≤ memoryMapBufferSize) (large : memoryDescriptorSize ≤ descriptorSize)
    (inside : index * descriptorSize + descriptorSize ≤ mapSize) :
    descriptorBytes buffer (index * descriptorSize) =
      some (UInt64.ofNat (usableAt (reportedMap buffer mapSize) descriptorSize index)) := by
  have room : 40 ≤ descriptorSize := large
  have type := bufferWord_exact buffer mapSize (index * descriptorSize) 4 fits (by omega)
  have pages := bufferWord_exact buffer mapSize (index * descriptorSize + numberOfPagesOffset) 8
    fits (by unfold numberOfPagesOffset; omega)
  rw [descriptorBytes, type, Option.bind_eq_bind, Option.bind_some, usableAt]
  by_cases usable : UsableType (typeAt (reportedMap buffer mapSize) descriptorSize index)
  · have counted : isUsable (value (((reportedMap buffer mapSize).drop
        (index * descriptorSize)).take 4)) = true := (isUsable_iff _).mpr usable
    rw [if_pos counted, if_pos usable, pages, Option.bind_some, Option.pure_def, pagesAt,
      Nat.mul_comm 4096, UInt64.ofNat_mul]
    rfl
  · have skipped : ¬ isUsable (value (((reportedMap buffer mapSize).drop
        (index * descriptorSize)).take 4)) = true := fun passed => usable ((isUsable_iff _).mp passed)
    rw [if_neg skipped, if_neg usable]
    rfl

/-- The loop adds up the descriptors from the cursor on.

Induct over the descriptors that are left; the cursor stays at a multiple of the
reported descriptor size, and the part behind it inside the map. -/
theorem addDescriptors_exact (buffer : Nat → UInt8) (mapSize descriptorSize left index : Nat)
    (total : UInt64) (fits : mapSize ≤ memoryMapBufferSize)
    (large : memoryDescriptorSize ≤ descriptorSize)
    (inside : (index + left) * descriptorSize ≤ mapSize) :
    addDescriptors buffer descriptorSize left (index * descriptorSize) total =
      some (total + UInt64.ofNat (((List.range left).map fun step =>
        usableAt (reportedMap buffer mapSize) descriptorSize (index + step)).sum)) := by
  induction left generalizing index total with
  | zero => simp [addDescriptors]
  | succ left ih =>
    have here : index * descriptorSize + descriptorSize ≤ mapSize := by
      have step : (index + 1) * descriptorSize ≤ (index + (left + 1)) * descriptorSize :=
        Nat.mul_le_mul_right descriptorSize (by omega)
      rw [Nat.succ_mul] at step
      exact Nat.le_trans step inside
    have next : index * descriptorSize + descriptorSize = (index + 1) * descriptorSize :=
      (Nat.succ_mul index descriptorSize).symm
    have rest := ih (index + 1)
      (total + UInt64.ofNat (usableAt (reportedMap buffer mapSize) descriptorSize index))
      (by rwa [Nat.add_right_comm, Nat.add_assoc])
    rw [addDescriptors, descriptorBytes_exact buffer mapSize descriptorSize index fits large here,
      Option.bind_eq_bind, Option.bind_some, next, rest, List.range_succ_eq_map, List.map_cons,
      List.sum_cons, List.map_map, UInt64.ofNat_add, UInt64.add_assoc, Nat.add_zero]
    congr 3
    apply congrArg (fun shares => UInt64.ofNat (List.sum shares))
    apply List.map_congr_left
    intro step _
    rw [Function.comp_apply, Nat.succ_eq_add_one, Nat.add_right_comm, Nat.add_assoc]

/-- The whole loop adds up the descriptors of the map. -/
theorem addDescriptors_total (buffer : Nat → UInt8) (mapSize descriptorSize : Nat)
    (fits : mapSize ≤ memoryMapBufferSize) (large : memoryDescriptorSize ≤ descriptorSize) :
    addDescriptors buffer descriptorSize (mapSize / descriptorSize) 0 0 =
      some (UInt64.ofNat (usableBytes (reportedMap buffer mapSize) descriptorSize)) := by
  have all := addDescriptors_exact buffer mapSize descriptorSize (mapSize / descriptorSize) 0 0 fits
    large (by rw [Nat.zero_add]; exact Nat.div_mul_le_self mapSize descriptorSize)
  have length : (reportedMap buffer mapSize).length = mapSize := by simp [reportedMap]
  rw [Nat.zero_mul] at all
  rw [all, usableBytes, length, UInt64.zero_add]
  simp only [Nat.zero_add]

end ExistentOS.Boot
