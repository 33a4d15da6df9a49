import ExistentOS.Composition
import ExistentOS.Library.Codecs

/-!
# Directory listings

`eosfs_init` and `eosfs_list_path` of `eosfs.c`. A listing comes from the root
directory of the volume or, when that yields nothing, from a fixed table. The
directory records are read in the layout of `EFI_FILE_INFO` as declared in
`efi.h`: the attribute word at byte 24, the name from byte 28 on.
-/

namespace ExistentOS.Eosfs

open Programs Terminated Codecs

variable {σ : Type}

/-- `sizeof(buffer)` in `eosfs_read_disk_entries`. A record that is longer is not handed over. -/
def recordBufferSize : Nat := 256

/-- Where the attributes are read from a record. -/
def attributeOffset : Nat := 24

/-- Where the name is read from a record. It is the byte behind the attributes, not the one that
the interface specifies. -/
def fileNameOffset : Nat := 28

/-- `eosfs_add_entry`. A name is cut to 15 units, and a full table takes no more. -/
def eosfsAddEntry (name : Memory) (type : EosfsEntryType) (storage : EosfsStorage) :
    Option EosfsStorage :=
  if room : storage.entryCount < eosfsMaxEntries then do
    let copied ← copy (storage.entries[storage.entryCount]).name name
    return { storage with
      entries := storage.entries.set storage.entryCount ⟨copied, type⟩
      entryCount := storage.entryCount + 1 }
  else some storage

/-- The entry table that `eosfs_init` sets up. The partitions, which nothing here reads, are left
out. -/
def initialTable (storage : EosfsStorage) : Option EosfsStorage := do
  let storage ← eosfsAddEntry (constant "boot") .dir { storage with entryCount := 0 }
  let storage ← eosfsAddEntry (constant "drivers") .dir storage
  let storage ← eosfsAddEntry (constant "kernel") .dir storage
  let storage ← eosfsAddEntry (constant "mnt") .dir storage
  eosfsAddEntry (constant "existentos.txt") .file storage

/-- `eosfs_init`. -/
def eosfsInit : Routine σ Unit := do
  let machine ← get
  let table ← orFault (initialTable machine.eosfs)
  modifyEosfs fun _ => table

/-- A unit of a name in the record buffer; there is none behind the last byte that
a read has stored. -/
def unitAt (buffer : List UInt8) (index : Nat) : Option CHAR16 := do
  let low ← buffer[fileNameOffset + 2 * index]?
  let high ← buffer[fileNameOffset + 2 * index + 1]?
  return UInt16.ofNat (value [low, high])

/-- The name of a record from a unit on, as far as an entry has room. -/
def nameFrom (buffer : List UInt8) : Nat → Nat → Option Text
  | 0, index => do
    let _ ← unitAt buffer index
    return []
  | room + 1, index => do
    let unit ← unitAt buffer index
    if unit = 0 then return []
    return unit :: (← nameFrom buffer room (index + 1))

/-- The attribute word of a record, once its bytes have been stored. -/
def attributeWord (buffer : List UInt8) : Option UInt32 :=
  if attributeOffset + 4 ≤ buffer.length then
    some (UInt32.ofNat (value ((buffer.drop attributeOffset).take 4)))
  else none

/-- The type of an entry with an attribute word. One bit decides. -/
def entryType (flags : UInt32) : EosfsEntryType :=
  if flags &&& efiFileDirectory ≠ 0 then .dir else .file

/-- An entry of a listing: its name field, as far as it was written, and its type. -/
abbrev ListedEntry := Memory × EosfsEntryType

/-- One round of the loop over the directory: the buffer, of which only stored bytes
are known, and the entries so far. -/
def readEntryRound (fw : Firmware σ) (root : Handle) (maxEntries : Nat)
    (current : List UInt8 × List ListedEntry) :
    Routine σ ((List UInt8 × List ListedEntry) ⊕ List ListedEntry) := do
  if current.2.length < maxEntries then
    let answer ← readFile fw root recordBufferSize
    if efiError answer.status ∨ answer.size = 0 then return .inr current.2
    let buffer := answer.bytes ++ current.1.drop answer.bytes.length
    let first ← orStop .unset (unitAt buffer 0)
    if first = 0 then return .inr current.2
    let name ← orStop .unset (nameFrom buffer eosfsNameMax 0)
    let flags ← orStop .unset (attributeWord buffer)
    return .inl (buffer, current.2 ++ [(name ++ [0], entryType flags)])
  else return .inr current.2

/-- `eosfs_read_disk_entries`. The function pointer is called without a test. A
round that is not the last adds an entry, so the rounds never run out. -/
def eosfsReadDiskEntries (fw : Firmware σ) (maxEntries : Nat) :
    Routine σ (Option (List ListedEntry)) := do
  let machine ← get
  match machine.gBS with
  | none => return none
  | some services =>
    if maxEntries = 0 then return none
    if services.locateProtocol then
      let located ← locateProtocol fw
      if efiError located.1 ∨ located.2 = 0 then return none
      let volume ← openVolume fw located.2
      if efiError volume.1 ∨ volume.2 = 0 then return none
      let entries ← iterate .outOfFuel (readEntryRound fw volume.2 maxEntries) (maxEntries + 1)
        ([], [])
      let _ ← closeFile fw volume.2
      return if entries.isEmpty then none else some entries
    else throw .null

/-- `eosfs_list_path`, which does not look at the path. Where the volume lists nothing the entry
table is listed. -/
def eosfsListPath (fw : Firmware σ) (maxEntries : Nat) : Routine σ (Option (List ListedEntry)) := do
  if maxEntries = 0 then return none
  match ← eosfsReadDiskEntries fw maxEntries with
  | some entries => return some entries
  | none =>
    let machine ← get
    let table := (machine.eosfs.entries.toList.take machine.eosfs.entryCount).take maxEntries
    return some (table.map fun entry => (entry.name.toList, entry.type))

/-! ## Composition of the listing -/

section Composition

variable {fw : Firmware σ} {reasons : Stop → Prop} {further : (α : Type) → Routine σ α → Prop}

/-- A round of the listing only calls the firmware. -/
theorem composed_readEntryRound (root : Handle) (maxEntries : Nat)
    (current : List UInt8 × List ListedEntry) :
    Composed fw reasons further (readEntryRound fw root maxEntries current) := by
  unfold readEntryRound
  apply Composed.ite
  · intro _
    apply Composed.bind (Composed.readFile root recordBufferSize)
    intro answer
    apply Composed.ite (fun _ => Composed.pure _)
    intro _
    apply Composed.bind (Composed.orStop fun _ => Or.inl rfl)
    intro first
    apply Composed.ite (fun _ => Composed.pure _)
    intro _
    apply Composed.bind (Composed.orStop fun _ => Or.inl rfl)
    intro name
    exact Composed.bind (Composed.orStop fun _ => Or.inl rfl) (fun _ => Composed.pure _)
  · intro _
    exact Composed.pure _

/-- A round that is not the last adds one entry, with its name terminated. -/
theorem wp_readEntryRound (fw : Firmware σ) (root : Handle) (maxEntries : Nat)
    (current : List UInt8 × List ListedEntry) (machine : Machine σ) :
    wp (readEntryRound fw root maxEntries current) (fun outcome _ => outcome.elim
      (fun next => current.2.length < maxEntries ∧
        ∃ name type, next.2 = current.2 ++ [(name ++ [0], type)])
      (fun entries => entries = current.2)) (fun _ => True) machine := by
  rw [readEntryRound, wp_ite, wp_pure]
  refine ⟨fun room => ?_, fun _ => rfl⟩
  rw [wp_bind]
  apply wp_any
  intro answer _
  rw [wp_ite, wp_pure]
  refine ⟨fun _ => rfl, fun _ => ?_⟩
  rw [wp_bind]
  apply wp_any
  intro first _
  rw [wp_ite, wp_pure]
  refine ⟨fun _ => rfl, fun _ => ?_⟩
  rw [wp_bind]
  apply wp_any
  intro name _
  rw [wp_bind]
  apply wp_any
  intro flags _
  exact ⟨room, name, entryType flags, rfl⟩

/-- The rounds over the directory never run out of fuel: each adds an entry, up to the limit. -/
theorem composed_eosfsReadDiskEntries (maxEntries : Nat) :
    Composed fw reasons further (eosfsReadDiskEntries fw maxEntries) := by
  apply Composed.view (fun _ _ => rfl)
  intro machine
  cases machine.gBS with
  | none => exact Composed.pure none
  | some services =>
    apply Composed.ite (fun _ => Composed.pure none)
    intro _
    apply Composed.ite
    · intro _
      apply Composed.bind Composed.locateProtocol
      intro located
      apply Composed.ite (fun _ => Composed.pure none)
      intro _
      apply Composed.bind (Composed.openVolume located.2)
      intro volume
      apply Composed.ite (fun _ => Composed.pure none)
      intro _
      have rounds : Composed fw reasons further (iterate .outOfFuel
          (readEntryRound fw volume.2 maxEntries) (maxEntries + 1) ([], [])) := by
        apply Composed.iterate_measured (fun current => maxEntries - current.2.length)
        · exact composed_readEntryRound volume.2 maxEntries
        · intro current next returned
          obtain ⟨room, name, type, added⟩ := returns_of_wp
            (wp_readEntryRound fw volume.2 maxEntries current) _ returned
          rw [added, List.length_append, List.length_singleton]
          omega
        · exact Nat.lt_succ_self maxEntries
      apply Composed.bind rounds
      intro entries
      exact Composed.bind (Composed.closeFile volume.2) (fun _ => Composed.pure _)
    · intro _
      exact Composed.throw .null (Or.inl rfl)

/-- Listing a path only calls the firmware. The entries are handed back and stored nowhere. -/
theorem composed_eosfsListPath (maxEntries : Nat) :
    Composed fw reasons further (eosfsListPath fw maxEntries) := by
  unfold eosfsListPath
  apply Composed.ite (fun _ => Composed.pure none)
  intro _
  apply Composed.bind (composed_eosfsReadDiskEntries maxEntries)
  intro listed
  cases listed with
  | some entries => exact Composed.pure _
  | none => exact Composed.view (fun _ _ => rfl) (fun _ => Composed.pure _)

end Composition

end ExistentOS.Eosfs
