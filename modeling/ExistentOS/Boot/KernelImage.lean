import ExistentOS.Boot.Handoff
import ExistentOS.Volume

/-!
# The kernel image

What `efi_load_kernel` leaves in memory on a volume with UEFI file semantics. One read of one
megabyte is all that is made of the file: a longer image is cut off, and what is there is reported
as a success.
-/

namespace ExistentOS.Boot

open Programs Terminated Volume

/-! ## Stores -/

/-- The place of an index of the image. -/
theorem place_index {index : Nat} (bounded : index < 2 ^ 64) (address : UInt64) :
    (address + UInt64.ofNat index - address).toNat = index := by
  rw [UInt64.add_comm, UInt64.add_sub_cancel, UInt64.toNat_ofNat_of_lt' bounded]

/-- What is stored is found at its places. -/
theorem stored_index (memory : UInt64 → UInt8) (address : UInt64) (bytes : List UInt8) {index : Nat}
    (bounded : index < 2 ^ 64) :
    stored memory address bytes (address + UInt64.ofNat index) =
      (bytes[index]?).getD (memory (address + UInt64.ofNat index)) := by
  rw [stored, place_index bounded]

/-- A cleared place holds a byte of the image, or zero behind its end. -/
theorem stored_cleared (memory : UInt64 → UInt8) (address : UInt64) (bytes : List UInt8) {index : Nat}
    (inside : index < kernelMaxBytes) :
    stored (stored memory address (List.replicate kernelMaxBytes 0)) address bytes
      (address + UInt64.ofNat index) = bytes.getD index 0 := by
  have bounded : index < 2 ^ 64 := Nat.lt_trans inside (by decide)
  rw [stored_index _ _ _ bounded, stored_index _ _ _ bounded,
    List.getElem?_replicate_of_lt inside, List.getD_eq_getElem?_getD]
  rfl

/-! ## Loading -/

section Loading

variable {File τ : Type} [DecidableEq File] (resolve : Text → File) (device : Firmware τ)

/-- The whole image is in memory, followed by zeros as far as there is room for an image. -/
def HoldsImage (image : List UInt8) (memory : UInt64 → UInt8) : Prop :=
  ∀ index < max image.length kernelMaxBytes,
    memory (kernelLoadAddress + UInt64.ofNat index) = image.getD index 0

/-- A success says that the whole image is in memory, and an image that is empty or that does not
fit is not a success. -/
def LoadsWhole (image : List UInt8) (status : EfiStatus) (memory : UInt64 → UInt8) : Prop :=
  (status = efiSuccess → HoldsImage image memory) ∧
    (image = [] ∨ kernelMaxBytes < image.length → efiError status)

/-- An error says nothing about the image, as nothing was promised then. -/
theorem loadsWhole_of_error {image : List UInt8} {status : EfiStatus} (failed : efiError status)
    (memory : UInt64 → UInt8) : LoadsWhole image status memory := by
  refine ⟨fun success => ?_, fun _ => failed⟩
  rw [success] at failed
  cases failed

/-- The claim of the memory at the load address, as the device answers it. -/
def claimed (device : Firmware τ) (rest : τ) : (EfiStatus × UInt64) × τ :=
  device.allocatePages allocateAddress efiLoaderData (kernelMaxBytes / 4096) kernelLoadAddress rest

/-- Reads transfer all there is, and pages are claimed at the address that is asked for. -/
structure Conformant (device : Firmware τ) (machine : Machine (Volume File × τ)) : Prop where
  reads : ∀ fault ∈ machine.firmware.1.faults, fault.readAtMost = none
  grants : ∀ rest, efiError (claimed device rest).1.1 = false →
    (claimed device rest).1.2 = kernelLoadAddress

omit [DecidableEq File] in
/-- Every read transfers all there is. -/
theorem Conformant.readsAt {device : Firmware τ} {machine : Machine (Volume File × τ)}
    (conformant : Conformant device machine) (calls : Nat) :
    (machine.firmware.1.faultAt calls).readAtMost = none := by
  rw [faultAt, List.getD_eq_getElem?_getD]
  cases scheduled : machine.firmware.1.faults[calls]? with
  | none => rfl
  | some fault => exact conformant.reads fault (List.mem_of_getElem? scheduled)

/-- No call fails before the image is read, nor does the read. These are the calls to locate and
to open, the claim of the memory, and the read itself. -/
structure Undisrupted (device : Firmware τ) (machine : Machine (Volume File × τ)) : Prop where
  services : canLoad machine = true
  calls : ∀ calls < 4, efiError (machine.firmware.1.faultAt calls).status = false
  claim : efiError (claimed device machine.firmware.2).1.1 = false

omit [DecidableEq File] in
/-- A call that acts on the volume leaves the device as it is. -/
theorem wp_call_onVolume {α : Type} {E : Stop → Prop} {machine : Machine (Volume File × τ)}
    (operation : Volume File → α × Volume File) (event : α → Event)
    (Q : α → Machine (Volume File × τ) → Prop)
    (next : ∀ after, OnlyFirmware machine after →
      after.firmware = ((operation machine.firmware.1).2, machine.firmware.2) →
      Q (operation machine.firmware.1).1 after) :
    wp (call (fun state => ((operation state.1).1, ((operation state.1).2, state.2))) event) Q E
      machine :=
  next _ (called_onlyFirmware machine _ _) rfl

/-- The read of an open kernel: an image that fits is stored as a whole, one that does not is cut
off, and only an empty one is an error. -/
theorem wp_readKernel_open {image : List UInt8} {kernel : Handle} {found : OpenFile File}
    {E : Stop → Prop} {machine : Machine (Volume File × τ)}
    (isOpen : machine.firmware.1.opened kernel = some found) (start : found.position = 0)
    (holds : machine.firmware.1.contents found.file = some image)
    (claims : efiError (claimed device machine.firmware.2).1.1 = false)
    (grants : (claimed device machine.firmware.2).1.2 = kernelLoadAddress)
    (reads : machine.firmware.1.fault.readAtMost = none)
    (works : efiError machine.firmware.1.fault.status = false) :
    wp (readKernel (Volume.firmware resolve device) kernel)
      (fun status after =>
        status = (if image = [] then efiLoadError else efiSuccess) ∧
        ∀ index < kernelMaxBytes, after.memory (kernelLoadAddress + UInt64.ofNat index) =
          image.getD index 0) E machine := by
  have granted : (Volume.firmware resolve device).allocatePages allocateAddress efiLoaderData
      (kernelMaxBytes / 4096) kernelLoadAddress machine.firmware =
        ((claimed device machine.firmware.2).1,
          (machine.firmware.1, (claimed device machine.firmware.2).2)) := rfl
  have answered : ∀ rest, (Volume.firmware resolve device).read kernel kernelMaxBytes
      (machine.firmware.1, rest) =
        ((machine.firmware.1.readPath kernel found kernelMaxBytes).1,
          ((machine.firmware.1.readPath kernel found kernelMaxBytes).2, rest)) := by
    intro rest
    simp only [Volume.firmware, isOpen]
  have moved : (machine.firmware.1.readPath kernel found kernelMaxBytes).1 =
      ⟨efiSuccess, (image.take kernelMaxBytes).length, image.take kernelMaxBytes⟩ := by
    rw [readPath, if_neg (Bool.eq_false_iff.mp works), holds]
    simp [start, reads]
  rw [readKernel, wp_bind, allocatePages, wp_call, granted, wp_ite, wp_pure]
  refine ⟨fun failed => absurd failed (Bool.eq_false_iff.mp claims), fun _ => ?_⟩
  rw [wp_bind, wp_modify, wp_bind, readPhysical, wp_call, called_firmware, answered, moved, wp_bind,
    wp_modify, wp_pure]
  constructor
  · have empty : (image.take kernelMaxBytes).length = 0 ↔ image = [] := by
      rw [List.length_take, ← List.length_eq_zero_iff, kernelMaxBytes]
      omega
    exact if_congr empty rfl rfl
  · intro index inside
    have early : (image.take kernelMaxBytes).getD index 0 = image.getD index 0 := by
      rw [List.getD_eq_getElem?_getD, List.getElem?_take_of_lt inside, List.getD_eq_getElem?_getD]
    rw [grants, ← early]
    exact stored_cleared machine.memory kernelLoadAddress (image.take kernelMaxBytes) inside

/-- Where the claim or the read fails, an error is reported. -/
theorem wp_readKernel_failed {kernel : Handle} {found : OpenFile File} {E : Stop → Prop}
    {machine : Machine (Volume File × τ)} (isOpen : machine.firmware.1.opened kernel = some found)
    (failed : efiError (claimed device machine.firmware.2).1.1 = true ∨
      efiError machine.firmware.1.fault.status = true) :
    wp (readKernel (Volume.firmware resolve device) kernel)
      (fun status _ => efiError status = true) E machine := by
  have granted : (Volume.firmware resolve device).allocatePages allocateAddress efiLoaderData
      (kernelMaxBytes / 4096) kernelLoadAddress machine.firmware =
        ((claimed device machine.firmware.2).1,
          (machine.firmware.1, (claimed device machine.firmware.2).2)) := rfl
  rw [readKernel, wp_bind, allocatePages, wp_call, granted, wp_ite, wp_pure]
  refine ⟨fun refused => refused, fun claims => ?_⟩
  have fails := failed.resolve_left claims
  have answered : ∀ rest, (Volume.firmware resolve device).read kernel kernelMaxBytes
      (machine.firmware.1, rest) =
        (⟨machine.firmware.1.fault.status, 0, []⟩, (machine.firmware.1.spent, rest)) := by
    intro rest
    simp only [Volume.firmware, isOpen, readPath, if_pos fails]
  rw [wp_bind, wp_modify, wp_bind, readPhysical, wp_call, called_firmware, answered, wp_bind,
    wp_modify, wp_pure]
  rfl

/-- An image that fits is loaded as a whole, and only such an image is. -/
theorem loadsWhole_iff {image : List UInt8} {status : EfiStatus} {memory : UInt64 → UInt8}
    (reported : status = if image = [] then efiLoadError else efiSuccess)
    (held : ∀ index < kernelMaxBytes, memory (kernelLoadAddress + UInt64.ofNat index) =
      image.getD index 0) :
    LoadsWhole image status memory ↔ image.length ≤ kernelMaxBytes := by
  by_cases empty : image = []
  · rw [if_pos empty] at reported
    have short : image.length ≤ kernelMaxBytes := by
      rw [empty]
      exact Nat.zero_le _
    exact iff_of_true (loadsWhole_of_error (by rw [reported]; decide) memory) short
  · rw [if_neg empty] at reported
    constructor
    · intro whole
      by_contra long
      have failed := whole.2 (Or.inr (Nat.lt_of_not_le long))
      rw [reported] at failed
      cases failed
    · intro short
      refine ⟨fun _ index inside => held index ?_, fun unfit => ?_⟩
      · rwa [Nat.max_eq_right short] at inside
      · rcases unfit with same | long
        · exact absurd same empty
        · exact absurd short (Nat.not_le_of_lt long)

omit [DecidableEq File] in
/-- A call that fails before the image is read disrupts the loading. -/
theorem disrupted {machine : Machine (Volume File × τ)} {calls : Nat} (early : calls < 4)
    (failed : efiError (machine.firmware.1.faultAt calls).status = true) :
    ¬ Undisrupted device machine := by
  intro undisrupted
  rw [undisrupted.calls calls early] at failed
  cases failed

omit [DecidableEq File] in
/-- Once the image is open, only the claim of its pages and its read can still fail. -/
theorem disrupted_rest {machine : Machine (Volume File × τ)} (services : canLoad machine = true)
    (calm : ∀ calls < 3, efiError (machine.firmware.1.faultAt calls).status = false)
    (disrupted : ¬ Undisrupted device machine) :
    efiError (claimed device machine.firmware.2).1.1 = true ∨
      efiError (machine.firmware.1.faultAt 3).status = true := by
  by_contra none
  rw [not_or, Bool.not_eq_true, Bool.not_eq_true] at none
  refine disrupted ⟨services, fun calls early => ?_, none.1⟩
  obtain before | rfl : calls < 3 ∨ calls = 3 := by omega
  · exact calm calls before
  · exact none.2

/-- Loading from the root finds the image, unless a call fails. -/
theorem wp_loadFromRoot_whole {image : List UInt8} {start machine : Machine (Volume File × τ)}
    (root : Handle) (conformant : Conformant device start) (services : canLoad start = true)
    (unaltered : machine.firmware.2 = start.firmware.2)
    (faults : machine.firmware.1.faults = start.firmware.1.faults.drop 2)
    (calm : ∀ calls < 2, efiError (start.firmware.1.faultAt calls).status = false)
    (holds : machine.firmware.1.contents (resolve kernelName) = some image) :
    wp (loadFromRoot (Volume.firmware resolve device) root)
      (fun status after => LoadsWhole image status after.memory ↔
        image.length ≤ kernelMaxBytes ∨ ¬ Undisrupted device start) (fun _ => False) machine := by
  rw [loadFromRoot, scan_kernelPath, wp_bind, wp_orFault]
  refine ⟨?_, fun unread => by cases unread⟩
  rintro _ ⟨rfl⟩
  rw [wp_bind]
  apply wp_call_onVolume (fun volume => volume.openPath (resolve kernelName) efiFileModeRead)
  intro opened _ firmware
  rcases openPath_cases machine.firmware.1 (resolve kernelName) efiFileModeRead with
    ⟨failed, _, reason⟩ | ⟨works, succeeded, fresh⟩
  · rw [if_pos (Or.inl failed), wp_bind, closeFile, wp_call, wp_pure]
    rcases reason with error | ⟨missing, _⟩
    · rw [fault, faultAt_of_drop faults] at error
      exact iff_of_true (loadsWhole_of_error failed _) (Or.inr (disrupted device (by decide) error))
    · rw [missing] at holds
      cases holds
  · have good : ¬ (efiError efiSuccess = true ∨ machine.firmware.1.next + 1 = 0) := by simp
    rw [succeeded, if_neg good, wp_bind]
    have volume : opened.firmware.1 =
        (machine.firmware.1.openPath (resolve kernelName) efiFileModeRead).2 := by rw [firmware]
    rw [← volume] at fresh
    have third : opened.firmware.1.fault = start.firmware.1.faultAt 3 := by
      rw [fault, faultAt_of_drop fresh.faults, faultAt_of_drop faults]
    have rest : opened.firmware.2 = start.firmware.2 := by rw [firmware, unaltered]
    have closes : ∀ (status : EfiStatus) (after : Machine (Volume File × τ)),
        (LoadsWhole image status after.memory ↔
          image.length ≤ kernelMaxBytes ∨ ¬ Undisrupted device start) →
        wp (do
          let _ ← closeFile (Volume.firmware resolve device) (machine.firmware.1.next + 1)
          let _ ← closeFile (Volume.firmware resolve device) root
          return status) (fun status after => LoadsWhole image status after.memory ↔
            image.length ≤ kernelMaxBytes ∨ ¬ Undisrupted device start) (fun _ => False) after := by
      intro status after holds
      rw [wp_bind, closeFile, wp_call, wp_bind, closeFile, wp_call, wp_pure]
      exact holds
    by_cases undisrupted : Undisrupted device start
    · have read := undisrupted.calls 3 (by decide)
      have complete : (start.firmware.1.faultAt 3).readAtMost = none := conformant.readsAt 3
      have stored : opened.firmware.1.contents (resolve kernelName) = some image := by
        rw [fresh.contents, Function.update_self, holds]
        rfl
      refine wp_mono (wp_readKernel_open resolve device fresh.opened rfl stored
        (rest ▸ undisrupted.claim) (conformant.grants _ (rest ▸ undisrupted.claim))
        (third ▸ complete) (third ▸ read)) (fun status after held => closes status after ?_)
        fun _ stop => stop
      rw [loadsWhole_iff held.1 held.2]
      exact ⟨Or.inl, fun either => either.resolve_right (not_not.mpr undisrupted)⟩
    · have fails : efiError (claimed device opened.firmware.2).1.1 = true ∨
          efiError opened.firmware.1.fault.status = true := by
        rw [rest, third]
        rw [fault, faultAt_of_drop faults] at works
        refine disrupted_rest device services (fun calls early => ?_) undisrupted
        obtain first | rfl : calls < 2 ∨ calls = 2 := by omega
        · exact calm calls first
        · exact works
      refine wp_mono (wp_readKernel_failed resolve device fresh.opened fails)
        (fun status after failed => closes status after ?_) fun _ stop => stop
      exact iff_of_true (loadsWhole_of_error failed _) (Or.inr undisrupted)

/-- Loading reports a success for an image that is loaded as a whole, if and only if the image fits
or a call fails. -/
theorem wp_efiLoadKernel_whole {image : List UInt8} {machine : Machine (Volume File × τ)}
    (conformant : Conformant device machine)
    (holds : machine.firmware.1.contents (resolve kernelName) = some image) :
    wp (efiLoadKernel (Volume.firmware resolve device))
      (fun status after => LoadsWhole image status after.memory ↔
        image.length ≤ kernelMaxBytes ∨ ¬ Undisrupted device machine) (fun _ => False) machine := by
  rw [efiLoadKernel, wp_bind, wp_get, wp_ite, wp_pure]
  refine ⟨fun available => ?_, fun absent => ?_⟩
  · rw [wp_bind]
    apply wp_call_onVolume fun volume => ((volume.fault.status, 1), volume.spent)
    intro located _ firmware₁
    have faults₁ : located.firmware.1.faults = machine.firmware.1.faults.drop 1 := by
      rw [firmware₁, spent_faults]
    rw [wp_ite, wp_pure]
    refine ⟨fun failed => ?_, fun worked => ?_⟩
    · have error : efiError (machine.firmware.1.faultAt 0).status = true :=
        failed.resolve_right Nat.one_ne_zero
      exact iff_of_true (loadsWhole_of_error error _) (Or.inr (disrupted device (by decide) error))
    have calm₀ : efiError (machine.firmware.1.faultAt 0).status = false :=
      Bool.eq_false_iff.mpr fun error => worked (Or.inl error)
    rw [wp_bind, openVolume, firmware_openVolume]
    apply wp_call_onVolume openRoot
    intro rooted _ firmware₂
    obtain ⟨kept, spared, status, number⟩ := openRoot_effect located.firmware.1
    rw [wp_ite, wp_pure, status]
    have volume : rooted.firmware.1 = located.firmware.1.openRoot.2 := by rw [firmware₂]
    rw [← volume] at kept spared
    rw [fault, faultAt_of_drop faults₁] at number ⊢
    refine ⟨fun failed => ?_, fun worked => ?_⟩
    · have error : efiError (machine.firmware.1.faultAt 1).status = true := by
        by_contra calm
        exact (number (Bool.eq_false_iff.mpr calm)).2 (failed.resolve_left calm)
      exact iff_of_true (loadsWhole_of_error error _) (Or.inr (disrupted device (by decide) error))
    · have calm₁ : efiError (machine.firmware.1.faultAt 1).status = false :=
        Bool.eq_false_iff.mpr fun error => worked (Or.inl error)
      have faults₂ : rooted.firmware.1.faults = machine.firmware.1.faults.drop 2 := by
        rw [spared, faults₁, List.drop_drop]
      have stored : rooted.firmware.1.contents (resolve kernelName) = some image := by
        rw [kept, firmware₁]
        exact holds
      have rest : rooted.firmware.2 = machine.firmware.2 := by rw [firmware₂, firmware₁]
      apply wp_loadFromRoot_whole resolve device _ conformant available rest faults₂ _ stored
      intro calls early
      obtain rfl | rfl : calls = 0 ∨ calls = 1 := by omega
      · exact calm₀
      · exact calm₁
  · exact iff_of_true (loadsWhole_of_error (by decide) _)
      (Or.inr fun undisrupted => absent undisrupted.services)

/-- The whole kernel is loaded if and only if it fits into the memory that is claimed for it, or
a call fails before it is read. A single read is made of a megabyte, and a read that is filled is
taken for the end of the file. -/
theorem kernel_whole_iff {image : List UInt8} {machine : Machine (Volume File × τ)}
    (conformant : Conformant device machine)
    (holds : machine.firmware.1.contents (resolve kernelName) = some image) :
    ∃ status after,
      (efiLoadKernel (Volume.firmware resolve device)).run machine = .ok (status, after) ∧
      (LoadsWhole image status after.memory ↔
        image.length ≤ kernelMaxBytes ∨ ¬ Undisrupted device machine) :=
  (wp_total_iff _ _ _).mp (wp_efiLoadKernel_whole resolve device conformant holds)

end Loading

/-- A device on which pages are claimed at the address that is asked for. -/
def pages : Firmware Unit where
  __ := Firmware.inert
  allocatePages _ _ _ address state := ((efiSuccess, address), state)

/-- A machine on a volume that holds a kernel image, with nothing else on it. -/
def withKernel (image : List UInt8) : Machine (Volume Text × Unit) :=
  started (Function.update (fun _ => none) kernelName (some image)) []

/-- No call fails on it, so the condition is decided by the length of the image alone. -/
theorem withKernel_undisrupted (image : List UInt8) : Undisrupted pages (withKernel image) where
  services := rfl
  calls _ _ := rfl
  claim := rfl

/-- The sample volume answers as the interface says. -/
theorem withKernel_conformant (image : List UInt8) : Conformant pages (withKernel image) where
  reads _ member := absurd member List.not_mem_nil
  grants _ _ := rfl

/-- The sample volume has the image under the name of the kernel. -/
theorem withKernel_holds (image : List UInt8) :
    (withKernel image).firmware.1.contents kernelName = some image := by
  simp [withKernel, started, Machine.entered]

/-- A kernel of a page and some code behind it. -/
def pageKernel : List UInt8 := List.replicate 4096 0x90 ++ [0xFA, 0xF4, 0xEB, 0xFD]

/-- That kernel is loaded as a whole, up to its last byte and with zeros behind it. -/
theorem kernel_whole_page : ∃ after,
    (efiLoadKernel (Volume.firmware id pages)).run (withKernel pageKernel) =
        .ok (efiSuccess, after) ∧ HoldsImage pageKernel after.memory := by
  obtain ⟨status, after, ran, whole⟩ :=
    kernel_whole_iff id pages (withKernel_conformant pageKernel) (withKernel_holds pageKernel)
  have loaded : LoadsWhole pageKernel status after.memory := by
    refine whole.mpr (Or.inl ?_)
    rw [pageKernel, List.length_append, List.length_replicate]
    decide
  have answer : ((efiLoadKernel (Volume.firmware id pages)).run (withKernel pageKernel)).toOption.map
      Prod.fst = some efiSuccess := by decide +kernel
  rw [ran] at answer
  obtain rfl : status = efiSuccess := by simpa [Except.toOption] using answer
  exact ⟨after, ran, loaded.1 rfl⟩

/-- A kernel of one byte more than a megabyte is cut off, which is reported as a success. -/
theorem kernel_truncated : ∃ status after,
    (efiLoadKernel (Volume.firmware id pages)).run
      (withKernel (List.replicate (kernelMaxBytes + 1) 0xF4)) = .ok (status, after) ∧
      status = efiSuccess ∧
      ¬ LoadsWhole (List.replicate (kernelMaxBytes + 1) 0xF4) status after.memory := by
  obtain ⟨status, after, ran, whole⟩ := (wp_total_iff _ _ _).mp
    (wp_efiLoadKernel_whole id pages (withKernel_conformant (List.replicate (kernelMaxBytes + 1) 0xF4))
      (withKernel_holds (List.replicate (kernelMaxBytes + 1) 0xF4)))
  have cut : ¬ LoadsWhole (List.replicate (kernelMaxBytes + 1) 0xF4) status after.memory := by
    rw [whole, List.length_replicate, not_or, not_not]
    exact ⟨Nat.not_succ_le_self kernelMaxBytes, withKernel_undisrupted _⟩
  refine ⟨status, after, ran, ?_, cut⟩
  by_contra failed
  exact cut (loadsWhole_of_error (decide_eq_true failed) after.memory)

end ExistentOS.Boot
