import ExistentOS.Files
import Mathlib.Logic.Function.Basic

/-!
# A volume with UEFI file semantics

A firmware whose file calls act on file contents. Paths are resolved to file
identities by a given function, so that two spellings of one path may name one
file. `Open` creates a missing file only when asked to, a fresh handle starts at
position zero, `Read` returns the bytes from the position on as far as they go,
`Write` overwrites in place and extends at the end, position `2^64-1` is the end
of the file, and `Delete` removes the file and closes its handle.

Every file call consumes one entry of a fault schedule: the status it reports
and how many bytes it may transfer. An exhausted schedule is a fault-free
firmware. Directory reads, the console and the boot calls belong to a device
about which nothing is assumed.
-/

namespace ExistentOS

open Programs Terminated

/-- An open file: its identity, the position of the handle and its mode. Two handles of one file
have positions of their own. -/
structure OpenFile (File : Type) where
  file : File
  position : Nat
  writable : Bool

/-- The outcome scheduled for one file call. The caps limit what a `Read` or a
`Write` transfers. -/
structure Fault where
  status : EfiStatus
  readAtMost : Option Nat
  writeAtMost : Option Nat
  deriving DecidableEq

/-- A call that works, and moves all there is to move. -/
def Fault.absent : Fault := ⟨efiSuccess, none, none⟩

/-- File contents, open handles and the remaining fault schedule. The schedule is consumed call
by call, so it fixes which calls of a run fail. -/
structure Volume (File : Type) where
  contents : File → Option (List UInt8)
  opened : Handle → Option (OpenFile File)
  next : Handle
  faults : List Fault

/-- The bytes a capped transfer moves: as many as the cap allows, from the first one on. -/
def capped (cap : Option Nat) (bytes : List UInt8) : List UInt8 :=
  match cap with
  | none => bytes
  | some count => bytes.take count

@[simp] theorem capped_none (bytes : List UInt8) : capped none bytes = bytes := rfl
@[simp] theorem capped_zero (bytes : List UInt8) : capped (some 0) bytes = [] := rfl

/-- A capped transfer moves no more than was there. -/
theorem capped_length (cap : Option Nat) (bytes : List UInt8) :
    (capped cap bytes).length ≤ bytes.length := by
  cases cap with
  | none => exact Nat.le_refl _
  | some count => exact List.length_take_le' count bytes

/-- Store bytes at a position, keeping what lies before and behind them. A gap
after the old end is filled with zeros. -/
def overlay (bytes : List UInt8) (position : Nat) (stored : List UInt8) : List UInt8 :=
  (bytes ++ List.replicate (position - bytes.length) 0).take position ++ stored ++
    bytes.drop (position + stored.length)

/-- Storing at the start replaces a prefix. What is longer is still there behind it. -/
theorem overlay_start (bytes stored : List UInt8) :
    overlay bytes 0 stored = stored ++ bytes.drop stored.length := by simp [overlay]

/-- Storing at the end appends, and changes nothing before it. -/
theorem overlay_end (bytes stored : List UInt8) :
    overlay bytes bytes.length stored = bytes ++ stored := by simp [overlay]

namespace Volume

variable {File τ : Type} [DecidableEq File]

/-- The fault of the call that follows `calls` others. Behind the schedule every call works. -/
def faultAt (volume : Volume File) (calls : Nat) : Fault := volume.faults.getD calls Fault.absent

/-- The fault of the next call. -/
def fault (volume : Volume File) : Fault := volume.faultAt 0

/-- The volume after consuming one entry of the schedule. -/
def spent (volume : Volume File) : Volume File := { volume with faults := volume.faults.tail }

/-- The volume with other bytes in a file, or without the file. -/
def setContents (volume : Volume File) (file : File) (bytes : Option (List UInt8)) :
    Volume File := { volume with contents := Function.update volume.contents file bytes }

/-- The volume with another file behind a handle, or with the handle closed. -/
def setOpened (volume : Volume File) (handle : Handle) (file : Option (OpenFile File)) :
    Volume File := { volume with opened := Function.update volume.opened handle file }

/-- A new handle, never null and never one that was issued before. -/
def issue (volume : Volume File) (file : Option (OpenFile File)) : Handle × Volume File :=
  (volume.next + 1, { volume.setOpened (volume.next + 1) file with next := volume.next + 1 })

/-- Whether an open mode asks for writing, or for a missing file to be created. -/
def writes (mode : UInt64) : Bool := mode &&& efiFileModeWrite ≠ 0
def creates (mode : UInt64) : Bool := mode &&& efiFileModeCreate ≠ 0

/-- `Open` of a path in the root directory. A missing file is created if the mode asks for it. -/
def openPath (volume : Volume File) (file : File) (mode : UInt64) :
    (EfiStatus × Handle) × Volume File :=
  if efiError volume.fault.status then ((volume.fault.status, 0), volume.spent)
  else
    let found := OpenFile.mk file 0 (writes mode)
    match volume.contents file with
    | some _ =>
      let (handle, opened) := volume.spent.issue (some found)
      ((efiSuccess, handle), opened)
    | none =>
      if creates mode then
        let (handle, opened) := (volume.spent.setContents file (some [])).issue (some found)
        ((efiSuccess, handle), opened)
      else ((efiNotFound, 0), volume.spent)

/-- `Delete`: the handle is closed in any case. The file goes only if it was opened for writing. -/
def deletePath (volume : Volume File) (handle : Handle) : EfiStatus × Volume File :=
  match volume.opened handle with
  | none => (efiDeviceError, volume.spent)
  | some found =>
    let closed := volume.spent.setOpened handle none
    if efiError volume.fault.status then (volume.fault.status, closed)
    else if found.writable then (efiSuccess, closed.setContents found.file none)
    else (efiAccessDenied, closed)

/-- `Read` of an open file, from its position on. The position moves by what was read. -/
def readPath (volume : Volume File) (handle : Handle) (found : OpenFile File) (size : Nat) :
    ReadAnswer × Volume File :=
  if efiError volume.fault.status then (⟨volume.fault.status, 0, []⟩, volume.spent)
  else match volume.contents found.file with
    | none => (⟨efiDeviceError, 0, []⟩, volume.spent)
    | some bytes =>
      if bytes.length < found.position then (⟨efiDeviceError, 0, []⟩, volume.spent)
      else
        let moved := capped volume.fault.readAtMost ((bytes.drop found.position).take size)
        (⟨efiSuccess, moved.length, moved⟩, volume.spent.setOpened handle
          (some { found with position := found.position + moved.length }))

/-- `Write` to an open file. A faulty call may still transfer bytes. -/
def writePath (volume : Volume File) (handle : Handle) (data : List UInt8) :
    (EfiStatus × Nat) × Volume File :=
  match volume.opened handle with
  | none => ((efiDeviceError, 0), volume.spent)
  | some found =>
    match volume.contents found.file with
    | none => ((efiDeviceError, 0), volume.spent)
    | some bytes =>
      if found.writable then
        let moved := capped volume.fault.writeAtMost data
        let stored := volume.spent.setContents found.file (some (overlay bytes found.position moved))
        ((volume.fault.status, moved.length), stored.setOpened handle
          (some { found with position := found.position + moved.length }))
      else ((efiAccessDenied, 0), volume.spent)

/-- `SetPosition`. The highest position stands for the end of the file. -/
def seek (volume : Volume File) (handle : Handle) (position : UInt64) : EfiStatus × Volume File :=
  match volume.opened handle with
  | none => (efiDeviceError, volume.spent)
  | some found =>
    if efiError volume.fault.status then (volume.fault.status, volume.spent)
    else
      let target := if position = 0xFFFFFFFFFFFFFFFF then
        ((volume.contents found.file).getD []).length else position.toNat
      (efiSuccess, volume.spent.setOpened handle (some { found with position := target }))

/-- The firmware of a volume. Every handle that is not an open file is a
directory, which the device reads. -/
def firmware (resolve : Text → File) (device : Firmware τ) : Firmware (Volume File × τ) where
  hasFlush := device.hasFlush
  locateProtocol := fun (volume, rest) => ((volume.fault.status, 1), (volume.spent, rest))
  openVolume := fun _ (volume, rest) =>
    if efiError volume.fault.status then ((volume.fault.status, 0), (volume.spent, rest))
    else
      let (handle, opened) := volume.spent.issue none
      ((efiSuccess, handle), (opened, rest))
  openFile := fun _ path mode _ (volume, rest) =>
    let (answer, after) := volume.openPath (resolve path) mode
    (answer, (after, rest))
  close := fun handle (volume, rest) =>
    (volume.fault.status, (volume.spent.setOpened handle none, rest))
  delete := fun handle (volume, rest) =>
    let (status, after) := volume.deletePath handle
    (status, (after, rest))
  read := fun handle size (volume, rest) =>
    match volume.opened handle with
    | some found =>
      let (answer, after) := volume.readPath handle found size
      (answer, (after, rest))
    | none =>
      let (answer, after) := device.read handle size rest
      (answer, (volume, after))
  write := fun handle data (volume, rest) =>
    let (answer, after) := volume.writePath handle data
    (answer, (after, rest))
  setPosition := fun handle position (volume, rest) =>
    let (status, after) := volume.seek handle position
    (status, (after, rest))
  flush := fun _ (volume, rest) => (volume.fault.status, (volume.spent, rest))
  outputString := fun text (volume, rest) =>
    let (status, after) := device.outputString text rest
    (status, (volume, after))
  readKeyStroke := fun (volume, rest) =>
    let (answer, after) := device.readKeyStroke rest
    (answer, (volume, after))
  allocatePages := fun kind memoryType pages address (volume, rest) =>
    let (answer, after) := device.allocatePages kind memoryType pages address rest
    (answer, (volume, after))
  getMemoryMap := fun size (volume, rest) =>
    let (answer, after) := device.getMemoryMap size rest
    (answer, (volume, after))
  exitBootServices := fun image mapKey (volume, rest) =>
    let (status, after) := device.exitBootServices image mapKey rest
    (status, (volume, after))

omit [DecidableEq File] in
@[simp] theorem spent_contents (volume : Volume File) : volume.spent.contents = volume.contents :=
  rfl
omit [DecidableEq File] in
@[simp] theorem spent_opened (volume : Volume File) : volume.spent.opened = volume.opened := rfl
omit [DecidableEq File] in
@[simp] theorem spent_next (volume : Volume File) : volume.spent.next = volume.next := rfl
omit [DecidableEq File] in
@[simp] theorem spent_faults (volume : Volume File) :
    volume.spent.faults = volume.faults.drop 1 := List.drop_one.symm
omit [DecidableEq File] in
@[simp] theorem setOpened_contents (volume : Volume File) (handle : Handle)
    (file : Option (OpenFile File)) :
    (volume.setOpened handle file).contents = volume.contents := rfl
omit [DecidableEq File] in
@[simp] theorem setOpened_faults (volume : Volume File) (handle : Handle)
    (file : Option (OpenFile File)) : (volume.setOpened handle file).faults = volume.faults := rfl
omit [DecidableEq File] in
@[simp] theorem setOpened_opened (volume : Volume File) (handle : Handle)
    (file : Option (OpenFile File)) :
    (volume.setOpened handle file).opened = Function.update volume.opened handle file := rfl
omit [DecidableEq File] in
@[simp] theorem issue_contents (volume : Volume File) (file : Option (OpenFile File)) :
    (volume.issue file).2.contents = volume.contents := rfl
omit [DecidableEq File] in
@[simp] theorem issue_faults (volume : Volume File) (file : Option (OpenFile File)) :
    (volume.issue file).2.faults = volume.faults := rfl
omit [DecidableEq File] in
@[simp] theorem issue_opened (volume : Volume File) (file : Option (OpenFile File)) :
    (volume.issue file).2.opened = Function.update volume.opened (volume.next + 1) file := rfl
@[simp] theorem setContents_contents (volume : Volume File) (file : File)
    (bytes : Option (List UInt8)) :
    (volume.setContents file bytes).contents = Function.update volume.contents file bytes := rfl
@[simp] theorem setContents_faults (volume : Volume File) (file : File)
    (bytes : Option (List UInt8)) : (volume.setContents file bytes).faults = volume.faults := rfl
@[simp] theorem setContents_opened (volume : Volume File) (file : File)
    (bytes : Option (List UInt8)) : (volume.setContents file bytes).opened = volume.opened := rfl
@[simp] theorem setContents_next (volume : Volume File) (file : File)
    (bytes : Option (List UInt8)) : (volume.setContents file bytes).next = volume.next := rfl

/-! ## Calls on a volume

Each file call is an operation on the volume alone; the rest of the machine is
framed by `OnlyFirmware`. -/

section Calls

variable (resolve : Text → File) (device : Firmware τ) {E : Stop → Prop}
  {machine : Machine (Volume File × τ)}

omit [DecidableEq File] in
/-- A call that acts on the volume component. -/
theorem wp_call_volume {α : Type} (operation : Volume File → α × Volume File) (event : α → Event)
    (Q : α → Machine (Volume File × τ) → Prop)
    (next : ∀ after, OnlyFirmware machine after →
      after.firmware.1 = (operation machine.firmware.1).2 →
      Q (operation machine.firmware.1).1 after) :
    wp (call (fun state => ((operation state.1).1, ((operation state.1).2, state.2))) event)
      Q E machine :=
  next _ (called_onlyFirmware machine _ _) rfl

/-- Locating the file system consumes one entry of the schedule. The interface is there whatever
the status says. -/
theorem wp_locateProtocol (Q : EfiStatus × Handle → Machine (Volume File × τ) → Prop)
    (next : ∀ after, OnlyFirmware machine after → after.firmware.1 = machine.firmware.1.spent →
      Q (machine.firmware.1.fault.status, 1) after) :
    wp (locateProtocol (firmware resolve device)) Q E machine :=
  wp_call_volume (fun volume => ((volume.fault.status, 1), volume.spent)) _ Q next

/-- `OpenVolume` as an operation on the volume. The root is a handle without a file. -/
def openRoot (volume : Volume File) : (EfiStatus × Handle) × Volume File :=
  if efiError volume.fault.status then ((volume.fault.status, 0), volume.spent)
  else ((efiSuccess, volume.next + 1), (volume.spent.issue none).2)

/-- The firmware's `OpenVolume` acts on the volume alone. -/
theorem firmware_openVolume (fs : Handle) :
    (firmware resolve device).openVolume fs = fun state =>
      ((openRoot state.1).1, ((openRoot state.1).2, state.2)) := by
  funext state
  simp only [firmware, openRoot]
  split <;> rfl

/-- `OpenVolume` acts as `openRoot` does. -/
theorem wp_openVolume (fs : Handle) (Q : EfiStatus × Handle → Machine (Volume File × τ) → Prop)
    (next : ∀ after, OnlyFirmware machine after →
      after.firmware.1 = machine.firmware.1.openRoot.2 → Q machine.firmware.1.openRoot.1 after) :
    wp (openVolume (firmware resolve device) fs) Q E machine := by
  rw [openVolume, firmware_openVolume]
  exact wp_call_volume openRoot _ Q next

/-- `Open` acts as `openPath` does, on the file that the path names. -/
theorem wp_openFile (root : Handle) (path : Text) (mode attributes : UInt64)
    (Q : EfiStatus × Handle → Machine (Volume File × τ) → Prop)
    (next : ∀ after, OnlyFirmware machine after →
      after.firmware.1 = (machine.firmware.1.openPath (resolve path) mode).2 →
      Q (machine.firmware.1.openPath (resolve path) mode).1 after) :
    wp (openFile (firmware resolve device) root path mode attributes) Q E machine :=
  wp_call_volume (fun volume => volume.openPath (resolve path) mode) _ Q next

/-- `Close` takes the handle away, also where its status is an error. -/
theorem wp_closeFile (handle : Handle) (Q : EfiStatus → Machine (Volume File × τ) → Prop)
    (next : ∀ after, OnlyFirmware machine after →
      after.firmware.1 = machine.firmware.1.spent.setOpened handle none →
      Q machine.firmware.1.fault.status after) :
    wp (closeFile (firmware resolve device) handle) Q E machine :=
  wp_call_volume (fun volume => (volume.fault.status, volume.spent.setOpened handle none)) _ Q next

/-- `Delete` acts as `deletePath` does. -/
theorem wp_deleteFile (handle : Handle) (Q : EfiStatus → Machine (Volume File × τ) → Prop)
    (next : ∀ after, OnlyFirmware machine after →
      after.firmware.1 = (machine.firmware.1.deletePath handle).2 →
      Q (machine.firmware.1.deletePath handle).1 after) :
    wp (deleteFile (firmware resolve device) handle) Q E machine :=
  wp_call_volume (fun volume => volume.deletePath handle) _ Q next

/-- `Write` acts as `writePath` does. -/
theorem wp_writeFile (handle : Handle) (bytes : List UInt8)
    (Q : EfiStatus × Nat → Machine (Volume File × τ) → Prop)
    (next : ∀ after, OnlyFirmware machine after →
      after.firmware.1 = (machine.firmware.1.writePath handle bytes).2 →
      Q (machine.firmware.1.writePath handle bytes).1 after) :
    wp (writeFile (firmware resolve device) handle bytes) Q E machine :=
  wp_call_volume (fun volume => volume.writePath handle bytes) _ Q next

/-- `SetPosition` acts as `seek` does. -/
theorem wp_setPosition (handle : Handle) (position : UInt64)
    (Q : EfiStatus → Machine (Volume File × τ) → Prop)
    (next : ∀ after, OnlyFirmware machine after →
      after.firmware.1 = (machine.firmware.1.seek handle position).2 →
      Q (machine.firmware.1.seek handle position).1 after) :
    wp (setPosition (firmware resolve device) handle position) Q E machine :=
  wp_call_volume (fun volume => volume.seek handle position) _ Q next

/-- Flushing consumes at most one entry of the schedule. -/
theorem wp_flushFile (handle : Handle) (Q : Unit → Machine (Volume File × τ) → Prop)
    (next : ∀ after, OnlyFirmware machine after →
      after.firmware.1 = machine.firmware.1 ∨ after.firmware.1 = machine.firmware.1.spent →
      Q () after) :
    wp (flushFile (firmware resolve device) handle) Q E machine := by
  simp only [flushFile, wp_ite, wp_bind, wp_pure]
  constructor
  · intro _
    exact wp_call_volume (fun volume => (volume.fault.status, volume.spent)) _ _
      (fun after frame same => next after frame (Or.inr same))
  · intro _
    exact next machine (Std.Refl.refl machine) (Or.inl rfl)

/-- Reading an open file delivers at most the requested bytes. -/
theorem wp_readFile (handle : Handle) (size : Nat) (found : OpenFile File)
    (isOpen : machine.firmware.1.opened handle = some found)
    (Q : ReadAnswer → Machine (Volume File × τ) → Prop)
    (next : ∀ after, OnlyFirmware machine after →
      after.firmware.1 = (machine.firmware.1.readPath handle found size).2 →
      Q (machine.firmware.1.readPath handle found size).1 after) :
    wp (readFile (firmware resolve device) handle size) Q E machine := by
  have answered : (firmware resolve device).read handle size machine.firmware =
      ((machine.firmware.1.readPath handle found size).1,
        ((machine.firmware.1.readPath handle found size).2, machine.firmware.2)) := by
    simp only [firmware, isOpen]
  have short : (machine.firmware.1.readPath handle found size).1.bytes.length ≤ size := by
    unfold readPath
    split
    · exact Nat.zero_le size
    · split
      · exact Nat.zero_le size
      · split
        · exact Nat.zero_le size
        · rename_i bytes _ _
          have taken : ((bytes.drop found.position).take size).length ≤ size :=
            List.length_take_le size _
          cases capCase : machine.firmware.1.fault.readAtMost with
          | none => exact taken
          | some count =>
            exact Nat.le_trans (List.length_take_le' count _) taken
  simp only [readFile, wp_bind, wp_call, answered, wp_ite, short, wp_pure, true_implies,
    not_true_eq_false, false_implies, and_true]
  exact next _ (called_onlyFirmware machine _ _) rfl

end Calls

/-! ## Opening on a volume -/

/-- A handle that an opening sequence of `calls` calls has just returned: a fresh
position in the resolved file, which exists from now on if it did not before. -/
structure Fresh (file : File) (mode : UInt64) (calls : Nat) (before after : Volume File)
    (handle : Handle) : Prop where
  opened : after.opened handle = some ⟨file, 0, writes mode⟩
  contents : after.contents =
    Function.update before.contents file (some ((before.contents file).getD []))
  existed : (before.contents file).isSome = true ∨ creates mode = true
  faults : after.faults = before.faults.drop calls

/-- The reasons for which no file is opened: there is no file system, one of three calls fails,
or the file is missing and not to be created. -/
def Refused (file : File) (mode : UInt64) (machine : Machine (Volume File × τ)) : Prop :=
  machine.canLocate = false ∨
    (∃ calls < 3, efiError (machine.firmware.1.faultAt calls).status = true) ∨
    machine.firmware.1.contents file = none ∧ creates mode = false

instance (file : File) (mode : UInt64) (machine : Machine (Volume File × τ)) :
    Decidable (Refused file mode machine) := by
  unfold Refused
  infer_instance

/-- Success is no error. -/
@[simp] theorem error_success : efiError efiSuccess = false := by decide

omit [DecidableEq File] in
/-- Faults move up by one with each call. -/
theorem faultAt_of_drop {earlier later : Volume File} {calls : Nat}
    (consumed : later.faults = earlier.faults.drop calls) (index : Nat) :
    later.faultAt index = earlier.faultAt (calls + index) := by
  simp [faultAt, consumed, List.getD_eq_getElem?_getD]

omit [DecidableEq File] in

/-- An exhausted schedule has no faults, so every further call works. -/
theorem faultAt_of_nil {volume : Volume File} (empty : volume.faults = []) (index : Nat) :
    volume.faultAt index = Fault.absent := by simp [faultAt, empty]

/-- `Open` either fails without touching any content or yields a fresh handle
with the next number. -/
theorem openPath_cases (volume : Volume File) (file : File) (mode : UInt64) :
    (efiError (volume.openPath file mode).1.1 = true ∧
        (volume.openPath file mode).2 = volume.spent ∧
        (efiError volume.fault.status = true ∨
          volume.contents file = none ∧ creates mode = false)) ∨
      (efiError volume.fault.status = false ∧
        (volume.openPath file mode).1 = (efiSuccess, volume.next + 1) ∧
        Fresh file mode 1 volume (volume.openPath file mode).2 (volume.next + 1)) := by
  by_cases failed : efiError volume.fault.status = true
  · refine Or.inl ?_
    have refused : volume.openPath file mode = ((volume.fault.status, 0), volume.spent) := by
      simp [openPath, failed]
    rw [refused]
    exact ⟨failed, rfl, Or.inl failed⟩
  · cases stored : volume.contents file with
    | some bytes =>
      refine Or.inr ?_
      have opened : volume.openPath file mode = ((efiSuccess, volume.next + 1),
          (volume.spent.issue (some ⟨file, 0, writes mode⟩)).2) := by
        simp [openPath, failed, stored, issue]
      have unchanged : Function.update volume.contents file (some bytes) = volume.contents := by
        rw [← stored, Function.update_eq_self]
      rw [opened]
      exact ⟨by simpa using failed, rfl,
        ⟨by simp, by simp [stored, unchanged], by simp [stored], by simp⟩⟩
    | none =>
      by_cases create : creates mode = true
      · refine Or.inr ?_
        have opened : volume.openPath file mode = ((efiSuccess, volume.next + 1),
            ((volume.spent.setContents file (some [])).issue (some ⟨file, 0, writes mode⟩)).2) := by
          simp [openPath, failed, stored, create, issue]
        rw [opened]
        exact ⟨by simpa using failed, rfl,
          ⟨by simp, by simp [stored], Or.inr create, by simp⟩⟩
      · refine Or.inl ?_
        have refused : volume.openPath file mode = ((efiNotFound, 0), volume.spent) := by
          simp [openPath, failed, stored, create]
        have error : efiError efiNotFound = true := by decide
        rw [refused]
        exact ⟨error, rfl, Or.inr ⟨rfl, by simpa using create⟩⟩

omit [DecidableEq File] in
/-- Opening the root changes no content and takes the next handle number. -/
theorem openRoot_effect (volume : Volume File) :
    volume.openRoot.2.contents = volume.contents ∧
      volume.openRoot.2.faults = volume.faults.drop 1 ∧
      volume.openRoot.1.1 = volume.fault.status ∧
      (efiError volume.fault.status = false →
        volume.openRoot.1.2 = volume.openRoot.2.next ∧ volume.openRoot.1.2 ≠ 0) := by
  by_cases failed : efiError volume.fault.status = true
  · have refused : volume.openRoot = ((volume.fault.status, 0), volume.spent) := by
      simp [openRoot, failed]
    rw [refused]
    exact ⟨rfl, by simp, rfl, fun worked => absurd failed (by simp [worked])⟩
  · have opened : volume.openRoot = ((efiSuccess, volume.next + 1), (volume.spent.issue none).2) := by
      simp [openRoot, failed]
    have status : volume.fault.status = efiSuccess := by simpa [efiError] using failed
    rw [opened]
    exact ⟨rfl, by simp, status.symm, fun _ => ⟨rfl, Nat.succ_ne_zero _⟩⟩

/-- Closing another handle leaves a fresh handle fresh. -/
theorem Fresh.close {file : File} {mode : UInt64} {calls : Nat} {before after : Volume File}
    {handle other : Handle} (fresh : Fresh file mode calls before after handle)
    (different : handle ≠ other) :
    Fresh file mode (calls + 1) before (after.spent.setOpened other none) handle := by
  obtain ⟨opened, contents, existed, faults⟩ := fresh
  refine ⟨?_, contents, existed, ?_⟩
  · simp [Function.update_of_ne different, opened]
  · simp [faults]

/-- Freshness only depends on the earlier contents and schedule. -/
theorem Fresh.since {file : File} {mode : UInt64} {calls earlierCalls : Nat}
    {earlier before after : Volume File} {handle : Handle}
    (fresh : Fresh file mode calls before after handle)
    (contents : before.contents = earlier.contents)
    (faults : before.faults = earlier.faults.drop earlierCalls) :
    Fresh file mode (earlierCalls + calls) earlier after handle := by
  obtain ⟨opened, stored, existed, consumed⟩ := fresh
  refine ⟨opened, contents ▸ stored, contents ▸ existed, ?_⟩
  rw [consumed, faults, List.drop_drop, Nat.add_comm]

omit [DecidableEq File] in
/-- An opening is not refused if none of its calls fails and the file exists or is created. -/
theorem not_refused {file : File} {mode : UInt64} {machine : Machine (Volume File × τ)}
    (available : machine.canLocate = true)
    (calm : ∀ calls < 3, efiError (machine.firmware.1.faultAt calls).status = false)
    (existed : (machine.firmware.1.contents file).isSome = true ∨ creates mode = true) :
    ¬ Refused file mode machine := by
  rintro (unavailable | ⟨calls, early, failed⟩ | ⟨missing, keeping⟩)
  · rw [available] at unavailable
    cases unavailable
  · rw [calm calls early] at failed
    cases failed
  · rw [missing, keeping] at existed
    exact existed.elim (fun present => by cases present) (fun creating => by cases creating)

/-- Opening a path either refuses, leaving every content as it was, or yields a
fresh handle of the resolved file after four calls. -/
theorem wp_openOnVolume (resolve : Text → File) (device : Firmware τ) (path : Memory)
    (name : Text) (mode attributes : UInt64) (readable : scan path = some name) {E : Stop → Prop}
    {machine : Machine (Volume File × τ)} (Q : Option Handle → Machine (Volume File × τ) → Prop)
    (refused : ∀ after, OnlyFirmware machine after →
      after.firmware.1.contents = machine.firmware.1.contents →
      after.firmware.1.faults <:+ machine.firmware.1.faults →
      Refused (resolve name) mode machine → Q none after)
    (found : ∀ after handle, OnlyFirmware machine after →
      Fresh (resolve name) mode 4 machine.firmware.1 after.firmware.1 handle →
      ¬ Refused (resolve name) mode machine → Q (some handle) after) :
    wp (openOnVolume (firmware resolve device) path mode attributes) Q E machine := by
  simp only [openOnVolume, wp_bind, wp_get, wp_ite, wp_pure]
  refine ⟨fun available => ?_, fun absent => ?_⟩
  · refine wp_locateProtocol resolve device _ (fun located frame₁ volume₁ => ?_)
    have faults₁ : located.firmware.1.faults = machine.firmware.1.faults.drop 1 := by
      simp [volume₁]
    rw [wp_ite, wp_pure, wp_bind]
    refine ⟨fun failed => ?_, fun worked₀ => ?_⟩
    · have error : efiError (machine.firmware.1.faultAt 0).status = true := by
        simpa [fault] using failed
      exact refused located frame₁ (volume₁ ▸ rfl) (faults₁ ▸ List.drop_suffix 1 _)
        (Or.inr (Or.inl ⟨0, by decide, error⟩))
    refine wp_openVolume resolve device _ _ (fun rooted frame₂ volume₂ => ?_)
    obtain ⟨kept, spared, status, number⟩ := openRoot_effect located.firmware.1
    rw [← volume₂] at kept spared number
    have contents₂ : rooted.firmware.1.contents = machine.firmware.1.contents :=
      kept.trans (volume₁ ▸ rfl)
    have faults₂ : rooted.firmware.1.faults = machine.firmware.1.faults.drop 2 := by
      rw [spared, faults₁, List.drop_drop]
    rw [wp_ite, wp_pure, status]
    refine ⟨fun failed => ?_, fun worked => ?_⟩
    · rw [fault, faultAt_of_drop faults₁] at failed
      exact refused rooted (frame₁.then frame₂) contents₂ (faults₂ ▸ List.drop_suffix 2 _)
        (Or.inr (Or.inl ⟨1, by decide, failed⟩))
    obtain ⟨newest, nonNull⟩ := number (by simpa using worked)
    simp only [wp_bind, wp_ite, nonNull, false_implies, true_and, not_false_eq_true, true_implies,
      wp_orOverrun, readable, Option.some.injEq, reduceCtorEq, and_true]
    rintro _ rfl
    refine wp_openFile resolve device _ _ _ _ _ (fun opened frame₃ volume₃ => ?_)
    rw [wp_bind]
    refine wp_closeFile resolve device _ _ (fun closed frame₄ volume₄ => ?_)
    rw [wp_ite, wp_pure, wp_pure]
    have frame := ((frame₁.then frame₂).then frame₃).then frame₄
    rcases openPath_cases rooted.firmware.1 (resolve name) mode with
      ⟨failed, unchanged, reason⟩ | ⟨worked₂, succeeded, fresh⟩
    · refine ⟨fun good => absurd failed good.1, fun _ => refused closed frame ?_ ?_ ?_⟩
      · simp [volume₄, volume₃, unchanged, contents₂]
      · have consumed : closed.firmware.1.faults = machine.firmware.1.faults.drop 4 := by
          simp [volume₄, volume₃, unchanged, faults₂]
        exact consumed ▸ List.drop_suffix 4 _
      · rcases reason with error | ⟨missing, keeping⟩
        · rw [fault, faultAt_of_drop faults₂] at error
          exact Or.inr (Or.inl ⟨2, by decide, error⟩)
        · exact Or.inr (Or.inr ⟨contents₂ ▸ missing, keeping⟩)
    · rw [succeeded]
      refine ⟨fun _ => found closed _ frame ?_ ?_,
        fun bad => absurd ⟨by simp, Nat.succ_ne_zero _⟩ bad⟩
      · have different : rooted.firmware.1.next + 1 ≠ located.firmware.1.openRoot.1.2 := by
          rw [newest]
          exact Nat.succ_ne_self _
        have freshOpened : Fresh (resolve name) mode 1 rooted.firmware.1 opened.firmware.1
            (rooted.firmware.1.next + 1) := volume₃ ▸ fresh
        rw [volume₄]
        exact (freshOpened.since contents₂ faults₂).close different
      · rw [fault, faultAt_of_drop faults₁] at worked
        rw [fault, faultAt_of_drop faults₂] at worked₂
        refine not_refused available (fun calls early => ?_) (contents₂ ▸ fresh.existed)
        obtain rfl | rfl | rfl : calls = 0 ∨ calls = 1 ∨ calls = 2 := by omega
        · exact Bool.eq_false_iff.mpr fun failed => worked₀ (Or.inl failed)
        · exact Bool.eq_false_iff.mpr worked
        · exact worked₂
  · exact refused machine (Std.Refl.refl machine) rfl (List.suffix_refl _)
      (Or.inl (by simpa using absent))

/-! ## A quiet machine -/

/-- A device without input whose boot calls fail, for runs that need the volume alone. -/
def quiet : Firmware Unit := Firmware.inert

/-- A machine with static storage as loaded, on a volume with the given contents
and schedule. Files are named by their paths. -/
def started (contents : Text → Option (List UInt8)) (faults : List Fault) :
    Machine (Volume Text × Unit) := Machine.entered (⟨contents, fun _ => none, 0, faults⟩, ())

end Volume

end ExistentOS
