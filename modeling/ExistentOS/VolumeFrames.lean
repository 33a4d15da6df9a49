import ExistentOS.Frames
import ExistentOS.Volume

/-!
# Frames of a volume

What the calls on a volume do to files that exist. Quiet calls leave their bytes alone;
opening a file in particular creates at most a new one. Deleting and writing act on the
file of the handle only, and writing behind a successful positioning at the end only
extends it.
-/

namespace ExistentOS.Volume

open Programs Terminated

variable {File τ : Type} [DecidableEq File]

/-! ## Operations on a volume -/

/-- Opening a file keeps every existing one, also the one it opens. -/
theorem openPath_kept (volume : Volume File) (path : File) (mode : UInt64) {file : File}
    {bytes : List UInt8} (stored : volume.contents file = some bytes) :
    (volume.openPath path mode).2.contents file = some bytes := by
  rcases openPath_cases volume path mode with ⟨_, unchanged, _⟩ | ⟨_, _, fresh⟩
  · rw [unchanged]
    exact stored
  · rw [fresh.contents]
    by_cases same : file = path
    · subst same
      rw [Function.update_self, stored, Option.getD_some]
    · rw [Function.update_of_ne same, stored]

omit [DecidableEq File] in

/-- Reading changes no content, whatever the fault. -/
theorem readPath_contents (volume : Volume File) (handle : Handle) (found : OpenFile File)
    (size : Nat) : (volume.readPath handle found size).2.contents = volume.contents := by
  unfold readPath
  split
  · rfl
  · split
    · rfl
    · split <;> rfl

omit [DecidableEq File] in
/-- Reading consumes one entry of the schedule. -/
theorem readPath_faults (volume : Volume File) (handle : Handle) (found : OpenFile File)
    (size : Nat) : (volume.readPath handle found size).2.faults = volume.faults.drop 1 := by
  unfold readPath
  split
  · exact spent_faults volume
  · split
    · exact spent_faults volume
    · split <;> exact spent_faults volume

omit [DecidableEq File] in
/-- Positioning consumes one entry of the schedule. -/
theorem seek_faults (volume : Volume File) (handle : Handle) (position : UInt64) :
    (volume.seek handle position).2.faults = volume.faults.drop 1 := by
  unfold seek
  split
  · exact spent_faults volume
  · split <;> exact spent_faults volume

omit [DecidableEq File] in

/-- Positioning changes no content, also behind the end of a file. -/
theorem seek_contents (volume : Volume File) (handle : Handle) (position : UInt64) :
    (volume.seek handle position).2.contents = volume.contents := by
  unfold seek
  split
  · rfl
  · split <;> rfl

/-- Deleting through a handle removes no other file. -/
theorem deletePath_other (volume : Volume File) {handle : Handle} {found : OpenFile File}
    (isOpen : volume.opened handle = some found) {file : File} (other : found.file ≠ file) :
    (volume.deletePath handle).2.contents file = volume.contents file := by
  simp only [deletePath, isOpen]
  split
  · rfl
  · split
    · exact Function.update_of_ne (Ne.symm other) _ _
    · rfl

/-- Writing through a handle changes no other file. -/
theorem writePath_other (volume : Volume File) {handle : Handle} {found : OpenFile File}
    (isOpen : volume.opened handle = some found) (data : List UInt8) {file : File}
    (other : found.file ≠ file) :
    (volume.writePath handle data).2.contents file = volume.contents file := by
  simp only [writePath, isOpen]
  split
  · rfl
  · split
    · exact Function.update_of_ne (Ne.symm other) _ _
    · rfl

/-- Writing at the end of a file extends it, unless the handle is read-only. -/
theorem writePath_end (volume : Volume File) {handle : Handle} {found : OpenFile File}
    (isOpen : volume.opened handle = some found) (data : List UInt8) {bytes : List UInt8}
    (stored : volume.contents found.file = some bytes) (atEnd : found.position = bytes.length) :
    ∃ more, (volume.writePath handle data).2.contents found.file = some (bytes ++ more) := by
  simp only [writePath, isOpen, stored]
  split
  · refine ⟨capped volume.fault.writeAtMost data, ?_⟩
    rw [setOpened_contents, setContents_contents, Function.update_self, atEnd, overlay_end]
  · exact ⟨[], by rw [spent_contents, stored, List.append_nil]⟩

/-- The position that stands for the end of a file, the highest of 64 bits. -/
def endOfFile : UInt64 := 0xFFFFFFFFFFFFFFFF

omit [DecidableEq File] in
/-- A positioning keeps the handle on its file. -/
theorem seek_opened (volume : Volume File) {handle : Handle} {found : OpenFile File}
    (isOpen : volume.opened handle = some found) (position : UInt64) :
    ∃ place, (volume.seek handle position).2.opened handle =
      some { found with position := place } := by
  simp only [seek, isOpen]
  split
  · exact ⟨found.position, isOpen⟩
  · exact ⟨_, Function.update_self _ _ _⟩

omit [DecidableEq File] in
/-- A successful positioning at the end leads there. -/
theorem seek_end (volume : Volume File) {handle : Handle} {found : OpenFile File}
    (isOpen : volume.opened handle = some found) {bytes : List UInt8}
    (stored : volume.contents found.file = some bytes)
    (worked : efiError (volume.seek handle endOfFile).1 = false) :
    (volume.seek handle endOfFile).2.opened handle =
      some { found with position := bytes.length } := by
  have calm : efiError volume.fault.status = false := by
    by_contra failed
    rw [Bool.not_eq_false] at failed
    simp [seek, isOpen, failed] at worked
  simp [seek, isOpen, calm, endOfFile, stored]

/-! ## Files that exist -/

/-- Every existing file keeps its bytes, and the account table its entries. A file may come into
being, because opening for writing creates it. -/
structure Undisturbed (before after : Machine (Volume File × τ)) : Prop where
  accounts : after.accounts = before.accounts
  traced : Emits (fun _ => True) before after
  files : ∀ file bytes, before.firmware.1.contents file = some bytes →
    after.firmware.1.contents file = some bytes

omit [DecidableEq File] in
/-- A machine with the same accounts, steps and files is undisturbed. -/
theorem Undisturbed.of_eq {before after : Machine (Volume File × τ)}
    (accounts : after.accounts = before.accounts) (traced : after.trace = before.trace)
    (firmware : after.firmware = before.firmware) : Undisturbed before after :=
  ⟨accounts, emits_same traced, fun _ _ stored => firmware ▸ stored⟩

instance : Std.Refl (α := Machine (Volume File × τ)) Undisturbed :=
  ⟨fun _ => Undisturbed.of_eq rfl rfl rfl⟩

instance : IsTrans (Machine (Volume File × τ)) Undisturbed := ⟨fun first second third early late =>
  ⟨late.accounts.trans early.accounts, IsTrans.trans first second third early.traced late.traced,
    fun file bytes stored => late.files file bytes (early.files file bytes stored)⟩⟩

omit [DecidableEq File] in
/-- A call that keeps existing files disturbs nothing. -/
theorem undisturbed_call {α : Type}
    (operation : Volume File × τ → α × (Volume File × τ)) (event : α → Event)
    (kept : ∀ state file bytes, state.1.contents file = some bytes →
      (operation state).2.1.contents file = some bytes) :
    Keeps Undisturbed (call operation event) := by
  constructor
  intro machine answer after ran
  cases ran
  exact ⟨rfl, ⟨[_], rfl, by simp⟩, kept machine.firmware⟩

variable (resolve : Text → File) (device : Firmware τ)

/-- The calls that are not meant to change files do not disturb them. -/
instance : QuietFrame (firmware resolve device) Undisturbed where
  setModes _ := keeps_modify fun _ => Undisturbed.of_eq rfl rfl rfl
  locateProtocol := undisturbed_call _ _ fun _ _ _ stored => stored
  openVolume fs := by
    apply undisturbed_call
    intro state file bytes stored
    rw [firmware_openVolume, (openRoot_effect state.1).1]
    exact stored
  openFile _ path mode _ := undisturbed_call _ _ fun state _ _ stored =>
    openPath_kept state.1 (resolve path) mode stored
  closeFile _ := undisturbed_call _ _ fun _ _ _ stored => stored
  readFile handle size := by
    apply keeps_bind
    · apply undisturbed_call
      intro state file bytes stored
      simp only [firmware]
      split
      · rw [readPath_contents]
        exact stored
      · exact stored
    · intro answer
      exact keeps_ite (fun _ => keeps_pure answer) (fun _ => keeps_throw Stop.overrun)
  setPosition handle position := by
    apply undisturbed_call
    intro state file bytes stored
    have same := seek_contents state.1 handle position
    exact (congrFun same file).trans stored
  flushFile _ := keeps_ite
    (fun _ => keeps_bind (undisturbed_call _ _ fun _ _ _ stored => stored) fun _ => keeps_pure ())
    (fun _ => keeps_pure ())
  outputString _ := undisturbed_call _ _ fun _ _ _ stored => stored
  readKeyStroke := undisturbed_call _ _ fun _ _ _ stored => stored

/-- A volume without faults stays without faults, as calls only consume the schedule. -/
def StaysFaultless (before after : Machine (Volume File × τ)) : Prop :=
  before.firmware.1.faults = [] → after.firmware.1.faults = []

instance : Std.Refl (α := Machine (Volume File × τ)) StaysFaultless := ⟨fun _ faultless => faultless⟩

instance : IsTrans (Machine (Volume File × τ)) StaysFaultless :=
  ⟨fun _ _ _ early late faultless => late (early faultless)⟩

omit [DecidableEq File] in
/-- A call that consumes at most entries of the schedule. -/
theorem staysFaultless_call {α : Type}
    (operation : Volume File × τ → α × (Volume File × τ)) (event : α → Event)
    (kept : ∀ state, state.1.faults = [] → (operation state).2.1.faults = []) :
    Keeps StaysFaultless (call operation event) := by
  constructor
  intro machine answer after ran
  cases ran
  exact kept machine.firmware

omit [DecidableEq File] in
/-- An empty schedule stays empty. -/
theorem spent_faultless {volume : Volume File} (faultless : volume.faults = []) :
    volume.spent.faults = [] := by
  rw [spent_faults, faultless, List.drop_nil]

/-- No call adds a fault. -/
instance : QuietFrame (firmware resolve device) StaysFaultless where
  setModes _ := keeps_modify fun _ faultless => faultless
  locateProtocol := staysFaultless_call _ _ fun _ faultless => spent_faultless faultless
  openVolume fs := by
    apply staysFaultless_call
    intro state faultless
    rw [firmware_openVolume, (openRoot_effect state.1).2.1, faultless, List.drop_nil]
  openFile _ path mode _ := by
    apply staysFaultless_call
    intro state faultless
    have consumed : (state.1.openPath (resolve path) mode).2.faults = [] := by
      rcases openPath_cases state.1 (resolve path) mode with ⟨_, unchanged, _⟩ | ⟨_, _, fresh⟩
      · rw [unchanged]
        exact spent_faultless faultless
      · rw [fresh.faults, faultless, List.drop_nil]
    exact consumed
  closeFile _ := staysFaultless_call _ _ fun _ faultless => spent_faultless faultless
  readFile handle size := by
    apply keeps_bind
    · apply staysFaultless_call
      intro state faultless
      simp only [firmware]
      split
      · rw [readPath_faults, faultless, List.drop_nil]
      · exact faultless
    · intro answer
      exact keeps_ite (fun _ => keeps_pure answer) (fun _ => keeps_throw Stop.overrun)
  setPosition handle position := by
    apply staysFaultless_call
    intro state faultless
    have consumed := seek_faults state.1 handle position
    rw [faultless, List.drop_nil] at consumed
    exact consumed
  flushFile _ := keeps_ite
    (fun _ => keeps_bind (staysFaultless_call _ _ fun _ faultless => spent_faultless faultless)
      fun _ => keeps_pure ())
    (fun _ => keeps_pure ())
  outputString _ := staysFaultless_call _ _ fun _ faultless => faultless
  readKeyStroke := staysFaultless_call _ _ fun _ faultless => faultless

/-- One file, if it exists, keeps its bytes and grows at most at its end; the account table
keeps its entries. -/
structure Grown (file : File) (before after : Machine (Volume File × τ)) : Prop where
  accounts : after.accounts = before.accounts
  grown : ∀ bytes, before.firmware.1.contents file = some bytes →
    ∃ more, after.firmware.1.contents file = some (bytes ++ more)

omit [DecidableEq File] in
/-- Where nothing is disturbed, every file keeps its bytes. -/
theorem Undisturbed.grown {before after : Machine (Volume File × τ)}
    (undisturbed : Undisturbed before after) (file : File) : Grown file before after := by
  refine ⟨undisturbed.accounts, fun bytes stored => ⟨[], ?_⟩⟩
  rw [undisturbed.files file bytes stored, List.append_nil]

instance (file : File) : Std.Refl (α := Machine (Volume File × τ)) (Grown file) :=
  ⟨fun machine => (Std.Refl.refl (r := Undisturbed) machine).grown file⟩

instance (file : File) : IsTrans (Machine (Volume File × τ)) (Grown file) := ⟨by
  intro first second third early late
  refine ⟨late.accounts.trans early.accounts, fun bytes stored => ?_⟩
  obtain ⟨more, middle⟩ := early.grown bytes stored
  obtain ⟨further, final⟩ := late.grown (bytes ++ more) middle
  exact ⟨more ++ further, by rw [final, List.append_assoc]⟩⟩

instance (file : File) : QuietFrame (firmware resolve device) (Grown file) :=
  QuietFrame.mono (R := Undisturbed) inferInstance fun _ _ undisturbed => undisturbed.grown file

/-- What opening a path does: it disturbs nothing, and a handle it returns is a fresh one of
the file that the path stands for. -/
theorem wp_opened (path : Memory) (mode attributes : UInt64)
    (machine : Machine (Volume File × τ)) :
    wp (openOnVolume (firmware resolve device) path mode attributes)
      (fun opened after => Undisturbed machine after ∧ ∀ handle, opened = some handle →
        ∃ name, scan path = some name ∧
          Fresh (resolve name) mode 4 machine.firmware.1 after.firmware.1 handle)
      (fun _ => True) machine := by
  have undisturbed : Keeps Undisturbed
      (openOnVolume (firmware resolve device) path mode attributes) :=
    (Composed.openOnVolume path mode attributes (Or.inr trivial)).keepsQuiet
  apply wp_and ((keeps_iff_wp _).mp undisturbed machine)
  cases readable : scan path with
  | none =>
    apply wp_mono (openOnVolume_unreadable _ path mode attributes readable machine)
    · rintro _ _ rfl handle returned
      cases returned
    · exact fun _ _ => trivial
  | some name =>
    apply wp_openOnVolume resolve device path name mode attributes readable
    · intro _ _ _ _ _ handle returned
      cases returned
    · intro after handle _ fresh _ other returned
      obtain rfl := Option.some.inj returned
      exact ⟨name, rfl, fresh⟩

end ExistentOS.Volume
