import ExistentOS.Terminal.FileCommands
import ExistentOS.VolumeFrames

/-!
# File commands on a volume

Which files `rm`, `write` and `append` can touch. They act on the file of their path only,
and an append only extends it, provided that the positioning at its end has worked: the
source goes on after a failed one and then writes at the start.
-/

namespace ExistentOS.Terminal

open Programs Terminated Volume

/-- Every positioning at the end of a file has worked. -/
def SeeksEnd (events : List Event) : Prop :=
  ∀ file status, Event.setPosition file endOfFile status ∈ events → efiError status = false

instance : Hereditary SeeksEnd :=
  ⟨fun within seeks file status member => seeks file status (within member)⟩

section Traces

variable {σ : Type} (fw : Firmware σ) (stored : List Memory) (append : Bool)

/-- Storing words only extends the trace, from every step on. -/
theorem emits_storePositioned (file : Handle) (positioned : EfiStatus) :
    Keeps (Emits fun _ => True) (if ¬ append ∧ efiError positioned then do
        let _ ← closeFile fw file
        return false
      else storeHere fw file stored) :=
  (composed_storePositioned (fun _ _ named => named) (Or.inr trivial) file append
    positioned).emitsFiles

/-- Storing in a file only adds to the trace. -/
theorem emits_storeInto (file : Handle) :
    Keeps (Emits fun _ => True) (storeInto fw file stored append) :=
  (composed_storeInto (fun _ _ named => named) (Or.inr trivial) file append).emitsFiles

/-- `write` and `append` only add to the trace. -/
theorem emits_terminalWriteFile (path : Memory) :
    Keeps (Emits fun _ => True) (terminalWriteFile fw path stored append) :=
  (composed_terminalWriteFile (fun _ _ named => named) (Or.inr trivial) (Or.inr trivial)
    append).emitsFiles

end Traces

/-- An append records its positioning at the end. -/
theorem storeInto_seeks {σ : Type} (fw : Firmware σ) {file : Handle} {stored : List Memory}
    {machine after : Machine σ} {result : Bool} {events : List Event}
    (ran : (storeInto fw file stored true).run machine = .ok (result, after))
    (traced : after.trace = machine.trace ++ events) :
    Event.setPosition file endOfFile (fw.setPosition file endOfFile machine.firmware).1 ∈
      events := by
  obtain ⟨_, middle, positioned, behind⟩ := (run_bind_ok _ _ _ _).mp ran
  cases positioned
  obtain ⟨late, extended, _⟩ :=
    (emits_storePositioned fw stored true file _).related _ result after behind
  rw [extended, called_trace, List.append_assoc, List.append_cancel_left_eq] at traced
  rw [← traced]
  exact List.mem_cons_self

variable {File τ : Type} [DecidableEq File] (resolve : Text → File) (device : Firmware τ)
  {file : File}

instance (condition : List Event → Prop) [Hereditary condition] :
    QuietFrame (Volume.firmware resolve device) (Provided condition (Grown file)) :=
  QuietFrame.mono (R := Undisturbed) inferInstance fun _ _ undisturbed =>
    provided_of undisturbed.traced (undisturbed.grown file)

/-- Removing another file leaves this one as it is. -/
theorem grown_terminalRemoveFile (path : Memory)
    (spared : ∀ name, scan path = some name → resolve name ≠ file) :
    Keeps (Grown file) (terminalRemoveFile (Volume.firmware resolve device) path) := by
  rw [keeps_iff_wp]
  intro machine
  rw [terminalRemoveFile, wp_bind]
  apply wp_mono (wp_opened resolve device path updateMode 0 machine)
  · rintro (_ | handle) opened ⟨undisturbed, fresh⟩
    · exact undisturbed.grown file
    · obtain ⟨name, readable, isFresh⟩ := fresh handle rfl
      rw [wp_bind]
      apply wp_deleteFile resolve device handle
      intro after frame volume
      have deleted : Grown file opened after := by
        refine ⟨frame.accounts, fun bytes stored => ⟨[], ?_⟩⟩
        rw [volume, deletePath_other _ isFresh.opened (spared name readable), stored,
          List.append_nil]
      exact IsTrans.trans machine opened after (undisturbed.grown file) deleted
  · exact fun _ _ => trivial

/-- Storing at the position of a handle, on another file or at the end of this one. -/
theorem wp_storeHere (handle : Handle) (stored : List Memory) (found : OpenFile File)
    {machine : Machine (Volume File × τ)} (isOpen : machine.firmware.1.opened handle = some found)
    (spared : found.file ≠ file ∨ ∀ bytes, machine.firmware.1.contents found.file = some bytes →
      found.position = bytes.length) :
    wp (storeHere (Volume.firmware resolve device) handle stored)
      (fun _ after => Grown file machine after) (fun _ => True) machine := by
  rw [storeHere, wp_bind, wp_orOverrun]
  refine ⟨fun bytes _ => ?_, fun _ => trivial⟩
  rw [wp_bind, wp_orOverrun]
  refine ⟨fun line _ => ?_, fun _ => trivial⟩
  rw [wp_bind]
  apply wp_writeFile resolve device handle
  intro written frame volume
  have grown : Grown file machine written := by
    refine ⟨frame.accounts, fun content present => ?_⟩
    rw [volume]
    by_cases same : found.file = file
    · subst same
      have atEnd := spared.resolve_left (fun other => other rfl)
      exact writePath_end _ isOpen _ present (atEnd content present)
    · exact ⟨[], by rw [writePath_other _ isOpen _ same, present, List.append_nil]⟩
  have behind : ∀ {program : Routine (Volume File × τ) Bool}, Keeps (Grown file) program →
      wp program (fun _ after => Grown file machine after) (fun _ => True) written := by
    intro program kept
    apply wp_mono ((keeps_iff_wp program).mp kept written)
    · exact fun _ after later => IsTrans.trans machine written after grown later
    · exact fun _ _ => trivial
  apply behind
  apply keeps_ite
  · intro _
    exact keeps_bind (QuietFrame.closeFile handle) (fun _ => keeps_pure false)
  · intro _
    apply keeps_bind (QuietFrame.flushFile handle)
    intro _
    exact keeps_bind (QuietFrame.closeFile handle) (fun _ => keeps_pure true)

/-- Storing through an open handle, on another file or as an append whose positioning
works. -/
theorem wp_storeInto (handle : Handle) (stored : List Memory) (append : Bool)
    (found : OpenFile File) {machine : Machine (Volume File × τ)}
    (isOpen : machine.firmware.1.opened handle = some found)
    (spared : found.file ≠ file ∨
      append = true ∧ efiError (machine.firmware.1.seek handle endOfFile).1 = false) :
    wp (storeInto (Volume.firmware resolve device) handle stored append)
      (fun _ after => Grown file machine after) (fun _ => True) machine := by
  rw [storeInto, wp_bind]
  apply wp_setPosition resolve device handle
  intro positioned frame volume
  have kept : Grown file machine positioned := by
    refine ⟨frame.accounts, fun bytes present => ⟨[], ?_⟩⟩
    rw [volume, seek_contents, present, List.append_nil]
  have onwards : ∀ {program : Routine (Volume File × τ) Bool},
      wp program (fun _ after => Grown file positioned after) (fun _ => True) positioned →
      wp program (fun _ after => Grown file machine after) (fun _ => True) positioned :=
    fun holds => wp_mono holds
      (fun _ after later => IsTrans.trans machine positioned after kept later) (fun _ _ => trivial)
  apply onwards
  rw [wp_ite]
  constructor
  · intro _
    exact (keeps_iff_wp _).mp
      (keeps_bind (QuietFrame.closeFile handle) (fun _ => keeps_pure false)) positioned
  · intro _
    obtain ⟨place, moved⟩ := seek_opened machine.firmware.1 isOpen
      (if append then 0xFFFFFFFFFFFFFFFF else 0)
    apply wp_storeHere resolve device handle stored { found with position := place }
    · rw [volume]
      exact moved
    · rcases spared with other | ⟨rfl, worked⟩
      · exact Or.inl other
      · refine Or.inr fun bytes present => ?_
        rw [volume, seek_contents] at present
        have atEnd := seek_end machine.firmware.1 isOpen present worked
        exact congrArg OpenFile.position (Option.some.inj (moved.symm.trans atEnd))

/-- Storing in another file leaves this one as it is. -/
theorem grown_terminalWriteFile (path : Memory) (stored : List Memory) (append : Bool)
    (spared : ∀ name, scan path = some name → resolve name ≠ file) :
    Keeps (Grown file) (terminalWriteFile (Volume.firmware resolve device) path stored append) := by
  rw [keeps_iff_wp]
  intro machine
  rw [terminalWriteFile, wp_bind]
  apply wp_mono (wp_opened resolve device path createMode efiFileArchive machine)
  · rintro (_ | handle) opened ⟨undisturbed, fresh⟩
    · exact undisturbed.grown file
    · obtain ⟨name, readable, isFresh⟩ := fresh handle rfl
      apply wp_mono (wp_storeInto resolve device handle stored append _ isFresh.opened
        (Or.inl (spared name readable)))
      · exact fun _ after later =>
          IsTrans.trans machine opened after (undisturbed.grown file) later
      · exact fun _ _ => trivial
  · exact fun _ _ => trivial

/-- Appending to any file, if the positioning works. -/
theorem grown_append (path : Memory) (stored : List Memory) :
    Keeps (Provided SeeksEnd (Grown file))
      (terminalWriteFile (Volume.firmware resolve device) path stored true) := by
  apply keeps_provided (emits_terminalWriteFile _ stored true path)
  intro machine result after events ran traced seeks
  obtain ⟨found, opened, first, behind⟩ := (run_bind_ok _ _ _ _).mp ran
  obtain ⟨undisturbed, fresh⟩ :=
    wp_returns (wp_opened resolve device path createMode efiFileArchive machine) first
  cases found with
  | none =>
    cases behind
    exact undisturbed.grown file
  | some handle =>
    obtain ⟨name, readable, isFresh⟩ := fresh handle rfl
    obtain ⟨early, extended, _⟩ := undisturbed.traced
    obtain ⟨late, further, _⟩ := (emits_storeInto _ stored true handle).related _ _ _ behind
    have member := storeInto_seeks _ behind further
    have split : events = early ++ late := by
      rw [further, extended, List.append_assoc, List.append_cancel_left_eq] at traced
      exact traced.symm
    have worked := seeks handle _ (split ▸ List.mem_append_right early member)
    have holds : wp (storeInto (Volume.firmware resolve device) handle stored true)
        (fun _ reached => Grown file opened reached) (fun _ => True) opened :=
      wp_storeInto resolve device handle stored true _ isFresh.opened (Or.inr ⟨rfl, worked⟩)
    have grown := ((wp_iff _ _ _ _).mp holds).1 result after behind
    exact IsTrans.trans machine opened after (undisturbed.grown file) grown

end ExistentOS.Terminal
