import ExistentOS.Terminal.Storing

/-!
# What `write` and `append` leave of a file

Both overwrite from a position on and never cut a file off. So the end of a longer file is still
there behind what `write` stores, and an `append` whose positioning fails writes over the start of
the file.
-/

namespace ExistentOS.Terminal

open Programs Terminated Volume

section Files

variable {File τ : Type} [DecidableEq File] (resolve : Text → File) (device : Firmware τ)
  {line path : Text} {words : List Text} {machine : Machine (Volume File × τ)}

/-! ## Writing -/

/-- A `write` without failing calls stores its line at the start of the file. -/
theorem write_volume (fuel : Nat) (store : StoreLine "write" line path words)
    (calm : machine.firmware.1.faults = []) :
    ∃ done after,
      StoreRun (Volume.firmware resolve device) (fuel + 1) line "write" path words false machine done
        after ∧
      done = machine.canLocate ∧
      (machine.canLocate = true → after.firmware.1.contents (resolve path) = some (lineOf words ++
        ((machine.firmware.1.contents (resolve path)).getD []).drop (lineOf words).length)) := by
  have named : ("write", false) ∈ storeNames := List.mem_cons_self
  obtain ⟨done, after, run, _, _, _, refused, opens⟩ :=
    store_volume resolve device fuel named store.single store.nonempty machine
  rw [refused_calm calm] at refused opens
  refine ⟨done, after, run, ?_, fun available => ?_⟩
  · cases available : machine.canLocate with
    | false => exact (refused available).1
    | true =>
      have answer := (opens (by rw [available]; exact Bool.noConfusion)).1
      rw [answer, faultAt_of_nil calm, faultAt_of_nil calm]
      rfl
  · have content := (opens (by rw [available]; exact Bool.noConfusion)).2
    rw [content, Function.update_self, faultAt_of_nil calm, faultAt_of_nil calm, ← overlay_start]
    rfl

/-- The content of a file after a reported `write` is its line, if and only if the file was not
longer before. The code writes from the start of the file on and never shortens it. -/
theorem write_replaces_iff (fuel : Nat) (store : StoreLine "write" line path words)
    (calm : machine.firmware.1.faults = []) :
    ∃ done after,
      StoreRun (Volume.firmware resolve device) (fuel + 1) line "write" path words false machine done
        after ∧
      ((done = true → after.firmware.1.contents (resolve path) = some (lineOf words)) ↔
        (machine.canLocate = true →
          ((machine.firmware.1.contents (resolve path)).getD []).length ≤ (lineOf words).length)) := by
  obtain ⟨done, after, run, rfl, content⟩ := write_volume resolve device fuel store calm
  refine ⟨machine.canLocate, after, run, forall_congr' fun available => ?_⟩
  rw [content available, Option.some.injEq, List.append_right_eq_self, List.drop_eq_nil_iff]

/-! ## Appending -/

/-- A write transfers everything, or it fails and changes nothing. -/
def Atomic (volume : Volume File) : Prop :=
  ∀ fault ∈ volume.faults, fault.writeAtMost = if efiError fault.status then some 0 else none

omit [DecidableEq File] in
/-- Every write of an atomic schedule transfers everything or nothing. -/
theorem Atomic.at {volume : Volume File} (atomic : Atomic volume) (calls : Nat) :
    (volume.faultAt calls).writeAtMost =
      if efiError (volume.faultAt calls).status then some 0 else none := by
  rw [faultAt, List.getD_eq_getElem?_getD]
  cases scheduled : volume.faults[calls]? with
  | none => rfl
  | some fault => exact atomic fault (List.mem_of_getElem? scheduled)

/-- Bytes survive being overwritten at their start by bytes that agree with them only. -/
theorem prefix_overlay_iff (content line : List UInt8) :
    content <+: overlay content 0 line ↔ line <+: content ∨ content <+: line := by
  rw [overlay_start]
  constructor
  · intro kept
    rcases Nat.le_total content.length line.length with short | long
    · exact Or.inr (List.prefix_of_prefix_length_le kept (List.prefix_append line _) short)
    · exact Or.inl (List.prefix_of_prefix_length_le (List.prefix_append line _) kept long)
  · rintro (⟨rest, rfl⟩ | extended)
    · rw [List.drop_left]
    · exact extended.trans (List.prefix_append line _)

/-- What an `append` stores has the old content as a prefix, if and only if the positioning works,
or nothing is written, or what is written agrees with what is overwritten. -/
theorem prefix_storedContent_iff {seek write : Fault}
    (atomic : write.writeAtMost = if efiError write.status then some 0 else none)
    (content line : List UInt8) :
    content <+: storedContent seek write true content line ↔
      efiError seek.status = false ∨ efiError write.status = true ∨ line <+: content ∨
        content <+: line := by
  rw [storedContent, if_pos rfl, if_pos rfl, atomic]
  cases seeks : efiError seek.status with
  | false =>
    have appended : content <+: overlay content content.length
        (capped (if efiError write.status then some 0 else none) line) := by
      rw [overlay_end]
      exact List.prefix_append content _
    exact iff_of_true appended (Or.inl rfl)
  | true =>
    cases writes : efiError write.status with
    | true =>
      have untouched : content <+: overlay content 0 (capped (some 0) line) := by
        rw [capped_zero, overlay_start]
        exact List.prefix_refl content
      exact iff_of_true untouched (Or.inr (Or.inl rfl))
    | false =>
      have overwritten := prefix_overlay_iff content line
      simpa using overwritten

/-- The content of a file after an `append` has the content before it as a prefix, if and only if
nothing is written, or the positioning works, or the line agrees with what it overwrites. The
code drops the status of the positioning for an `append`, and looks at it for a `write`. -/
theorem append_keeps_iff (fuel : Nat) (single : Single line (text "append" :: path :: words))
    (atomic : Atomic machine.firmware.1) {content : List UInt8}
    (holds : machine.firmware.1.contents (resolve path) = some content) :
    ∃ after, (terminalExecuteCommand (Volume.firmware resolve device) (fuel + 1) (line ++ [0])).run
        machine = .ok (false, after) ∧
      ((∃ later, after.firmware.1.contents (resolve path) = some later ∧ content <+: later) ↔
        words = [] ∨ Refused (resolve path) createMode machine ∨
          efiError (machine.firmware.1.faultAt 4).status = false ∨
          efiError (machine.firmware.1.faultAt 5).status = true ∨
          lineOf words <+: content ∨ content <+: lineOf words) := by
  have named : ("append", true) ∈ storeNames := List.mem_of_getElem? (i := 1) rfl
  have kept : ∀ {after : Machine (Volume File × τ)},
      after.firmware.1.contents = machine.firmware.1.contents →
      ∃ later, after.firmware.1.contents (resolve path) = some later ∧ content <+: later :=
    fun same => ⟨content, same ▸ holds, List.prefix_refl content⟩
  by_cases nothing : words = []
  · subst nothing
    have usage : (0 : CHAR16) ∉ text "usage: write|append <file> <text" := by decide
    have row := interpret_storeNothing (Volume.firmware resolve device) fuel named single
      Nat.one_lt_two
    obtain ⟨buffer, command⟩ := run_row row (shows_reply usage (commanded machine "append" _))
    refine ⟨_, command, iff_of_true (kept ?_) (Or.inl rfl)⟩
    exact congrArg Volume.contents (afterWrites_volume resolve device _ _)
  · obtain ⟨done, after, run, _, _, _, refused, opens⟩ :=
      store_volume resolve device fuel named single nothing machine
    refine ⟨after, run.command, ?_⟩
    by_cases stays : Refused (resolve path) createMode machine
    · exact iff_of_true (kept (refused stays).2) (Or.inr (Or.inl stays))
    · rw [(opens stays).2, Function.update_self, holds, or_iff_right nothing, or_iff_right stays,
        ← prefix_storedContent_iff (atomic.at 5)]
      simp

end Files

/-! ## Short lines over a longer file -/

/-- A volume with one file of three bytes. -/
def abcFile (faults : List Fault) : Machine (Volume Text × Unit) :=
  started (fun name => if name = text "f" then some [97, 98, 99] else none) faults

/-- The sample `write` stores one letter. -/
theorem write_letter : StoreLine "write" (text "write f x") (text "f") [text "x"] :=
  ⟨by constructor <;> decide, by decide, by decide⟩

/-- The sample `append` stores one letter. -/
theorem append_letter : StoreLine "append" (text "append f x") (text "f") [text "x"] :=
  ⟨by constructor <;> decide, by decide, by decide⟩

/-- A letter and a line end are shorter than the file of three bytes, so the `write` succeeds and
leaves something else than its line. -/
theorem write_replaces_letter :
    ∃ done after,
      StoreRun (Volume.firmware id quiet) 1 (text "write f x") "write" (text "f") [text "x"] false
        (abcFile []) done after ∧
      done = true ∧ after.firmware.1.contents (text "f") ≠ some (lineOf [text "x"]) := by
  obtain ⟨done, after, run, exactly⟩ := write_replaces_iff id quiet 0 write_letter
    (show (abcFile []).firmware.1.faults = [] from rfl)
  have longer : ¬ ((abcFile []).canLocate = true →
      (((abcFile []).firmware.1.contents (text "f")).getD []).length ≤
        (lineOf [text "x"]).length) := by decide
  exact ⟨done, after, run, Classical.not_imp.mp (mt exactly.mp longer)⟩

/-- The last byte of the file is still there. -/
theorem write_leaves_rest :
    ∃ after,
      StoreRun (Volume.firmware id quiet) 1 (text "write f x") "write" (text "f") [text "x"] false
        (abcFile []) true after ∧
      after.firmware.1.contents (text "f") = some [120, 10, 99] ∧ lineOf [text "x"] = [120, 10] := by
  have calm : (abcFile []).firmware.1.faults = [] := rfl
  obtain ⟨done, after, run, rfl, content⟩ := write_volume id quiet 0 write_letter calm
  have available : (abcFile []).canLocate = true := rfl
  rw [available] at run
  exact ⟨after, run, content available, rfl⟩

/-- A schedule in which only the positioning fails. -/
def seekFails : List Fault := List.replicate 4 Fault.absent ++ [⟨efiDeviceError, none, some 0⟩]

/-- Where no call fails, the letter is stored behind the three bytes of the file. -/
theorem append_keeps_letter :
    ∃ after, (terminalExecuteCommand (Volume.firmware id quiet) 1 (text "append f x" ++ [0])).run
        (abcFile []) = .ok (false, after) ∧
      ∃ later, after.firmware.1.contents (text "f") = some later ∧ [97, 98, 99] <+: later := by
  obtain ⟨after, run, exactly⟩ := append_keeps_iff id quiet 0 append_letter.single
    (show Atomic (abcFile []).firmware.1 from fun _ member => absurd member List.not_mem_nil)
    (show (abcFile []).firmware.1.contents (text "f") = some [97, 98, 99] from rfl)
  have positioned : efiError ((abcFile []).firmware.1.faultAt 4).status = false := rfl
  exact ⟨after, run, exactly.mpr (Or.inr (Or.inr (Or.inl positioned)))⟩

/-- The start of the file is overwritten. -/
theorem append_loses_start :
    ∃ after, (terminalExecuteCommand (Volume.firmware id quiet) 1 (text "append f x" ++ [0])).run
        (abcFile seekFails) = .ok (false, after) ∧
      after.firmware.1.contents (text "f") = some [120, 10, 99] ∧
      ¬ [97, 98, 99] <+: ([120, 10, 99] : List UInt8) := by
  have named : ("append", true) ∈ storeNames := List.mem_of_getElem? (i := 1) rfl
  obtain ⟨_, after, run, _, _, _, _, opens⟩ := store_volume id quiet 0 named append_letter.single
    append_letter.nonempty (abcFile seekFails)
  have isOpen : ¬ Refused (text "f") createMode (abcFile seekFails) := by decide
  exact ⟨after, run.command, by rw [(opens isOpen).2]; rfl, by decide⟩

end ExistentOS.Terminal
