import ExistentOS.Terminal.Workspace

/-!
# File commands on a volume without failing calls

What `touch`, `rm`, `write`, `append`, `cat` and `source` do on a volume on which every call works:
each is one update of the file map, or shows or runs a file, and reports success exactly if the file
that it needs is there.
-/

namespace ExistentOS.Terminal

open Programs Terminated Runs Volume Traces

variable {File τ : Type} [DecidableEq File] (resolve : Text → File) (device : Firmware τ)

/-- A part of a run leaves a content in one file, or removes it, and shows nothing. -/
structure Leaves (file : File) (content : Option (List UInt8))
    (before after : Machine (Volume File × τ)) : Prop where
  frame : OnlyFirmware before after
  silent : ∃ events, after.trace = before.trace ++ events ∧ output events = []
  contents : after.firmware.1.contents =
    Function.update before.firmware.1.contents file content
  faults : after.firmware.1.faults <:+ before.firmware.1.faults

/-- Calls that show nothing. -/
theorem Unmarking.silent {σ α : Type} {routine : Routine σ α} (unmarking : Unmarking routine)
    {machine after : Machine σ} {value : α} (ran : routine.run machine = .ok (value, after)) :
    ∃ events, after.trace = machine.trace ++ events ∧ output events = [] := by
  obtain ⟨events, traced, silent, _⟩ := unmarking machine value after ran
  exact ⟨events, traced, by rw [output, silent]; rfl⟩

/-! ## Opening -/

/-- A file that is there, or that the mode creates, is opened and then holds what it held. -/
theorem run_open_calm {path : Memory} {name : Text} (readable : scan path = some name)
    (mode attributes : UInt64) {machine : Machine (Volume File × τ)}
    (calm : machine.firmware.1.faults = []) (locates : machine.canLocate = true)
    (present : (machine.firmware.1.contents (resolve name)).isSome = true ∨ creates mode = true) :
    ∃ handle after, (terminalOpenFile (Volume.firmware resolve device) path mode attributes).run
        machine = .ok (some handle, after) ∧
      Leaves (resolve name) (some ((machine.firmware.1.contents (resolve name)).getD [])) machine
        after ∧
      after.firmware.1.opened handle = some ⟨resolve name, 0, writes mode⟩ := by
  have unrefused : ¬ Refused (resolve name) mode machine := by
    refine not_refused locates (fun calls _ => ?_) present
    rw [faultAt_of_nil calm]
    decide
  have total := wp_openOnVolume (E := fun _ => False) resolve device path name mode attributes
    readable (fun opened after => ∃ handle, opened = some handle ∧ OnlyFirmware machine after ∧
      Fresh (resolve name) mode 4 machine.firmware.1 after.firmware.1 handle)
    (fun _ _ _ _ refused => absurd refused unrefused)
    (fun after handle frame fresh _ => ⟨handle, rfl, frame, fresh⟩)
  obtain ⟨_, after, ran, handle, rfl, frame, fresh⟩ := (wp_total_iff _ _ _).mp total
  have faults : after.firmware.1.faults <:+ machine.firmware.1.faults := by
    rw [fresh.faults]
    exact List.drop_suffix 4 _
  have silent := (unmarking_openOnVolume path mode attributes).silent ran
  exact ⟨handle, after, ran, ⟨frame, silent, fresh.contents, faults⟩, fresh.opened⟩

/-- A missing file is not opened unless it is created. -/
theorem run_open_missing {path : Memory} {name : Text} (readable : scan path = some name)
    (mode attributes : UInt64) {machine : Machine (Volume File × τ)}
    (missing : machine.firmware.1.contents (resolve name) = none) (keeps : creates mode = false) :
    ∃ after, (terminalOpenFile (Volume.firmware resolve device) path mode attributes).run machine =
      .ok (none, after) ∧ Displays [] machine after := by
  have refused : Refused (resolve name) mode machine := Or.inr (Or.inr ⟨missing, keeps⟩)
  have total := wp_openOnVolume (E := fun _ => False) resolve device path name mode attributes
    readable (fun opened after => opened = none ∧ OnlyFirmware machine after ∧
      after.firmware.1.contents = machine.firmware.1.contents ∧
      after.firmware.1.faults <:+ machine.firmware.1.faults)
    (fun after frame contents faults _ => ⟨rfl, frame, contents, faults⟩)
    (fun _ _ _ _ opens => absurd refused opens)
  obtain ⟨_, after, ran, rfl, frame, contents, faults⟩ := (wp_total_iff _ _ _).mp total
  exact ⟨after, ran, frame, (unmarking_openOnVolume path mode attributes).silent ran, contents, faults⟩

variable {resolve} in
/-- A call behind an opening that updates the same file again, or leaves the files alone. -/
theorem Leaves.then {file : File} {content content' : Option (List UInt8)}
    {start machine after : Machine (Volume File × τ)} (leaves : Leaves file content start machine)
    (frame : OnlyFirmware machine after)
    (silent : ∃ events, after.trace = machine.trace ++ events ∧ output events = [])
    (contents : after.firmware.1.contents =
      Function.update machine.firmware.1.contents file content')
    (faults : after.firmware.1.faults <:+ machine.firmware.1.faults) :
    Leaves file content' start after := by
  obtain ⟨events, traced, nothing⟩ := leaves.silent
  obtain ⟨later, ended, nothingMore⟩ := silent
  refine ⟨leaves.frame.then frame, ⟨events ++ later, ?_, ?_⟩, ?_, faults.trans leaves.faults⟩
  · rw [ended, traced, List.append_assoc]
  · rw [output_append, nothing, nothingMore]
    rfl
  · rw [contents, leaves.contents, Function.update_idem]

/-- Opening a file for reading leaves everything as it is. -/
theorem run_open_reading {path : Memory} {name : Text} (readable : scan path = some name)
    {content : List UInt8} {machine : Machine (Volume File × τ)}
    (calm : machine.firmware.1.faults = []) (locates : machine.canLocate = true)
    (holds : machine.firmware.1.contents (resolve name) = some content) :
    ∃ handle opened, (terminalOpenFile (Volume.firmware resolve device) path efiFileModeRead 0).run
        machine = .ok (some handle, opened) ∧ Displays [] machine opened ∧
      opened.firmware.1.opened handle = some ⟨resolve name, 0, false⟩ := by
  obtain ⟨handle, opened, opens, leaves, isOpen⟩ := run_open_calm resolve device readable
    efiFileModeRead 0 calm locates (Or.inl (by rw [holds]; rfl))
  have reads : writes efiFileModeRead = false := by decide
  have same : opened.firmware.1.contents = machine.firmware.1.contents := by
    rw [leaves.contents, holds, Option.getD_some, ← holds, Function.update_eq_self]
  exact ⟨handle, opened, opens, ⟨leaves.frame, leaves.silent, same, leaves.faults⟩, reads ▸ isOpen⟩

/-! ## `touch` and `rm` -/

/-- `terminal_touch_file` creates a missing file and leaves others as they are. -/
theorem run_terminalTouchFile {path : Memory} {name : Text} (readable : scan path = some name)
    {machine : Machine (Volume File × τ)} (calm : machine.firmware.1.faults = [])
    (locates : machine.canLocate = true) :
    ∃ after, (terminalTouchFile (Volume.firmware resolve device) path).run machine =
        .ok (true, after) ∧
      Leaves (resolve name) (some ((machine.firmware.1.contents (resolve name)).getD [])) machine
        after := by
  obtain ⟨handle, opened, opens, leaves, _⟩ := run_open_calm resolve device readable createMode
    efiFileArchive calm locates (Or.inr (by decide))
  have closes : (closeFile (Volume.firmware resolve device) handle).run opened =
      .ok (opened.firmware.1.fault.status, opened.called
        (opened.firmware.1.spent.setOpened handle none, opened.firmware.2)
        (.close handle opened.firmware.1.fault.status)) := rfl
  have same : opened.firmware.1.contents (resolve name) =
      some ((machine.firmware.1.contents (resolve name)).getD []) := by
    rw [leaves.contents, Function.update_self]
  have contents : opened.firmware.1.contents = Function.update opened.firmware.1.contents
      (resolve name) (some ((machine.firmware.1.contents (resolve name)).getD [])) := by
    rw [← same, Function.update_eq_self]
  refine ⟨_, by rw [terminalTouchFile, run_bind_of_ok opens, run_bind_of_ok closes]; rfl, ?_⟩
  exact leaves.then (called_onlyFirmware opened _ _) ⟨[_], rfl, rfl⟩ contents
    (spent_suffix opened.firmware.1)

/-- `terminal_remove_file` removes a file that is there, on a volume without failing calls. -/
theorem run_terminalRemoveFile {path : Memory} {name : Text} (readable : scan path = some name)
    {machine : Machine (Volume File × τ)} (calm : machine.firmware.1.faults = [])
    (locates : machine.canLocate = true)
    (present : (machine.firmware.1.contents (resolve name)).isSome = true) :
    ∃ after, (terminalRemoveFile (Volume.firmware resolve device) path).run machine =
        .ok (true, after) ∧ Leaves (resolve name) none machine after := by
  obtain ⟨handle, opened, opens, leaves, isOpen⟩ := run_open_calm resolve device readable updateMode
    0 calm locates (Or.inl present)
  have still : opened.firmware.1.faults = [] := List.eq_nil_of_suffix_nil (calm ▸ leaves.faults)
  have works : ¬ efiError opened.firmware.1.fault.status = true := by
    rw [fault, faultAt_of_nil still]
    decide
  have writable : writes updateMode = true := by decide
  have deleted : opened.firmware.1.deletePath handle = (efiSuccess,
      (opened.firmware.1.spent.setOpened handle none).setContents (resolve name) none) := by
    simp [deletePath, isOpen, works, writable]
  have deletes : (deleteFile (Volume.firmware resolve device) handle).run opened =
      .ok ((opened.firmware.1.deletePath handle).1, opened.called
        ((opened.firmware.1.deletePath handle).2, opened.firmware.2)
        (.delete handle (opened.firmware.1.deletePath handle).1)) := rfl
  rw [deleted] at deletes
  refine ⟨_, by rw [terminalRemoveFile, run_bind_of_ok opens, run_bind_of_ok deletes]; rfl, ?_⟩
  exact leaves.then (called_onlyFirmware opened _ _) ⟨[_], rfl, rfl⟩ rfl
    (spent_suffix opened.firmware.1)

/-- `terminal_remove_file` fails for a missing file, which it does not create. -/
theorem run_terminalRemoveFile_missing {path : Memory} {name : Text}
    (readable : scan path = some name) {machine : Machine (Volume File × τ)}
    (missing : machine.firmware.1.contents (resolve name) = none) :
    ∃ after, (terminalRemoveFile (Volume.firmware resolve device) path).run machine =
      .ok (false, after) ∧ Displays [] machine after := by
  obtain ⟨after, fails, displays⟩ := run_open_missing resolve device readable updateMode 0
    missing (by decide)
  refine ⟨after, ?_, displays⟩
  rw [terminalRemoveFile, run_bind_of_ok fails]
  rfl

/-! ## `write` and `append` -/

/-- `terminal_write_file` stores a line at the end of the file, or over its start. -/
theorem run_terminalWriteFile {path : Memory} {name : Text} (readable : scan path = some name)
    {words : List Text} (free : ∀ word ∈ words, (0 : CHAR16) ∉ word) (nonempty : words ≠ [])
    (room : (words.map (·.length + 1)).sum < terminalMaxLine) (append : Bool)
    {machine : Machine (Volume File × τ)} (calm : machine.firmware.1.faults = [])
    (locates : machine.canLocate = true) :
    ∃ after, (terminalWriteFile (Volume.firmware resolve device) path (words.map (· ++ [0]))
        append).run machine = .ok (true, after) ∧
      Leaves (resolve name) (some (storedContent Fault.absent Fault.absent append
        ((machine.firmware.1.contents (resolve name)).getD []) (lineOf words))) machine after := by
  have whole := lineOf_length nonempty
  have short : ((joined space words).map (·.toUInt8)).length < terminalMaxLine := by
    rw [lineOf, List.length_append, List.length_singleton] at whole
    omega
  have stored := storeWords_joined free nonempty room
  have total := wp_terminalWriteFile_exact resolve device (E := fun _ => False) readable stored short
    append machine
  obtain ⟨done, after, ran, frame, faults, _, opens⟩ := (wp_total_iff _ _ _).mp total
  have unrefused : ¬ Refused (resolve name) createMode machine := by
    simp [refused_calm calm, locates]
  obtain ⟨rfl, contents⟩ := opens unrefused
  obtain ⟨events, traced, silent, _⟩ := storesIfDone_terminalWriteFile stored append machine _ after
    ran
  rw [faultAt_of_nil calm, faultAt_of_nil calm] at ran contents
  have done : storeDone Fault.absent Fault.absent append = true := by cases append <;> decide
  rw [done] at ran
  exact ⟨after, ran, frame, ⟨events, traced, by rw [output, silent]; rfl⟩, contents, faults⟩

/-! ## `cat` -/

/-- A string is cut off by the first zero. -/
theorem scan_cut (units : Text) : scan (units ++ [0]) = some (units.takeWhile (· ≠ 0)) := by
  induction units with
  | nil => simp [scan]
  | cons unit rest ih => by_cases zero : unit = 0 <;> simp [scan, zero, ih]

/-- A piece shows what is in front of its first zero. -/
theorem shows_showBytes {σ : Type} (fw : Firmware σ) (bytes : List UInt8) :
    ∃ texts, Shows fw texts () (showBytes fw bytes) ∧ texts.flatten = shownPiece bytes := by
  by_cases empty : bytes = []
  · subst empty
    exact ⟨[], shows_pure (), rfl⟩
  · refine ⟨[shownPiece bytes], ?_, by simp⟩
    have readable : scan (widened bytes ++ [0]) = some (shownPiece bytes) := scan_cut (widened bytes)
    rw [showBytes, if_pos empty]
    change Shows fw _ () (terminalWrite fw (widened bytes ++ [0]))
    rw [(terminalWrite_reads fw).same readable]
    exact shows_terminalWrite (scan_split _ _ readable).1

/-- What the pieces of a file from one on show. A zero in a piece cuts this piece off and not the
ones behind it. -/
def shownBehind (content : List UInt8) (piece : Nat) : Text :=
  (List.range' piece (content.length / catBufferSize + 1 - piece)).flatMap fun piece =>
    shownPiece ((content.drop (piece * catBufferSize)).take catBufferSize)

/-- Behind no piece the whole content is shown. -/
theorem shownBehind_zero (content : List UInt8) : shownBehind content 0 = shownContent content := by
  simp [shownBehind, shownContent, List.range_eq_range']

/-- What is shown behind some pieces is the next piece and what is shown behind it. -/
theorem shownBehind_piece {content : List UInt8} {piece : Nat}
    (inside : piece ≤ content.length / catBufferSize) :
    shownBehind content piece =
      shownPiece ((content.drop (piece * catBufferSize)).take catBufferSize) ++
        shownBehind content (piece + 1) := by
  have left : content.length / catBufferSize + 1 - piece =
      content.length / catBufferSize + 1 - (piece + 1) + 1 := by omega
  rw [shownBehind, left, List.range'_succ, List.flatMap_cons]
  rfl

/-- Behind the last piece nothing is shown. -/
theorem shownBehind_last {content : List UInt8} {piece : Nat}
    (last : content.length / catBufferSize < piece) : shownBehind content piece = [] := by
  have none : content.length / catBufferSize + 1 - piece = 0 := by omega
  simp [shownBehind, none]

/-- A piece fills the buffer exactly if another one follows it. -/
theorem piece_full (content : List UInt8) {piece : Nat}
    (inside : piece ≤ content.length / catBufferSize) :
    ((content.drop (piece * catBufferSize)).take catBufferSize).length = catBufferSize ↔
      piece < content.length / catBufferSize := by
  rw [List.length_take, List.length_drop]
  unfold catBufferSize at inside ⊢
  omega

/-- The loop of `cat` shows the pieces that are left, each up to its first zero, and a line end.

Induct over the fuel. A piece that fills the buffer is followed by another one. -/
theorem wp_catPieces {handle : Handle} {file : File} {content : List UInt8} {fuel piece : Nat}
    (buffer : List UInt8) {machine : Machine (Volume File × τ)}
    (inside : piece ≤ content.length / catBufferSize)
    (enough : content.length / catBufferSize - piece < fuel)
    (calm : machine.firmware.1.faults = []) (console : canWrite machine = true)
    (isOpen : machine.firmware.1.opened handle = some ⟨file, piece * catBufferSize, false⟩)
    (holds : machine.firmware.1.contents file = some content) {E : Stop → Prop} :
    wp (iterate .outOfFuel (catRound (Volume.firmware resolve device) handle) fuel buffer)
      (fun done after => done = true ∧
        Displays (shownBehind content piece ++ [carriageReturn, lineFeed]) machine after) E
      machine := by
  induction fuel generalizing piece buffer machine with
  | zero => exact absurd enough (Nat.not_lt_zero _)
  | succ fuel ih =>
    have works : ¬ efiError efiSuccess = true := by decide
    have within : piece * catBufferSize ≤ content.length :=
      (Nat.mul_le_mul_right catBufferSize inside).trans (Nat.div_mul_le_self _ _)
    rw [iterate, wp_bind, catRound, wp_bind]
    apply wp_readPiece resolve device calm isOpen holds within
    intro read readShown moved
    rw [if_neg works, wp_bind, wp_orStop, reported_piece]
    refine ⟨?_, fun none => by cases none⟩
    rintro _ ⟨rfl⟩
    obtain ⟨texts, showing, flat⟩ := shows_showBytes (Volume.firmware resolve device)
      ((content.drop (piece * catBufferSize)).take catBufferSize)
    rw [wp_bind]
    apply wp_of_run (showing read)
    have pieceShown := displays_afterWrites resolve device (readShown.console console) texts
    rw [flat] at pieceShown
    have volume := afterWrites_volume resolve device read texts
    have soFar := readShown.then pieceShown
    rw [List.nil_append] at soFar
    rw [wp_ite, wp_pure, wp_bind]
    constructor
    · intro full
      have next : piece < content.length / catBufferSize := (piece_full content inside).mp full
      have fewer : content.length / catBufferSize - (piece + 1) < fuel := by omega
      have stays := soFar.contents ▸ holds
      have further : (afterWrites (Volume.firmware resolve device) read texts).firmware.1.opened
          handle = some ⟨file, (piece + 1) * catBufferSize, false⟩ := by
        rw [volume, moved, Nat.succ_mul]
        exact congrArg (fun size => some (OpenFile.mk file (piece * catBufferSize + size) false)) full
      apply wp_mono (ih _ next fewer (List.eq_nil_of_suffix_nil (calm ▸ soFar.faults))
        (soFar.console console) further stays)
      · rintro done after ⟨rfl, rest⟩
        have whole := soFar.then rest
        rw [← List.append_assoc, ← shownBehind_piece inside] at whole
        exact ⟨rfl, whole⟩
      · exact fun _ stop => stop
    · intro part
      have last : content.length / catBufferSize < piece + 1 := by
        have notFull := mt (piece_full content inside).mpr part
        omega
      apply wp_closeShown resolve device
      intro _ closed closes
      rw [wp_bind]
      apply wp_of_run (shows_terminalWriteLine List.not_mem_nil closed)
      have ended := displays_afterWrites resolve device
        (closes.console (soFar.console console)) [[], [carriageReturn, lineFeed]]
      have whole := (soFar.then closes).then ended
      refine ⟨rfl, ?_⟩
      rw [shownBehind_piece inside, shownBehind_last last]
      simpa using whole

/-- `terminal_cat_file` shows a file that is there, piece by piece, and a line end. -/
theorem run_terminalCatFile {path : Memory} {name : Text} (readable : scan path = some name)
    {content : List UInt8} {fuel : Nat} (enough : content.length / catBufferSize < fuel)
    {machine : Machine (Volume File × τ)} (calm : machine.firmware.1.faults = [])
    (locates : machine.canLocate = true) (console : canWrite machine = true)
    (holds : machine.firmware.1.contents (resolve name) = some content) :
    ∃ after, (terminalCatFile (Volume.firmware resolve device) fuel path).run machine =
        .ok (true, after) ∧
      Displays (shownContent content ++ [carriageReturn, lineFeed]) machine after := by
  obtain ⟨handle, opened, opens, displays, isOpen⟩ := run_open_reading resolve device readable calm
    locates holds
  have total := wp_catPieces resolve device (E := fun _ => False) [] (Nat.zero_le _)
    (by simpa using enough) (List.eq_nil_of_suffix_nil (calm ▸ displays.faults))
    (displays.console console) (by simpa using isOpen) (displays.contents ▸ holds)
  obtain ⟨done, after, ran, rfl, shown⟩ := (wp_total_iff _ _ _).mp total
  rw [shownBehind_zero] at shown
  refine ⟨after, ?_, displays.then shown⟩
  rw [terminalCatFile, run_bind_of_ok opens]
  exact ran

/-- `terminal_cat_file` fails for a missing file, and shows nothing. -/
theorem run_terminalCatFile_missing {path : Memory} {name : Text} (readable : scan path = some name)
    (fuel : Nat) {machine : Machine (Volume File × τ)}
    (missing : machine.firmware.1.contents (resolve name) = none) :
    ∃ after, (terminalCatFile (Volume.firmware resolve device) fuel path).run machine =
      .ok (false, after) ∧ Displays [] machine after := by
  obtain ⟨after, fails, displays⟩ := run_open_missing resolve device readable efiFileModeRead 0
    missing (by decide)
  refine ⟨after, ?_, displays⟩
  rw [terminalCatFile, run_bind_of_ok fails]
  rfl

/-! ## `source` -/

/-- A file is opened without key strokes. -/
theorem keeps_open_untouched {σ : Type} (fw : Firmware σ) {R : Machine σ → Machine σ → Prop}
    [QuietFrame (untouched fw) R] (path : Memory) (mode attributes : UInt64) :
    Keeps R (terminalOpenFile fw path mode attributes) := by
  have composed : Composed (untouched fw) (fun _ => True) Nothing
      (terminalOpenFile (untouched fw) path mode attributes) :=
    composed_terminalOpenFile (Or.inr trivial) mode attributes
  exact composed.keepsQuiet

/-- `terminal_source_file` reads a file that is there and runs its lines as far as the buffers
go. -/
theorem run_terminalSourceFile_calm (execute : Memory → Routine (Volume File × τ) Bool)
    {path : Memory} {name : Text} (readable : scan path = some name) {content : List UInt8}
    {machine : Machine (Volume File × τ)} (calm : machine.firmware.1.faults = [])
    (locates : machine.canLocate = true)
    (holds : machine.firmware.1.contents (resolve name) = some content) :
    ∃ loaded, Displays [] machine loaded ∧
      (∀ R, QuietFrame (untouched (Volume.firmware resolve device)) R → R machine loaded) ∧
      (terminalSourceFile (Volume.firmware resolve device) execute path).run machine = (do
        runEach (pure ()) execute
          ((scriptLines (content.take (scriptBufferSize - 1))).map cutLine)
        return true : Routine (Volume File × τ) Bool).run loaded := by
  obtain ⟨handle, opened, opens, displays, isOpen⟩ := run_open_reading resolve device readable calm
    locates holds
  have still : opened.firmware.1.faults = [] := List.eq_nil_of_suffix_nil (calm ▸ displays.faults)
  have reads := wp_readPiece resolve device (E := fun _ => False) still isOpen
    (displays.contents ▸ holds) (Nat.zero_le _) (scriptBufferSize - 1)
    (Q := fun answer after => answer = ⟨efiSuccess, (content.take (scriptBufferSize - 1)).length,
      content.take (scriptBufferSize - 1)⟩ ∧ Displays [] opened after)
    (fun after shown _ => ⟨rfl, shown⟩)
  obtain ⟨_, read, reading, rfl, readShown⟩ := (wp_total_iff _ _ _).mp reads
  have closes : wp (closeFile (Volume.firmware resolve device) handle)
      (fun _ after => Displays [] read after) (fun _ => False) read :=
    wp_closeShown resolve device handle fun _ _ shown => shown
  obtain ⟨status, loaded, closing, closeShown⟩ := (wp_total_iff _ _ _).mp closes
  refine ⟨loaded, (displays.then readShown).then closeShown, ?_, ?_⟩
  · intro R quiet
    have opensKept : Keeps R (terminalOpenFile (Volume.firmware resolve device) path
      efiFileModeRead 0) := keeps_open_untouched _ path efiFileModeRead 0
    have readsKept : Keeps R (readFile (Volume.firmware resolve device) handle
      (scriptBufferSize - 1)) := quiet.readFile handle _
    have closesKept : Keeps R (closeFile (Volume.firmware resolve device) handle) :=
      quiet.closeFile handle
    have early : R machine opened := opensKept.related machine _ opened opens
    exact IsTrans.trans _ _ _ early (IsTrans.trans _ _ _
      (readsKept.related opened _ read reading) (closesKept.related read _ _ closing))
  have works : ¬ efiError efiSuccess = true := by decide
  have whole : reported (content.take (scriptBufferSize - 1))
      (content.take (scriptBufferSize - 1)).length = some (content.take (scriptBufferSize - 1)) := by
    rw [reported, if_pos le_rfl, List.take_length]
  have nothing : ∀ unit ∈ ([] : Text), isLineFeed unit = false :=
    fun _ none => absurd none List.not_mem_nil
  have lines : runLines execute [] (content.take (scriptBufferSize - 1)) = runEach (pure ()) execute
      ((scriptLines (content.take (scriptBufferSize - 1))).map cutLine) :=
    runLines_eq execute nothing _
  rw [terminalSourceFile, run_bind_of_ok opens]
  dsimp only
  rw [run_bind_of_ok reading, run_bind_of_ok closing, if_neg works, whole, orStop, pure_bind, lines]

/-- `terminal_source_file` fails for a missing file, and runs nothing. -/
theorem run_terminalSourceFile_missing (execute : Memory → Routine (Volume File × τ) Bool)
    {path : Memory} {name : Text} (readable : scan path = some name)
    {machine : Machine (Volume File × τ)}
    (missing : machine.firmware.1.contents (resolve name) = none) :
    ∃ after, (terminalSourceFile (Volume.firmware resolve device) execute path).run machine =
        .ok (false, after) ∧ Displays [] machine after ∧
      ∀ R, QuietFrame (untouched (Volume.firmware resolve device)) R → R machine after := by
  obtain ⟨after, fails, displays⟩ := run_open_missing resolve device readable efiFileModeRead 0
    missing (by decide)
  refine ⟨after, ?_, displays, fun R quiet =>
    (keeps_open_untouched _ path efiFileModeRead 0).related machine none after fails⟩
  rw [terminalSourceFile, run_bind_of_ok fails]
  rfl

end ExistentOS.Terminal
