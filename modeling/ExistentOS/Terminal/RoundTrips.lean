import ExistentOS.Terminal.Authorization
import ExistentOS.Terminal.Overwrites

/-!
# What `append` stores and `cat` shows

Lines that are appended stand behind each other in the file, and `cat` shows the whole file in
pieces of one buffer each. A piece that fills the buffer is followed by another one, which is empty
if the file ends there.
-/

namespace ExistentOS.Terminal

open Programs Terminated Runs Volume

section Files

variable {File τ : Type} [DecidableEq File] (resolve : Text → File) (device : Firmware τ)

/-! ## Showing -/

/-- A part of a run shows a text and leaves the contents of all files as they are. -/
structure Displays (shown : Text) (before after : Machine (Volume File × τ)) : Prop where
  frame : OnlyFirmware before after
  traced : ∃ events, after.trace = before.trace ++ events ∧ output events = shown
  contents : after.firmware.1.contents = before.firmware.1.contents
  faults : after.firmware.1.faults <:+ before.firmware.1.faults

omit [DecidableEq File] in
/-- What is shown in turn. -/
theorem Displays.then {first second : Text} {start middle after : Machine (Volume File × τ)}
    (early : Displays first start middle) (late : Displays second middle after) :
    Displays (first ++ second) start after := by
  obtain ⟨before, reached, shown⟩ := early.traced
  obtain ⟨behind, ended, rest⟩ := late.traced
  have traced : after.trace = start.trace ++ (before ++ behind) := by
    rw [ended, reached, List.append_assoc]
  have displayed : output (before ++ behind) = first ++ second := by
    rw [output_append, shown, rest]
  exact ⟨early.frame.then late.frame, ⟨_, traced, displayed⟩, late.contents.trans early.contents,
    late.faults.trans early.faults⟩

/-- Writing shows its texts, in their order. -/
theorem displays_afterWrites {machine : Machine (Volume File × τ)} (console : canWrite machine = true)
    (texts : List Text) :
    Displays texts.flatten machine (afterWrites (Volume.firmware resolve device) machine texts) := by
  obtain ⟨events, traced, shown, _⟩ := afterWrites_trace (Volume.firmware resolve device) machine texts
  rw [if_pos console] at shown
  have volume := afterWrites_volume resolve device machine texts
  have displayed : output events = texts.flatten := by rw [output, shown]
  exact ⟨afterWrites_onlyFirmware _ machine texts, ⟨events, traced, displayed⟩,
    congrArg Volume.contents volume, volume ▸ List.suffix_refl _⟩

omit [DecidableEq File] in
/-- A console stays. -/
theorem Displays.console {shown : Text} {before after : Machine (Volume File × τ)}
    (displays : Displays shown before after) (console : canWrite before = true) :
    canWrite after = true := by
  obtain ⟨_, _, rfl⟩ := displays.frame
  exact console

/-! ## Reading in pieces -/

/-- A read of a file without failing calls. -/
theorem wp_readPiece {handle : Handle} {file : File} {content : List UInt8} {position : Nat}
    {machine : Machine (Volume File × τ)} (calm : machine.firmware.1.faults = [])
    (isOpen : machine.firmware.1.opened handle = some ⟨file, position, false⟩)
    (holds : machine.firmware.1.contents file = some content) (inside : position ≤ content.length)
    (size : Nat) {E : Stop → Prop} {Q : ReadAnswer → Machine (Volume File × τ) → Prop}
    (next : ∀ after, Displays [] machine after →
      after.firmware.1.opened handle =
        some ⟨file, position + ((content.drop position).take size).length, false⟩ →
      Q ⟨efiSuccess, ((content.drop position).take size).length, (content.drop position).take size⟩
        after) :
    wp (readFile (Volume.firmware resolve device) handle size) Q E machine := by
  have works : ¬ efiError machine.firmware.1.fault.status = true := by
    rw [fault, faultAt_of_nil calm]
    decide
  have whole : machine.firmware.1.fault.readAtMost = none := by
    rw [fault, faultAt_of_nil calm]
    rfl
  have moved : machine.firmware.1.readPath handle ⟨file, position, false⟩ size =
      (⟨efiSuccess, ((content.drop position).take size).length, (content.drop position).take size⟩,
        machine.firmware.1.spent.setOpened handle
          (some ⟨file, position + ((content.drop position).take size).length, false⟩)) := by
    simp only [readPath, if_neg works, holds, if_neg (Nat.not_lt.mpr inside), whole, capped_none]
  have unseen : Keeps (Emits Unseen) (readFile (Volume.firmware resolve device) handle size) := by
    rw [keeps_iff_wp]
    intro start
    rw [readFile, wp_bind, wp_call, wp_ite, wp_pure, wp_throw]
    have silent : ∀ answer, Unseen (.read handle .buffer size answer) := fun _ => rfl
    exact ⟨fun _ => ⟨[_], rfl, by simpa using silent _⟩, fun _ => trivial⟩
  have read := wp_readFile resolve device (E := E) handle size _ isOpen
    (fun answer after => OnlyFirmware machine after ∧
      after.firmware.1 = (machine.firmware.1.readPath handle ⟨file, position, false⟩ size).2 ∧
      answer = (machine.firmware.1.readPath handle ⟨file, position, false⟩ size).1)
    (fun after frame volume => ⟨frame, volume, rfl⟩)
  apply wp_mono (wp_framed unseen read)
  · rintro answer after ⟨⟨events, traced, silent⟩, frame, volume, rfl⟩
    rw [moved] at volume ⊢
    have suffix : after.firmware.1.faults <:+ machine.firmware.1.faults := by
      rw [volume]
      exact spent_suffix machine.firmware.1
    apply next after
    · exact ⟨frame, ⟨events, traced, output_unseen silent⟩, by rw [volume]; rfl, suffix⟩
    · rw [volume, setOpened_opened, Function.update_self]
  · exact fun _ stop => stop

/-- A close shows nothing. -/
theorem wp_closeShown (handle : Handle) {machine : Machine (Volume File × τ)} {E : Stop → Prop}
    {Q : EfiStatus → Machine (Volume File × τ) → Prop}
    (next : ∀ status after, Displays [] machine after → Q status after) :
    wp (closeFile (Volume.firmware resolve device) handle) Q E machine := by
  rw [closeFile, wp_call]
  apply next
  exact ⟨called_onlyFirmware machine _ _, ⟨[_], rfl, rfl⟩, rfl, spent_suffix machine.firmware.1⟩

/-! ## Showing a file -/

/-- Bytes as units, as `cat` stores them in its buffer. -/
def widened (bytes : List UInt8) : Text := bytes.map (·.toUInt16)

/-- Bytes without zeros are units without terminators, so a piece is printed to its end. -/
theorem widened_free {bytes : List UInt8} (clean : 0 ∉ bytes) : (0 : CHAR16) ∉ widened bytes := by
  intro zero
  obtain ⟨byte, member, same⟩ := List.mem_map.mp zero
  have isZero : byte = 0 := UInt8.toUInt16_inj.mp same
  exact clean (isZero ▸ member)

/-- A piece is shown as a whole, if it has no zeros. -/
theorem wp_showPiece {bytes : List UInt8} (clean : 0 ∉ bytes) {machine : Machine (Volume File × τ)}
    (console : canWrite machine = true) {E : Stop → Prop} {Q : Unit → Machine (Volume File × τ) → Prop}
    (next : ∀ after, Displays (widened bytes) machine after →
      after.firmware.1 = machine.firmware.1 → Q () after) :
    wp (showBytes (Volume.firmware resolve device) bytes) Q E machine := by
  by_cases empty : bytes = []
  · subst empty
    rw [showBytes, if_neg (not_not_intro rfl), wp_pure]
    apply next
    · exact ⟨Std.Refl.refl machine, ⟨[], (List.append_nil _).symm, rfl⟩, rfl, List.suffix_refl _⟩
    · rfl
  · rw [showBytes, if_pos empty]
    apply wp_of_run (shows_terminalWrite (widened_free clean) machine)
    apply next
    · have shown := displays_afterWrites resolve device console [widened bytes]
      simpa using shown
    · exact afterWrites_volume resolve device machine _

/-- What `cat` leaves to show from a position on, with the line end behind it. -/
def behindPosition (content : List UInt8) (position : Nat) : Text :=
  widened (content.drop position) ++ [carriageReturn, lineFeed]

/-- A piece and what is left behind it. -/
theorem behindPosition_step (content : List UInt8) (position size : Nat) :
    widened ((content.drop position).take size) ++ behindPosition content (position + size) =
      behindPosition content position := by
  have pieces : (content.drop position).take size ++ content.drop (position + size) =
      content.drop position := by
    rw [← List.drop_drop, List.take_append_drop]
  simp only [behindPosition, widened, ← List.append_assoc, ← List.map_append, pieces]

/-- A piece that fills the buffer lies inside the content. -/
theorem full_piece {content : List UInt8} {position size : Nat}
    (full : ((content.drop position).take size).length = size) :
    size ≤ content.length - position := by
  have most := List.length_take_le' size (content.drop position)
  rwa [full, List.length_drop] at most

/-- A piece that does not fill the buffer is all that is left. -/
theorem last_piece {content : List UInt8} {position size : Nat}
    (part : ¬ ((content.drop position).take size).length = size) :
    (content.drop position).take size = content.drop position := by
  apply List.take_of_length_le
  rw [List.length_take] at part
  omega

/-- A piece is read back from the start of the buffer that it is stored in. -/
theorem reported_piece (piece buffer : List UInt8) :
    reported (piece ++ buffer.drop piece.length) piece.length = some piece := by
  rw [reported, if_pos (by simp), List.take_left]

/-- The loop of `cat` shows what is left of a file, and it ends there.

Induct over the reads that are left. A read that fills the buffer moves on by its size. -/
theorem wp_catLoop {handle : Handle} {file : File} {content : List UInt8} (clean : 0 ∉ content)
    {fuel position : Nat} (buffer : List UInt8) {machine : Machine (Volume File × τ)}
    (enough : (content.length - position) / catBufferSize < fuel)
    (calm : machine.firmware.1.faults = []) (console : canWrite machine = true)
    (isOpen : machine.firmware.1.opened handle = some ⟨file, position, false⟩)
    (holds : machine.firmware.1.contents file = some content) (inside : position ≤ content.length)
    {E : Stop → Prop} :
    wp (iterate .outOfFuel (catRound (Volume.firmware resolve device) handle) fuel buffer)
      (fun done after => done = true ∧ Displays (behindPosition content position) machine after) E
      machine := by
  induction fuel generalizing position buffer machine with
  | zero => exact absurd enough (Nat.not_lt_zero _)
  | succ fuel ih =>
    have works : ¬ efiError efiSuccess = true := by decide
    rw [iterate, wp_bind, catRound, wp_bind]
    apply wp_readPiece resolve device calm isOpen holds inside
    intro read readShown moved
    have pieceClean : 0 ∉ (content.drop position).take catBufferSize := fun zero =>
      clean (List.mem_of_mem_drop (List.mem_of_mem_take zero))
    rw [if_neg works, wp_bind, wp_orStop, reported_piece]
    refine ⟨?_, fun none => by cases none⟩
    rintro _ ⟨rfl⟩
    rw [wp_bind]
    apply wp_showPiece resolve device pieceClean (readShown.console console)
    intro shown pieceShown volume
    have soFar := readShown.then pieceShown
    rw [wp_ite, wp_pure, wp_bind]
    constructor
    · intro (full : ((content.drop position).take catBufferSize).length = catBufferSize)
      have long := full_piece full
      have fewer : (content.length - (position + catBufferSize)) / catBufferSize < fuel := by
        unfold catBufferSize at enough long ⊢
        omega
      have stays : shown.firmware.1.contents file = some content := by rw [soFar.contents, holds]
      have further : shown.firmware.1.opened handle =
          some ⟨file, position + catBufferSize, false⟩ := by
        rw [volume, moved, full]
      apply wp_mono (ih _ fewer (List.eq_nil_of_suffix_nil (calm ▸ soFar.faults))
        (soFar.console console) further stays (by omega))
      · rintro done after ⟨rfl, rest⟩
        have whole := soFar.then rest
        rw [List.nil_append, behindPosition_step] at whole
        exact ⟨rfl, whole⟩
      · exact fun _ stop => stop
    · intro (part : ¬ ((content.drop position).take catBufferSize).length = catBufferSize)
      rw [last_piece part] at soFar
      apply wp_closeShown resolve device
      intro _ closed closes
      rw [wp_bind]
      apply wp_of_run (shows_terminalWriteLine List.not_mem_nil closed)
      have ended := displays_afterWrites resolve device
        (closes.console (soFar.console console)) [[], [carriageReturn, lineFeed]]
      have whole := (soFar.then closes).then ended
      refine ⟨rfl, ?_⟩
      simpa [behindPosition] using whole

/-- `terminal_cat_file` of an existing file shows its content and a line end. -/
theorem wp_terminalCatFile_exact {path : Memory} {name : Text} (readable : scan path = some name)
    {content : List UInt8} (clean : 0 ∉ content) {fuel : Nat}
    (enough : content.length / catBufferSize < fuel) (machine : Machine (Volume File × τ))
    (calm : machine.firmware.1.faults = []) (locates : machine.canLocate = true)
    (console : canWrite machine = true)
    (holds : machine.firmware.1.contents (resolve name) = some content) {E : Stop → Prop} :
    wp (terminalCatFile (Volume.firmware resolve device) fuel path)
      (fun done after => done = true ∧
        Displays (widened content ++ [carriageReturn, lineFeed]) machine after) E machine := by
  have unrefused : ¬ Refused (resolve name) efiFileModeRead machine := by
    refine not_refused locates (fun calls _ => ?_) (Or.inl (by rw [holds]; rfl))
    rw [faultAt_of_nil calm]
    decide
  have opening := wp_openOnVolume (E := E) resolve device path name efiFileModeRead 0 readable
    (fun opened after => OnlyFirmware machine after ∧ ∃ handle, opened = some handle ∧
      Fresh (resolve name) efiFileModeRead 4 machine.firmware.1 after.firmware.1 handle)
    (fun _ _ _ _ refused => absurd refused unrefused)
    (fun after handle frame fresh _ => ⟨frame, handle, rfl, fresh⟩)
  rw [terminalCatFile, wp_bind]
  have unseen : ∀ event : Event, event.isOpening = true → Unseen event := by
    intro event isOpening
    cases event <;> first | rfl | cases isOpening
  apply wp_mono (wp_framed (emits_openOnVolume unseen _ path efiFileModeRead 0) opening)
  · rintro _ after ⟨⟨events, traced, silent⟩, frame, handle, rfl, fresh⟩
    have same : after.firmware.1.contents = machine.firmware.1.contents := by
      rw [fresh.contents, holds, Option.getD_some, ← holds, Function.update_eq_self]
    have faults : after.firmware.1.faults <:+ machine.firmware.1.faults := by
      rw [fresh.faults]
      exact List.drop_suffix 4 _
    have opened : Displays [] machine after :=
      ⟨frame, ⟨events, traced, output_unseen silent⟩, same, faults⟩
    have stays : after.firmware.1.contents (resolve name) = some content := by rw [same, holds]
    apply wp_mono (wp_catLoop resolve device clean [] enough
      (List.eq_nil_of_suffix_nil (calm ▸ faults)) (opened.console console) fresh.opened stays
      (Nat.zero_le _))
    · rintro done later ⟨rfl, shown⟩
      exact ⟨rfl, opened.then shown⟩
    · exact fun _ stop => stop
  · exact fun _ stop => stop

/-! ## Commands -/

/-- A line that shows a file shows its content from the start on. -/
theorem cat_volume {line path : Text} (single : Single line [text "cat", path]) {content : List UInt8}
    (clean : 0 ∉ content) {fuel : Nat} (enough : content.length / catBufferSize < fuel)
    {machine : Machine (Volume File × τ)} (calm : machine.firmware.1.faults = [])
    (locates : machine.canLocate = true) (console : canWrite machine = true)
    (holds : machine.firmware.1.contents (resolve path) = some content) :
    ∃ after events,
      (terminalExecuteCommand (Volume.firmware resolve device) (fuel + 1) (line ++ [0])).run machine =
        .ok (false, after) ∧
      after.trace = machine.trace ++ events ∧
      output events = widened content ++ [carriageReturn, lineFeed] ∧
      after.firmware.1.contents = machine.firmware.1.contents := by
  have free : (0 : CHAR16) ∉ path := single.wordsFree path (by simp)
  have total := wp_terminalCatFile_exact resolve device (E := fun _ => False)
    (scan_append path [] free) clean enough (commanded machine "cat" [text "cat", path]) calm locates
    console holds
  obtain ⟨done, reached, ran, rfl, displays⟩ := (wp_total_iff _ _ _).mp total
  have row := interpret_cat (Volume.firmware resolve device) fuel single
  obtain ⟨buffer, command⟩ := run_row row (by rw [run_bind_of_ok ran]; rfl)
  obtain ⟨events, traced, shown⟩ := displays.traced
  refine ⟨_, .command (text "cat") (wordsOf machine.terminal [text "cat", path]) :: events, command,
    ?_, shown, displays.contents⟩
  have trace := traced.trans (List.append_assoc machine.trace [_] events)
  exact trace

/-- A line that appends its words to a file, in the form that the interpreter takes apart. -/
def AppendsTo (file : File) (line : Text) (words : List Text) : Prop :=
  ∃ path, resolve path = file ∧ StoreLine "append" line path words

/-- The bytes that some appended lines put into their file. -/
def appended (lines : List (Text × List Text)) : List UInt8 := lines.flatMap (lineOf ·.2)

/-- An appended line stands behind the content of its file. -/
theorem append_volume (fuel : Nat) {file : File} {line : Text} {words : List Text}
    (appends : AppendsTo resolve file line words) {machine : Machine (Volume File × τ)}
    (calm : machine.firmware.1.faults = []) (locates : machine.canLocate = true)
    {content : List UInt8} (holds : machine.firmware.1.contents file = some content) :
    ∃ after,
      (terminalExecuteCommand (Volume.firmware resolve device) (fuel + 1) (line ++ [0])).run machine =
        .ok (false, after) ∧
      after.gST = machine.gST ∧ after.gBS = machine.gBS ∧ after.firmware.1.faults = [] ∧
      after.firmware.1.contents file = some (content ++ lineOf words) := by
  obtain ⟨path, rfl, store⟩ := appends
  have named : ("append", true) ∈ storeNames := List.mem_of_getElem? (i := 1) rfl
  obtain ⟨_, after, run, console, services, faults, _, opens⟩ :=
    store_volume resolve device fuel named store.single store.nonempty machine
  have unrefused : ¬ Refused (resolve path) createMode machine := by
    rw [refused_calm calm, locates]
    exact Bool.noConfusion
  have stored := (opens unrefused).2
  rw [faultAt_of_nil calm, faultAt_of_nil calm, holds] at stored
  refine ⟨after, run.command, console, services, List.eq_nil_of_suffix_nil (calm ▸ faults), ?_⟩
  rw [stored, Function.update_self, ← overlay_end]
  rfl

/-- Appended lines stand behind each other.

Induct over the lines. The file is not read in between, so its content is the only invariant. -/
theorem appends_volume (fuel : Nat) {file : File} {lines : List (Text × List Text)}
    (appends : ∀ line ∈ lines, AppendsTo resolve file line.1 line.2)
    {machine : Machine (Volume File × τ)} (calm : machine.firmware.1.faults = [])
    (locates : machine.canLocate = true) {content : List UInt8}
    (holds : machine.firmware.1.contents file = some content) :
    ∃ results after,
      (runCommands (Volume.firmware resolve device) (fuel + 1) (lines.map (·.1 ++ [0]))).run machine =
        .ok (results, after) ∧
      after.gST = machine.gST ∧ after.gBS = machine.gBS ∧ after.firmware.1.faults = [] ∧
      after.firmware.1.contents file = some (content ++ appended lines) := by
  induction lines generalizing machine content with
  | nil => exact ⟨[], machine, rfl, rfl, rfl, calm, by simpa [appended] using holds⟩
  | cons line rest ih =>
    obtain ⟨middle, ran, console, services, middleCalm, middleHolds⟩ :=
      append_volume resolve device fuel (appends line List.mem_cons_self) calm locates holds
    have available : middle.canLocate = true := by
      rw [Machine.canLocate, services]
      exact locates
    obtain ⟨results, after, others, console', services', afterCalm, afterHolds⟩ :=
      ih (fun later member => appends later (List.mem_cons_of_mem line member)) middleCalm available
        middleHolds
    refine ⟨false :: results, after, ?_, console'.trans console, services'.trans services, afterCalm,
      ?_⟩
    · rw [runCommands, List.map_cons, List.mapM_cons, run_bind_of_ok ran]
      rw [runCommands] at others
      rw [run_bind_of_ok others]
      rfl
    · simpa [appended] using afterHolds

/-- A stored line of units that fit into bytes has no zeros. -/
theorem lineOf_clean {words : List Text} (free : ∀ word ∈ words, (0 : CHAR16) ∉ word)
    (bytes : ∀ word ∈ words, ∀ unit ∈ word, unit.toNat ≤ 255) (nonempty : words ≠ []) :
    0 ∉ lineOf words := by
  have solid : ∀ word ∈ words, ∀ unit ∈ word, unit.toUInt8 ≠ 0 := by
    intro word member unit inside zero
    have low : unit.toNat % 256 = 0 := congrArg UInt8.toNat zero
    have fits := bytes word member unit inside
    have isZero : unit = 0 := UInt16.toNat_inj.mp (by rw [UInt16.toNat_zero]; omega)
    exact free word member (isZero ▸ inside)
  obtain ⟨word, rest, rfl⟩ := List.exists_cons_of_ne_nil nonempty
  rw [lineOf, joined_cons]
  simp only [List.map_append, List.mem_append, List.mem_map, List.mem_flatMap, List.mem_cons,
    List.not_mem_nil, or_false]
  rintro ((⟨unit, inside, zero⟩ | ⟨unit, ⟨later, member, rfl | inside⟩, zero⟩) | lineEnd)
  · exact solid word List.mem_cons_self unit inside zero
  · exact absurd zero (by decide)
  · exact solid later (List.mem_cons_of_mem word member) unit inside zero
  · exact absurd lineEnd (by decide)

/-- Appending and showing round-trip. After any sequence of appended lines, a file without zeros
holds its content followed by the lines, and `cat` shows just that and a line end. Its reads end
with the first one that does not fill the buffer, however the lines lie across the reads. -/
theorem append_cat {file : File} {lines : List (Text × List Text)}
    (appends : ∀ line ∈ lines, AppendsTo resolve file line.1 line.2)
    (bytes : ∀ line ∈ lines, ∀ word ∈ line.2, ∀ unit ∈ word, unit.toNat ≤ 255)
    {line path : Text} (catLine : Single line [text "cat", path]) (same : resolve path = file)
    {machine : Machine (Volume File × τ)} (calm : machine.firmware.1.faults = [])
    (locates : machine.canLocate = true) (console : canWrite machine = true)
    {content : List UInt8} (clean : 0 ∉ content)
    (holds : machine.firmware.1.contents file = some content) {fuel : Nat}
    (enough : (content ++ appended lines).length / catBufferSize < fuel) :
    ∃ results stored after events,
      (runCommands (Volume.firmware resolve device) (fuel + 1) (lines.map (·.1 ++ [0]))).run machine =
        .ok (results, stored) ∧
      stored.firmware.1.contents file = some (content ++ appended lines) ∧
      (terminalExecuteCommand (Volume.firmware resolve device) (fuel + 1) (line ++ [0])).run stored =
        .ok (false, after) ∧
      after.trace = stored.trace ++ events ∧
      output events = widened (content ++ appended lines) ++ [carriageReturn, lineFeed] ∧
      after.firmware.1.contents = stored.firmware.1.contents := by
  subst same
  have allClean : 0 ∉ content ++ appended lines := by
    rw [List.mem_append, appended, List.mem_flatMap]
    rintro (zero | ⟨added, member, zero⟩)
    · exact clean zero
    · obtain ⟨_, _, store⟩ := appends added member
      have free : ∀ word ∈ added.2, (0 : CHAR16) ∉ word := fun word inside =>
        store.single.wordsFree word (List.mem_cons_of_mem _ (List.mem_cons_of_mem _ inside))
      exact lineOf_clean free (bytes added member) store.nonempty zero
  obtain ⟨results, stored, ran, gST, gBS, storedCalm, stores⟩ :=
    appends_volume resolve device fuel appends calm locates holds
  have available : stored.canLocate = true := by
    rw [Machine.canLocate, gBS]
    exact locates
  have visible : canWrite stored = true := by
    rw [canWrite, gST]
    exact console
  obtain ⟨after, events, shown, traced, displayed, contents⟩ :=
    cat_volume resolve device catLine allClean enough storedCalm available visible stores
  exact ⟨results, stored, after, events, ran, stores, shown, traced, displayed, contents⟩

end Files

/-- Two lines that append to a file. Several blanks between words are stored as one space. -/
def appendedLines : List (Text × List Text) :=
  [(text "append f x", [text "x"]),
    (text "append  f hello   world", [text "hello", text "world"])]

/-- The sample lines append to their file. -/
theorem appendedLines_append : ∀ line ∈ appendedLines, AppendsTo id (text "f") line.1 line.2 := by
  have spaced : StoreLine "append" (text "append  f hello   world") (text "f")
      [text "hello", text "world"] := ⟨by constructor <;> decide, by decide, by decide⟩
  intro line member
  simp only [appendedLines, List.mem_cons, List.not_mem_nil, or_false] at member
  rcases member with rfl | rfl
  · exact ⟨text "f", rfl, append_letter⟩
  · exact ⟨text "f", rfl, spaced⟩

/-- The two lines, behind a file of three bytes, and what is shown then. -/
theorem append_cat_lines :
    ∃ results stored after events,
      (runCommands (Volume.firmware id quiet) 2 (appendedLines.map (·.1 ++ [0]))).run (abcFile []) =
        .ok (results, stored) ∧
      (terminalExecuteCommand (Volume.firmware id quiet) 2 (text "cat f" ++ [0])).run stored =
        .ok (false, after) ∧
      after.trace = stored.trace ++ events ∧
      output events = text "abcx\nhello world\n\r\n" := by
  have small : (appendedLines.all fun line => line.2.all fun word => word.all (·.toNat ≤ 255)) =
      true := rfl
  have bytes : ∀ line ∈ appendedLines, ∀ word ∈ line.2, ∀ unit ∈ word, unit.toNat ≤ 255 := by
    intro line member word inside unit within
    have words := List.all_eq_true.mp small line member
    exact of_decide_eq_true (List.all_eq_true.mp (List.all_eq_true.mp words word inside) unit within)
  have catLine : Single (text "cat f") [text "cat", text "f"] := by constructor <;> decide
  have clean : 0 ∉ ([97, 98, 99] : List UInt8) := by decide
  have enough : ([97, 98, 99] ++ appended appendedLines).length / catBufferSize < 1 := by decide
  have held : (abcFile []).firmware.1.contents (text "f") = some [97, 98, 99] := rfl
  have shown : widened ([97, 98, 99] ++ appended appendedLines) ++ [carriageReturn, lineFeed] =
      text "abcx\nhello world\n\r\n" := by decide
  obtain ⟨results, stored, after, events, ran, _, shows, traced, displayed, _⟩ :=
    append_cat id quiet appendedLines_append bytes catLine rfl rfl rfl rfl clean held enough
  exact ⟨results, stored, after, events, ran, shows, traced, displayed.trans shown⟩

end ExistentOS.Terminal
