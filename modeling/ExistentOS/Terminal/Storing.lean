import ExistentOS.Terminal.CommandLines
import ExistentOS.Terminal.FileEffects

/-!
# What `write` and `append` store

The words of a line joined by spaces and ended by a line feed, and what becomes of the file: a
store overwrites the bytes from its position on and leaves what is behind them. The position is
the end of the file for an append, unless the positioning fails.
-/

namespace ExistentOS.Terminal

open Programs Terminated Runs Volume

/-! ## The stored line -/

/-- The bytes of some words and a line end: the lower half of each unit, and single spaces
between the words. -/
def lineOf (words : List Text) : List UInt8 :=
  (joined space words).map (·.toUInt8) ++ [lineFeed.toUInt8]

/-- A word is stored as a whole if it fits. -/
theorem storeUnits_whole (bytes : List UInt8) {word : Text} (free : (0 : CHAR16) ∉ word)
    (room : bytes.length + word.length + 1 < terminalMaxLine) :
    storeUnits bytes (word ++ [0]) = some (bytes ++ word.map (·.toUInt8)) := by
  induction word generalizing bytes with
  | nil => simp [storeUnits]
  | cons unit rest ih =>
    rw [List.length_cons] at room
    have nonzero : unit ≠ 0 := fun zero => free (zero ▸ List.mem_cons_self)
    have more : unit ≠ 0 ∧ bytes.length + 2 < terminalMaxLine := ⟨nonzero, by omega⟩
    have tail := ih (bytes ++ [unit.toUInt8])
      (fun member => free (List.mem_cons_of_mem unit member))
      (by rw [List.length_append, List.length_singleton]; omega)
    rw [List.cons_append, storeUnits, if_pos more, push_room (by omega), Option.bind_eq_bind,
      Option.bind_some, tail, List.append_assoc]
    rfl

/-- Words behind a first one are stored, each behind a space, if they fit. -/
theorem storeWords_whole (bytes : List UInt8) {words : List Text}
    (free : ∀ word ∈ words, (0 : CHAR16) ∉ word)
    (room : bytes.length + (words.map (·.length + 1)).sum + 1 < terminalMaxLine) :
    storeWords bytes true (words.map (· ++ [0])) =
      some (bytes ++ (words.flatMap (space :: ·)).map (·.toUInt8)) := by
  induction words generalizing bytes with
  | nil => simp [storeWords]
  | cons word rest ih =>
    rw [List.map_cons, List.sum_cons] at room
    have more : bytes.length + 2 < terminalMaxLine := by omega
    have separated : (bytes ++ [space.toUInt8]).length = bytes.length + 1 := by
      rw [List.length_append, List.length_singleton]
    have first := storeUnits_whole (bytes ++ [space.toUInt8]) (free word List.mem_cons_self)
      (by rw [separated]; omega)
    have tail := ih (bytes ++ [space.toUInt8] ++ word.map (·.toUInt8))
      (fun later member => free later (List.mem_cons_of_mem word member))
      (by rw [List.length_append, separated, List.length_map]; omega)
    rw [List.map_cons, storeWords, if_pos more, if_pos rfl, push_room (by omega)]
    simp only [Option.bind_eq_bind, Option.bind_some]
    rw [first, Option.bind_some, tail]
    simp

/-- Words that fit are stored as their line. -/
theorem storeWords_joined {words : List Text} (free : ∀ word ∈ words, (0 : CHAR16) ∉ word)
    (nonempty : words ≠ []) (room : (words.map (·.length + 1)).sum < terminalMaxLine) :
    storeWords [] false (words.map (· ++ [0])) =
      some ((joined space words).map (·.toUInt8)) := by
  obtain ⟨word, rest, rfl⟩ := List.exists_cons_of_ne_nil nonempty
  rw [List.map_cons, List.sum_cons] at room
  have first := storeUnits_whole [] (free word List.mem_cons_self)
    (by rw [List.length_nil]; omega)
  have tail := storeWords_whole (word.map (·.toUInt8))
    (fun later member => free later (List.mem_cons_of_mem word member))
    (by rw [List.length_map]; omega)
  have more : ([] : List UInt8).length + 2 < terminalMaxLine := by decide
  rw [List.map_cons, storeWords, if_pos more, if_neg Bool.false_ne_true]
  simp only [Option.bind_eq_bind, Option.bind_some, first, List.nil_append, tail]
  rw [joined_cons, List.map_append]

/-- The line of some words fits into its buffer. -/
theorem lineOf_length {words : List Text} (nonempty : words ≠ []) :
    (lineOf words).length = (words.map (·.length + 1)).sum := by
  rw [lineOf, List.length_append, List.length_map, List.length_singleton]
  exact joined_length space nonempty

/-! ## The file -/

/-- The content that a store leaves, given how the positioning and the write fare. A failed
positioning leaves the handle at the start, which ends a `write`, but not an `append`. -/
def storedContent (seek write : Fault) (append : Bool) (old line : List UInt8) : List UInt8 :=
  if efiError seek.status then
    if append then overlay old 0 (capped write.writeAtMost line) else old
  else overlay old (if append then old.length else 0) (capped write.writeAtMost line)

/-- Whether a store is reported as done. For an `append` the positioning does not count. -/
def storeDone (seek write : Fault) (append : Bool) : Bool :=
  (append || !efiError seek.status) && !efiError write.status

/-- A positioning that does not end the store decides where the line goes. -/
theorem storedContent_goes {seek write : Fault} {append : Bool}
    (goes : (append || !efiError seek.status) = true) (old line : List UInt8) :
    storedContent seek write append old line =
      overlay old (if efiError seek.status then 0 else if append then old.length else 0)
        (capped write.writeAtMost line) := by
  rw [storedContent]
  by_cases failed : efiError seek.status = true
  · have behind : append = true := by simpa [failed] using goes
    rw [if_pos failed, if_pos behind, if_pos failed]
  · rw [if_neg failed, if_neg failed]

section Files

variable {File τ : Type} [DecidableEq File] (resolve : Text → File) (device : Firmware τ)

/-- What a store makes of a volume: one file may have another content, and calls use up some of the
schedule. -/
structure Stores (file : File) (content : List UInt8) (before after : Machine (Volume File × τ)) :
    Prop where
  frame : OnlyFirmware before after
  contents : after.firmware.1.contents =
    Function.update before.firmware.1.contents file (some content)
  faults : after.firmware.1.faults <:+ before.firmware.1.faults

omit [DecidableEq File] in
/-- Closing a handle behind a store. -/
theorem spent_suffix (volume : Volume File) : volume.spent.faults <:+ volume.faults := by
  rw [spent_faults]
  exact List.drop_suffix 1 volume.faults

/-- A call that leaves the contents as they are leaves the store. -/
theorem Stores.spared {file : File} {content : List UInt8}
    {start machine after : Machine (Volume File × τ)} (stores : Stores file content start machine)
    (frame : OnlyFirmware machine after)
    (contents : after.firmware.1.contents = machine.firmware.1.contents)
    (faults : after.firmware.1.faults <:+ machine.firmware.1.faults) :
    Stores file content start after :=
  ⟨stores.frame.then frame, contents.trans stores.contents, faults.trans stores.faults⟩

/-- A store is closed, and what it has done to the file stays. -/
theorem Stores.wp_close {file : File} {content : List UInt8}
    {start machine : Machine (Volume File × τ)} (stores : Stores file content start machine)
    (handle : Handle) (done : Bool) {E : Stop → Prop}
    {Q : Bool → Machine (Volume File × τ) → Prop}
    (next : ∀ after, Stores file content start after → Q done after) :
    wp (do
      let _ ← closeFile (Volume.firmware resolve device) handle
      return done) Q E machine := by
  rw [wp_bind]
  apply wp_closeFile resolve device handle
  intro after frame volume
  apply next
  apply stores.spared frame
  · rw [volume]
    rfl
  · rw [volume]
    exact spent_suffix machine.firmware.1

/-- Storing at the position of a handle: the line is laid over the content there, as far as the
write goes. -/
theorem wp_storeHere_exact {handle : Handle} {stored : List Memory} {text : List UInt8}
    (words : storeWords [] false stored = some text) (room : text.length < terminalMaxLine)
    {found : OpenFile File} {bytes : List UInt8} {machine : Machine (Volume File × τ)}
    (isOpen : machine.firmware.1.opened handle = some found) (writable : found.writable = true)
    (holds : machine.firmware.1.contents found.file = some bytes) {E : Stop → Prop} :
    wp (storeHere (Volume.firmware resolve device) handle stored)
      (fun done after => done = !efiError machine.firmware.1.fault.status ∧
        Stores found.file (overlay bytes found.position
          (capped machine.firmware.1.fault.writeAtMost (text ++ [lineFeed.toUInt8]))) machine after)
      E machine := by
  rw [storeHere, words, wp_bind, wp_orOverrun]
  refine ⟨?_, fun none => by cases none⟩
  rintro _ ⟨rfl⟩
  rw [push_room room, wp_bind, wp_orOverrun]
  refine ⟨?_, fun none => by cases none⟩
  rintro _ ⟨rfl⟩
  rw [wp_bind]
  apply wp_writeFile resolve device handle
  intro written frame volume
  have answer : (machine.firmware.1.writePath handle (text ++ [lineFeed.toUInt8])).1.1 =
      machine.firmware.1.fault.status := by
    simp only [writePath, isOpen, holds, if_pos writable]
  have stores : Stores found.file (overlay bytes found.position
      (capped machine.firmware.1.fault.writeAtMost (text ++ [lineFeed.toUInt8]))) machine written := by
    refine ⟨frame, ?_, ?_⟩
    · rw [volume]
      simp only [writePath, isOpen, holds, if_pos writable]
      rfl
    · rw [volume]
      simp only [writePath, isOpen, holds, if_pos writable]
      exact spent_suffix machine.firmware.1
  rw [answer]
  by_cases failed : efiError machine.firmware.1.fault.status = true
  · rw [if_pos failed]
    apply stores.wp_close resolve device handle false
    intro after stores
    exact ⟨by rw [failed]; rfl, stores⟩
  · rw [if_neg failed, wp_bind]
    apply wp_flushFile resolve device handle
    intro flushed later volume
    have kept : Stores found.file (overlay bytes found.position
        (capped machine.firmware.1.fault.writeAtMost (text ++ [lineFeed.toUInt8]))) machine flushed := by
      rcases volume with same | spent
      · exact stores.spared later (by rw [same]) (by rw [same])
      · exact stores.spared later (by rw [spent]; rfl) (by rw [spent]; exact spent_suffix _)
    apply kept.wp_close resolve device handle true
    intro after stores
    exact ⟨by rw [Bool.eq_false_iff.mpr failed]; rfl, stores⟩

omit [DecidableEq File] in
/-- Where a positioning of a fresh handle leads: nowhere if it fails. -/
theorem seek_fresh (volume : Volume File) {handle : Handle} {file : File} {bytes : List UInt8}
    (isOpen : volume.opened handle = some ⟨file, 0, true⟩)
    (holds : volume.contents file = some bytes) (append : Bool) :
    (volume.seek handle (if append then 0xFFFFFFFFFFFFFFFF else 0)).1 =
        (if efiError volume.fault.status then volume.fault.status else efiSuccess) ∧
      (volume.seek handle (if append then 0xFFFFFFFFFFFFFFFF else 0)).2.opened handle =
        some ⟨file, if efiError volume.fault.status then 0 else if append then bytes.length else 0,
          true⟩ := by
  simp only [seek, isOpen]
  by_cases failed : efiError volume.fault.status = true
  · rw [if_pos failed, if_pos failed, if_pos failed]
    exact ⟨rfl, isOpen⟩
  · rw [if_neg failed, if_neg failed, if_neg failed]
    refine ⟨rfl, ?_⟩
    rw [setOpened_opened, Function.update_self]
    cases append with
    | true => rw [if_pos rfl, if_pos rfl, if_pos rfl, holds]; rfl
    | false => rfl

/-- Storing through a fresh handle: the positioning comes first, and decides where the line goes. -/
theorem wp_storeInto_exact {handle : Handle} {stored : List Memory} {text : List UInt8}
    (words : storeWords [] false stored = some text) (room : text.length < terminalMaxLine)
    (append : Bool) {file : File} {bytes : List UInt8} {machine : Machine (Volume File × τ)}
    (isOpen : machine.firmware.1.opened handle = some ⟨file, 0, true⟩)
    (holds : machine.firmware.1.contents file = some bytes) {E : Stop → Prop} :
    wp (storeInto (Volume.firmware resolve device) handle stored append)
      (fun done after =>
        done = storeDone machine.firmware.1.fault (machine.firmware.1.faultAt 1) append ∧
        Stores file (storedContent machine.firmware.1.fault (machine.firmware.1.faultAt 1) append
          bytes (text ++ [lineFeed.toUInt8])) machine after) E machine := by
  obtain ⟨answer, moved⟩ := seek_fresh machine.firmware.1 isOpen holds append
  rw [storeInto, wp_bind]
  apply wp_setPosition resolve device handle
  intro positioned frame volume
  have contents : positioned.firmware.1.contents = machine.firmware.1.contents := by
    rw [volume, seek_contents]
  have faults : positioned.firmware.1.faults = machine.firmware.1.faults.drop 1 := by
    rw [volume, seek_faults]
  have next : positioned.firmware.1.fault = machine.firmware.1.faultAt 1 := by
    rw [fault, faultAt_of_drop faults]
  have isOpen' : positioned.firmware.1.opened handle = some ⟨file,
      if efiError machine.firmware.1.fault.status then 0 else if append then bytes.length else 0,
      true⟩ := by
    rw [volume]
    exact moved
  have here := wp_storeHere_exact resolve device (E := E) words room isOpen' rfl
    (by rw [contents]; exact holds)
  have onwards : (append || !efiError machine.firmware.1.fault.status) = true →
      wp (storeHere (Volume.firmware resolve device) handle stored)
        (fun done after =>
          done = storeDone machine.firmware.1.fault (machine.firmware.1.faultAt 1) append ∧
          Stores file (storedContent machine.firmware.1.fault (machine.firmware.1.faultAt 1) append
            bytes (text ++ [lineFeed.toUInt8])) machine after) E positioned := by
    intro goes
    refine wp_mono here (fun done after stored => ?_) fun _ stop => stop
    obtain ⟨rfl, stores⟩ := stored
    rw [next] at stores ⊢
    refine ⟨by rw [storeDone, goes]; rfl, frame.then stores.frame, ?_, ?_⟩
    · rw [stores.contents, contents, storedContent_goes goes]
    · refine stores.faults.trans ?_
      rw [faults]
      exact List.drop_suffix 1 _
  rw [answer, wp_ite]
  constructor
  · rintro ⟨overwrites, error⟩
    have failed : efiError machine.firmware.1.fault.status = true := by
      by_contra calm
      rw [if_neg calm] at error
      cases error
    have plain : append = false := Bool.eq_false_iff.mpr overwrites
    have kept : Stores file bytes machine positioned := by
      refine ⟨frame, ?_, ?_⟩
      · rw [contents, ← holds, Function.update_eq_self]
      · rw [faults]
        exact List.drop_suffix 1 _
    apply kept.wp_close resolve device handle false
    intro after stores
    rw [storeDone, storedContent, if_pos failed, plain, failed]
    exact ⟨rfl, stores⟩
  · intro goes
    apply onwards
    cases append with
    | true => rfl
    | false =>
      by_contra failed
      rw [Bool.false_or, Bool.not_eq_true, Bool.not_eq_false'] at failed
      rw [if_pos failed] at goes
      exact goes ⟨Bool.false_ne_true, failed⟩

/-- The file behind `terminal_write_file`, unless its opening is refused. -/
theorem wp_terminalWriteFile_exact {path : Memory} {name : Text} (readable : scan path = some name)
    {stored : List Memory} {text : List UInt8} (words : storeWords [] false stored = some text)
    (room : text.length < terminalMaxLine) (append : Bool) (machine : Machine (Volume File × τ))
    {E : Stop → Prop} :
    wp (terminalWriteFile (Volume.firmware resolve device) path stored append)
      (fun done after => OnlyFirmware machine after ∧
        after.firmware.1.faults <:+ machine.firmware.1.faults ∧
        (Refused (resolve name) createMode machine → done = false ∧
          after.firmware.1.contents = machine.firmware.1.contents) ∧
        (¬ Refused (resolve name) createMode machine →
          done = storeDone (machine.firmware.1.faultAt 4) (machine.firmware.1.faultAt 5) append ∧
          after.firmware.1.contents = Function.update machine.firmware.1.contents (resolve name)
            (some (storedContent (machine.firmware.1.faultAt 4) (machine.firmware.1.faultAt 5) append
              ((machine.firmware.1.contents (resolve name)).getD [])
              (text ++ [lineFeed.toUInt8]))))) E machine := by
  rw [terminalWriteFile, wp_bind]
  apply wp_openOnVolume resolve device path name createMode efiFileArchive readable
  · intro after frame contents faults refused
    exact ⟨frame, faults, fun _ => ⟨rfl, contents⟩, fun opens => absurd refused opens⟩
  · intro after handle frame fresh opens
    have holds : after.firmware.1.contents (resolve name) =
        some ((machine.firmware.1.contents (resolve name)).getD []) := by
      rw [fresh.contents, Function.update_self]
    have fourth : after.firmware.1.fault = machine.firmware.1.faultAt 4 := by
      rw [fault, faultAt_of_drop fresh.faults]
    have fifth : after.firmware.1.faultAt 1 = machine.firmware.1.faultAt 5 :=
      faultAt_of_drop fresh.faults 1
    have into := wp_storeInto_exact resolve device (E := E) words room append fresh.opened holds
    rw [fourth, fifth] at into
    refine wp_mono into (fun done stored here => ?_) fun _ stop => stop
    refine ⟨frame.then here.2.frame, ?_, fun refused => absurd refused opens,
      fun _ => ⟨here.1, ?_⟩⟩
    · refine here.2.faults.trans ?_
      rw [fresh.faults]
      exact List.drop_suffix 4 _
    · rw [here.2.contents, fresh.contents, Function.update_idem]

/-- Writing to the console leaves the volume as it is. -/
theorem afterWrites_volume (machine : Machine (Volume File × τ)) (texts : List Text) :
    (afterWrites (Volume.firmware resolve device) machine texts).firmware.1 =
      machine.firmware.1 := by
  induction texts generalizing machine with
  | nil => rfl
  | cons shown rest ih =>
    rw [afterWrites_cons, ih, afterWrite]
    split
    · rfl
    · rfl

end Files

/-! ## Commands -/

/-- The words of a single command fit into a line with their ends. -/
theorem Single.room {line name path : Text} {words : List Text}
    (single : Single line (name :: path :: words)) :
    (words.map (·.length + 1)).sum + 2 ≤ terminalMaxLine := by
  have kept : (tokens terminalMaxArgs line).Sublist (runs isBlank (line.take (terminalMaxLine - 1))) :=
    List.take_sublist _ _
  have fewer : ((tokens terminalMaxArgs line).map (·.length + 1)).sum ≤
      ((runs isBlank (line.take (terminalMaxLine - 1))).map (·.length + 1)).sum :=
    (kept.map _).sum_le_sum fun _ _ => Nat.zero_le _
  have total := runs_total isBlank (line.take (terminalMaxLine - 1))
  have short : (line.take (terminalMaxLine - 1)).length ≤ terminalMaxLine - 1 :=
    List.length_take_le _ _
  rw [single.words, List.map_cons, List.sum_cons, List.map_cons, List.sum_cons] at fewer
  have bound : terminalMaxLine = 128 := rfl
  omega

/-- The words of a single command are terminated behind their last character only. -/
theorem Single.wordsFree {line : Text} {argv : List Text} (single : Single line argv) :
    ∀ word ∈ argv, (0 : CHAR16) ∉ word := by
  intro word member zero
  have solid := tokens_solid single.free (single.words ▸ member) 0 zero
  exact solid.1 rfl

/-- A line that stores one to six words. With the name and the path these are all the words that
the interpreter keeps. -/
structure StoreLine (name : String) (line path : Text) (words : List Text) : Prop where
  typed : Typed line (text name :: path :: words)
  nonempty : words ≠ []
  few : words.length ≤ 6

/-- No word of such a line is lost. -/
theorem StoreLine.single {name : String} {line path : Text} {words : List Text}
    (store : StoreLine name line path words) : Single line (text name :: path :: words) := by
  have count : (text name :: path :: words).length ≤ terminalMaxArgs :=
    Nat.succ_le_succ (Nat.succ_le_succ store.few)
  have single := store.typed.single
  rwa [List.take_of_length_le count] at single

/-- What a line that stores words does: what `terminal_write_file` does with them, apart from a
usage line and from the line buffer. -/
structure StoreRun {σ : Type} (fw : Firmware σ) (fuel : Nat) (line : Text) (name : String) (path : Text)
    (words : List Text) (append : Bool) (machine : Machine σ) (done : Bool) (after : Machine σ) :
    Prop where
  command : (terminalExecuteCommand fw fuel (line ++ [0])).run machine = .ok (false, after)
  file : ∃ stored buffer,
    (terminalWriteFile fw (path ++ [0]) (words.map (· ++ [0])) append).run
      (commanded machine name (text name :: path :: words)) = .ok (done, stored) ∧
    after = (afterWrites fw stored (if done then []
      else [text "usage: write|append <file> <text", [carriageReturn, lineFeed]])).withLine buffer

section Lines

variable {σ : Type} {fw : Firmware σ} {line path : Text} {words : List Text} {name : String}
  {append : Bool}

/-- Storing the words of a line is storing them in the file of its path. -/
theorem store_run (fuel : Nat) (named : (name, append) ∈ storeNames)
    (single : Single line (text name :: path :: words)) (nonempty : words ≠ [])
    {machine stored : Machine σ} {done : Bool}
    (ran : (terminalWriteFile fw (path ++ [0]) (words.map (· ++ [0])) append).run
      (commanded machine name (text name :: path :: words)) = .ok (done, stored)) :
    ∃ after, StoreRun fw (fuel + 1) line name path words append machine done after := by
  obtain ⟨word, rest, rfl⟩ := List.exists_cons_of_ne_nil nonempty
  have usage : (0 : CHAR16) ∉ text "usage: write|append <file> <text" := by decide
  have row := interpret_store fw fuel named single
  obtain ⟨buffer, command⟩ := run_row row (by
    rw [run_bind_of_ok ran]
    exact shows_orUsage usage done stored)
  exact ⟨_, command, stored, buffer, ran, rfl⟩

end Lines

section Volumes

variable {File τ : Type} [DecidableEq File] (resolve : Text → File) (device : Firmware τ)
  {line path : Text} {words : List Text} {name : String} {append : Bool}

omit [DecidableEq File] in
/-- Without failing calls, a file is opened for writing wherever there is a file system. -/
theorem refused_calm {machine : Machine (Volume File × τ)} (calm : machine.firmware.1.faults = [])
    (file : File) : Refused file createMode machine ↔ machine.canLocate = false := by
  constructor
  · intro refused
    by_contra located
    refine not_refused (Bool.eq_true_of_not_eq_false located) (fun calls _ => ?_)
      (Or.inr (by decide)) refused
    rw [faultAt_of_nil calm]
    decide
  · exact Or.inl

/-- What a line that stores words makes of its volume. -/
theorem store_volume (fuel : Nat) (named : (name, append) ∈ storeNames)
    (single : Single line (text name :: path :: words)) (nonempty : words ≠ [])
    (machine : Machine (Volume File × τ)) :
    ∃ done after,
      StoreRun (Volume.firmware resolve device) (fuel + 1) line name path words append machine done
        after ∧
      after.gST = machine.gST ∧ after.gBS = machine.gBS ∧
      after.firmware.1.faults <:+ machine.firmware.1.faults ∧
      (Refused (resolve path) createMode machine → done = false ∧
        after.firmware.1.contents = machine.firmware.1.contents) ∧
      (¬ Refused (resolve path) createMode machine →
        done = storeDone (machine.firmware.1.faultAt 4) (machine.firmware.1.faultAt 5) append ∧
        after.firmware.1.contents = Function.update machine.firmware.1.contents (resolve path)
          (some (storedContent (machine.firmware.1.faultAt 4) (machine.firmware.1.faultAt 5) append
            ((machine.firmware.1.contents (resolve path)).getD []) (lineOf words)))) := by
  have free := single.wordsFree
  have wordsFree : ∀ word ∈ words, (0 : CHAR16) ∉ word := fun word member =>
    free word (List.mem_cons_of_mem _ (List.mem_cons_of_mem _ member))
  have readable : scan (path ++ [0]) = some path :=
    scan_append path [] (free path (List.mem_cons_of_mem _ List.mem_cons_self))
  have room := single.room
  have whole := lineOf_length nonempty
  have assembled := storeWords_joined wordsFree nonempty (by omega)
  have short : ((joined space words).map (·.toUInt8)).length < terminalMaxLine := by
    rw [lineOf, List.length_append, List.length_singleton] at whole
    omega
  have total := wp_terminalWriteFile_exact resolve device (E := fun _ => False) readable assembled short
    append (commanded machine name (text name :: path :: words))
  obtain ⟨done, stored, ran, frame, faults, outcome⟩ := (wp_total_iff _ _ _).mp total
  obtain ⟨after, run⟩ := store_run fuel named single nonempty ran
  obtain ⟨_, buffer, same, behind⟩ := run.file
  cases ran.symm.trans same
  have volume : after.firmware.1 = stored.firmware.1 := by
    rw [behind]
    exact afterWrites_volume resolve device stored _
  obtain ⟨_, _, services⟩ := frame.then (afterWrites_onlyFirmware _ stored (if done then []
    else [text "usage: write|append <file> <text", [carriageReturn, lineFeed]]))
  rw [services] at behind
  refine ⟨done, after, run, ?_, ?_, ?_, ?_⟩
  · rw [behind]
    rfl
  · rw [behind]
    rfl
  · rw [volume]
    exact faults
  · rw [volume]
    exact outcome

end Volumes

end ExistentOS.Terminal
