import ExistentOS.Terminal.Screen
import Mathlib.Data.List.TakeWhile

/-!
# Line editing

What `terminal_read_line` makes of the units that the key strokes leave in the key structure: the
line, the value that is returned, and what the console shows. A unit edits the line and is answered
on the console; the carriage return ends the line.
-/

namespace ExistentOS.Terminal

open Programs Terminated

variable {σ : Type}

/-! ## Editing -/

/-- What a unit makes of the line: a backspace takes the last one away, and a full line takes no
more. -/
def edit (maxLength : Nat) (line : Text) (unit : CHAR16) : Text :=
  if unit = 0 then line
  else if unit = backspace then line.dropLast
  else if line.length < maxLength - 1 then line ++ [unit]
  else line

/-- What is written for a unit. A backspace is answered also where the echo is off. -/
def response (echo : Bool) (maxLength : Nat) (line : Text) (unit : CHAR16) : List Text :=
  if unit = 0 then []
  else if unit = backspace then
    if line = [] then [] else [[backspace, space, backspace]]
  else if line.length < maxLength - 1 ∧ echo then [[unit]]
  else []

/-- What is written while some units edit the line, text by text. -/
def responses (echo : Bool) (maxLength : Nat) : Text → List CHAR16 → List Text
  | _, [] => []
  | line, unit :: rest =>
    response echo maxLength line unit ++ responses echo maxLength (edit maxLength line unit) rest

/-- The line behind some units, from a line that is there. -/
def editAll (maxLength : Nat) (line : Text) (units : List CHAR16) : Text :=
  units.foldl (edit maxLength) line

/-- A line stays within its buffer and free of terminators. -/
theorem edit_within {maxLength : Nat} {line : Text} (within : LineWithin maxLength line)
    (unit : CHAR16) : LineWithin maxLength (edit maxLength line unit) := by
  obtain ⟨short, free⟩ := within
  rw [edit]
  split
  · exact ⟨short, free⟩
  rename_i nonzero
  split
  · refine ⟨?_, fun member => free (List.mem_of_mem_dropLast member)⟩
    rw [List.length_dropLast]
    omega
  split
  · constructor
    · rw [List.length_append, List.length_singleton]
      omega
    · simp [free, Ne.symm nonzero]
  · exact ⟨short, free⟩

/-- No units make the line longer than the buffer. -/
theorem editAll_within {maxLength : Nat} {line : Text} (within : LineWithin maxLength line)
    (units : List CHAR16) : LineWithin maxLength (editAll maxLength line units) := by
  induction units generalizing line with
  | nil => exact within
  | cons unit rest ih => exact ih (edit_within within unit)

/-! ## The screen -/

/-- What a line of the console shows behind some units: a backspace, a space and another backspace
erase the last character. -/
def display : Text → Text → Text
  | shown, first :: second :: third :: rest =>
    if [first, second, third] = [backspace, space, backspace] then display shown.dropLast rest
    else display (shown ++ [first]) (second :: third :: rest)
  | shown, units => shown ++ units

/-- A character other than a backspace is shown behind the ones before it. -/
theorem display_unit {unit : CHAR16} (other : unit ≠ backspace) (shown rest : Text) :
    display shown (unit :: rest) = display (shown ++ [unit]) rest := by
  cases rest with
  | nil => simp [display]
  | cons second later =>
    cases later with
    | nil => simp [display]
    | cons third later => simp [display, other]

/-- A backspace, a space and a backspace take the last character away. -/
theorem display_erase (shown rest : Text) :
    display shown (backspace :: space :: backspace :: rest) = display shown.dropLast rest := by
  simp [display]

/-- A unit changes the line that is shown like the line that is held. -/
theorem display_response (maxLength : Nat) (line : Text) (unit : CHAR16) (rest : Text) :
    display line ((response true maxLength line unit).flatten ++ rest) =
      display (edit maxLength line unit) rest := by
  rw [response, edit]
  by_cases zero : unit = 0
  · rw [if_pos zero, if_pos zero]
    rfl
  rw [if_neg zero, if_neg zero]
  by_cases erasing : unit = backspace
  · rw [if_pos erasing, if_pos erasing]
    by_cases empty : line = []
    · rw [if_pos empty, empty]
      rfl
    · rw [if_neg empty]
      exact display_erase line rest
  rw [if_neg erasing, if_neg erasing]
  by_cases room : line.length < maxLength - 1
  · rw [if_pos ⟨room, rfl⟩, if_pos room]
    exact display_unit erasing line rest
  · rw [if_neg fun both => room both.1, if_neg room]
    rfl

/-- With the echo on, the console shows the line.

Induct over the units. -/
theorem display_responses (maxLength : Nat) (line : Text) (units : List CHAR16) (rest : Text) :
    display line ((responses true maxLength line units).flatten ++ rest) =
      display (editAll maxLength line units) rest := by
  induction units generalizing line with
  | nil => rfl
  | cons unit later ih =>
    rw [responses, List.flatten_append, List.append_assoc, display_response, ih]
    rfl

/-! ## Key strokes -/

/-- The units that key strokes leave in the key structure, given the one that is there before. A
stroke that leaves the structure alone repeats it. -/
def unitsLeft (previous : Option CHAR16) : List (Option CHAR16) → List CHAR16
  | [] => []
  | stroke :: rest => (stroke <|> previous).toList ++ unitsLeft (stroke <|> previous) rest

/-- The firmware leaves these units in the key structure, whatever is written in between. -/
def Feeds (fw : Firmware σ) : Option CHAR16 → List CHAR16 → σ → Prop
  | _, [], _ => True
  | previous, unit :: rest, state => ∀ texts : List Text,
    let typed := fw.readKeyStroke
      (texts.foldl (fun reached shown => (fw.outputString shown reached).2) state)
    (typed.1.2 <|> previous) = some unit ∧ Feeds fw (some unit) rest typed.2

/-- What is fed first is fed. -/
theorem Feeds.first {fw : Firmware σ} {previous : Option CHAR16} {units rest : List CHAR16} {state : σ}
    (feeds : Feeds fw previous (units ++ rest) state) : Feeds fw previous units state := by
  induction units generalizing previous state with
  | nil => trivial
  | cons unit later ih =>
    intro texts
    obtain ⟨left, further⟩ := feeds texts
    exact ⟨left, ih further⟩

/-- Writing to the console does not keep a firmware from feeding. -/
theorem feeds_afterWrites {fw : Firmware σ} {previous : Option CHAR16} {units : List CHAR16}
    {machine : Machine σ} (feeds : Feeds fw previous units machine.firmware) (texts : List Text) :
    Feeds fw previous units (afterWrites fw machine texts).firmware := by
  induction texts generalizing machine with
  | nil => exact feeds
  | cons shown rest ih =>
    apply ih
    rw [afterWrite]
    split
    · cases units with
      | nil => trivial
      | cons unit later => exact fun texts => feeds (shown :: texts)
    · exact feeds

/-- The machine after a key stroke: the keyboard has been polled once. -/
def afterStroke (fw : Firmware σ) (machine : Machine σ) : Machine σ :=
  machine.called (fw.readKeyStroke machine.firmware).2
    (.readKeyStroke (fw.readKeyStroke machine.firmware).1)

/-! ## Rounds -/

section Rounds

variable {fw : Firmware σ} {maxLength : Nat} {previous : Option CHAR16} {line : Text}
  {machine : Machine σ}

/-- A round reads a key stroke first, and then does what the unit asks for. -/
theorem run_readLineRound_stroke (console : canRead machine) {unit : CHAR16}
    (left : ((fw.readKeyStroke machine.firmware).1.2 <|> previous) = some unit)
    {outcome : (Option CHAR16 × Text) ⊕ (Int32 × Memory)} {after : Machine σ}
    (rest : (do
      if unit = 0 then return .inl (some unit, line)
      if unit = carriageReturn then
        terminalWrite fw [carriageReturn, lineFeed, 0]
        let stored ← orOverrun (push maxLength line 0)
        return .inr (Int32.ofNat line.length, stored)
      if unit = backspace then
        if line.length > 0 then
          terminalWrite fw [backspace, space, backspace, 0]
        return .inl (some unit, line.dropLast)
      if line.length + 1 ≥ maxLength then return .inl (some unit, line)
      if machine.terminal.echoEnabled then
        terminalWrite fw [unit, 0]
      let grown ← orOverrun (push maxLength line unit)
      return .inl (some unit, grown) : Routine σ _).run (afterStroke fw machine) =
        .ok (outcome, after)) :
    (readLineRound fw maxLength (previous, line)).run machine = .ok (outcome, after) := by
  have entered : (get : Routine σ (Machine σ)).run machine = .ok (machine, machine) := rfl
  have stroked : (readKeyStroke fw).run machine =
      .ok ((fw.readKeyStroke machine.firmware).1, afterStroke fw machine) := rfl
  rw [readLineRound, run_bind_of_ok entered, if_pos console, run_bind_of_ok stroked, left]
  exact rest

/-- A round without a stroke, before any stroke. -/
theorem run_readLineRound_unset (console : canRead machine)
    (left : ((fw.readKeyStroke machine.firmware).1.2 <|> previous) = none) :
    (readLineRound fw maxLength (previous, line)).run machine = .error .unset := by
  have entered : (get : Routine σ (Machine σ)).run machine = .ok (machine, machine) := rfl
  have stroked : (readKeyStroke fw).run machine =
      .ok ((fw.readKeyStroke machine.firmware).1, afterStroke fw machine) := rfl
  rw [readLineRound, run_bind_of_ok entered, if_pos console, run_bind_of_ok stroked, left]
  rfl

/-- A round for a unit that does not end the line. -/
theorem run_readLineRound (within : LineWithin maxLength line) (console : canRead machine)
    {unit : CHAR16} (left : ((fw.readKeyStroke machine.firmware).1.2 <|> previous) = some unit)
    (goes : unit ≠ carriageReturn) :
    (readLineRound fw maxLength (previous, line)).run machine =
      .ok (.inl (some unit, edit maxLength line unit), afterWrites fw (afterStroke fw machine)
        (response machine.terminal.echoEnabled maxLength line unit)) := by
  apply run_readLineRound_stroke console left
  rw [edit, response]
  by_cases zero : unit = 0
  · rw [if_pos zero, if_pos zero, if_pos zero]
    rfl
  rw [if_neg zero, if_neg zero, if_neg zero, if_neg goes]
  by_cases erasing : unit = backspace
  · rw [if_pos erasing, if_pos erasing, if_pos erasing]
    have erases : (0 : CHAR16) ∉ [backspace, space, backspace] := by decide
    by_cases empty : line = []
    · rw [if_pos empty, empty]
      rfl
    · rw [if_neg empty, if_pos (List.length_pos_iff.mpr empty)]
      exact run_bind_of_ok (shows_terminalWrite erases (afterStroke fw machine))
  rw [if_neg erasing, if_neg erasing, if_neg erasing]
  by_cases room : line.length < maxLength - 1
  · have stored : push maxLength line unit = some (line ++ [unit]) := push_room within.1 unit
    rw [if_neg (by omega), if_pos room, stored]
    by_cases echoes : machine.terminal.echoEnabled
    · rw [if_pos echoes, if_pos ⟨room, echoes⟩]
      have shown : (0 : CHAR16) ∉ [unit] := by simpa using Ne.symm zero
      exact run_bind_of_ok (shows_terminalWrite shown (afterStroke fw machine))
    · rw [if_neg echoes, if_neg fun both => echoes both.2]
      rfl
  · rw [if_pos (by omega), if_neg room, if_neg fun both => room both.1]
    rfl

/-- The round for a carriage return ends the line and returns its length. -/
theorem run_readLineRound_return (within : LineWithin maxLength line) (console : canRead machine)
    (left : ((fw.readKeyStroke machine.firmware).1.2 <|> previous) = some carriageReturn) :
    (readLineRound fw maxLength (previous, line)).run machine =
      .ok (.inr (Int32.ofNat line.length, line ++ [0]),
        afterWrites fw (afterStroke fw machine) [[carriageReturn, lineFeed]]) := by
  apply run_readLineRound_stroke console left
  have lineEnd : (0 : CHAR16) ∉ [carriageReturn, lineFeed] := by decide
  have stored : push maxLength line 0 = some (line ++ [0]) := push_room within.1 0
  rw [if_neg (by decide), if_pos rfl, stored]
  exact run_bind_of_ok (shows_terminalWrite lineEnd (afterStroke fw machine))

end Rounds

/-! ## Lines -/

/-- The line that some units leave is read: they are typed and then a carriage return, their
responses and a line end are written if there is a console, and nothing else changes. -/
structure Edits (maxLength : Nat) (previous : Option CHAR16) (line : Text) (units : List CHAR16)
    (events : List Event) (machine after : Machine σ) (result : Int32 × Memory) : Prop where
  goes : carriageReturn ∉ units
  recorded : after.trace = machine.trace ++ events
  typed : unitsLeft previous (strokes events) = units ++ [carriageReturn]
  shown : written events = if canWrite machine then
    responses machine.terminal.echoEnabled maxLength line units ++ [[carriageReturn, lineFeed]] else []
  frame : OnlyFirmware machine after
  returned : result = (Int32.ofNat (editAll maxLength line units).length,
    editAll maxLength line units ++ [0])

section Lines

variable {fw : Firmware σ} {maxLength : Nat} {previous : Option CHAR16} {line : Text}
  {machine : Machine σ}

/-- A frame keeps what the console does, as long as the table of the system is the same. -/
theorem console_of_frame {after : Machine σ} (frame : OnlyFirmware machine after) :
    canRead after = canRead machine ∧ canWrite after = canWrite machine ∧
      after.terminal = machine.terminal := by
  obtain ⟨_, _, rfl⟩ := frame
  exact ⟨rfl, rfl, rfl⟩

/-- The steps of a round: one key stroke and the texts that answer it. -/
theorem afterStroke_trace (fw : Firmware σ) (machine : Machine σ) (texts : List Text) :
    ∃ events, (afterWrites fw (afterStroke fw machine) texts).trace = machine.trace ++ events ∧
      written events = (if canWrite machine then texts else []) ∧
      strokes events = [(fw.readKeyStroke machine.firmware).1.2] ∧
      OnlyFirmware machine (afterWrites fw (afterStroke fw machine) texts) := by
  obtain ⟨events, trace, shown, calm⟩ := afterWrites_trace fw (afterStroke fw machine) texts
  have stroke : OnlyFirmware machine (afterStroke fw machine) := called_onlyFirmware machine _ _
  refine ⟨.readKeyStroke (fw.readKeyStroke machine.firmware).1 :: events, ?_, shown, ?_,
    stroke.then (afterWrites_onlyFirmware fw (afterStroke fw machine) texts)⟩
  · rw [trace, afterStroke, called_trace, List.append_assoc]
    rfl
  · exact congrArg (List.cons _) calm

/-- A carriage return ends the line. What is typed behind it is not looked at. -/
theorem edits_return (left : ((fw.readKeyStroke machine.firmware).1.2 <|> previous) =
    some carriageReturn) :
    ∃ events, Edits maxLength previous line [] events machine
      (afterWrites fw (afterStroke fw machine) [[carriageReturn, lineFeed]])
      (Int32.ofNat line.length, line ++ [0]) := by
  obtain ⟨events, trace, shown, stroke, frame⟩ :=
    afterStroke_trace fw machine [[carriageReturn, lineFeed]]
  refine ⟨events, List.not_mem_nil, trace, ?_, shown, frame, rfl⟩
  rw [stroke, unitsLeft, left]
  rfl

/-- Another unit comes first. -/
theorem edits_unit {unit : CHAR16} {units : List CHAR16} {later : List Event} {after : Machine σ}
    {result : Int32 × Memory}
    (left : ((fw.readKeyStroke machine.firmware).1.2 <|> previous) = some unit) (goes : unit ≠ carriageReturn)
    (rest : Edits maxLength (some unit) (edit maxLength line unit) units later
      (afterWrites fw (afterStroke fw machine)
        (response machine.terminal.echoEnabled maxLength line unit)) after result) :
    ∃ events, Edits maxLength previous line (unit :: units) events machine after result := by
  obtain ⟨events, trace, shown, stroke, frame⟩ := afterStroke_trace fw machine
    (response machine.terminal.echoEnabled maxLength line unit)
  obtain ⟨_, writes, terminal⟩ := console_of_frame frame
  refine ⟨events ++ later, ?_, ?_, ?_, ?_, frame.then rest.frame, rest.returned⟩
  · exact List.not_mem_cons_of_ne_of_not_mem (Ne.symm goes) rest.goes
  · rw [rest.recorded, trace, List.append_assoc]
  · rw [strokes_append, stroke, List.singleton_append, unitsLeft, left, rest.typed]
    rfl
  · rw [written_append, shown, rest.shown, writes, terminal]
    by_cases console : canWrite machine
    · rw [if_pos console, if_pos console, if_pos console, responses, List.append_assoc]
    · rw [if_neg console, if_neg console, if_neg console]
      rfl

/-- Every line that is read is edited by the units that the key strokes leave.

Induct over the fuel. -/
theorem edits_of_run {fuel : Nat} (within : LineWithin maxLength line) (console : canRead machine)
    {result : Int32 × Memory} {after : Machine σ}
    (ran : (iterate .outOfFuel (readLineRound fw maxLength) fuel (previous, line)).run machine =
      .ok (result, after)) :
    ∃ units events, Edits maxLength previous line units events machine after result := by
  induction fuel generalizing previous line machine with
  | zero => cases ran
  | succ fuel ih =>
    rw [iterate] at ran
    cases left : (fw.readKeyStroke machine.firmware).1.2 <|> previous with
    | none =>
      rw [run_bind_of_error (run_readLineRound_unset console left)] at ran
      cases ran
    | some unit =>
      by_cases ends : unit = carriageReturn
      · rw [ends] at left
        rw [run_bind_of_ok (run_readLineRound_return within console left)] at ran
        cases ran
        obtain ⟨events, edits⟩ := edits_return left
        exact ⟨[], events, edits⟩
      · rw [run_bind_of_ok (run_readLineRound within console left ends)] at ran
        obtain ⟨_, _, _, _, frame⟩ := afterStroke_trace fw machine
          (response machine.terminal.echoEnabled maxLength line unit)
        obtain ⟨units, later, rest⟩ :=
          ih (edit_within within unit) ((console_of_frame frame).1.trans console) ran
        obtain ⟨events, edits⟩ := edits_unit left ends rest
        exact ⟨unit :: units, events, edits⟩

/-- Without a keyboard nothing is read, and the line is reported as empty. -/
theorem terminalReadLine_unread {fuel : Nat} {result : Int32 × Memory} {after : Machine σ}
    (console : ¬ canRead machine)
    (ran : (terminalReadLine fw fuel maxLength).run machine = .ok (result, after)) :
    result = (0, []) ∧ after = machine := by
  cases fuel with
  | zero => cases ran
  | succ fuel =>
    have round : (readLineRound fw maxLength (none, [])).run machine = .ok (.inr (0, []), machine) := by
      have entered : (get : Routine σ (Machine σ)).run machine = .ok (machine, machine) := rfl
      rw [readLineRound, run_bind_of_ok entered, if_neg console]
      rfl
    rw [terminalReadLine, iterate, run_bind_of_ok round] at ran
    cases ran
    exact ⟨rfl, rfl⟩

/-- A firmware that feeds units and then a carriage return has its line read.

Induct over the units. -/
theorem run_of_feeds {units : List CHAR16} {fuel : Nat} (within : LineWithin maxLength line)
    (console : canRead machine) (goes : carriageReturn ∉ units)
    (feeds : Feeds fw previous (units ++ [carriageReturn]) machine.firmware)
    (enough : units.length < fuel) :
    ∃ events after result,
      (iterate .outOfFuel (readLineRound fw maxLength) fuel (previous, line)).run machine =
        .ok (result, after) ∧
      Edits maxLength previous line units events machine after result := by
  obtain ⟨fuel, rfl⟩ := Nat.exists_eq_add_of_le' (Nat.zero_lt_of_lt enough)
  induction units generalizing previous line machine fuel with
  | nil =>
    obtain ⟨left, _⟩ := feeds []
    have ended : ∃ events, Edits maxLength previous line [] events machine
        (afterWrites fw (afterStroke fw machine) [[carriageReturn, lineFeed]])
        (Int32.ofNat line.length, line ++ [0]) := edits_return left
    obtain ⟨events, edits⟩ := ended
    refine ⟨events, _, _, ?_, edits⟩
    rw [iterate, run_bind_of_ok (run_readLineRound_return within console left)]
    rfl
  | cons unit later ih =>
    obtain ⟨left, _⟩ := feeds []
    have feedsOn : Feeds fw (some unit) (later ++ [carriageReturn]) (afterStroke fw machine).firmware :=
      (feeds []).2
    have other : unit ≠ carriageReturn := fun same => goes (same ▸ List.mem_cons_self)
    obtain ⟨_, _, _, _, frame⟩ := afterStroke_trace fw machine
      (response machine.terminal.echoEnabled maxLength line unit)
    rw [List.length_cons] at enough
    obtain ⟨fuel, rfl⟩ : ∃ less, fuel = less + 1 := ⟨fuel - 1, by omega⟩
    obtain ⟨events, after, result, ran, rest⟩ := ih (edit_within within unit)
      ((console_of_frame frame).1.trans console) (fun member => goes (List.mem_cons_of_mem unit member))
      (feeds_afterWrites feedsOn (response machine.terminal.echoEnabled maxLength line unit))
      fuel (by omega)
    obtain ⟨events, edits⟩ := edits_unit left other rest
    refine ⟨events, after, result, ?_, edits⟩
    rw [iterate, run_bind_of_ok (run_readLineRound within console left other)]
    exact ran

end Lines

/-! ## Exactness -/

/-- What reading a line returns, stores and shows when some units are typed before the carriage
return. The length is returned as an `int`. -/
structure ReadExactly (maxLength : Nat) (units : List CHAR16) (events : List Event)
    (machine : Machine σ) (result : Int32 × Memory) : Prop where
  stored : result.2 = editAll maxLength [] units ++ [0]
  returned : result.1 = Int32.ofNat (editAll maxLength [] units).length
  counted : (editAll maxLength [] units).length < 2 ^ 31 →
    result.1.toInt = (editAll maxLength [] units).length
  shown : canWrite machine → machine.terminal.echoEnabled →
    display [] (output events) = editAll maxLength [] units ++ [carriageReturn, lineFeed]

/-- A line that some units leave is read exactly. -/
theorem readExactly_of_edits {maxLength : Nat} {units : List CHAR16} {events : List Event}
    {machine after : Machine σ} {result : Int32 × Memory}
    (edits : Edits maxLength none [] units events machine after result) :
    ReadExactly maxLength units events machine result := by
  rw [edits.returned]
  refine ⟨rfl, rfl, fun short => Int32.toInt_ofNat_of_lt short, fun console echo => ?_⟩
  have texts := edits.shown
  rw [if_pos console, echo] at texts
  rw [output, texts, List.flatten_append, display_responses]
  rw [List.flatten_singleton, display_unit (by decide), display_unit (by decide), List.append_assoc]
  exact List.append_nil _

/-- `terminal_read_line` edits exactly. Whatever units the firmware leaves in the key structure
up to the first carriage return, a line that is returned is theirs; and a firmware that feeds a
carriage return at some time has its line returned. -/
theorem readLine_exact (fw : Firmware σ) {maxLength : Nat} (room : 1 ≤ maxLength)
    (machine : Machine σ) (console : canRead machine) :
    (∀ fuel result after, (terminalReadLine fw fuel maxLength).run machine = .ok (result, after) →
      ∃ units events, carriageReturn ∉ units ∧ after.trace = machine.trace ++ events ∧
        unitsLeft none (strokes events) = units ++ [carriageReturn] ∧
        ReadExactly maxLength units events machine result) ∧
    ∀ units fuel, carriageReturn ∉ units → units.length < fuel →
      Feeds fw none (units ++ [carriageReturn]) machine.firmware →
      ∃ result after events, (terminalReadLine fw fuel maxLength).run machine = .ok (result, after) ∧
        after.trace = machine.trace ++ events ∧
        unitsLeft none (strokes events) = units ++ [carriageReturn] ∧
        ReadExactly maxLength units events machine result := by
  have within : LineWithin maxLength [] := ⟨room, List.not_mem_nil⟩
  constructor
  · intro fuel result after ran
    obtain ⟨units, events, edits⟩ := edits_of_run within console ran
    exact ⟨units, events, edits.goes, edits.recorded, edits.typed, readExactly_of_edits edits⟩
  · intro units fuel goes enough feeds
    obtain ⟨events, after, result, ran, edits⟩ := run_of_feeds within console goes feeds enough
    exact ⟨result, after, events, ran, edits.recorded, edits.typed, readExactly_of_edits edits⟩

/-- A firmware on whose keyboard some units are typed. -/
def keyboard : Firmware (List CHAR16) where
  __ := Firmware.inert
  readKeyStroke
    | [] => ((efiNotFound, none), [])
    | unit :: rest => ((efiSuccess, some unit), rest)

/-- What is typed is fed, unit by unit and in its order. -/
theorem keyboard_feeds (previous : Option CHAR16) (units rest : List CHAR16) :
    Feeds keyboard previous units (units ++ rest) := by
  induction units generalizing previous with
  | nil => trivial
  | cons unit later ih =>
    intro texts
    have still : texts.foldl (fun reached shown => (keyboard.outputString shown reached).2)
        (unit :: later ++ rest) = unit :: later ++ rest := List.foldl_fixed texts
    rw [still]
    exact ⟨rfl, ih (some unit)⟩

/-- A backspace takes back what was typed before it. -/
theorem readLine_exact_erased : ∃ result after,
    (terminalReadLine keyboard 4 3).run
      (Machine.entered [0x61, backspace, 0x62, carriageReturn]) = .ok (result, after) ∧
    result = (1, [0x62, 0]) := by
  obtain ⟨_, returns⟩ := readLine_exact keyboard (by decide : 1 ≤ 3)
    (Machine.entered [0x61, backspace, 0x62, carriageReturn]) rfl
  obtain ⟨result, after, _, ran, _, _, exactly⟩ := returns [0x61, backspace, 0x62] 4 (by decide)
    (by decide) (keyboard_feeds none [0x61, backspace, 0x62, carriageReturn] [])
  exact ⟨result, after, ran, Prod.ext exactly.returned exactly.stored⟩

/-- A line of ordinary characters that has room is held as it is typed. -/
theorem editAll_replicate {unit : CHAR16} (ordinary : unit ≠ 0 ∧ unit ≠ backspace) {maxLength : Nat}
    (line : Text) (count : Nat) (room : line.length + count < maxLength) :
    editAll maxLength line (List.replicate count unit) = line ++ List.replicate count unit := by
  induction count generalizing line with
  | zero => exact (List.append_nil line).symm
  | succ count ih =>
    have grown : edit maxLength line unit = line ++ [unit] := by
      rw [edit, if_neg ordinary.1, if_neg ordinary.2, if_pos (by omega)]
    have later := ih (line ++ [unit]) (by rw [List.length_append, List.length_singleton]; omega)
    rw [List.replicate_succ, editAll, List.foldl_cons, grown]
    rw [editAll] at later
    rw [later, List.append_assoc]
    rfl

/-- A line of ordinary characters is stored as it is typed. -/
theorem readLine_ordinary (count : Nat) : ∃ result after,
    (terminalReadLine keyboard (count + 1) (count + 1)).run
      (Machine.entered (List.replicate count 0x61 ++ [carriageReturn])) = .ok (result, after) ∧
    result = (Int32.ofNat count, List.replicate count 0x61 ++ [0]) := by
  have goes : carriageReturn ∉ List.replicate count (0x61 : CHAR16) :=
    fun member => absurd (List.eq_of_mem_replicate member) (by decide)
  have feeds := keyboard_feeds none (List.replicate count 0x61 ++ [carriageReturn]) []
  rw [List.append_nil] at feeds
  have enough : (List.replicate count (0x61 : CHAR16)).length < count + 1 := by
    rw [List.length_replicate]
    exact Nat.lt_succ_self count
  have read : ∃ events after result,
      (terminalReadLine keyboard (count + 1) (count + 1)).run
        (Machine.entered (List.replicate count 0x61 ++ [carriageReturn])) = .ok (result, after) ∧
      Edits (count + 1) none [] (List.replicate count 0x61) events
        (Machine.entered (List.replicate count 0x61 ++ [carriageReturn])) after result :=
    run_of_feeds ⟨Nat.succ_pos count, List.not_mem_nil⟩ rfl goes feeds enough
  obtain ⟨_, after, result, ran, edits⟩ := read
  have held : editAll (count + 1) [] (List.replicate count 0x61) = [] ++ List.replicate count 0x61 :=
    editAll_replicate (by decide) [] count (by rw [List.length_nil]; omega)
  refine ⟨result, after, ran, ?_⟩
  rw [edits.returned, held, List.nil_append, List.length_replicate]

/-- A line of `2 ^ 31` characters is returned with a negative length. -/
theorem readLine_overflow : ∃ result after,
    (terminalReadLine keyboard (2 ^ 31 + 1) (2 ^ 31 + 1)).run
      (Machine.entered (List.replicate (2 ^ 31) 0x61 ++ [carriageReturn])) = .ok (result, after) ∧
    result.2 = List.replicate (2 ^ 31) 0x61 ++ [0] ∧
    result.1.toInt ≠ (List.replicate (2 ^ 31) (0x61 : CHAR16)).length := by
  obtain ⟨result, after, ran, rfl⟩ := readLine_ordinary (2 ^ 31)
  refine ⟨_, after, ran, rfl, ?_⟩
  rw [List.length_replicate, Int32.toInt_ofNat']
  decide

end ExistentOS.Terminal
