import ExistentOS.Terminal.LineEditing

/-!
# Typed lines

A prompt is answered with a line. What is recorded meanwhile is a conversation: the lines that the
key strokes type, the texts that are written, and no other call. A keyboard is a queue of units that
only key strokes take from; whatever a routine does, it has taken the first of them.
-/

namespace ExistentOS.Terminal

open Programs Terminated

variable {σ : Type}

/-! ## Conversations -/

/-- The event is a key stroke or writes to the console. -/
def isConsole : Event → Bool
  | .outputString _ _ => true
  | .readKeyStroke _ => true
  | _ => false

/-- Key strokes that type some lines, each up to a carriage return. Every line starts with a key
structure of its own. -/
inductive Typing : List (Option CHAR16) → List (List CHAR16) → Prop where
  | nothing : Typing [] []
  | line {first rest : List (Option CHAR16)} {units : List CHAR16} {lines : List (List CHAR16)}
    (goes : carriageReturn ∉ units) (typed : unitsLeft none first = units ++ [carriageReturn])
    (later : Typing rest lines) : Typing (first ++ rest) (units :: lines)

/-- Lines are typed in turn, and the key structure of one does not reach into the next. -/
theorem Typing.append {first rest : List (Option CHAR16)} {early late : List (List CHAR16)}
    (before : Typing first early) (behind : Typing rest late) :
    Typing (first ++ rest) (early ++ late) := by
  induction before with
  | nothing => exact behind
  | line goes typed _ ih =>
    rw [List.append_assoc, List.cons_append]
    exact .line goes typed ih

/-- The key strokes of one line. -/
theorem Typing.single {strokes : List (Option CHAR16)} {units : List CHAR16}
    (typing : Typing strokes [units]) :
    unitsLeft none strokes = units ++ [carriageReturn] := by
  cases typing with
  | line _ typed later =>
    cases later
    simpa using typed

/-- Some lines are typed, some texts are written if there is a console, and nothing else is
called. -/
def Talks (lines : List (List CHAR16)) (texts : List Text) (machine after : Machine σ) : Prop :=
  ∃ events, after.trace = machine.trace ++ events ∧ Typing (strokes events) lines ∧
    written events = (if canWrite machine then texts else []) ∧
    ∀ event ∈ events, isConsole event = true

/-- Conversations in turn are one conversation. -/
theorem Talks.then {early late : List (List CHAR16)} {texts later : List Text}
    {machine middle after : Machine σ} (before : Talks early texts machine middle)
    (same : canWrite middle = canWrite machine) (behind : Talks late later middle after) :
    Talks (early ++ late) (texts ++ later) machine after := by
  obtain ⟨first, toMiddle, typed, shown, console⟩ := before
  obtain ⟨rest, toAfter, typing, showing, further⟩ := behind
  refine ⟨first ++ rest, by rw [toAfter, toMiddle, List.append_assoc], ?_, ?_, ?_⟩
  · rw [strokes_append]
    exact typed.append typing
  · rw [written_append, shown, showing, same]
    split <;> simp
  · simpa [or_imp, forall_and] using ⟨console, further⟩

/-- Nothing is said. -/
theorem talks_nothing {machine after : Machine σ} (same : after.trace = machine.trace) :
    Talks [] [] machine after :=
  ⟨[], by simp [same], .nothing, by simp [written], by simp⟩

/-! ## Calls of the console -/

/-- Only the console is called. -/
abbrev OnlyConsole : Machine σ → Machine σ → Prop := Emits fun event => isConsole event = true

section Calls

variable {fw : Firmware σ} {α : Type}

/-- Writing changes the console alone. -/
theorem console_outputString (shown : Text) : Keeps OnlyConsole (outputString fw shown) := by
  constructor
  intro machine _ _ ran
  cases ran
  exact ⟨_, rfl, by simp [isConsole]⟩

/-- Polling the keyboard changes the console alone. -/
theorem console_readKeyStroke : Keeps OnlyConsole (readKeyStroke fw) := by
  constructor
  intro machine _ _ ran
  cases ran
  exact ⟨_, rfl, by simp [isConsole]⟩

/-- Writing a string changes the console alone. -/
theorem console_terminalWrite (memory : Memory) : Keeps OnlyConsole (terminalWrite fw memory) := by
  apply keeps_bind keeps_get
  intro machine
  apply keeps_ite
  · intro _
    apply keeps_bind (keeps_orStop .overrun _)
    intro shown
    exact keeps_bind (console_outputString shown) (fun _ => keeps_pure ())
  · intro _
    exact keeps_pure ()

/-- Reading a line calls the console only, whatever is typed. -/
theorem console_terminalReadLine (fuel maxLength : Nat) :
    Keeps OnlyConsole (terminalReadLine fw fuel maxLength) := by
  apply keeps_iterate
  intro current
  apply keeps_bind keeps_get
  intro machine
  refine keeps_ite (fun _ => ?_) (fun _ => keeps_pure _)
  apply keeps_bind console_readKeyStroke
  intro stroke
  apply keeps_bind (keeps_orStop .unset _)
  intro unit
  refine keeps_ite (fun _ => keeps_pure _) (fun _ => ?_)
  refine keeps_ite (fun _ => ?_) (fun _ => ?_)
  · apply keeps_bind (console_terminalWrite _)
    intro _
    exact keeps_bind (keeps_orStop .overrun _) (fun _ => keeps_pure _)
  refine keeps_ite (fun _ => ?_) (fun _ => ?_)
  · refine keeps_ite (fun _ => ?_) (fun _ => keeps_pure _)
    exact keeps_bind (console_terminalWrite _) (fun _ => keeps_pure _)
  refine keeps_ite (fun _ => keeps_pure _) (fun _ => ?_)
  refine keeps_ite (fun _ => ?_) (fun _ => ?_)
  · apply keeps_bind (console_terminalWrite _)
    intro _
    exact keeps_bind (keeps_orStop .overrun _) (fun _ => keeps_pure _)
  · exact keeps_bind (keeps_orStop .overrun _) (fun _ => keeps_pure _)

/-- Writing some texts is a conversation without lines. -/
theorem talks_afterWrites (fw : Firmware σ) (machine : Machine σ) (texts : List Text) :
    Talks [] texts machine (afterWrites fw machine texts) := by
  induction texts generalizing machine with
  | nil => exact talks_nothing rfl
  | cons shown rest ih =>
    have first : Talks [] [shown] machine (afterWrite fw machine shown) := by
      rw [afterWrite]
      by_cases console : canWrite machine
      · rw [if_pos console]
        refine ⟨_, rfl, .nothing, ?_, by simp [isConsole]⟩
        rw [if_pos console]
        rfl
      · rw [if_neg console]
        exact ⟨[], by simp, .nothing, by simp [console, written], by simp⟩
    have same : canWrite (afterWrite fw machine shown) = canWrite machine :=
      (console_of_frame (afterWrites_onlyFirmware fw machine [shown])).2.1
    exact first.then same (ih (afterWrite fw machine shown))

end Calls

/-! ## Prompts -/

/-- A prompt and the line that is read behind it. -/
def ask (fw : Firmware σ) (fuel maxLength : Nat) (prompt : Text) : Routine σ (Int32 × Memory) := do
  terminalWrite fw (prompt ++ [0])
  terminalReadLine fw fuel maxLength

/-- What appears for a prompt and the units that are typed behind it. -/
def asked (echo : Bool) (maxLength : Nat) (prompt : Text) (units : List CHAR16) : List Text :=
  prompt :: responses echo maxLength [] units ++ [[carriageReturn, lineFeed]]

/-- A prompt has been answered with the line that some units leave. The firmware and the trace
have changed, and nothing else. -/
structure Asked (maxLength : Nat) (prompt : Text) (units : List CHAR16)
    (machine after : Machine σ) (result : Int32 × Memory) : Prop where
  goes : carriageReturn ∉ units
  returned : result = (Int32.ofNat (editAll maxLength [] units).length,
    editAll maxLength [] units ++ [0])
  talks : Talks [units] (asked machine.terminal.echoEnabled maxLength prompt units) machine after
  frame : OnlyFirmware machine after

/-- A line for a buffer of the terminal is short: its length is returned as zero only if it is
empty. -/
theorem Asked.blank_iff {maxLength : Nat} {prompt : Text} {units : List CHAR16}
    {machine after : Machine σ} {result : Int32 × Memory}
    (asked : Asked maxLength prompt units machine after result) (room : 0 < maxLength)
    (small : maxLength ≤ terminalMaxLine) : result.1 = 0 ↔ editAll maxLength [] units = [] := by
  have within : LineWithin maxLength (editAll maxLength [] units) :=
    editAll_within ⟨room, List.not_mem_nil⟩ units
  have short : (editAll maxLength [] units).length < 2 ^ 31 := by
    have bound : maxLength ≤ 128 := small
    have fits := within.1
    omega
  rw [asked.returned, ← List.length_eq_zero_iff]
  constructor
  · intro zero
    have value := Int32.toInt_ofNat_of_lt short
    simp only at zero
    rw [zero] at value
    simpa using value.symm
  · intro empty
    rw [empty]
    rfl

section Prompts

variable {fw : Firmware σ} {fuel maxLength : Nat} {prompt : Text} {machine : Machine σ}

/-- The units that edit a line behind a prompt answer it. -/
theorem asked_of_edits {units : List CHAR16} {events : List Event} {after : Machine σ}
    {result : Int32 × Memory}
    (reads : (terminalReadLine fw fuel maxLength).run (afterWrites fw machine [prompt]) =
      .ok (result, after))
    (edits : Edits maxLength none [] units events (afterWrites fw machine [prompt]) after result) :
    Asked maxLength prompt units machine after result := by
  obtain ⟨_, writes, terminal⟩ :=
    console_of_frame (afterWrites_onlyFirmware fw machine [prompt])
  obtain ⟨recorded, traced, console⟩ :=
    (console_terminalReadLine fuel maxLength).related _ result after reads
  obtain rfl : events = recorded :=
    List.append_cancel_left (edits.recorded.symm.trans traced)
  have typing : Typing (strokes events) [units] := by
    have line : Typing (strokes events ++ []) [units] := .line edits.goes edits.typed .nothing
    rwa [List.append_nil] at line
  have shown := edits.shown
  rw [terminal] at shown
  have talked : Talks [units]
      (responses machine.terminal.echoEnabled maxLength [] units ++ [[carriageReturn, lineFeed]])
      (afterWrites fw machine [prompt]) after := ⟨events, edits.recorded, typing, shown, console⟩
  exact ⟨edits.goes, edits.returned, (talks_afterWrites fw machine [prompt]).then writes talked,
    (afterWrites_onlyFirmware fw machine [prompt]).then edits.frame⟩

/-- Behind a prompt a line is read, as it has been edited. -/
theorem run_ask (free : (0 : CHAR16) ∉ prompt) :
    (ask fw fuel maxLength prompt).run machine =
      (terminalReadLine fw fuel maxLength).run (afterWrites fw machine [prompt]) :=
  run_bind_of_ok (shows_terminalWrite free machine)

/-- Whatever answers a prompt has been typed. -/
theorem asked_of_run (room : 0 < maxLength) (free : (0 : CHAR16) ∉ prompt)
    (console : canRead machine) {after : Machine σ} {result : Int32 × Memory}
    (ran : (ask fw fuel maxLength prompt).run machine = .ok (result, after)) :
    ∃ units, Asked maxLength prompt units machine after result := by
  rw [run_ask free] at ran
  obtain ⟨reads, _, _⟩ := console_of_frame (afterWrites_onlyFirmware fw machine [prompt])
  obtain ⟨units, events, edits⟩ :=
    edits_of_run ⟨room, List.not_mem_nil⟩ (reads.trans console) ran
  exact ⟨units, asked_of_edits ran edits⟩

/-- Without a keyboard a prompt is answered with an empty line. -/
theorem ask_unread (free : (0 : CHAR16) ∉ prompt) (console : ¬ canRead machine)
    {after : Machine σ} {result : Int32 × Memory}
    (ran : (ask fw fuel maxLength prompt).run machine = .ok (result, after)) :
    result = (0, []) ∧ OnlyFirmware machine after := by
  rw [run_ask free] at ran
  have frame := afterWrites_onlyFirmware fw machine [prompt]
  obtain ⟨reads, _, _⟩ := console_of_frame frame
  obtain ⟨rfl, rfl⟩ := terminalReadLine_unread (by rwa [reads]) ran
  exact ⟨rfl, frame⟩

end Prompts

/-! ## Keyboards -/

/-- The firmware has a queue of typed units that only key strokes take from. A key stroke leaves
the key structure alone if there is none. -/
structure Keyboard (fw : Firmware σ) (keys : σ → List CHAR16) : Prop where
  readKeyStroke (state : σ) : (fw.readKeyStroke state).1.2 = (keys state).head? ∧
    keys (fw.readKeyStroke state).2 = (keys state).tail
  outputString (shown : Text) (state : σ) : keys (fw.outputString shown state).2 = keys state
  locateProtocol (state : σ) : keys (fw.locateProtocol state).2 = keys state
  openVolume (fs : Handle) (state : σ) : keys (fw.openVolume fs state).2 = keys state
  openFile (root : Handle) (path : Text) (mode attributes : UInt64) (state : σ) :
    keys (fw.openFile root path mode attributes state).2 = keys state
  close (file : Handle) (state : σ) : keys (fw.close file state).2 = keys state
  delete (file : Handle) (state : σ) : keys (fw.delete file state).2 = keys state
  read (file : Handle) (size : Nat) (state : σ) : keys (fw.read file size state).2 = keys state
  write (file : Handle) (bytes : List UInt8) (state : σ) :
    keys (fw.write file bytes state).2 = keys state
  setPosition (file : Handle) (position : UInt64) (state : σ) :
    keys (fw.setPosition file position state).2 = keys state
  flush (file : Handle) (state : σ) : keys (fw.flush file state).2 = keys state

/-- The units of some lines, each with its carriage return. -/
def linesTyped (lines : List (List CHAR16)) : List CHAR16 :=
  lines.flatMap (· ++ [carriageReturn])

/-- The lines are to be typed: they are the next ones of the keyboard, and there is fuel for
them. -/
def ToType (fuel : Nat) (lines : List (List CHAR16)) (rest units : List CHAR16) : Prop :=
  units = linesTyped lines ++ rest ∧ ∀ line ∈ lines, carriageReturn ∉ line ∧ line.length < fuel

/-- The first of some lines to be typed. -/
theorem ToType.cons {fuel : Nat} {line : List CHAR16} {lines : List (List CHAR16)}
    {rest units : List CHAR16} (toType : ToType fuel (line :: lines) rest units) :
    units = line ++ carriageReturn :: (linesTyped lines ++ rest) ∧ carriageReturn ∉ line ∧
      line.length < fuel ∧ ToType fuel lines rest (linesTyped lines ++ rest) := by
  obtain ⟨same, each⟩ := toType
  obtain ⟨⟨goes, short⟩, others⟩ := List.forall_mem_cons.mp each
  refine ⟨?_, goes, short, rfl, others⟩
  simp [same, linesTyped]

/-- What some key strokes leave in the key structure. -/
def drawn : Nat → List CHAR16 → List (Option CHAR16)
  | 0, _ => []
  | count + 1, units => units.head? :: drawn count units.tail

/-- Key strokes are drawn in turn: the later ones are drawn from the units that the earlier ones
have left. -/
theorem drawn_add (first rest : Nat) (units : List CHAR16) :
    drawn (first + rest) units = drawn first units ++ drawn rest (units.drop first) := by
  induction first generalizing units with
  | zero => simp [drawn]
  | succ first ih => simp [Nat.succ_add, drawn, ih]

/-- Once a unit has been set, every stroke leaves one. -/
theorem unitsLeft_stroke_length (unit : CHAR16) (strokes : List (Option CHAR16)) :
    (unitsLeft (some unit) strokes).length = strokes.length := by
  induction strokes generalizing unit with
  | nil => rfl
  | cons stroke rest ih => cases stroke <;> simp [unitsLeft, ih]

/-- Each poll leaves one answer, also when no unit is left. -/
theorem drawn_length (count : Nat) (units : List CHAR16) : (drawn count units).length = count := by
  induction count generalizing units with
  | zero => rfl
  | succ count ih => simp [drawn, ih]

/-- Every stroke leaves a unit if the first one does. -/
theorem unitsLeft_drawn_length (count : Nat) {units : List CHAR16} (some : units ≠ []) :
    (unitsLeft none (drawn count units)).length = count := by
  cases count with
  | zero => rfl
  | succ count =>
    obtain ⟨unit, rest, rfl⟩ := List.exists_cons_of_ne_nil some
    simp [drawn, unitsLeft, unitsLeft_stroke_length, drawn_length]

/-- The key strokes between two machines have taken the first units of the queue. -/
def Draws (keys : σ → List CHAR16) (before after : Machine σ) : Prop :=
  ∃ events, after.trace = before.trace ++ events ∧
    strokes events = drawn (strokes events).length (keys before.firmware) ∧
    keys after.firmware = (keys before.firmware).drop (strokes events).length

instance (keys : σ → List CHAR16) : Std.Refl (Draws keys) :=
  ⟨fun machine => ⟨[], by simp, rfl, rfl⟩⟩

instance (keys : σ → List CHAR16) : IsTrans (Machine σ) (Draws keys) := ⟨by
  rintro first second third ⟨early, toSecond, struck, left⟩ ⟨late, toThird, striking, leaving⟩
  refine ⟨early ++ late, by rw [toThird, toSecond, List.append_assoc], ?_, ?_⟩
  · rw [left] at striking
    rw [strokes_append, List.length_append, drawn_add, ← striking, ← struck]
  · rw [leaving, left, List.drop_drop, strokes_append, List.length_append]⟩

section Keyboards

variable {fw : Firmware σ} {keys : σ → List CHAR16}

/-- A call that is no key stroke takes nothing from the queue. -/
theorem draws_call {α : Type} {operation : σ → α × σ} {event : α → Event}
    (other : ∀ answer, strokes [event answer] = [])
    (same : ∀ state, keys (operation state).2 = keys state) :
    Keeps (Draws keys) (call operation event) := by
  constructor
  intro machine answer after ran
  cases ran
  refine ⟨_, rfl, ?_, ?_⟩
  · simp [other, drawn]
  · simp [other, same]

/-- Everything that a routine can call takes from the queue by key strokes only. -/
theorem Keyboard.frame (keyboard : Keyboard fw keys) : CallFrame fw (Draws keys) where
  setModes _ := keeps_modify fun machine => ⟨[], by simp, rfl, rfl⟩
  locateProtocol := draws_call (fun _ => rfl) keyboard.locateProtocol
  openVolume fs := draws_call (fun _ => rfl) (keyboard.openVolume fs)
  openFile root path mode attributes :=
    draws_call (fun _ => rfl) (keyboard.openFile root path mode attributes)
  closeFile file := draws_call (fun _ => rfl) (keyboard.close file)
  readFile file size := keeps_bind (draws_call (fun _ => rfl) (keyboard.read file size))
    fun answer => keeps_ite (fun _ => keeps_pure answer) (fun _ => keeps_throw Stop.overrun)
  setPosition file position := draws_call (fun _ => rfl) (keyboard.setPosition file position)
  flushFile file := keeps_ite
    (fun _ => keeps_bind (draws_call (fun _ => rfl) (keyboard.flush file)) fun _ => keeps_pure ())
    (fun _ => keeps_pure ())
  outputString shown := draws_call (fun _ => rfl) (keyboard.outputString shown)
  readKeyStroke := by
    constructor
    intro machine answer after ran
    cases ran
    obtain ⟨head, tail⟩ := keyboard.readKeyStroke machine.firmware
    refine ⟨_, rfl, ?_, ?_⟩
    · simp [strokes, drawn, head]
    · simp [strokes, tail]
  deleteFile file := draws_call (fun _ => rfl) (keyboard.delete file)
  writeFile file bytes := draws_call (fun _ => rfl) (keyboard.write file bytes)

/-- What is in the queue is fed, and nothing else. -/
theorem Keyboard.feeds (keyboard : Keyboard fw keys) {units rest : List CHAR16} {state : σ}
    (queued : keys state = units ++ rest) (previous : Option CHAR16) :
    Feeds fw previous units state := by
  induction units generalizing previous state with
  | nil => trivial
  | cons unit later ih =>
    intro texts
    have still : ∀ reached, keys (texts.foldl
        (fun reached shown => (fw.outputString shown reached).2) reached) = keys reached := by
      induction texts with
      | nil => exact fun _ => rfl
      | cons shown texts ih => intro reached; simp [ih, keyboard.outputString]
    obtain ⟨head, tail⟩ := keyboard.readKeyStroke
      (texts.foldl (fun reached shown => (fw.outputString shown reached).2) state)
    rw [still, queued] at head tail
    refine ⟨by simp [head], ih tail (some unit)⟩

/-- Writing takes nothing from the queue. -/
theorem Keyboard.unspent (keyboard : Keyboard fw keys) (machine : Machine σ)
    (texts : List Text) :
    keys (afterWrites fw machine texts).firmware = keys machine.firmware := by
  induction texts generalizing machine with
  | nil => rfl
  | cons shown rest ih =>
    rw [afterWrites_cons, ih, afterWrite]
    split <;> simp [keyboard.outputString]

/-- A prompt is answered with the first line of the queue, and the rest is left. -/
theorem Keyboard.answers (keyboard : Keyboard fw keys) (maxLength : Nat) {fuel : Nat}
    {prompt : Text} {machine : Machine σ} (room : 0 < maxLength) (free : (0 : CHAR16) ∉ prompt)
    (console : canRead machine) {units rest : List CHAR16} (goes : carriageReturn ∉ units)
    (queued : keys machine.firmware = units ++ carriageReturn :: rest)
    (enough : units.length < fuel) :
    ∃ result after, (ask fw fuel maxLength prompt).run machine = .ok (result, after) ∧
      Asked maxLength prompt units machine after result ∧ keys after.firmware = rest := by
  have frame : CallFrame fw (Draws keys) := keyboard.frame
  obtain ⟨reads, _, _⟩ := console_of_frame (afterWrites_onlyFirmware fw machine [prompt])
  rw [List.append_cons] at queued
  have feeds : Feeds fw none (units ++ [carriageReturn]) (afterWrites fw machine [prompt]).firmware :=
    feeds_afterWrites (keyboard.feeds queued none) [prompt]
  obtain ⟨events, after, result, ran, edits⟩ :=
    run_of_feeds ⟨room, List.not_mem_nil⟩ (reads.trans console) goes feeds enough
  have read : (ask fw fuel maxLength prompt).run machine = .ok (result, after) :=
    (run_ask free).trans ran
  have composed : Composed fw (fun _ => True) (FileStep fw) (ask fw fuel maxLength prompt) :=
    Composed.bind (composed_written prompt) (fun _ => composed_terminalReadLine trivial fuel room)
  obtain ⟨drawing, traced, struck, left⟩ :=
    (composed.keepsFiles (R := Draws keys)).related machine result after read
  obtain ⟨talking, also, typing, _⟩ := (asked_of_edits ran edits).talks
  obtain rfl : drawing = talking := List.append_cancel_left (traced.symm.trans also)
  have count : (strokes drawing).length = units.length + 1 := by
    have counted := unitsLeft_drawn_length (strokes drawing).length
      (show keys machine.firmware ≠ [] by simp [queued])
    rw [← struck, typing.single] at counted
    simpa using counted.symm
  refine ⟨result, after, read, asked_of_edits ran edits, ?_⟩
  rw [left, count, queued]
  simp

/-! ## Routines that leave a part of the firmware alone -/

/-- A part of the firmware has been left as it was. -/
def Ignores {β : Type} (part : σ → β) (before after : Machine σ) : Prop :=
  part after.firmware = part before.firmware

instance {β : Type} (part : σ → β) : Std.Refl (Ignores part) := ⟨fun _ => rfl⟩

instance {β : Type} (part : σ → β) : IsTrans (Machine σ) (Ignores part) :=
  ⟨fun _ _ _ early late => late.trans early⟩

/-- A call ignores a part of the firmware that it does not change. -/
theorem ignores_call {α β : Type} {part : σ → β} {operation : σ → α × σ} {event : α → Event}
    (same : ∀ state, part (operation state).2 = part state) :
    Keeps (Ignores part) (call operation event) := by
  constructor
  intro machine answer after ran
  cases ran
  exact same machine.firmware

/-- The firmware with a keyboard that is never touched. Routines that run with it as they do with
the firmware take no key. -/
def untouched (fw : Firmware σ) : Firmware σ :=
  { fw with readKeyStroke := fun state => ((efiNotFound, none), state) }

/-- The console of the firmware, and no files. Routines that only talk run with it as they do
with the firmware. -/
def consoleOf (fw : Firmware σ) : Firmware σ :=
  { Firmware.inert with outputString := fw.outputString, readKeyStroke := fw.readKeyStroke }

/-- Without key strokes, nothing is taken from the queue. A routine that makes none is the same
on the firmware with the keyboard. -/
theorem Keyboard.frame_untouched (keyboard : Keyboard fw keys) :
    CallFrame (untouched fw) (Ignores keys) where
  setModes _ := keeps_modify fun _ => rfl
  locateProtocol := ignores_call keyboard.locateProtocol
  openVolume fs := ignores_call (keyboard.openVolume fs)
  openFile root path mode attributes := ignores_call (keyboard.openFile root path mode attributes)
  closeFile file := ignores_call (keyboard.close file)
  readFile file size := keeps_bind (ignores_call (keyboard.read file size))
    fun answer => keeps_ite (fun _ => keeps_pure answer) (fun _ => keeps_throw Stop.overrun)
  setPosition file position := ignores_call (keyboard.setPosition file position)
  flushFile file := keeps_ite
    (fun _ => keeps_bind (ignores_call (keyboard.flush file)) fun _ => keeps_pure ())
    (fun _ => keeps_pure ())
  outputString shown := ignores_call (keyboard.outputString shown)
  readKeyStroke := ignores_call fun _ => rfl
  deleteFile file := ignores_call (keyboard.delete file)
  writeFile file bytes := ignores_call (keyboard.write file bytes)

/-- The console leaves a part of the firmware alone if its two calls do. -/
theorem frame_consoleOf {β : Type} {part : σ → β}
    (shows : ∀ shown state, part (fw.outputString shown state).2 = part state)
    (reads : ∀ state, part (fw.readKeyStroke state).2 = part state) :
    CallFrame (consoleOf fw) (Ignores part) where
  setModes _ := keeps_modify fun _ => rfl
  locateProtocol := ignores_call fun _ => rfl
  openVolume _ := ignores_call fun _ => rfl
  openFile _ _ _ _ := ignores_call fun _ => rfl
  closeFile _ := ignores_call fun _ => rfl
  readFile _ _ := keeps_bind (ignores_call fun _ => rfl)
    fun answer => keeps_ite (fun _ => keeps_pure answer) (fun _ => keeps_throw Stop.overrun)
  setPosition _ _ := ignores_call fun _ => rfl
  flushFile _ := keeps_ite
    (fun _ => keeps_bind (ignores_call fun _ => rfl) fun _ => keeps_pure ())
    (fun _ => keeps_pure ())
  outputString shown := ignores_call (shows shown)
  readKeyStroke := ignores_call reads
  deleteFile _ := ignores_call fun _ => rfl
  writeFile _ _ := ignores_call fun _ => rfl

/-- Asking for a line calls the console only. -/
theorem ignores_ask {β : Type} {part : σ → β}
    (shows : ∀ shown state, part (fw.outputString shown state).2 = part state)
    (reads : ∀ state, part (fw.readKeyStroke state).2 = part state) {fuel maxLength : Nat}
    (room : 0 < maxLength) (prompt : Text) : Keeps (Ignores part) (ask fw fuel maxLength prompt) := by
  have frame := frame_consoleOf shows reads
  have composed : Composed (consoleOf fw) (fun _ => True) Nothing
      (ask (consoleOf fw) fuel maxLength prompt) :=
    Composed.bind (composed_written prompt) (fun _ => composed_terminalReadLine trivial fuel room)
  exact composed.keepsQuiet

end Keyboards

/-- What is typed on the keyboard is its queue. -/
theorem keyboard_typed : Keyboard keyboard id where
  readKeyStroke state := by cases state <;> exact ⟨rfl, rfl⟩
  outputString _ _ := rfl
  locateProtocol _ := rfl
  openVolume _ _ := rfl
  openFile _ _ _ _ _ := rfl
  close _ _ := rfl
  delete _ _ := rfl
  read _ _ _ := rfl
  write _ _ _ := rfl
  setPosition _ _ _ := rfl
  flush _ _ := rfl

end ExistentOS.Terminal
