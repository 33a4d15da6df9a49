import ExistentOS.Terminal.LineEditing

/-!
# Typed passwords

While a password is typed the echo is off. What the console shows then depends on which units end
the line, erase a character or do nothing, and on nothing else.
-/

namespace ExistentOS.Terminal

open Programs Terminated Accounts

variable {σ : Type}

/-- The prompts for a password: one of the login, two of `passwd`. -/
def passwordPrompts : List String := ["password: ", "current password: ", "new password: "]

/-- A prompt and the line that is read behind it without an echo. -/
def askPassword (fw : Firmware σ) (fuel : Nat) (prompt : String) : Routine σ Memory := do
  terminalWrite fw (constant prompt)
  readHidden fw fuel

/-- A login asks for a name and a password. -/
theorem loginRound_asks (fw : Firmware σ) (fuel : Nat) :
    loginRound fw fuel () = (do
      terminalWrite fw (constant "login: ")
      let username ← terminalReadLine fw fuel credentialMax
      if username.1 = 0 then return .inl ()
      else
        let password ← askPassword fw fuel "password: "
        if ← accountsLogin username.2 password then return .inr true
        else
          say fw "invalid credentials"
          return .inl ()) := by
  simp only [loginRound, askPassword, bind_assoc]

/-- A change of the password asks for the old one and the new one. -/
theorem changePassword_asks (fw : Firmware σ) (fuel : Nat) :
    changePassword fw fuel = (do
      let old ← askPassword fw fuel "current password: "
      let new ← askPassword fw fuel "new password: "
      if ← accountsChangePassword fw old new then say fw "password updated"
      else say fw "password not changed") := by
  simp only [changePassword, askPassword, bind_assoc]

/-! ## Editing alike -/

/-- The units are alike for the editing of a line: both or neither is the one that does nothing,
ends the line or erases a character. -/
structure SameEditing (first second : CHAR16) : Prop where
  nul : first = 0 ↔ second = 0
  ends : first = carriageReturn ↔ second = carriageReturn
  erase : first = backspace ↔ second = backspace

/-- Without an echo, units that edit alike are answered alike, and keep lines equally long. -/
theorem response_alike {maxLength : Nat} {line line' : Text} (long : line.length = line'.length)
    {unit unit' : CHAR16} (alike : SameEditing unit unit') :
    response false maxLength line unit = response false maxLength line' unit' ∧
      (edit maxLength line unit).length = (edit maxLength line' unit').length := by
  rw [response, response, edit, edit]
  by_cases zero : unit = 0
  · rw [if_pos zero, if_pos zero, if_pos (alike.nul.mp zero), if_pos (alike.nul.mp zero)]
    exact ⟨rfl, long⟩
  rw [if_neg zero, if_neg zero, if_neg (alike.nul.not.mp zero), if_neg (alike.nul.not.mp zero)]
  by_cases erasing : unit = backspace
  · have empty : line = [] ↔ line' = [] := by
      rw [← List.length_eq_zero_iff, ← List.length_eq_zero_iff, long]
    rw [if_pos erasing, if_pos erasing, if_pos (alike.erase.mp erasing),
      if_pos (alike.erase.mp erasing), if_congr empty rfl rfl, List.length_dropLast,
      List.length_dropLast, long]
    exact ⟨rfl, rfl⟩
  rw [if_neg erasing, if_neg erasing, if_neg (alike.erase.not.mp erasing),
    if_neg (alike.erase.not.mp erasing), long]
  constructor
  · simp
  · split
    · rw [List.length_append, List.length_append, long]
      rfl
    · exact long

/-- Without an echo, units that edit alike are answered alike. -/
theorem responses_alike {maxLength : Nat} {line line' : Text} (long : line.length = line'.length)
    {units units' : List CHAR16} (alike : List.Forall₂ SameEditing units units') :
    responses false maxLength line units = responses false maxLength line' units' := by
  induction alike generalizing line line' with
  | nil => rfl
  | cons first _ ih =>
    obtain ⟨same, longer⟩ := response_alike long first
    rw [responses, responses, same, ih longer]

/-- Sequences that edit alike both end the line, or neither does. -/
theorem returns_alike {typed typed' : List CHAR16} (alike : List.Forall₂ SameEditing typed typed')
    (ends : carriageReturn ∈ typed) : carriageReturn ∈ typed' := by
  induction alike with
  | nil => exact ends
  | cons first _ ih =>
    rcases List.mem_cons.mp ends with same | later
    · exact List.mem_cons.mpr (Or.inl (first.ends.mp same.symm).symm)
    · exact List.mem_cons_of_mem _ (ih later)

/-- What is typed before the first carriage return is alike in sequences that are. -/
theorem alike_before {units units' typed typed' : List CHAR16}
    (alike : List.Forall₂ SameEditing typed typed') (goes : carriageReturn ∉ units)
    (goes' : carriageReturn ∉ units') (feeds : units ++ [carriageReturn] <+: typed)
    (feeds' : units' ++ [carriageReturn] <+: typed') : List.Forall₂ SameEditing units units' := by
  induction alike generalizing units units' with
  | nil => exact absurd (List.prefix_nil.mp feeds) (by simp)
  | @cons unit unit' rest rest' first _ ih =>
    cases units with
    | nil =>
      obtain ⟨ends, _⟩ := List.cons_prefix_cons.mp feeds
      cases units' with
      | nil => exact List.Forall₂.nil
      | cons other later =>
        obtain ⟨same, _⟩ := List.cons_prefix_cons.mp feeds'
        have returned := first.ends.mp ends.symm
        exact absurd (same.trans returned ▸ List.mem_cons_self) goes'
    | cons other later =>
      obtain ⟨same, further⟩ := List.cons_prefix_cons.mp feeds
      cases units' with
      | nil =>
        obtain ⟨ends, _⟩ := List.cons_prefix_cons.mp feeds'
        have returned := first.ends.mpr ends.symm
        exact absurd (same.trans returned ▸ List.mem_cons_self) goes
      | cons other' later' =>
        obtain ⟨same', further'⟩ := List.cons_prefix_cons.mp feeds'
        have rests := ih (fun member => goes (List.mem_cons_of_mem other member))
          (fun member => goes' (List.mem_cons_of_mem other' member)) further further'
        exact List.Forall₂.cons (same ▸ same' ▸ first) rests

/-! ## Prompts -/

section Prompts

variable {fw : Firmware σ} {prompt : String} {machine after : Machine σ} {password : Memory}
  {events : List Event}

/-- The texts of the prompts are terminated behind their last character only. -/
theorem prompt_free (asked : prompt ∈ passwordPrompts) : (0 : CHAR16) ∉ text prompt := by
  have free : ∀ prompt ∈ passwordPrompts, (0 : CHAR16) ∉ text prompt := by decide
  exact free prompt asked

/-- The machine behind a prompt, with the echo off. Here the password is about to be typed. -/
def prompted (fw : Firmware σ) (prompt : String) (machine : Machine σ) : Machine σ :=
  { afterWrites fw machine [text prompt] with
    terminal := { machine.terminal with echoEnabled := false } }

/-- A prompt is written and the echo turned off before the line is read. -/
theorem run_askPassword (asked : prompt ∈ passwordPrompts) (fuel : Nat) :
    (askPassword fw fuel prompt).run machine = (do
      let line ← terminalReadLine fw fuel credentialMax
      setEcho true
      return line.2 : Routine σ Memory).run (prompted fw prompt machine) := by
  have shown : (terminalWrite fw (text prompt ++ [0])).run machine =
      .ok ((), afterWrites fw machine [text prompt]) := shows_terminalWrite (prompt_free asked) machine
  have off : (setEcho false : Routine σ Unit).run (afterWrites fw machine [text prompt]) =
      .ok ((), prompted fw prompt machine) := by
    obtain ⟨_, _, terminal⟩ := console_of_frame (afterWrites_onlyFirmware fw machine [text prompt])
    rw [prompted, ← terminal]
    rfl
  rw [askPassword, constant, run_bind_of_ok shown, readHidden, run_bind_of_ok off]

/-- The prompt comes first, then the line is read. -/
theorem askPassword_split (asked : prompt ∈ passwordPrompts) {fuel : Nat}
    (ran : (askPassword fw fuel prompt).run machine = .ok (password, after))
    (recorded : after.trace = machine.trace ++ events) :
    ∃ first later line read, events = first ++ later ∧
      written first = (if canWrite machine then [text prompt] else []) ∧ strokes first = [] ∧
      (terminalReadLine fw fuel credentialMax).run (prompted fw prompt machine) = .ok (line, read) ∧
      read.trace = (prompted fw prompt machine).trace ++ later := by
  rw [run_askPassword asked] at ran
  obtain ⟨line, read, reads, closing⟩ := (run_bind_ok _ _ _ _).mp ran
  have ended : after.trace = read.trace := by
    cases closing
    rfl
  obtain ⟨first, trace, texts, calm⟩ := afterWrites_trace fw machine [text prompt]
  have entered : (prompted fw prompt machine).trace = machine.trace ++ first := trace
  have further : ∃ later, read.trace = (prompted fw prompt machine).trace ++ later := by
    by_cases console : canRead (prompted fw prompt machine)
    · have within : LineWithin credentialMax [] := ⟨by decide, List.not_mem_nil⟩
      obtain ⟨_, later, edits⟩ := edits_of_run within console reads
      exact ⟨later, edits.recorded⟩
    · obtain ⟨_, rfl⟩ := terminalReadLine_unread console reads
      exact ⟨[], (List.append_nil _).symm⟩
  obtain ⟨later, behind⟩ := further
  refine ⟨first, later, line, read, ?_, texts, calm, reads, behind⟩
  have whole := recorded.symm.trans (ended.trans behind)
  rw [entered, List.append_assoc] at whole
  exact List.append_cancel_left whole

/-- What is written while a password is typed: the prompt, the answers without an echo to the
units up to the carriage return, and the line end. -/
theorem askPassword_writes (asked : prompt ∈ passwordPrompts) {fuel : Nat}
    (ran : (askPassword fw fuel prompt).run machine = .ok (password, after))
    (recorded : after.trace = machine.trace ++ events) (console : canRead machine) :
    ∃ units, carriageReturn ∉ units ∧ unitsLeft none (strokes events) = units ++ [carriageReturn] ∧
      written events = if canWrite machine then
        text prompt :: responses false credentialMax [] units ++ [[carriageReturn, lineFeed]]
      else [] := by
  obtain ⟨first, later, line, read, rfl, texts, calm, reads, behind⟩ :=
    askPassword_split asked ran recorded
  obtain ⟨reading, writing, _⟩ :=
    console_of_frame (afterWrites_onlyFirmware fw machine [text prompt])
  have within : LineWithin credentialMax [] := ⟨by decide, List.not_mem_nil⟩
  have readable : canRead (prompted fw prompt machine) := reading.trans console
  obtain ⟨units, events, edits⟩ := edits_of_run within readable reads
  have same : events = later := List.append_cancel_left (edits.recorded.symm.trans behind)
  have answers := edits.shown
  have writable : canWrite (prompted fw prompt machine) = canWrite machine := writing
  rw [writable] at answers
  refine ⟨units, edits.goes, ?_, ?_⟩
  · rw [strokes_append, calm, ← same]
    exact edits.typed
  · rw [written_append, texts, ← same, answers]
    by_cases shows : canWrite machine
    · rw [if_pos shows, if_pos shows, if_pos shows]
      rfl
    · rw [if_neg shows, if_neg shows, if_neg shows]
      rfl

/-- Without a keyboard a prompt is all that is written. -/
theorem askPassword_unread (asked : prompt ∈ passwordPrompts) {fuel : Nat}
    (ran : (askPassword fw fuel prompt).run machine = .ok (password, after))
    (recorded : after.trace = machine.trace ++ events) (console : ¬ canRead machine) :
    written events = if canWrite machine then [text prompt] else [] := by
  obtain ⟨first, later, line, read, rfl, texts, _, reads, behind⟩ :=
    askPassword_split asked ran recorded
  obtain ⟨reading, _, _⟩ := console_of_frame (afterWrites_onlyFirmware fw machine [text prompt])
  have unreadable : ¬ canRead (prompted fw prompt machine) := fun reads => console (reading ▸ reads)
  obtain ⟨_, rfl⟩ := terminalReadLine_unread unreadable reads
  have empty : later = [] := (List.self_eq_append_right).mp behind
  rw [empty, List.append_nil, texts]

/-- A prompt to which a firmware feeds a line is answered. -/
theorem askPassword_answered (asked : prompt ∈ passwordPrompts) (console : canRead machine)
    {units : List CHAR16} {fuel : Nat} (goes : carriageReturn ∉ units)
    (feeds : Feeds fw none (units ++ [carriageReturn]) machine.firmware)
    (enough : units.length < fuel) :
    ∃ password after events, (askPassword fw fuel prompt).run machine = .ok (password, after) ∧
      after.trace = machine.trace ++ events ∧
      unitsLeft none (strokes events) = units ++ [carriageReturn] := by
  have within : LineWithin credentialMax [] := ⟨by decide, List.not_mem_nil⟩
  obtain ⟨reading, _, _⟩ := console_of_frame (afterWrites_onlyFirmware fw machine [text prompt])
  have readable : canRead (prompted fw prompt machine) := reading.trans console
  have fed : Feeds fw none (units ++ [carriageReturn]) (prompted fw prompt machine).firmware :=
    feeds_afterWrites feeds [text prompt]
  obtain ⟨later, read, line, reads, edits⟩ := run_of_feeds within readable goes fed enough
  obtain ⟨first, trace, _, calm⟩ := afterWrites_trace fw machine [text prompt]
  have entered : (prompted fw prompt machine).trace = machine.trace ++ first := trace
  refine ⟨line.2, { read with terminal := { read.terminal with echoEnabled := true } },
    first ++ later, ?_, ?_, ?_⟩
  · have line : (terminalReadLine fw fuel credentialMax).run (prompted fw prompt machine) =
      .ok (line, read) := reads
    rw [run_askPassword asked, run_bind_of_ok line]
    rfl
  · rw [← List.append_assoc, ← entered]
    exact edits.recorded
  · rw [strokes_append, calm]
    exact edits.typed

end Prompts

/-! ## Two sequences of key strokes -/

/-- In some steps a prompt is answered with the first of some units, up to a carriage return. -/
def Answered (fw : Firmware σ) (fuel : Nat) (prompt : String) (machine : Machine σ)
    (typed : List CHAR16) (events : List Event) : Prop :=
  ∃ password after, (askPassword fw fuel prompt).run machine = .ok (password, after) ∧
    after.trace = machine.trace ++ events ∧ unitsLeft none (strokes events) <+: typed

/-- A prompt is answered with a line that is fed. -/
theorem answered_of_feeds {fw : Firmware σ} {prompt : String} (asked : prompt ∈ passwordPrompts)
    {machine : Machine σ} (console : canRead machine) {typed : List CHAR16}
    (ends : carriageReturn ∈ typed) (feeds : Feeds fw none typed machine.firmware) {fuel : Nat}
    (enough : typed.length ≤ fuel) : ∃ events, Answered fw fuel prompt machine typed events := by
  obtain ⟨units, rest, rfl, goes⟩ := List.eq_append_cons_of_mem ends
  rw [List.append_cons] at feeds
  rw [List.length_append, List.length_cons] at enough
  have room : units.length < fuel := by omega
  obtain ⟨password, after, events, ran, recorded, left⟩ :=
    askPassword_answered asked console goes feeds.first room
  refine ⟨events, password, after, ran, recorded, rest, ?_⟩
  rw [left, List.append_assoc]
  rfl

/-- Typed passwords never reach the screen. Logins and changes of a password ask for them at
prompts, and at these, units that edit alike are answered by the same texts on the console,
whatever the characters among them are. -/
theorem passwords_unseen (fw : Firmware σ) :
    (∀ fuel, loginRound fw fuel () = (do
      terminalWrite fw (constant "login: ")
      let username ← terminalReadLine fw fuel credentialMax
      if username.1 = 0 then return .inl ()
      else
        let password ← askPassword fw fuel "password: "
        if ← accountsLogin username.2 password then return .inr true
        else
          say fw "invalid credentials"
          return .inl ())) ∧
    (∀ fuel, changePassword fw fuel = (do
      let old ← askPassword fw fuel "current password: "
      let new ← askPassword fw fuel "new password: "
      if ← accountsChangePassword fw old new then say fw "password updated"
      else say fw "password not changed")) ∧
    ∀ prompt ∈ passwordPrompts, ∀ (machine : Machine σ) (other : σ) (typed typed' : List CHAR16),
      List.Forall₂ SameEditing typed typed' →
      (∀ fuel fuel' events events', Answered fw fuel prompt machine typed events →
        Answered fw fuel' prompt { machine with firmware := other } typed' events' →
        written events = written events') ∧
      (canRead machine → carriageReturn ∈ typed → Feeds fw none typed machine.firmware →
        Feeds fw none typed' other → ∀ fuel, typed.length ≤ fuel →
          (∃ events, Answered fw fuel prompt machine typed events) ∧
          ∃ events, Answered fw fuel prompt { machine with firmware := other } typed' events) := by
  refine ⟨loginRound_asks fw, changePassword_asks fw, ?_⟩
  intro prompt asked machine other typed typed' alike
  constructor
  · rintro fuel fuel' events events' ⟨password, after, ran, recorded, feeds⟩
      ⟨password', after', ran', recorded', feeds'⟩
    by_cases console : canRead machine
    · obtain ⟨units, goes, left, texts⟩ := askPassword_writes asked ran recorded console
      obtain ⟨units', goes', left', texts'⟩ := askPassword_writes asked ran' recorded' console
      have same := alike_before alike goes goes' (left ▸ feeds) (left' ▸ feeds')
      have answers : responses false credentialMax [] units = responses false credentialMax [] units' :=
        responses_alike rfl same
      rw [texts, texts', answers]
      rfl
    · rw [askPassword_unread asked ran recorded console,
        askPassword_unread asked ran' recorded' console]
      rfl
  · intro console ends feeds feeds' fuel enough
    have ends' : carriageReturn ∈ typed' := returns_alike alike ends
    have enough' : typed'.length ≤ fuel := alike.length_eq ▸ enough
    have console' : canRead ({ machine with firmware := other } : Machine σ) := console
    exact ⟨answered_of_feeds asked console ends feeds enough,
      answered_of_feeds asked console' ends' feeds' enough'⟩

/-- Two passwords of one character look the same. -/
theorem passwords_unseen_letters : ∃ events events',
    Answered keyboard 2 "password: " (Machine.entered [0x61, carriageReturn])
      [0x61, carriageReturn] events ∧
    Answered keyboard 2 "password: " (Machine.entered [0x7A, carriageReturn])
      [0x7A, carriageReturn] events' ∧
    written events = written events' := by
  obtain ⟨_, _, unseen⟩ := passwords_unseen keyboard
  have letters : SameEditing 0x61 0x7A := ⟨by decide, by decide, by decide⟩
  have ends : SameEditing carriageReturn carriageReturn := ⟨Iff.rfl, Iff.rfl, Iff.rfl⟩
  obtain ⟨same, answered⟩ := unseen "password: " (by decide) (Machine.entered [0x61, carriageReturn])
    [0x7A, carriageReturn] [0x61, carriageReturn] [0x7A, carriageReturn]
    (List.Forall₂.cons letters (List.Forall₂.cons ends List.Forall₂.nil))
  obtain ⟨⟨events, first⟩, events', second⟩ := answered rfl (by decide)
    (keyboard_feeds none [0x61, carriageReturn] []) (keyboard_feeds none [0x7A, carriageReturn] [])
    2 (by decide)
  exact ⟨events, events', first, second, same 2 2 events events' first second⟩

end ExistentOS.Terminal
