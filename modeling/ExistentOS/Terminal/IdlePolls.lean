import ExistentOS.Library.Stuttering
import ExistentOS.Terminal.LineEditing
import Mathlib.Data.List.ReduceOption

/-!
# Idle polls

`terminal_read_line` asks for key strokes without a pause and does not look at the status of
the answer. An idle poll leaves the key structure alone, so that the stroke before it counts
once more; in front of the first stroke nothing has set the structure yet. Hence the line
depends on the polls, unless the strokes that may be repeated change nothing.
-/

namespace ExistentOS.Terminal

open Programs Terminated Stuttering

variable {σ τ : Type}

/-! ## Polls -/

/-- `EFI_NOT_READY`, with which a keyboard answers a poll between two strokes. The source does
not look at it. -/
def efiNotReady : EfiStatus := 0x8000000000000006

/-- What a keyboard answers: a stroke, or nothing while none is pending. -/
def strokeAnswer : Option CHAR16 → EfiStatus × Option CHAR16
  | none => (efiNotReady, none)
  | some unit => (efiSuccess, some unit)

/-- The keyboard gives these answers in turn, whatever is written in between. -/
def Plays (fw : Firmware σ) : List (Option CHAR16) → σ → Prop
  | [], _ => True
  | answer :: rest, state => ∀ texts : List Text,
    let typed := fw.readKeyStroke
      (texts.foldl (fun reached shown => (fw.outputString shown reached).2) state)
    typed.1 = strokeAnswer answer ∧ Plays fw rest typed.2

/-- The first answer is a stroke. Without one, the source reads a key structure that nothing has
been stored in. -/
def Prompt (answers : List (Option CHAR16)) : Prop := ∀ answer ∈ answers.head?, answer.isSome

/-- The machine with another firmware, and otherwise as it is. -/
def onFirmware (machine : Machine τ) (firmware : σ) : Machine σ :=
  { machine with firmware := firmware }

/-- With these answers a line is read and these texts are written, whatever firmware gives them. -/
def Reads (machine : Machine τ) (maxLength : Nat) (answers : List (Option CHAR16))
    (result : Int32 × Memory) (texts : List Text) : Prop :=
  ∀ (σ : Type) (fw : Firmware σ) (state : σ), Plays fw answers state →
    ∀ fuel, answers.length ≤ fuel → ∃ after events,
      (terminalReadLine fw fuel maxLength).run (onFirmware machine state) = .ok (result, after) ∧
        after.trace = machine.trace ++ events ∧ written events = texts

/-- However polls are inserted between the strokes, in the given ways, the same line is read and
the same is written. -/
def Unnoticed (machine : Machine τ) (maxLength : Nat) (strokes : List CHAR16)
    (ways : List (Option CHAR16) → Prop) : Prop :=
  ∀ first second, ways first → ways second → first.reduceOption = strokes →
    second.reduceOption = strokes →
    ∃ result texts, Reads machine maxLength first result texts ∧
      Reads machine maxLength second result texts

/-- The characters that are typed before the carriage return. Strokes without a character are
left out. -/
def characters (strokes : List CHAR16) : List CHAR16 :=
  (strokes.takeWhile (· ≠ carriageReturn)).filter (· ≠ 0)

/-- The unit changes nothing: it erases from an empty line, or is added to a full one. -/
def Inert (maxLength : Nat) (line : Text) (unit : CHAR16) : Prop :=
  if unit = backspace then line = [] else maxLength ≤ line.length + 1

/-- Every character that is not followed by itself leaves a line in which it is inert. -/
def SettlesBetween (maxLength : Nat) (strokes : List CHAR16) : Prop :=
  ∀ before unit after, characters strokes = before ++ unit :: after →
    after.head? = some unit ∨ Inert maxLength (editAll maxLength [] (before ++ [unit])) unit

/-! ## The units that are left -/

/-- With idle polls the strokes stutter: a poll without a stroke leaves the last one there. -/
theorem unitsLeft_stutters (answers : List (Option CHAR16)) (unit : CHAR16) :
    Stutters (unit :: answers.reduceOption) (unit :: unitsLeft (some unit) answers) := by
  induction answers generalizing unit with
  | nil => exact Stutters.nil.letter unit
  | cons answer rest ih =>
    cases answer with
    | none => exact (ih unit).again
    | some stroke => exact (ih stroke).letter unit

/-- With a stroke first, the strokes stutter from the start. -/
theorem Prompt.stutters {answers : List (Option CHAR16)} (starts : Prompt answers) :
    Stutters answers.reduceOption (unitsLeft none answers) := by
  cases answers with
  | nil => exact Stutters.nil
  | cons answer rest =>
    cases answer with
    | none => exact absurd (starts none rfl) Bool.false_ne_true
    | some stroke => exact unitsLeft_stutters rest stroke

/-- No poll leaves more than one unit. -/
theorem unitsLeft_length (previous : Option CHAR16) (answers : List (Option CHAR16)) :
    (unitsLeft previous answers).length ≤ answers.length := by
  induction answers generalizing previous with
  | nil => exact Nat.le_refl 0
  | cons answer rest ih =>
    have one : (answer <|> previous).toList.length ≤ 1 := by
      cases answer <|> previous <;> simp
    have others := ih (answer <|> previous)
    rw [unitsLeft, List.length_append, List.length_cons]
    omega

/-- A keyboard feeds the units that its answers leave. -/
theorem feeds_of_plays {fw : Firmware σ} {previous : Option CHAR16}
    {answers : List (Option CHAR16)} (set : previous.isSome ∨ Prompt answers) {state : σ}
    (plays : Plays fw answers state) : Feeds fw previous (unitsLeft previous answers) state := by
  induction answers generalizing previous state with
  | nil => trivial
  | cons answer rest ih =>
    obtain ⟨unit, left⟩ : ∃ unit, (answer <|> previous) = some unit := by
      cases answer with
      | some stroke => exact ⟨stroke, rfl⟩
      | none =>
        have earlier : previous.isSome = true :=
          set.resolve_right fun starts => absurd (starts none rfl) Bool.false_ne_true
        exact Option.isSome_iff_exists.mp earlier
    rw [unitsLeft, left]
    intro texts
    obtain ⟨answered, later⟩ := plays texts
    have typed : (strokeAnswer answer).2 = answer := by cases answer <;> rfl
    dsimp only
    rw [answered, typed]
    exact ⟨left, ih (Or.inl rfl) later⟩

/-- The units in front of a carriage return. -/
theorem takeWhile_return {units : List CHAR16} (goes : carriageReturn ∉ units)
    (rest : List CHAR16) :
    (units ++ carriageReturn :: rest).takeWhile (· ≠ carriageReturn) = units := by
  have others : ∀ unit ∈ units, decide (unit ≠ carriageReturn) = true := by
    intro unit member
    exact decide_eq_true fun same => goes (same ▸ member)
  rw [List.takeWhile_append_of_pos others, List.takeWhile_cons_of_neg (by simp), List.append_nil]

/-- No return stands before the first one. -/
theorem return_notMem_takeWhile (units : List CHAR16) :
    carriageReturn ∉ units.takeWhile (· ≠ carriageReturn) := fun member => by
  simpa using List.mem_takeWhile_imp member

/-- Units with a carriage return, cut behind the first one. -/
theorem exists_return {units : List CHAR16} (ends : carriageReturn ∈ units) :
    ∃ rest, units = units.takeWhile (· ≠ carriageReturn) ++ [carriageReturn] ++ rest := by
  obtain ⟨front, rest, rfl, goes⟩ := List.eq_append_cons_of_mem ends
  exact ⟨rest, by rw [takeWhile_return goes, List.append_assoc, List.singleton_append]⟩

/-! ## Reading with polls -/

section Polls

variable {machine : Machine τ} {maxLength : Nat} {answers : List (Option CHAR16)}

/-- The units that edit the line: what the polls have left in the key structure, up to the
carriage return. -/
def editing (answers : List (Option CHAR16)) : List CHAR16 :=
  (unitsLeft none answers).takeWhile (· ≠ carriageReturn)

/-- What is written while units edit a line, and for the carriage return. -/
def answeredBy (machine : Machine τ) (maxLength : Nat) (units : List CHAR16) : List Text :=
  if canWrite machine then
    responses machine.terminal.echoEnabled maxLength [] units ++ [[carriageReturn, lineFeed]]
  else []

/-- With a stroke first, the line is the one that the units edit. -/
theorem reads_prompt (room : 1 ≤ maxLength) (console : canRead machine) (starts : Prompt answers)
    (ends : carriageReturn ∈ answers.reduceOption) :
    Reads machine maxLength answers
      (Int32.ofNat (editAll maxLength [] (editing answers)).length,
        editAll maxLength [] (editing answers) ++ [0])
      (answeredBy machine maxLength (editing answers)) := by
  intro σ fw state plays fuel enough
  obtain ⟨rest, split⟩ := exists_return (starts.stutters.subset ends)
  have feeds : Feeds fw none (unitsLeft none answers) state :=
    feeds_of_plays (Or.inr starts) plays
  rw [split] at feeds
  have few := unitsLeft_length none answers
  rw [split, List.length_append, List.length_append, List.length_singleton] at few
  have goes : carriageReturn ∉ editing answers := return_notMem_takeWhile _
  obtain ⟨events, after, result, ran, edits⟩ := run_of_feeds
    (show LineWithin maxLength [] from ⟨room, List.not_mem_nil⟩)
    (show canRead (onFirmware machine state) from console) goes feeds.first
    (show (editing answers).length < fuel by unfold editing; omega)
  refine ⟨after, events, ?_, edits.recorded, edits.shown⟩
  rw [terminalReadLine, ran, edits.returned]

/-- A firmware whose keyboard gives the answers of its state. -/
def polled : Firmware (List (Option CHAR16)) where
  __ := Firmware.inert
  readKeyStroke := fun answers => (strokeAnswer (answers.headD none), answers.tail)

/-- The sample keyboard plays its answers in turn. -/
theorem plays_polled (answers rest : List (Option CHAR16)) :
    Plays polled answers (answers ++ rest) := by
  induction answers with
  | nil => trivial
  | cons answer later ih =>
    intro texts
    have still : texts.foldl (fun reached shown => (polled.outputString shown reached).2)
        (answer :: later ++ rest) = answer :: later ++ rest := List.foldl_fixed texts
    rw [still]
    exact ⟨rfl, ih⟩

/-- What is read and written is determined by what the polls answer. -/
theorem reads_unique {first second : Int32 × Memory} {firstTexts secondTexts : List Text}
    (reads : Reads machine maxLength answers first firstTexts)
    (again : Reads machine maxLength answers second secondTexts) :
    first = second ∧ firstTexts = secondTexts := by
  have plays : Plays polled answers answers := by
    have whole := plays_polled answers []
    rwa [List.append_nil] at whole
  obtain ⟨_, events, ran, traced, rfl⟩ := reads _ polled answers plays _ (Nat.le_refl _)
  obtain ⟨_, events', ran', traced', rfl⟩ := again _ polled answers plays _ (Nat.le_refl _)
  rw [ran] at ran'
  cases ran'
  rw [traced] at traced'
  exact ⟨rfl, congrArg written (List.append_cancel_left traced')⟩

/-- With a poll first there is no read, since the key structure has not been set. -/
theorem not_reads_early (console : canRead machine) (result : Int32 × Memory) (texts : List Text) :
    ¬ Reads machine maxLength (none :: answers) result texts := by
  intro reads
  have plays : Plays polled (none :: answers) (none :: answers) := by
    have whole := plays_polled (none :: answers) []
    rwa [List.append_nil] at whole
  obtain ⟨after, _, ran, _⟩ := reads _ polled _ plays _ (Nat.le_refl _)
  have keyboard : canRead (onFirmware machine (none :: answers)) := console
  have stopped : (readLineRound polled maxLength (none, [])).run
      (onFirmware machine (none :: answers)) = .error .unset := run_readLineRound_unset keyboard rfl
  rw [terminalReadLine, List.length_cons, iterate, run_bind_of_error stopped] at ran
  cases ran

end Polls

/-! ## Repeated strokes -/

/-- The responses are the outputs of the editor. -/
theorem responses_eq (echo : Bool) (maxLength : Nat) (line : Text) (units : List CHAR16) :
    responses echo maxLength line units =
      outputs (edit maxLength) (response echo maxLength) line units := by
  induction units generalizing line with
  | nil => rfl
  | cons unit rest ih => rw [responses, outputs, ih]

/-- A stroke without a character changes nothing. -/
theorem settled_zero (echo : Bool) (maxLength : Nat) (line : Text) :
    Settled (edit maxLength) (response echo maxLength) line 0 := ⟨if_pos rfl, if_pos rfl⟩

/-- What the characters of a prompt leave out changes nothing. -/
theorem settled_unkept (echo : Bool) (maxLength : Nat) (line : Text) (unit : CHAR16)
    (unkept : decide (unit ≠ 0) = false) :
    Settled (edit maxLength) (response echo maxLength) line unit := by
  have same : unit = 0 := by simpa using unkept
  rw [same]
  exact settled_zero echo maxLength line

/-- An inert unit changes nothing, neither the line nor the screen. -/
theorem settled_of_inert {maxLength : Nat} {line : Text} {unit : CHAR16}
    (inert : Inert maxLength line unit) (echo : Bool) :
    Settled (edit maxLength) (response echo maxLength) line unit := by
  by_cases zero : unit = 0
  · rw [zero]
    exact settled_zero echo maxLength line
  by_cases erasing : unit = backspace
  · rw [Inert, if_pos erasing] at inert
    constructor
    · rw [edit, if_neg zero, if_pos erasing, inert]
      rfl
    · rw [response, if_neg zero, if_pos erasing, if_pos inert]
  · rw [Inert, if_neg erasing] at inert
    have full : ¬ line.length < maxLength - 1 := by omega
    constructor
    · rw [edit, if_neg zero, if_neg erasing, if_neg full]
    · rw [response, if_neg zero, if_neg erasing, if_neg fun both => full both.1]

/-- The units that edit the line are alike the characters that are typed. -/
theorem alike_characters {maxLength : Nat} {answers : List (Option CHAR16)}
    (starts : Prompt answers) (settles : SettlesBetween maxLength answers.reduceOption)
    (echo : Bool) :
    Alike (edit maxLength) (response echo maxLength) [] (editing answers)
      (characters answers.reduceOption) := by
  have stutters : Stutters (characters answers.reduceOption)
      ((editing answers).filter (· ≠ 0)) :=
    (starts.stutters.takeWhile (· ≠ carriageReturn)).filter (· ≠ 0)
  have steady : Steady (edit maxLength) (response echo maxLength) []
      (characters answers.reduceOption) := fun before unit after split =>
    (settles before unit after split).imp_right fun inert => settled_of_inert inert echo
  exact (alike_filter (settled_unkept echo maxLength) [] (editing answers)).trans
    (stutters.alike steady)

/-- Polls behind the first stroke are not noticed, if the strokes that they repeat are inert. -/
theorem unnoticed_of_settles {machine : Machine τ} (console : canRead machine) {maxLength : Nat}
    (room : 1 ≤ maxLength) {strokes : List CHAR16} (ends : carriageReturn ∈ strokes)
    (settles : SettlesBetween maxLength strokes) :
    Unnoticed machine maxLength strokes Prompt := by
  have reads : ∀ answers, Prompt answers → answers.reduceOption = strokes →
      Reads machine maxLength answers
        (Int32.ofNat (editAll maxLength [] (characters strokes)).length,
          editAll maxLength [] (characters strokes) ++ [0])
        (answeredBy machine maxLength (characters strokes)) := by
    rintro answers starts rfl
    have alike := alike_characters starts settles machine.terminal.echoEnabled
    have held : editAll maxLength [] (editing answers) =
        editAll maxLength [] (characters answers.reduceOption) := alike.ends
    have shown : answeredBy machine maxLength (editing answers) =
        answeredBy machine maxLength (characters answers.reduceOption) := by
      rw [answeredBy, answeredBy, responses_eq, responses_eq, alike.answers]
    rw [← held, ← shown]
    exact reads_prompt room console starts ends
  intro first second startsFirst startsSecond typedFirst typedSecond
  exact ⟨_, _, reads first startsFirst typedFirst, reads second startsSecond typedSecond⟩

/-! ## Repetitions that show -/

/-- What is written for a character that is not inert. -/
def mark (unit : CHAR16) : Text :=
  if unit = backspace then [backspace, space, backspace] else [unit]

/-- A character that is not inert is answered by its mark. -/
theorem response_mark {maxLength : Nat} {line : Text} {unit : CHAR16} (nonzero : unit ≠ 0)
    (active : ¬ Inert maxLength line unit) : response true maxLength line unit = [mark unit] := by
  by_cases erasing : unit = backspace
  · rw [Inert, if_pos erasing] at active
    rw [response, if_neg nonzero, if_pos erasing, if_neg active, mark, if_pos erasing]
  · rw [Inert, if_neg erasing] at active
    rw [response, if_neg nonzero, if_neg erasing, if_pos ⟨by omega, rfl⟩, mark, if_neg erasing]

/-- Different characters have different marks, so what is shown tells what was typed. -/
theorem mark_injective {first second : CHAR16} (same : mark first = mark second) :
    first = second := by
  unfold mark at same
  by_cases left : first = backspace
  · by_cases right : second = backspace
    · exact left.trans right.symm
    · rw [if_pos left, if_neg right] at same
      cases same
  · by_cases right : second = backspace
    · rw [if_neg left, if_pos right] at same
      cases same
    · rw [if_neg left, if_neg right] at same
      exact (List.cons.inj same).1

/-- No mark is a line end. -/
theorem mark_return (unit : CHAR16) : mark unit ≠ [carriageReturn, lineFeed] := by
  unfold mark
  split
  · decide
  · intro same
    cases same

/-- Behind a character that is not inert, another one is not inert either. -/
theorem active_next {maxLength : Nat} {line : Text} (within : LineWithin maxLength line)
    {unit next : CHAR16} (nonzero : unit ≠ 0)
    (active : ¬ Inert maxLength (edit maxLength line unit) unit) (other : next ≠ unit) :
    ¬ Inert maxLength (edit maxLength line unit) next := by
  have short := within.1
  by_cases erasing : unit = backspace
  · have held : edit maxLength line unit = line.dropLast := by
      rw [edit, if_neg nonzero, if_pos erasing]
    rw [Inert, if_pos erasing, held, ← List.length_eq_zero_iff, List.length_dropLast] at active
    rw [Inert, if_neg fun same => other (same.trans erasing.symm), held, List.length_dropLast]
    omega
  · rw [Inert, if_neg erasing] at active
    by_cases erases : next = backspace
    · rw [Inert, if_pos erases]
      intro empty
      have full : ¬ line.length < maxLength - 1 := by
        intro room
        rw [edit, if_neg nonzero, if_neg erasing, if_pos room] at empty
        exact absurd empty (List.append_ne_nil_of_right_ne_nil _ (List.cons_ne_nil _ _))
      rw [edit, if_neg nonzero, if_neg erasing, if_neg full] at active
      omega
    · rwa [Inert, if_neg erases]

/-- A repeated character that is not inert shows, if another one or the line end follows. -/
theorem repetition_shows {maxLength : Nat} {line : Text} (within : LineWithin maxLength line)
    {unit : CHAR16} {after : List CHAR16} (solid : ∀ other ∈ unit :: after, other ≠ 0)
    (active : ¬ Inert maxLength (edit maxLength line unit) unit) (turns : after.head? ≠ some unit) :
    responses true maxLength (edit maxLength line unit) after ++ [[carriageReturn, lineFeed]] ≠
      responses true maxLength (edit maxLength line unit) (unit :: after) ++
        [[carriageReturn, lineFeed]] := by
  have nonzero : unit ≠ 0 := solid unit List.mem_cons_self
  intro same
  rw [responses, response_mark nonzero active, List.append_assoc, List.singleton_append] at same
  cases after with
  | nil => exact mark_return unit (List.cons.inj same).1.symm
  | cons next rest =>
    have other : next ≠ unit := fun equal => turns (congrArg some equal)
    have nextSolid : next ≠ 0 := solid next (List.mem_cons_of_mem unit List.mem_cons_self)
    rw [responses, response_mark nextSolid (active_next within nonzero active other),
      List.append_assoc, List.singleton_append] at same
    exact other (mark_injective (List.cons.inj same).1)

/-- The strokes as they are answered without a poll. -/
theorem reduceOption_map_some (units : List CHAR16) : (units.map some).reduceOption = units := by
  rw [List.reduceOption, List.filterMap_map]
  exact List.filterMap_some

/-- Where every poll reports a stroke, the strokes are left as they are. -/
theorem unitsLeft_map_some (previous : Option CHAR16) (units : List CHAR16) :
    unitsLeft previous (units.map some) = units := by
  induction units generalizing previous with
  | nil => rfl
  | cons unit rest ih => exact congrArg (unit :: ·) (ih (some unit))

/-- A poll behind a stroke repeats it, as the structure is not cleared in between. -/
theorem unitsLeft_poll (previous : Option CHAR16) (before : List CHAR16) (unit : CHAR16)
    (after : List CHAR16) :
    unitsLeft previous ((before ++ [unit]).map some ++ none :: after.map some) =
      before ++ unit :: unit :: after := by
  induction before generalizing previous with
  | nil => exact congrArg (unit :: unit :: ·) (unitsLeft_map_some (some unit) after)
  | cons first rest ih => exact congrArg (first :: ·) (ih (some first))

/-- Answers that begin with strokes form a prompt. -/
theorem prompt_append (before : List CHAR16) (unit : CHAR16) (rest : List (Option CHAR16)) :
    Prompt ((before ++ [unit]).map some ++ rest) := by
  intro answer first
  cases before with
  | nil =>
    cases first
    rfl
  | cons other before =>
    cases first
    rfl

/-- Strokes without a character are not answered, so they may be left out. -/
theorem responses_filter (echo : Bool) (maxLength : Nat) (line : Text) (units : List CHAR16) :
    responses echo maxLength line units = responses echo maxLength line (units.filter (· ≠ 0)) := by
  rw [responses_eq, responses_eq]
  exact (alike_filter (settled_unkept echo maxLength) line units).answers

/-- What is written for further units depends on the line that the earlier ones have left. -/
theorem responses_append (echo : Bool) (maxLength : Nat) (line : Text)
    (first second : List CHAR16) :
    responses echo maxLength line (first ++ second) =
      responses echo maxLength line first ++
        responses echo maxLength (editAll maxLength line first) second := by
  rw [responses_eq, responses_eq, responses_eq, outputs_append, editAll]

/-- Where polls behind the first stroke are not noticed, a repeated stroke is not answered. -/
theorem repetition_unanswered {machine : Machine τ} (console : canRead machine)
    (writes : canWrite machine) {maxLength : Nat} (room : 1 ≤ maxLength)
    {before after rest : List CHAR16} {unit : CHAR16}
    (goes : carriageReturn ∉ before ++ unit :: after)
    (unnoticed : Unnoticed machine maxLength (before ++ unit :: after ++ carriageReturn :: rest)
      Prompt) :
    responses machine.terminal.echoEnabled maxLength [] (before ++ unit :: after) ++
        [[carriageReturn, lineFeed]] =
      responses machine.terminal.echoEnabled maxLength [] (before ++ unit :: unit :: after) ++
        [[carriageReturn, lineFeed]] := by
  have repeated : carriageReturn ∉ before ++ unit :: unit :: after := by
    simpa using goes
  have regrouped : before ++ unit :: after ++ carriageReturn :: rest =
      (before ++ [unit]) ++ (after ++ carriageReturn :: rest) := by simp
  have startsPlain : Prompt ((before ++ unit :: after ++ carriageReturn :: rest).map some) := by
    rw [regrouped, List.map_append]
    exact prompt_append before unit _
  have startsPolled := prompt_append before unit
    (none :: (after ++ carriageReturn :: rest).map some)
  have typedPolled : ((before ++ [unit]).map some ++
      none :: (after ++ carriageReturn :: rest).map some).reduceOption =
        before ++ unit :: after ++ carriageReturn :: rest := by
    rw [List.reduceOption_append, reduceOption_map_some, List.reduceOption_cons_of_none,
      reduceOption_map_some, regrouped]
  obtain ⟨result, texts, reads, readsPolled⟩ := unnoticed
    ((before ++ unit :: after ++ carriageReturn :: rest).map some)
    ((before ++ [unit]).map some ++ none :: (after ++ carriageReturn :: rest).map some)
    startsPlain startsPolled (reduceOption_map_some _) typedPolled
  have endsPlain : carriageReturn ∈ ((before ++ unit :: after ++ carriageReturn :: rest).map
      some).reduceOption := by
    rw [reduceOption_map_some]
    exact List.mem_append_right _ List.mem_cons_self
  have endsPolled : carriageReturn ∈ ((before ++ [unit]).map some ++
      none :: (after ++ carriageReturn :: rest).map some).reduceOption := by
    rw [typedPolled]
    exact List.mem_append_right _ List.mem_cons_self
  have plain := (reads_unique reads (reads_prompt room console startsPlain endsPlain)).2
  have polled := (reads_unique readsPolled (reads_prompt room console startsPolled endsPolled)).2
  have editsPlain : editing ((before ++ unit :: after ++ carriageReturn :: rest).map some) =
      before ++ unit :: after := by
    rw [editing, unitsLeft_map_some, takeWhile_return goes]
  have editsPolled : editing ((before ++ [unit]).map some ++
      none :: (after ++ carriageReturn :: rest).map some) = before ++ unit :: unit :: after := by
    have behind : before ++ unit :: unit :: (after ++ carriageReturn :: rest) =
        (before ++ unit :: unit :: after) ++ carriageReturn :: rest := by simp
    rw [editing, unitsLeft_poll, behind, takeWhile_return repeated]
  rw [plain, editsPlain, editsPolled, answeredBy, answeredBy, if_pos writes,
    if_pos writes] at polled
  exact polled

/-- With a console and the echo on, polls behind the first stroke are noticed if a stroke that one
of them repeats is not inert. -/
theorem settles_of_unnoticed {machine : Machine τ} (console : canRead machine)
    (writes : canWrite machine) (echoes : machine.terminal.echoEnabled) {maxLength : Nat}
    (room : 1 ≤ maxLength) {strokes : List CHAR16} (ends : carriageReturn ∈ strokes)
    (unnoticed : Unnoticed machine maxLength strokes Prompt) :
    SettlesBetween maxLength strokes := by
  intro before unit after split
  by_contra unsettled
  obtain ⟨turns, active⟩ := not_or.mp unsettled
  obtain ⟨rest, whole⟩ := exists_return ends
  obtain ⟨front, back, parts, frontSame, backSame⟩ := List.filter_eq_append_iff.mp split
  obtain ⟨zeros, later, backParts, zerosZero, _, laterSame⟩ := List.filter_eq_cons_iff.mp backSame
  have goes := return_notMem_takeWhile strokes
  have typed : strokes.takeWhile (· ≠ carriageReturn) = (front ++ zeros) ++ unit :: later := by
    rw [parts, backParts, List.append_assoc]
  have skipped : (front ++ zeros).filter (· ≠ 0) = before := by
    rw [List.filter_append, frontSame, List.filter_eq_nil_iff.mpr zerosZero, List.append_nil]
  have solid : ∀ other ∈ unit :: after, other ≠ 0 := by
    intro other member
    have kept : other ∈ characters strokes := split ▸ List.mem_append_right before member
    simpa using List.of_mem_filter kept
  have keeps : ∀ rest : List CHAR16, (unit :: rest).filter (· ≠ 0) = unit :: rest.filter (· ≠ 0) :=
    fun rest => List.filter_cons_of_pos (decide_eq_true (solid unit List.mem_cons_self))
  rw [typed, List.append_assoc _ [carriageReturn], List.singleton_append] at whole
  rw [whole] at unnoticed
  rw [typed] at goes
  have same := repetition_unanswered console writes room goes unnoticed
  rw [echoes, responses_filter, responses_filter _ _ _ (_ ++ unit :: unit :: _),
    List.filter_append, List.filter_append _ (unit :: unit :: _), skipped, keeps, keeps, keeps,
    laterSame, List.append_cons before unit after, List.append_cons before unit (unit :: after),
    responses_append true maxLength [] (before ++ [unit]) after,
    responses_append true maxLength [] (before ++ [unit]) (unit :: after),
    List.append_assoc, List.append_assoc] at same
  have grown : editAll maxLength [] (before ++ [unit]) =
      edit maxLength (editAll maxLength [] before) unit := by
    rw [editAll, List.foldl_append]
    rfl
  rw [grown] at same active
  exact repetition_shows (editAll_within ⟨room, List.not_mem_nil⟩ before) solid active turns
    (List.append_cancel_left same)

/-- Idle polls are noticed in front of the first stroke, whatever is typed. Behind it they are
not, if every character that is not followed by itself leaves a line in which it is inert; and
with a console and the echo on, only if it does. The code does not look at the status of a poll,
and takes what the last stroke has left in the key structure for another stroke. -/
theorem idlePolls_unnoticed_iff {machine : Machine τ} (console : canRead machine) {maxLength : Nat}
    (room : 1 ≤ maxLength) {strokes : List CHAR16} (ends : carriageReturn ∈ strokes) :
    ¬ Unnoticed machine maxLength strokes (fun _ => True) ∧
      (SettlesBetween maxLength strokes → Unnoticed machine maxLength strokes Prompt) ∧
      (canWrite machine → machine.terminal.echoEnabled →
        (Unnoticed machine maxLength strokes Prompt ↔ SettlesBetween maxLength strokes)) := by
  refine ⟨fun unnoticed => ?_, unnoticed_of_settles console room ends, fun writes echoes =>
    ⟨settles_of_unnoticed console writes echoes room ends, unnoticed_of_settles console room ends⟩⟩
  have typed : (none :: strokes.map some).reduceOption = strokes := reduceOption_map_some strokes
  obtain ⟨result, texts, reads, _⟩ := unnoticed _ _ trivial trivial typed typed
  exact not_reads_early console result texts reads

/-- A backspace on an empty line may be repeated. -/
theorem idlePolls_unnoticed_backspace :
    Unnoticed (Machine.entered ()) 128 [backspace, carriageReturn] Prompt := by
  have settles : SettlesBetween 128 [backspace, carriageReturn] := by
    intro before unit after split
    obtain ⟨rfl, rfl, rfl⟩ : before = [] ∧ unit = backspace ∧ after = [] := by
      cases before with
      | nil =>
        cases split
        exact ⟨rfl, rfl, rfl⟩
      | cons first rest =>
        cases rest <;> cases (List.cons.inj split).2
    exact Or.inr rfl
  exact ((idlePolls_unnoticed_iff rfl (by decide) (by decide)).2.2 rfl rfl).mpr settles

/-- A letter may not. -/
theorem letter_repeated :
    ¬ Unnoticed (Machine.entered ()) 128 [0x61, carriageReturn] Prompt := by
  intro unnoticed
  have settles := settles_of_unnoticed rfl rfl rfl (by decide) (by decide) unnoticed
  rcases settles [] 0x61 [] rfl with turns | inert
  · cases turns
  · rw [Inert, if_neg (by decide)] at inert
    exact absurd inert (by decide)

end ExistentOS.Terminal
