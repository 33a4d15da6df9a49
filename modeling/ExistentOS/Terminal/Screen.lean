import ExistentOS.Frames
import ExistentOS.Terminal.Interactive

/-!
# What reaches the console

The texts that a run writes, as recorded in its trace, and the machine that writing them
leaves. Routines that only write are determined by their texts.
-/

namespace ExistentOS.Terminal

open Programs Terminated

variable {σ α β : Type}

/-- The texts that are written in some steps, one for each call of the console. -/
def written (events : List Event) : List Text :=
  events.filterMap fun event =>
    match event with
    | .outputString shown _ => some shown
    | _ => none

/-- What the key strokes of some steps leave in the key structure, where they set it. -/
def strokes (events : List Event) : List (Option CHAR16) :=
  events.filterMap fun event =>
    match event with
    | .readKeyStroke answer => some answer.2
    | _ => none

@[simp] theorem written_append (first second : List Event) :
    written (first ++ second) = written first ++ written second := List.filterMap_append

@[simp] theorem strokes_append (first second : List Event) :
    strokes (first ++ second) = strokes first ++ strokes second := List.filterMap_append

/-- What is written to files in some steps, one list of bytes for each call. -/
def stores (events : List Event) : List (List UInt8) :=
  events.filterMap fun event =>
    match event with
    | .write _ bytes _ => some bytes
    | _ => none

@[simp] theorem stores_append (first second : List Event) :
    stores (first ++ second) = stores first ++ stores second := List.filterMap_append

/-- What appears on the console in some steps. How it was split into calls is forgotten. -/
def output (events : List Event) : Text := (written events).flatten

@[simp] theorem output_append (first second : List Event) :
    output (first ++ second) = output first ++ output second := by
  rw [output, written_append, List.flatten_append]
  rfl

/-- The event writes nothing. -/
def Unseen (event : Event) : Prop := output [event] = []

/-- Nothing appears in steps that write nothing. -/
theorem output_unseen {events : List Event} (unseen : ∀ event ∈ events, Unseen event) :
    output events = [] := by
  induction events with
  | nil => rfl
  | cons event rest ih =>
    have tail := ih fun later member => unseen later (List.mem_cons_of_mem event member)
    have first : output [event] = [] := unseen event List.mem_cons_self
    rw [← List.singleton_append, output_append, first, tail]
    rfl

/-! ## Writing -/

section Writing

variable (fw : Firmware σ)

/-- The machine after a text is written. Without a console it is the same machine. -/
def afterWrite (machine : Machine σ) (shown : Text) : Machine σ :=
  if canWrite machine then
    machine.called (fw.outputString shown machine.firmware).2
      (.outputString shown (fw.outputString shown machine.firmware).1)
  else machine

/-- The machine after some texts are written, each in a call of its own. -/
def afterWrites (machine : Machine σ) (texts : List Text) : Machine σ :=
  texts.foldl (afterWrite fw) machine

@[simp] theorem afterWrites_nil (machine : Machine σ) : afterWrites fw machine [] = machine := rfl

@[simp] theorem afterWrites_cons (machine : Machine σ) (shown : Text) (rest : List Text) :
    afterWrites fw machine (shown :: rest) = afterWrites fw (afterWrite fw machine shown) rest := rfl

/-- Texts are written in turn. -/
theorem afterWrites_append (machine : Machine σ) (first second : List Text) :
    afterWrites fw machine (first ++ second) = afterWrites fw (afterWrites fw machine first) second :=
  List.foldl_append

/-- Writing leaves everything else as it is, so only the firmware and the trace have to be
followed. -/
theorem afterWrites_onlyFirmware (machine : Machine σ) (texts : List Text) :
    OnlyFirmware machine (afterWrites fw machine texts) := by
  induction texts generalizing machine with
  | nil => exact Std.Refl.refl machine
  | cons shown rest ih =>
    have first : OnlyFirmware machine (afterWrite fw machine shown) := by
      rw [afterWrite]
      split
      · exact called_onlyFirmware machine _ _
      · exact Std.Refl.refl machine
    exact first.then (ih (afterWrite fw machine shown))

/-- Without a console nothing is written, and the machine is the same. -/
theorem afterWrites_silent {machine : Machine σ} (silent : canWrite machine = false)
    (texts : List Text) : afterWrites fw machine texts = machine := by
  induction texts with
  | nil => rfl
  | cons shown rest ih =>
    have first : afterWrite fw machine shown = machine := if_neg (ne_true_of_eq_false silent)
    rw [afterWrites_cons, first, ih]

/-- The steps of writing are the texts, if there is a console. -/
theorem afterWrites_trace (machine : Machine σ) (texts : List Text) :
    ∃ events, (afterWrites fw machine texts).trace = machine.trace ++ events ∧
      written events = (if canWrite machine then texts else []) ∧ strokes events = [] := by
  by_cases console : canWrite machine
  · induction texts generalizing machine with
    | nil => exact ⟨[], (List.append_nil _).symm, by rw [if_pos console]; rfl, rfl⟩
    | cons shown rest ih =>
      have first : afterWrite fw machine shown =
          machine.called (fw.outputString shown machine.firmware).2
            (.outputString shown (fw.outputString shown machine.firmware).1) := if_pos console
      obtain ⟨events, trace, texts, calm⟩ := ih (afterWrite fw machine shown) (first ▸ console)
      refine ⟨.outputString shown (fw.outputString shown machine.firmware).1 :: events, ?_, ?_, calm⟩
      · rw [afterWrites_cons, trace, first, called_trace, List.append_assoc]
        rfl
      · rw [if_pos (first ▸ console)] at texts
        rw [if_pos console, ← texts]
        rfl
  · have still : afterWrites fw machine texts = machine :=
      afterWrites_silent fw (Bool.not_eq_true _ ▸ console) texts
    exact ⟨[], by rw [still, List.append_nil], by rw [if_neg console]; rfl, rfl⟩

/-- The routine writes these texts, does nothing else and returns this value. -/
def Shows (texts : List Text) (value : α) (routine : Routine σ α) : Prop :=
  ∀ machine, routine.run machine = .ok (value, afterWrites fw machine texts)

variable {fw}

/-- A value shows nothing. -/
theorem shows_pure (value : α) : Shows fw [] value (pure value) := fun _ => rfl

/-- What is written in turn is written one behind the other. -/
theorem Shows.bind {texts later : List Text} {value : α} {result : β} {first : Routine σ α}
    {next : α → Routine σ β} (head : Shows fw texts value first)
    (rest : Shows fw later result (next value)) :
    Shows fw (texts ++ later) result (first >>= next) := by
  intro machine
  rw [run_bind_of_ok (head machine), rest, afterWrites_append]

/-- What is written in turn by two routines. -/
theorem Shows.then {texts later : List Text} {value : α} {result : β} {first : Routine σ α}
    {second : Routine σ β} (head : Shows fw texts value first) (rest : Shows fw later result second) :
    Shows fw (texts ++ later) result (first >>= fun _ => second) := head.bind rest

/-- What is written after a view of the machine. -/
theorem shows_view {texts : List Text} {value : α} {next : Machine σ → Routine σ α}
    (rest : ∀ machine, Shows fw texts value (next machine)) :
    Shows fw texts value (get >>= next) := fun machine => rest machine machine

/-- Writing a terminated text shows it in one call. -/
theorem shows_terminalWrite {shown : Text} (free : (0 : CHAR16) ∉ shown) :
    Shows fw [shown] () (terminalWrite fw (shown ++ [0])) := by
  intro machine
  have read : scan (shown ++ [0]) = some shown := scan_append shown [] free
  have entered : (get : Routine σ (Machine σ)).run machine = .ok (machine, machine) := rfl
  rw [terminalWrite, terminalPut, run_bind_of_ok entered, afterWrites_cons, afterWrites_nil, afterWrite,
    read]
  by_cases console : canWrite machine
  · rw [if_pos console, if_pos console]
    rfl
  · rw [if_neg console, if_neg console]
    rfl

/-- A line shows its text and then the line end. -/
theorem shows_terminalWriteLine {shown : Text} (free : (0 : CHAR16) ∉ shown) :
    Shows fw [shown, [carriageReturn, lineFeed]] () (terminalWriteLine fw (shown ++ [0])) := by
  have lineEnd : (0 : CHAR16) ∉ [carriageReturn, lineFeed] := by decide
  exact (shows_terminalWrite free).bind (shows_terminalWrite lineEnd)

/-- A line of the source shows its text and then the line end. -/
theorem shows_say {message : String} (free : (0 : CHAR16) ∉ text message) :
    Shows fw [text message, [carriageReturn, lineFeed]] () (say fw message) :=
  shows_terminalWriteLine free

end Writing

end ExistentOS.Terminal
