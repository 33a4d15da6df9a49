import ExistentOS.Composition

/-!
# Frames of the firmware calls

Relations between the machine before and after a routine. A quiet frame contains
every call that leaves existing files alone and every change of the mode and the echo,
a call frame contains the remaining file calls as well; routines composed of such steps
are within the frame, whatever the firmware answers. One family of frames says which
events a routine may add to the trace.
-/

namespace ExistentOS

open Programs

variable {σ α : Type}

/-- The event records a firmware call, and not a note of the model. -/
def Event.isCall : Event → Bool
  | .enterKernel _ _ => false
  | .command _ _ => false
  | _ => true

/-- A relation that composes and contains the quiet steps. -/
class QuietFrame (fw : Firmware σ) (R : Machine σ → Machine σ → Prop) : Prop extends
    Std.Refl R, IsTrans (Machine σ) R where
  setModes {update : TerminalStorage → TerminalStorage} (modes : ModesOnly update) :
    Keeps R (modifyTerminal update)
  locateProtocol : Keeps R (locateProtocol fw)
  openVolume (fs : Handle) : Keeps R (openVolume fw fs)
  openFile (root : Handle) (path : Text) (mode attributes : UInt64) :
    Keeps R (openFile fw root path mode attributes)
  closeFile (file : Handle) : Keeps R (closeFile fw file)
  readFile (file : Handle) (size : Nat) : Keeps R (readFile fw file size)
  setPosition (file : Handle) (position : UInt64) : Keeps R (setPosition fw file position)
  flushFile (file : Handle) : Keeps R (flushFile fw file)
  outputString (shown : Text) : Keeps R (outputString fw shown)
  readKeyStroke : Keeps R (readKeyStroke fw)

/-- A quiet frame that contains every file call. -/
class CallFrame (fw : Firmware σ) (R : Machine σ → Machine σ → Prop) : Prop extends
    QuietFrame fw R where
  deleteFile (file : Handle) : Keeps R (deleteFile fw file)
  writeFile (file : Handle) (bytes : List UInt8) : Keeps R (writeFile fw file bytes)

/-- A call frame that contains every change of the other static storage. -/
class StorageFrame (fw : Firmware σ) (R : Machine σ → Machine σ → Prop) : Prop extends
    CallFrame fw R where
  modifyAccounts (update : AccountStorage → AccountStorage) : Keeps R (modifyAccounts update)
  modifyEosfs (update : EosfsStorage → EosfsStorage) : Keeps R (modifyEosfs update)

/-- A relation that does not look at the line buffer behind a step. -/
class LineBlind (R : Machine σ → Machine σ → Prop) : Prop where
  line {before after : Machine σ} (contents : Vector CHAR16 128) :
    R before after → R before (after.withLine contents)

/-- A relation that contains every update of the terminal storage. -/
class TerminalFrame (R : Machine σ → Machine σ → Prop) : Prop where
  modifyTerminal (update : TerminalStorage → TerminalStorage) : Keeps R (modifyTerminal update)

/-- A weaker order contains every call that a quiet frame contains. -/
theorem QuietFrame.mono {fw : Firmware σ} {R S : Machine σ → Machine σ → Prop}
    (frame : QuietFrame fw R) [Std.Refl S] [IsTrans (Machine σ) S]
    (weaker : ∀ before after, R before after → S before after) : QuietFrame fw S where
  setModes modes := (frame.setModes modes).mono weaker
  locateProtocol := frame.locateProtocol.mono weaker
  openVolume fs := (frame.openVolume fs).mono weaker
  openFile root path mode attributes := (frame.openFile root path mode attributes).mono weaker
  closeFile file := (frame.closeFile file).mono weaker
  readFile file size := (frame.readFile file size).mono weaker
  setPosition file position := (frame.setPosition file position).mono weaker
  flushFile file := (frame.flushFile file).mono weaker
  outputString shown := (frame.outputString shown).mono weaker
  readKeyStroke := frame.readKeyStroke.mono weaker

/-- A relation that contains the step of one call contains the call. -/
theorem keeps_call {R : Machine σ → Machine σ → Prop}
    (called : ∀ machine firmware event, event.isCall = true →
      R machine (machine.called firmware event))
    (operation : σ → α × σ) (event : α → Event) (isCall : ∀ answer, (event answer).isCall = true) :
    Keeps R (call operation event) := by
  constructor
  intro machine answer after ran
  cases ran
  exact called machine _ _ (isCall _)

/-- A value or a stop changes nothing, so every frame is kept. -/
theorem keeps_orStop {R : Machine σ → Machine σ → Prop} [Std.Refl R] (stop : Stop)
    (value : Option α) : Keeps R (orStop stop value) := by
  cases value with
  | none => exact keeps_throw stop
  | some found => exact keeps_pure found

/-- A relation that contains every recorded call, whatever the firmware does, and every change of
the mode and the echo is a call frame of every firmware. -/
theorem callFrame_modes {R : Machine σ → Machine σ → Prop} [Std.Refl R] [IsTrans (Machine σ) R]
    (called : ∀ machine firmware event, event.isCall = true →
      R machine (machine.called firmware event))
    (modes : ∀ machine update, ModesOnly update →
      R machine { machine with terminal := update machine.terminal })
    (fw : Firmware σ) : CallFrame fw R where
  setModes only := keeps_modify fun machine => modes machine _ only
  locateProtocol := keeps_call called _ _ fun _ => rfl
  openVolume _ := keeps_call called _ _ fun _ => rfl
  openFile _ _ _ _ := keeps_call called _ _ fun _ => rfl
  closeFile _ := keeps_call called _ _ fun _ => rfl
  readFile _ _ := keeps_bind (keeps_call called _ _ fun _ => rfl) fun answer =>
    keeps_ite (fun _ => keeps_pure answer) (fun _ => keeps_throw Stop.overrun)
  setPosition _ _ := keeps_call called _ _ fun _ => rfl
  flushFile _ := keeps_ite
    (fun _ => keeps_bind (keeps_call called _ _ fun _ => rfl) fun _ => keeps_pure ())
    (fun _ => keeps_pure ())
  outputString _ := keeps_call called _ _ fun _ => rfl
  readKeyStroke := keeps_call called _ _ fun _ => rfl
  deleteFile _ := keeps_call called _ _ fun _ => rfl
  writeFile _ _ := keeps_call called _ _ fun _ => rfl

/-- A relation that contains every recorded call and every change of the terminal storage is a
call frame of every firmware. -/
theorem callFrame {R : Machine σ → Machine σ → Prop} [Std.Refl R] [IsTrans (Machine σ) R]
    (called : ∀ machine firmware event, event.isCall = true →
      R machine (machine.called firmware event))
    (stored : ∀ machine storage, R machine { machine with terminal := storage })
    (fw : Firmware σ) : CallFrame fw R :=
  callFrame_modes called (fun machine _ _ => stored machine _) fw

/-! ## Events -/

/-- The later trace extends the earlier one by allowed events. Nothing that was recorded is lost. -/
def Emits (allowed : Event → Prop) (before after : Machine σ) : Prop :=
  ∃ events, after.trace = before.trace ++ events ∧ ∀ event ∈ events, allowed event

section Emits

variable {allowed : Event → Prop}

instance : Std.Refl (Emits (σ := σ) allowed) :=
  ⟨fun machine => ⟨[], (List.append_nil machine.trace).symm, by simp⟩⟩

instance : IsTrans (Machine σ) (Emits allowed) := ⟨by
  rintro first second third ⟨early, toSecond, allowedEarly⟩ ⟨late, toThird, allowedLate⟩
  refine ⟨early ++ late, by rw [toThird, toSecond, List.append_assoc], ?_⟩
  intro event member
  rcases List.mem_append.mp member with inEarly | inLate
  · exact allowedEarly event inEarly
  · exact allowedLate event inLate⟩

/-- An unchanged trace emits nothing, so it is extended by allowed events. -/
theorem emits_same {before after : Machine σ} (same : after.trace = before.trace) :
    Emits allowed before after :=
  ⟨[], by rw [same, List.append_nil], by simp⟩

instance : LineBlind (Emits (σ := σ) allowed) := ⟨fun _ emits => emits⟩

instance : TerminalFrame (Emits (σ := σ) allowed) := ⟨fun _ => keeps_modify fun _ => emits_same rfl⟩

/-- If all calls are allowed, routines that only call and change static storage emit only
allowed events. -/
theorem storageFrame_emits (calls : ∀ event, event.isCall = true → allowed event)
    (fw : Firmware σ) : StorageFrame fw (Emits allowed) := by
  have frame : CallFrame fw (Emits (σ := σ) allowed) := by
    apply callFrame
    · intro machine firmware event isCall
      exact ⟨[event], rfl, by simpa using calls event isCall⟩
    · intro machine storage
      exact emits_same rfl
  constructor
  · intro update
    exact keeps_modify fun _ => emits_same rfl
  · intro update
    exact keeps_modify fun _ => emits_same rfl

/-- The event is one of the calls that opening a file consists of. -/
def Event.isOpening : Event → Bool
  | .locateProtocol _ | .openVolume _ _ | .openFile _ _ _ _ _ | .close _ _ => true
  | _ => false

/-- Opening a file emits the calls that it consists of. -/
theorem emits_openOnVolume (opening : ∀ event, event.isOpening = true → allowed event)
    (fw : Firmware σ) (path : Memory) (mode attributes : UInt64) :
    Keeps (Emits allowed) (openOnVolume fw path mode attributes) := by
  have called : ∀ {α : Type} (operation : σ → α × σ) (event : α → Event),
      (∀ answer, (event answer).isOpening = true) → Keeps (Emits allowed) (call operation event) := by
    intro α operation event isOpening
    constructor
    rintro machine _ _ ⟨rfl⟩
    exact ⟨[event (operation machine.firmware).1], rfl, by simpa using opening _ (isOpening _)⟩
  exact keeps_openOnVolume fw path mode attributes (called _ _ fun _ => rfl)
    (fun _ => called _ _ fun _ => rfl) (fun _ _ => called _ _ fun _ => rfl)
    (fun _ => called _ _ fun _ => rfl)

end Emits

/-! ## Relations under a condition on the events -/

/-- A condition on events that every part of them meets as well. -/
class Hereditary (condition : List Event → Prop) : Prop where
  part {few many : List Event} : few ⊆ many → condition many → condition few

/-- The later trace extends the earlier one, and the machines are related if the new events
meet a condition. -/
def Provided (condition : List Event → Prop) (R : Machine σ → Machine σ → Prop)
    (before after : Machine σ) : Prop :=
  ∃ events, after.trace = before.trace ++ events ∧ (condition events → R before after)

section Provided

variable {condition : List Event → Prop} {R : Machine σ → Machine σ → Prop}

/-- The events between two machines are determined by their traces. -/
theorem provided_events {before after : Machine σ} (provided : Provided condition R before after)
    {events : List Event} (traced : after.trace = before.trace ++ events)
    (holds : condition events) : R before after := by
  obtain ⟨found, extended, related⟩ := provided
  have same : events = found := List.append_cancel_left (traced.symm.trans extended)
  exact related (same ▸ holds)

/-- Related machines are related under every condition. -/
theorem provided_of {before after : Machine σ} (traced : Emits (fun _ => True) before after)
    (related : R before after) : Provided condition R before after := by
  obtain ⟨events, extended, _⟩ := traced
  exact ⟨events, extended, fun _ => related⟩

instance [LineBlind R] : LineBlind (Provided condition R) :=
  ⟨fun contents ⟨events, extended, related⟩ =>
    ⟨events, extended, fun holds => LineBlind.line contents (related holds)⟩⟩

instance [Std.Refl R] : Std.Refl (Provided condition R) :=
  ⟨fun machine => ⟨[], (List.append_nil machine.trace).symm, fun _ => Std.Refl.refl machine⟩⟩

instance [IsTrans (Machine σ) R] [Hereditary condition] :
    IsTrans (Machine σ) (Provided condition R) := ⟨by
  rintro first second third ⟨early, toSecond, relatedEarly⟩ ⟨late, toThird, relatedLate⟩
  refine ⟨early ++ late, by rw [toThird, toSecond, List.append_assoc], ?_⟩
  intro holds
  exact IsTrans.trans first second third
    (relatedEarly (Hereditary.part (List.subset_append_left early late) holds))
    (relatedLate (Hereditary.part (List.subset_append_right early late) holds))⟩

/-- A routine that extends the trace keeps a relation under a condition if its runs whose
events meet the condition are related. -/
theorem keeps_provided {program : Routine σ α} (traced : Keeps (Emits fun _ => True) program)
    (related : ∀ machine result after events, program.run machine = .ok (result, after) →
      after.trace = machine.trace ++ events → condition events → R machine after) :
    Keeps (Provided condition R) program := by
  constructor
  intro machine result after ran
  obtain ⟨events, extended, _⟩ := traced.related machine result after ran
  exact ⟨events, extended, related machine result after events ran extended⟩

end Provided

/-! ## Composed routines -/

section Composed

variable {fw : Firmware σ} {reasons : Stop → Prop} {further : (α : Type) → Routine σ α → Prop}
  {R : Machine σ → Machine σ → Prop}

/-- A composed routine keeps a quiet frame that its further steps keep. -/
theorem Composed.keeps [QuietFrame fw R] {routine : Routine σ α}
    (composed : Composed fw reasons further routine)
    (steps : ∀ (α : Type) (routine : Routine σ α), further α routine → Keeps R routine) :
    Keeps R routine := by
  induction composed with
  | pure value => exact keeps_pure value
  | throw stop _ => exact keeps_throw stop
  | sequence _ _ head rest => exact keeps_bind_returns head rest
  | view _ _ rest => exact keeps_bind keeps_get rest
  | setModes modes => exact QuietFrame.setModes fw modes
  | locateProtocol => exact QuietFrame.locateProtocol
  | openVolume fs => exact QuietFrame.openVolume fs
  | openFile root path mode attributes => exact QuietFrame.openFile root path mode attributes
  | closeFile file => exact QuietFrame.closeFile file
  | readFile file size => exact QuietFrame.readFile file size
  | setPosition file position => exact QuietFrame.setPosition file position
  | flushFile file => exact QuietFrame.flushFile file
  | outputString shown => exact QuietFrame.outputString shown
  | readKeyStroke => exact QuietFrame.readKeyStroke
  | further named => exact steps _ _ named

/-- No further steps: the routine is composed of quiet ones alone. -/
def Nothing (α : Type) (_ : Routine σ α) : Prop := False

/-- A routine composed of quiet steps alone keeps every quiet frame. -/
theorem Composed.keepsQuiet [QuietFrame fw R] {routine : Routine σ α}
    (composed : Composed fw (fun _ => True) Nothing routine) : Keeps R routine :=
  composed.keeps fun _ _ named => False.elim named

/-- A routine composed of file calls keeps every call frame. -/
theorem Composed.keepsFiles [CallFrame fw R] {routine : Routine σ α}
    (composed : Composed fw (fun _ => True) (FileStep fw) routine) : Keeps R routine := by
  apply composed.keeps
  intro α routine named
  cases named with
  | deleteFile file => exact CallFrame.deleteFile file
  | writeFile file bytes => exact CallFrame.writeFile file bytes

/-- A routine composed of file calls only extends the trace. -/
theorem Composed.emitsFiles {routine : Routine σ α}
    (composed : Composed fw (fun _ => True) (FileStep fw) routine) :
    Keeps (Emits fun _ => True) routine := by
  have frame : StorageFrame fw (Emits fun _ => True) := storageFrame_emits (fun _ _ => trivial) fw
  exact composed.keepsFiles

/-- A routine composed of storage steps keeps every storage frame. -/
theorem Composed.keepsStorage [StorageFrame fw R] {routine : Routine σ α}
    (composed : Composed fw (fun _ => True) (StorageStep fw) routine) : Keeps R routine := by
  apply composed.keeps
  intro α routine named
  cases named with
  | file named =>
    cases named with
    | deleteFile file => exact CallFrame.deleteFile file
    | writeFile file bytes => exact CallFrame.writeFile file bytes
  | modifyAccounts update => exact StorageFrame.modifyAccounts fw update

end Composed

end ExistentOS
