import ExistentOS.Files

/-!
# What routines are composed of

Most routines of the terminal are sequences of a few kinds of steps: views of the machine
that do not look at the line buffer, calls that leave existing files alone, changes of the
mode and the echo, and stops. A routine composed of such steps, and of further ones that
are named where they occur, inherits what is known of the steps. Three such facts are
drawn from one derivation: the frames it keeps, its independence of the line buffer, and
the reasons for which it can stop.
-/

namespace ExistentOS

open Programs

variable {σ α β : Type}

/-- The machine with other contents of the line buffer. -/
def Machine.withLine (machine : Machine σ) (line : Vector CHAR16 128) : Machine σ :=
  { machine with terminal := { machine.terminal with line := line } }

/-- An update of the terminal storage that concerns the mode and the echo only. It neither moves
the drive nor looks at the line buffer. -/
structure ModesOnly (update : TerminalStorage → TerminalStorage) : Prop where
  drive (terminal : TerminalStorage) : (update terminal).currentDrive = terminal.currentDrive
  path (terminal : TerminalStorage) : (update terminal).currentPath = terminal.currentPath
  line (terminal : TerminalStorage) (line : Vector CHAR16 128) :
    update { terminal with line := line } = { update terminal with line := line }

/-- A stop that no buffer, no field and no fuel is responsible for. -/
def Stop.incidental : Stop → Bool
  | .unset | .null => true
  | _ => false

/-- The routine is composed of quiet steps, of further ones, and of stops that are incidental or
have an allowed reason. -/
inductive Composed (fw : Firmware σ) (reasons : Stop → Prop)
    (further : (α : Type) → Routine σ α → Prop) : {α : Type} → Routine σ α → Prop where
  | pure {α : Type} (value : α) : Composed fw reasons further (pure value : Routine σ α)
  | throw {α : Type} (stop : Stop) (allowed : stop.incidental = true ∨ reasons stop) :
    Composed fw reasons further (throw stop : Routine σ α)
  | sequence {α β : Type} {first : Routine σ α} {next : α → Routine σ β}
    (head : Composed fw reasons further first)
    (rest : ∀ value, Returns first value → Composed fw reasons further (next value)) :
    Composed fw reasons further (first >>= next)
  | view {α : Type} {next : Machine σ → Routine σ α}
    (blind : ∀ machine line, next (machine.withLine line) = next machine)
    (rest : ∀ machine, Composed fw reasons further (next machine)) :
    Composed fw reasons further (get >>= next)
  | setModes {update : TerminalStorage → TerminalStorage} (modes : ModesOnly update) :
    Composed fw reasons further (modifyTerminal update)
  | locateProtocol : Composed fw reasons further (locateProtocol fw)
  | openVolume (fs : Handle) : Composed fw reasons further (openVolume fw fs)
  | openFile (root : Handle) (path : Text) (mode attributes : UInt64) :
    Composed fw reasons further (openFile fw root path mode attributes)
  | closeFile (file : Handle) : Composed fw reasons further (closeFile fw file)
  | readFile (file : Handle) (size : Nat) : Composed fw reasons further (readFile fw file size)
  | setPosition (file : Handle) (position : UInt64) :
    Composed fw reasons further (setPosition fw file position)
  | flushFile (file : Handle) : Composed fw reasons further (flushFile fw file)
  | outputString (shown : Text) : Composed fw reasons further (outputString fw shown)
  | readKeyStroke : Composed fw reasons further (readKeyStroke fw)
  | further {α : Type} {routine : Routine σ α} (named : further α routine) :
    Composed fw reasons further routine

/-- The calls that change a file. All others that the routines make leave every file as it is, so
a property of files is to be checked for these two only. -/
inductive FileStep (fw : Firmware σ) : (α : Type) → Routine σ α → Prop where
  | deleteFile (file : Handle) : FileStep fw EfiStatus (deleteFile fw file)
  | writeFile (file : Handle) (bytes : List UInt8) :
    FileStep fw (EfiStatus × Nat) (writeFile fw file bytes)

/-- The steps that change a file or the accounts. A property of both is to be checked for these
three only. -/
inductive StorageStep (fw : Firmware σ) : (α : Type) → Routine σ α → Prop where
  | file {α : Type} {routine : Routine σ α} (named : FileStep fw α routine) :
    StorageStep fw α routine
  | modifyAccounts (update : AccountStorage → AccountStorage) :
    StorageStep fw Unit (modifyAccounts update)

namespace Composed

variable {fw : Firmware σ} {reasons : Stop → Prop} {further : (α : Type) → Routine σ α → Prop}

/-! ## Compositions -/

/-- A sequence whose second part is composed for every value. -/
theorem bind {first : Routine σ α} {next : α → Routine σ β}
    (head : Composed fw reasons further first)
    (rest : ∀ value, Composed fw reasons further (next value)) :
    Composed fw reasons further (first >>= next) := sequence head (fun value _ => rest value)

/-- A choice is composed if its alternatives are. -/
theorem ite {condition : Prop} [Decidable condition] {left right : Routine σ α}
    (whenTrue : condition → Composed fw reasons further left)
    (whenFalse : ¬ condition → Composed fw reasons further right) :
    Composed fw reasons further (if condition then left else right) := by
  by_cases chosen : condition
  · rw [if_pos chosen]
    exact whenTrue chosen
  · rw [if_neg chosen]
    exact whenFalse chosen

/-- A value or a stop. -/
theorem orStop {stop : Stop} {value : Option α}
    (safe : value = none → stop.incidental = true ∨ reasons stop) :
    Composed fw reasons further (orStop stop value) := by
  cases value with
  | none => exact throw stop (safe rfl)
  | some found => exact pure found

/-- A value or a stop, with what follows for a value. -/
theorem orStop_bind {stop : Stop} {value : Option α} {next : α → Routine σ β}
    (safe : value = none → stop.incidental = true ∨ reasons stop)
    (rest : ∀ found, value = some found → Composed fw reasons further (next found)) :
    Composed fw reasons further (ExistentOS.orStop stop value >>= next) := by
  cases value with
  | none =>
    have stopped : Composed fw reasons further (MonadExcept.throw stop : Routine σ β) :=
      throw stop (safe rfl)
    exact stopped
  | some found => exact rest found rfl

/-- A text that is terminated, unless it is allowed to leave its buffer. -/
theorem orOverrun {memory : Memory} (ends : (0 : CHAR16) ∈ memory ∨ reasons .overrun) :
    Composed fw reasons further (orOverrun (Terminated.scan memory)) :=
  orStop fun unread => ends.elim (fun ends => absurd unread (Terminated.scan_ends ends)) Or.inr

/-- Performing a routine for every element of a list. -/
theorem forM {elements : List β} {body : β → Routine σ PUnit}
    (each : ∀ element ∈ elements, Composed fw reasons further (body element)) :
    Composed fw reasons further (elements.forM body) := by
  induction elements with
  | nil => exact pure PUnit.unit
  | cons first rest ih =>
    have head : Composed fw reasons further (body first) := each first List.mem_cons_self
    have tail : Composed fw reasons further (rest.forM body) :=
      ih (fun element member => each element (List.mem_cons_of_mem first member))
    exact bind head (fun _ => tail)

/-- A loop is composed of its rounds and of its stop, as far as the rounds come to pass. -/
theorem iterate_invariant {body : β → Routine σ (β ⊕ α)} (invariant : β → Prop)
    (exhausted : reasons .outOfFuel)
    (round : ∀ current, invariant current → Composed fw reasons further (body current))
    (restored : ∀ current next, invariant current → Returns (body current) (.inl next) →
      invariant next)
    (fuel : Nat) (current : β) (entered : invariant current) :
    Composed fw reasons further (iterate .outOfFuel body fuel current) := by
  induction fuel generalizing current with
  | zero => exact throw .outOfFuel (Or.inr exhausted)
  | succ fuel ih =>
    refine sequence (round current entered) (fun outcome returned => ?_)
    cases outcome with
    | inl next => exact ih next (restored current next entered returned)
    | inr result => exact pure result

/-- A loop whose rounds move on is not stopped by its fuel. -/
theorem iterate_measured {body : β → Routine σ (β ⊕ α)} (measure : β → Nat)
    (round : ∀ current, Composed fw reasons further (body current))
    (less : ∀ current next, Returns (body current) (.inl next) → measure next < measure current)
    (fuel : Nat) (current : β) (enough : measure current < fuel) :
    Composed fw reasons further (Programs.iterate .outOfFuel body fuel current) := by
  induction fuel generalizing current with
  | zero => exact absurd enough (Nat.not_lt_zero _)
  | succ fuel ih =>
    refine sequence (round current) (fun outcome returned => ?_)
    cases outcome with
    | inl next =>
      have moved : measure next < measure current := less current next returned
      exact ih next (by omega)
    | inr result => exact pure result

/-- A loop all of whose rounds are composed. -/
theorem iterate {body : β → Routine σ (β ⊕ α)} (exhausted : reasons .outOfFuel)
    (round : ∀ current, Composed fw reasons further (body current)) (fuel : Nat) (current : β) :
    Composed fw reasons further (Programs.iterate .outOfFuel body fuel current) :=
  iterate_invariant (fun _ => True) exhausted (fun current _ => round current)
    (fun _ _ _ _ => trivial) fuel current trivial

/-- What is composed under fewer reasons and further steps is composed under more. -/
theorem mono {reasons' : Stop → Prop} {further' : (α : Type) → Routine σ α → Prop}
    {routine : Routine σ α} (composed : Composed fw reasons further routine)
    (stops : ∀ stop, reasons stop → reasons' stop)
    (steps : ∀ (α : Type) (routine : Routine σ α), further α routine →
      Composed fw reasons' further' routine) : Composed fw reasons' further' routine := by
  induction composed with
  | pure value => exact pure value
  | throw stop allowed => exact throw stop (allowed.imp_right (stops stop))
  | sequence _ _ head rest => exact sequence head rest
  | view blind _ rest => exact view blind rest
  | setModes modes => exact setModes modes
  | locateProtocol => exact locateProtocol
  | openVolume fs => exact openVolume fs
  | openFile root path mode attributes => exact openFile root path mode attributes
  | closeFile file => exact closeFile file
  | readFile file size => exact readFile file size
  | setPosition file position => exact setPosition file position
  | flushFile file => exact flushFile file
  | outputString shown => exact outputString shown
  | readKeyStroke => exact readKeyStroke
  | further named => exact steps _ _ named

/-! ## Independence of the line buffer -/

/-- A call does not look at the static storage. -/
theorem commutes_call (line : Vector CHAR16 128) (operation : σ → α × σ) (event : α → Event) :
    Commutes (Machine.withLine · line) (call operation event) := fun _ => rfl

/-- Composed routines do not notice the contents of the line buffer if their further steps do
not. -/
theorem commutes_line {routine : Routine σ α} (line : Vector CHAR16 128)
    (composed : Composed fw reasons further routine)
    (steps : ∀ (α : Type) (routine : Routine σ α), further α routine →
      Commutes (Machine.withLine · line) routine) :
    Commutes (Machine.withLine · line) routine := by
  induction composed with
  | pure value => exact commutes_pure value
  | throw stop _ => exact commutes_throw stop
  | sequence _ _ head rest => exact commutes_bind head rest
  | view blind _ rest => exact commutes_view (fun machine => blind machine line) rest
  | setModes modes =>
    apply commutes_modify
    intro machine
    exact congrArg (fun terminal => { machine with terminal := terminal })
      (modes.line machine.terminal line)
  | locateProtocol => exact commutes_call line _ _
  | openVolume fs => exact commutes_call line _ _
  | openFile root path mode attributes => exact commutes_call line _ _
  | closeFile file => exact commutes_call line _ _
  | readFile file size =>
    apply commutes_bind (commutes_call line _ _)
    intro answer _
    by_cases fits : answer.bytes.length ≤ size
    · rw [if_pos fits]
      exact commutes_pure answer
    · rw [if_neg fits]
      exact commutes_throw Stop.overrun
  | setPosition file position => exact commutes_call line _ _
  | flushFile file =>
    unfold ExistentOS.flushFile
    by_cases flushes : fw.hasFlush file = true
    · rw [if_pos flushes]
      exact commutes_bind (commutes_call line _ _) (fun _ _ => commutes_pure ())
    · rw [if_neg flushes]
      exact commutes_pure ()
  | outputString shown => exact commutes_call line _ _
  | readKeyStroke => exact commutes_call line _ _
  | further named => exact steps _ _ named

/-- Changes of files and accounts do not look at the line buffer. -/
theorem commutes_storage (line : Vector CHAR16 128) {routine : Routine σ α}
    (named : StorageStep fw α routine) : Commutes (Machine.withLine · line) routine := by
  cases named with
  | file named =>
    cases named with
    | deleteFile file => exact commutes_call line _ _
    | writeFile file bytes => exact commutes_call line _ _
  | modifyAccounts update => exact commutes_modify fun _ => rfl

/-! ## Reasons to stop -/

/-- The firmware never stores more bytes than it was asked for. -/
def ReadsWithin (fw : Firmware σ) : Prop :=
  ∀ file size state, (fw.read file size state).1.bytes.length ≤ size

/-- A composed routine stops for incidental or allowed reasons only. -/
theorem stops {routine : Routine σ α} (within : ReadsWithin fw ∨ reasons .overrun)
    (composed : Composed fw reasons further routine)
    (steps : ∀ (α : Type) (routine : Routine σ α), further α routine → ∀ machine,
      wp routine (fun _ _ => True) (fun stop => stop.incidental = true ∨ reasons stop) machine)
    (machine : Machine σ) :
    wp routine (fun _ _ => True) (fun stop => stop.incidental = true ∨ reasons stop) machine := by
  induction composed generalizing machine with
  | pure value => trivial
  | throw stop allowed => exact allowed
  | sequence _ _ head rest =>
    rw [wp_bind]
    have first := (wp_iff _ _ _ _).mp (head machine)
    refine (wp_iff _ _ _ _).mpr ⟨fun value middle ran => ?_, first.2⟩
    exact rest value ⟨machine, middle, ran⟩ middle
  | view _ _ rest =>
    rw [wp_bind, wp_get]
    exact rest machine machine
  | setModes modes => trivial
  | locateProtocol => trivial
  | openVolume fs => trivial
  | openFile root path mode attributes => trivial
  | closeFile file => trivial
  | readFile file size =>
    rw [ExistentOS.readFile, wp_bind, wp_call, wp_ite, wp_pure, wp_throw]
    exact ⟨fun _ => trivial, fun long => Or.inr
      (within.resolve_left fun within => long (within file size machine.firmware))⟩
  | setPosition file position => trivial
  | flushFile file =>
    rw [ExistentOS.flushFile, wp_ite]
    exact ⟨fun _ => trivial, fun _ => trivial⟩
  | outputString shown => trivial
  | readKeyStroke => trivial
  | further named => exact steps _ _ named machine

/-! ## Opening a file -/

/-- Opening a file on the volume is composed of quiet steps. -/
theorem openOnVolume (path : Memory) (mode attributes : UInt64)
    (ends : (0 : CHAR16) ∈ path ∨ reasons .overrun) :
    Composed fw reasons further (openOnVolume fw path mode attributes) := by
  apply view (fun _ _ => rfl)
  intro machine
  apply ite _ (fun _ => pure none)
  intro _
  apply bind locateProtocol
  intro located
  apply ite (fun _ => pure none)
  intro _
  apply bind (openVolume located.2)
  intro volume
  apply ite (fun _ => pure none)
  intro _
  have root : Composed fw reasons further (do
      let name ← ExistentOS.orOverrun (Terminated.scan path)
      let opened ← ExistentOS.openFile fw volume.2 name mode attributes
      let _ ← ExistentOS.closeFile fw volume.2
      if ¬ efiError opened.1 ∧ opened.2 ≠ 0 then return some opened.2
      return none) := by
    apply bind (orOverrun ends)
    intro name
    apply bind (openFile volume.2 name mode attributes)
    intro opened
    apply bind (closeFile volume.2)
    intro _
    exact ite (fun _ => pure _) (fun _ => pure none)
  apply ite
  · intro _
    exact bind (throw .null (Or.inl rfl)) (fun _ => root)
  · intro _
    exact root

end Composed

end ExistentOS
