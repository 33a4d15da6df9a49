import ExistentOS.Terminal.Buffers
import ExistentOS.Terminal.Exits
import ExistentOS.Terminal.Guarded
import ExistentOS.Terminal.Scripts
import ExistentOS.VolumeFrames
import Mathlib.Data.Set.Finite.List

/-!
# Where the interpreter ends

Nothing in the source bounds the nesting of scripts: a script that runs itself never ends. Apart
from that, and from the commands that wait for input, every line ends. The rounds of `cat` are
bounded by the file, the sides of an ampersand are shorter than their line, and a script has
finitely many lines. So the interpreter ends as long as the chains of running scripts are bounded,
in particular if no script is run from within itself.
-/

namespace ExistentOS.Terminal

open Programs Terminated Runs Accounts

/-! ## Routines without loops -/

section Settled

variable {σ : Type}

/-- What is composed without loops does not use up any fuel. -/
theorem settled_composed (fw : Firmware σ) {α : Type} {routine : Routine σ α}
    (composed : Composed fw (· ≠ .outOfFuel) (SilentEffect fw) routine) (machine : Machine σ) :
    routine.run machine ≠ .error .outOfFuel := by
  have effects : ∀ (α : Type) (step : Routine σ α), SilentEffect fw α step → ∀ machine,
      wp step (fun _ _ => True) (fun stop => stop.incidental = true ∨ stop ≠ .outOfFuel) machine := by
    intro α step named machine
    cases named with
    | setDrive drive => trivial
    | storage named => exact commandEffect_returns (CommandEffect.storage named) machine
  have stops := composed.stops (Or.inr (by decide)) effects machine
  intro exhausted
  rcases ((wp_iff _ _ _ _).mp stops).2 .outOfFuel exhausted with incidental | other
  · cases incidental
  · exact other rfl

end Settled

/-! ## The rounds of `cat` -/

section Reading

variable {File τ : Type} [DecidableEq File] (resolve : Text → File) (device : Firmware τ)

/-- The files and handles of the volume stay as they are. -/
def SameVolume (before after : Machine (Volume File × τ)) : Prop :=
  after.firmware.1 = before.firmware.1

/-- Writing to the console leaves the volume alone. -/
theorem sameVolume_terminalWrite (shown : Memory) :
    Keeps SameVolume (terminalWrite (Volume.firmware resolve device) shown) := by
  rw [keeps_iff_wp]
  intro machine
  rw [terminalWrite, terminalPut, wp_bind, wp_get, wp_ite, wp_bind, wp_orStop, wp_pure]
  refine ⟨fun _ => ⟨fun found _ => ?_, fun _ => trivial⟩, fun _ => rfl⟩
  rw [wp_bind, outputString, wp_call]
  rfl

/-- The handle is at a place in a file with these bytes. -/
def ReadsAt (volume : Volume File) (handle : Handle) (bytes : List UInt8) (place : Nat) : Prop :=
  ∃ found, volume.opened handle = some found ∧ found.position = place ∧
    volume.contents found.file = some bytes

omit [DecidableEq File] in
/-- A read that reports all the bytes it was asked for has found them, and moves on behind them. -/
theorem readPath_full {volume : Volume File} {handle : Handle} {found : OpenFile File}
    {bytes : List UInt8} {size : Nat} (stored : volume.contents found.file = some bytes)
    (worked : efiError (volume.readPath handle found size).1.status = false)
    (full : (volume.readPath handle found size).1.size = size) :
    found.position + size ≤ bytes.length ∧
      ReadsAt (volume.readPath handle found size).2 handle bytes (found.position + size) := by
  have calm : ¬ efiError volume.fault.status = true := by
    intro failed
    rw [Volume.readPath, if_pos failed] at worked
    exact absurd failed (by simpa using worked)
  have inside : ¬ bytes.length < found.position := by
    intro outside
    simp only [Volume.readPath, if_neg calm, stored, if_pos outside] at worked
    cases worked
  simp only [Volume.readPath, if_neg calm, stored, if_neg inside] at full ⊢
  have moved := capped_length volume.fault.readAtMost ((bytes.drop found.position).take size)
  rw [full, List.length_take, List.length_drop] at moved
  refine ⟨by omega, _, Function.update_self _ _ _, ?_, stored⟩
  rw [full]

/-- A round that is followed by another one has read as many bytes as the buffer has room for. -/
theorem wp_catRound {handle : Handle} {bytes : List UInt8} {place : Nat} (buffer : List UInt8)
    {machine : Machine (Volume File × τ)} (reads : ReadsAt machine.firmware.1 handle bytes place) :
    wp (catRound (Volume.firmware resolve device) handle buffer)
      (fun outcome after => ∀ stored, outcome = .inl stored →
        place + catBufferSize ≤ bytes.length ∧
          ReadsAt after.firmware.1 handle bytes (place + catBufferSize))
      (fun _ => True) machine := by
  obtain ⟨found, isOpen, rfl, stored⟩ := reads
  rw [catRound, wp_bind]
  apply Volume.wp_readFile resolve device handle catBufferSize found isOpen
  intro read _ volume
  have quiet : ∀ shown, Keeps SameVolume (showBytes (Volume.firmware resolve device) shown) :=
    fun shown => keeps_ite (fun _ => sameVolume_terminalWrite resolve device _)
      fun _ => (keeps_iff_wp _).mpr fun _ => rfl
  rw [wp_ite]
  constructor
  · intro _
    rw [wp_bind]
    apply wp_any
    intro _ closed another same
    cases same
  · intro worked
    rw [wp_bind, wp_orStop]
    refine ⟨fun shown _ => ?_, fun _ => trivial⟩
    rw [wp_bind]
    apply wp_mono ((keeps_iff_wp _).mp (quiet shown) read) _ (fun _ _ => trivial)
    intro _ written same
    rw [wp_ite, wp_pure]
    refine ⟨fun full another _ => ?_, fun _ => ?_⟩
    · rw [same, volume]
      exact readPath_full stored (by simpa using worked) full
    · rw [wp_bind]
      apply wp_any
      intro _ closed
      rw [wp_bind]
      apply wp_any
      intro _ ended another same
      cases same

/-- The rounds of `cat` are over when the file is.

Induct over the rounds; each of them but the last one reads a full buffer. -/
theorem settled_catRounds {handle : Handle} {bytes : List UInt8} (rounds : Nat) {place : Nat}
    (buffer : List UInt8) (inside : place ≤ bytes.length)
    (enough : bytes.length < place + catBufferSize * rounds)
    {machine : Machine (Volume File × τ)} (reads : ReadsAt machine.firmware.1 handle bytes place) :
    (iterate .outOfFuel (catRound (Volume.firmware resolve device) handle) rounds buffer).run
      machine ≠ .error .outOfFuel := by
  induction rounds generalizing place buffer machine with
  | zero => omega
  | succ rounds ih =>
    have moves := wp_catRound resolve device buffer reads
    have settled := settled_composed (Volume.firmware resolve device)
      (composed_catRound (Or.inr (by decide)) handle buffer) machine
    rw [iterate]
    cases ran : (catRound (Volume.firmware resolve device) handle buffer).run machine with
    | error reason =>
      rw [run_bind_of_error ran]
      rw [ran] at settled
      exact fun stopped => settled (congrArg Except.error (Except.error.inj stopped))
    | ok result =>
      obtain ⟨outcome, after⟩ := result
      rw [run_bind_of_ok ran]
      cases outcome with
      | inr done =>
        intro stopped
        cases stopped
      | inl stored =>
        obtain ⟨further, readsOn⟩ := wp_returns moves ran stored rfl
        exact ih stored further (by rw [Nat.mul_succ] at enough; omega) readsOn

/-- `cat` ends on every file, as each full read moves on in it. -/
theorem lasts_terminalCatFile (path : Memory) (machine : Machine (Volume File × τ)) :
    Lasts .outOfFuel (fun fuel => terminalCatFile (Volume.firmware resolve device) fuel path)
      machine := by
  refine lasts_after (settled_composed (Volume.firmware resolve device)
    (composed_terminalOpenFile (Or.inr (by decide)) efiFileModeRead 0) machine) ?_
  intro opened after ran
  cases opened with
  | none => exact lasts_pure false after
  | some handle =>
    obtain ⟨_, fresh⟩ := wp_returns (Volume.wp_opened resolve device path efiFileModeRead 0 machine) ran
    obtain ⟨name, _, isFresh⟩ := fresh handle rfl
    have reads : ReadsAt after.firmware.1 handle ((machine.firmware.1.contents (resolve name)).getD [])
        0 := ⟨_, isFresh.opened, rfl, by rw [isFresh.contents, Function.update_self]⟩
    refine ⟨((machine.firmware.1.contents (resolve name)).getD []).length + 1, fun fuel more => ?_⟩
    apply settled_catRounds resolve device fuel [] (Nat.zero_le _) _ reads
    rw [show catBufferSize = 120 from rfl]
    omega

end Reading

/-! ## The lines of a script -/

section Scripts

variable {σ : Type} {fw : Firmware σ} {script : Nat → Memory → Routine σ Bool}
  (stable : ∀ command, Stable .outOfFuel fun fuel => script fuel command)
  (inner : ∀ (text : Text) (machine : Machine σ),
    Lasts .outOfFuel (fun fuel => script fuel (text ++ [0])) machine)

/-- A store into the line buffer hands on the line with its unit. -/
theorem lasts_push {α : Type} {capacity : Nat} {written : Text} {unit : CHAR16}
    {next : Nat → Memory → Routine σ α} {machine : Machine σ}
    (rest : Lasts .outOfFuel (fun fuel => next fuel (written ++ [unit])) machine) :
    Lasts .outOfFuel (fun fuel => orOverrun (push capacity written unit) >>= next fuel) machine := by
  cases stored : push capacity written unit with
  | none =>
    refine ⟨0, fun fuel _ stopped => ?_⟩
    have overrun : (orOverrun none >>= next fuel).run machine = .error .overrun := rfl
    rw [overrun] at stopped
    cases stopped
  | some grown =>
    obtain ⟨_, rfl⟩ := push_some stored
    exact rest

include stable inner

/-- The lines of a script end one by one.

Induct over the bytes. -/
theorem lasts_runLines (line : Text) (bytes : List UInt8) (machine : Machine σ) :
    Lasts .outOfFuel (fun fuel => runLines (script fuel) line bytes) machine := by
  induction bytes generalizing line machine with
  | nil =>
    simp only [runLines]
    refine lasts_ite (fun _ => lasts_push ?_) fun _ => lasts_pure () machine
    exact lasts_bind (stable _) (inner line machine) fun _ after _ _ => lasts_pure () after
  | cons byte rest ih =>
    simp only [runLines]
    refine lasts_ite (fun _ => ih line machine) fun _ => lasts_ite (fun _ => lasts_push ?_) fun _ => ?_
    · refine lasts_ite (fun _ => ?_) fun _ => ih [] machine
      exact lasts_bind (stable _) (inner line machine) fun _ after _ _ => ih [] after
    · exact lasts_ite (fun _ => lasts_push (ih _ machine)) fun _ => ih line machine

/-- A script ends if its lines do, as it has finitely many. -/
theorem lasts_terminalSourceFile (path : Memory) (machine : Machine σ) :
    Lasts .outOfFuel (fun fuel => terminalSourceFile fw (script fuel) path) machine := by
  have settled : ∀ {α : Type} {routine : Routine σ α} (machine : Machine σ),
      Composed fw (· ≠ .outOfFuel) (SilentEffect fw) routine →
        routine.run machine ≠ .error .outOfFuel := fun machine composed =>
    settled_composed fw composed machine
  have linesStable : ∀ bytes, Stable .outOfFuel fun fuel => runLines (script fuel) [] bytes :=
    fun bytes fuel fuel' more => extended_runLines (fun line => stable line fuel fuel' more) [] bytes
  simp only [terminalSourceFile]
  refine lasts_after (settled machine (composed_terminalOpenFile (Or.inr (by decide)) _ _)) ?_
  intro opened after _
  cases opened with
  | none => exact lasts_pure false after
  | some file =>
    refine lasts_after (settled after (Composed.readFile file _)) fun answer read _ => ?_
    refine lasts_after (settled read (Composed.closeFile file)) fun _ closed _ => ?_
    refine lasts_ite (fun _ => lasts_pure false closed) fun _ => ?_
    refine lasts_after (settled closed (composed_reported _ (Or.inr (by decide)))) ?_
    intro bytes loaded _
    exact lasts_bind (linesStable bytes) (lasts_runLines stable inner [] bytes loaded)
      fun _ done _ _ => lasts_pure true done

end Scripts

/-! ## Commands -/

section Commands

variable {σ : Type} {fw : Firmware σ}

/-- A command on a file ends if it does on the words of its line. -/
theorem lasts_onFile (fw : Firmware σ) {argv : List Text}
    {command : Nat → Memory → Routine σ Bool} (usage : String)
    (stable : ∀ path, Stable .outOfFuel fun fuel => command fuel path) {machine : Machine σ}
    (acts : ∀ token ∈ argv, Lasts .outOfFuel (fun fuel => command fuel (token ++ [0])) machine) :
    Lasts .outOfFuel (fun fuel => onFile fw argv (command fuel) usage) machine := by
  simp only [onFile]
  refine lasts_ite (fun two => ?_) fun _ =>
    lasts_constant (settled_composed fw (composed_reply usage) machine)
  obtain ⟨name, token, rfl⟩ := List.length_eq_two.mp two
  have word : (argument [name, token] 1 : Routine σ Memory) = pure (token ++ [0]) := rfl
  simp only [word, pure_bind]
  have member : token ∈ [name, token] := List.mem_cons_of_mem name List.mem_cons_self
  exact lasts_bind (stable _) (acts token member) fun done after _ _ =>
    lasts_constant (settled_composed fw (composed_orUsage done usage) after)

/-- A table does not use up fuel if the row that is picked does not. -/
theorem settled_dispatch {argv : List Text} (word : Memory)
    {table : List (List String × Routine σ Bool)} {machine : Machine σ}
    (rows : ∀ row ∈ table, ∀ name ∈ row.1,
      (do record name argv; row.2).run machine ≠ .error .outOfFuel) :
    (dispatch fw argv word table).run machine ≠ .error .outOfFuel := by
  induction table with
  | nil => exact settled_composed fw (composed_reply _) machine
  | cons row rest ih =>
    rw [dispatch]
    cases isMatch : matchedName word row.1 with
    | none =>
      intro stopped
      cases stopped
    | some found =>
      cases found with
      | none => exact ih fun later member => rows later (List.mem_cons_of_mem row member)
      | some name => exact rows row List.mem_cons_self name (matchedName_mem isMatch)

/-- The guarded commands end if the files and the scripts do. -/
theorem lasts_commands
    (files : ∀ path (machine : Machine σ),
      Lasts .outOfFuel (fun fuel => terminalCatFile fw fuel path) machine)
    {refusal : Stop} (refuses : refusal ≠ .outOfFuel) (inner : Nat → Memory → Routine σ Bool)
    {script : Nat → Memory → Routine σ Bool}
    (stable : ∀ path, Stable .outOfFuel fun fuel => script fuel path) {argv : List Text}
    (nonempty : argv ≠ []) (scripts : ∀ token ∈ argv, ∀ machine : Machine σ,
      Lasts .outOfFuel (fun fuel => script fuel (token ++ [0])) machine)
    (args word : Memory) (machine : Machine σ) :
    Lasts .outOfFuel (fun fuel => dispatch fw argv word
      ((commands fw (inner fuel) fuel argv args).map (guardedRow fw refusal argv (script fuel))))
      machine := by
  have recorded : ∀ (name : String) (run : Routine σ Bool), (do record name argv; run).run machine =
      run.run { machine with
        trace := machine.trace ++ [.command (text name) (wordsOf machine.terminal argv)] } :=
    fun name run => rfl
  have catStable : ∀ path, Stable .outOfFuel fun fuel => terminalCatFile fw fuel path :=
    fun path fuel fuel' more => extended_terminalCatFile more path
  obtain ⟨least, scriptEnds⟩ := lasts_onFile fw "usage: source <script>" stable
    fun token member => scripts token member { machine with
      trace := machine.trace ++ [.command (text "source") (wordsOf machine.terminal argv)] }
  obtain ⟨least', fileEnds⟩ := lasts_onFile fw "usage: cat <file>" catStable
    fun token (_ : token ∈ argv) => files (token ++ [0]) { machine with
      trace := machine.trace ++ [.command (text "cat") (wordsOf machine.terminal argv)] }
  refine ⟨max least least', fun fuel more => settled_dispatch word ?_⟩
  intro guardedOne member name named
  obtain ⟨row, inTable, rfl⟩ := List.mem_map.mp member
  rw [guardedRow_names] at named
  rw [recorded]
  unfold guardedRow
  by_cases waits : row.1 ∈ interactiveNames
  · rw [if_pos waits]
    exact fun stopped => refuses (Except.error.inj stopped)
  rw [if_neg waits]
  by_cases sources : row.1 = sourceNames
  · rw [if_pos sources]
    rw [sources] at named
    rw [List.mem_singleton.mp named]
    exact scriptEnds fuel (Nat.le_trans (Nat.le_max_left least least') more)
  rw [if_neg sources]
  by_cases shows : row.1 = ["cat"]
  · rw [shows] at named
    rw [List.mem_singleton.mp named,
      commands_unique fw _ _ _ _ inTable (commands_cat fw _ _ _ _) shows]
    exact fileEnds fuel (Nat.le_trans (Nat.le_max_right least least') more)
  · have facts : RowFacts fw (· ≠ .outOfFuel) row :=
      facts_commands (fun _ other => other) (inner fuel) fuel nonempty args row inTable
    refine settled_composed fw (facts.silent sources fun waiting => ?_) _
    simp only [interactiveNames, waitingNames, List.mem_cons, List.not_mem_nil, or_false]
      at waits waiting
    tauto

/-! ## The interpreter -/

/-- The words of a line fit the line buffer. -/
theorem tokens_length {maxArgs : Nat} {line word : Text} (member : word ∈ tokens maxArgs line) :
    word.length < terminalMaxLine := by
  have inLine := runs_length isBlank (List.mem_of_mem_take member)
  have cut : (line.take (terminalMaxLine - 1)).length ≤ terminalMaxLine - 1 :=
    List.length_take_le _ line
  have room : terminalMaxLine = 128 := rfl
  omega

/-- The string of a terminated text is no longer than the text. -/
theorem scan_length (units : Text) : ((scan (units ++ [0])).getD []).length ≤ units.length := by
  cases readable : scan (units ++ [0]) with
  | none => exact Nat.zero_le _
  | some read =>
    obtain ⟨_, rest, same⟩ := scan_split _ _ readable
    have lengths := congrArg List.length same
    simp only [List.length_append, List.length_cons, List.length_nil] at lengths
    rw [Option.getD_some]
    omega

/-- A policy bounds the chains of scripts whose paths fit the line buffer. -/
def BoundsChains (admits : List Text → Bool) (bound : Nat) : Prop :=
  ∀ chain, (∀ name ∈ chain, name.length < terminalMaxLine) → admits chain = true →
    chain.length ≤ bound

/-- A guarded line ends if the guarded lines inside further scripts do.

Induct over the length of the line; the sides of an ampersand are shorter. -/
theorem lasts_guardedLine
    (files : ∀ path (machine : Machine σ),
      Lasts .outOfFuel (fun fuel => terminalCatFile fw fuel path) machine)
    {admits : List Text → Bool} {refusal : Stop} (refuses : refusal ≠ .outOfFuel)
    {chain : List Text}
    (further : ∀ name : Text, name.length < terminalMaxLine → admits (name :: chain) = true →
      ∀ (command : Memory) (machine : Machine σ), Lasts .outOfFuel (fun fuel =>
        guarded fw parseFresh admits refusal fuel (name :: chain) command) machine)
    {command : Memory} {line : Text} (readable : scan command = some line) (machine : Machine σ) :
    Lasts .outOfFuel (fun fuel => guarded fw parseFresh admits refusal fuel chain command) machine := by
  induction counted : line.length using Nat.strong_induction_on generalizing command line machine with
  | _ length ih =>
    have segment : ∀ (part : Text) (machine : Machine σ), part.length < length → Lasts .outOfFuel
        (fun fuel => guarded fw parseFresh admits refusal fuel chain (terminalCopySegment part))
        machine := by
      intro part machine shorter
      have ends : (0 : CHAR16) ∈ terminalCopySegment part :=
        List.mem_append_right _ List.mem_cons_self
      obtain ⟨copied, found⟩ := Option.ne_none_iff_exists'.mp (scan_ends ends)
      have less := Nat.lt_of_le_of_lt (terminalCopySegment_scan part copied found) shorter
      exact ih copied.length less found machine rfl
    let argv := tokens terminalMaxArgs line
    let script := fun fuel =>
      guardedScript fw admits refusal (guarded fw parseFresh admits refusal fuel) chain
    have unfolded : ∀ fuel, guarded fw parseFresh admits refusal (fuel + 1) chain command = (do
        let args ← orOverrun (terminalCommandArgs command)
        if ampersand ∈ line then
          let _ ← guarded fw parseFresh admits refusal fuel chain
            (terminalCopySegment (line.takeWhile (· ≠ ampersand)))
          guarded fw parseFresh admits refusal fuel chain
            (terminalCopySegment ((line.dropWhile (· ≠ ampersand)).tail))
        else if ← terminalTryPipeline fw parseFresh line then return false
        else if argv.isEmpty then return false
        else
          let word ← argument argv 0
          dispatch fw argv word ((commands fw (interpret fw parseFresh fuel) fuel argv args).map
            (guardedRow fw refusal argv (script fuel)))) := by
      intro fuel
      rw [guarded, executeLine, parseFresh, readable]
      rfl
    refine lasts_succ unfolded ?_
    have arguments : Composed fw (· ≠ .outOfFuel) (SilentEffect fw)
        (orOverrun (terminalCommandArgs command)) :=
      Composed.orStop fun _ => Or.inr (by decide)
    refine lasts_after (settled_composed fw arguments machine) fun args read _ => ?_
    refine lasts_ite (fun joined => ?_) fun _ => ?_
    · obtain ⟨first, rest, rfl, free⟩ := exists_segment joined
      rw [List.length_append, List.length_cons] at counted
      rw [(Runs.cut_first free rest).1, (Runs.cut_first free rest).2, List.tail_cons]
      exact lasts_bind (guarded_stable chain _) (segment first read (by omega)) fun _ after _ _ =>
        segment rest after (by omega)
    · refine lasts_after (settled_composed fw (composed_terminalTryPipeline line) read) ?_
      intro piped tried _
      refine lasts_ite (fun _ => lasts_pure false tried) fun _ =>
        lasts_ite (fun _ => lasts_pure false tried) fun some => ?_
      have nonempty : argv ≠ [] := fun none => some (none ▸ rfl)
      refine lasts_after (settled_composed fw
        (composed_argument (List.length_pos_of_ne_nil nonempty)) tried) fun word picked _ => ?_
      have stable : ∀ path, Stable .outOfFuel fun fuel => script fuel path :=
        fun path fuel fuel' more => extends_guardedScript
          (fun chain line => guarded_stable chain line fuel fuel' more) chain path
      refine lasts_commands files refuses _ stable nonempty ?_ args word picked
      intro token member machine
      refine lasts_ite (fun admitted => ?_) fun _ =>
        lasts_constant fun stopped => refuses (Except.error.inj stopped)
      have short : ((scan (token ++ [0])).getD []).length < terminalMaxLine :=
        Nat.lt_of_le_of_lt (scan_length token) (tokens_length member)
      exact lasts_terminalSourceFile (guarded_stable _)
        (fun text => further _ short admitted (text ++ [0])) (token ++ [0]) machine

/-- A guarded command ends in any case if the guarded commands inside further scripts do: one
without a terminator leaves its buffer at once. -/
theorem lasts_guardedCommand
    (files : ∀ path (machine : Machine σ),
      Lasts .outOfFuel (fun fuel => terminalCatFile fw fuel path) machine)
    {admits : List Text → Bool} {refusal : Stop} (refuses : refusal ≠ .outOfFuel)
    {chain : List Text}
    (further : ∀ name : Text, name.length < terminalMaxLine → admits (name :: chain) = true →
      ∀ (command : Memory) (machine : Machine σ), Lasts .outOfFuel (fun fuel =>
        guarded fw parseFresh admits refusal fuel (name :: chain) command) machine)
    (command : Memory) (machine : Machine σ) :
    Lasts .outOfFuel (fun fuel => guarded fw parseFresh admits refusal fuel chain command) machine := by
  cases readable : scan command with
  | some found => exact lasts_guardedLine files refuses further readable machine
  | none =>
    have stops : ∀ fuel, (guarded fw parseFresh admits refusal (fuel + 1) chain command).run machine =
        .error .overrun := fun fuel =>
      executeLine_unterminated readable (parseFresh_stops command _) machine
    refine lasts_succ (fun fuel => rfl) ⟨0, fun fuel _ stopped => ?_⟩
    cases (stops fuel).symm.trans stopped

/-- A guarded command ends if the policy bounds the chains.

Induct over how far the chain may still grow. -/
theorem lasts_guarded
    (files : ∀ path (machine : Machine σ),
      Lasts .outOfFuel (fun fuel => terminalCatFile fw fuel path) machine)
    {admits : List Text → Bool} {bound : Nat} (bounds : BoundsChains admits bound) {refusal : Stop}
    (refuses : refusal ≠ .outOfFuel) (slack : Nat) {chain : List Text}
    (short : ∀ name ∈ chain, name.length < terminalMaxLine) (room : bound ≤ chain.length + slack)
    (command : Memory) (machine : Machine σ) :
    Lasts .outOfFuel (fun fuel => guarded fw parseFresh admits refusal fuel chain command) machine := by
  have longer : ∀ {chain : List Text} {name : Text}, name.length < terminalMaxLine →
      (∀ name ∈ chain, name.length < terminalMaxLine) →
        ∀ other ∈ name :: chain, other.length < terminalMaxLine :=
    fun nameShort short => List.forall_mem_cons.mpr ⟨nameShort, short⟩
  induction slack generalizing chain command machine with
  | zero =>
    refine lasts_guardedCommand files refuses (fun name nameShort admitted => ?_) command machine
    have inside := bounds (name :: chain) (longer nameShort short) admitted
    rw [List.length_cons] at inside
    omega
  | succ slack ih =>
    refine lasts_guardedCommand files refuses (fun name nameShort _ => ?_) command machine
    exact ih (longer nameShort short) (by rw [List.length_cons]; omega)

end Commands

/-! ## Policies -/

section Policies

variable {σ : Type} {fw : Firmware σ}

/-- The run comes to a command that the policy refuses: it is what the guarded run ends with,
whatever stands for a refusal. -/
def Refuses (fw : Firmware σ) (admits : List Text → Bool) (command : Memory) (machine : Machine σ) :
    Prop :=
  ∀ refusal, ∃ fuel,
    (guarded fw terminalParseCommand admits refusal fuel [] command).run machine = .error refusal

/-- The run comes to an end, whatever fuel beyond that it is given. -/
def Ends (fw : Firmware σ) (command : Memory) (machine : Machine σ) : Prop :=
  ∃ outcome, Settles .outOfFuel (fun fuel => terminalExecuteCommand fw fuel command) machine outcome

/-- Under a policy that bounds the chains of scripts, a run ends or is refused. -/
theorem ends_or_refuses
    (files : ∀ path (machine : Machine σ),
      Lasts .outOfFuel (fun fuel => terminalCatFile fw fuel path) machine)
    {admits : List Text → Bool} {bound : Nat} (bounds : BoundsChains admits bound)
    (command : Memory) (machine : Machine σ) :
    Ends fw command machine ∨ Refuses fw admits command machine := by
  have lasting : ∀ refusal ≠ Stop.outOfFuel, ∃ fuel,
      (guarded fw terminalParseCommand admits refusal fuel [] command).run machine ≠
        .error .outOfFuel := by
    intro refusal refuses
    obtain ⟨least, settled⟩ := lasts_guarded files bounds refuses bound
      (fun _ none => absurd none List.not_mem_nil) (Nat.le_add_left bound _) command machine
    exact ⟨least, fun exhausted => settled least le_rfl
      ((alike_stops (coupled_guarded least [] machine.terminal.line command) .outOfFuel).mp exhausted)⟩
  by_cases refused : ∀ refusal ≠ Stop.outOfFuel, ∃ fuel,
      (guarded fw terminalParseCommand admits refusal fuel [] command).run machine = .error refusal
  · refine Or.inr fun refusal => ?_
    by_cases exhausted : refusal = .outOfFuel
    · exact ⟨0, exhausted ▸ rfl⟩
    · exact refused refusal exhausted
  · obtain ⟨refusal, notRefused⟩ := not_forall.mp refused
    obtain ⟨other, never⟩ := Classical.not_imp.mp notRefused
    obtain ⟨fuel, settled⟩ := lasting refusal other
    have same := extends_guarded fuel [] command machine (not_exists.mp never fuel)
    exact Or.inl ⟨_, settled, fuel, same⟩

/-- At most so many scripts run inside each other. -/
def atMost (depth : Nat) (chain : List Text) : Bool := chain.length ≤ depth

/-- A limit on the depth bounds the chains by itself. -/
theorem atMost_bounds (depth : Nat) : BoundsChains (atMost depth) depth :=
  fun _ _ admitted => of_decide_eq_true admitted

/-- No script runs inside a script that was started by the same path. -/
def noneTwice (chain : List Text) : Bool := chain.Nodup

/-- There are finitely many paths that fit the line buffer, so chains without repetition are
bounded. -/
theorem noneTwice_bounds : ∃ bound, BoundsChains noneTwice bound := by
  have units : Finite CHAR16 :=
    Finite.of_injective UInt16.toFin fun _ _ same => UInt16.toFin_inj.mp same
  have paths : {path : Text | path.length < terminalMaxLine}.Finite :=
    List.finite_length_lt CHAR16 terminalMaxLine
  refine ⟨paths.toFinset.card, fun chain short admitted => ?_⟩
  have different : chain.Nodup := of_decide_eq_true admitted
  have inside : chain.toFinset ⊆ paths.toFinset := by
    intro name member
    rw [Set.Finite.mem_toFinset]
    exact short name (List.mem_toFinset.mp member)
  rw [← List.toFinset_card_of_nodup different]
  exact Finset.card_le_card inside

/-- Every line ends, for all contents of the volume, unless its run comes to a command that waits
for input, or to a script inside a script that was started by the same path. The same holds for
any bound on the scripts that run inside each other in place of the latter. The interpreter
itself has no such bound, and a script may run itself for ever. -/
theorem execution_ends {File τ : Type} [DecidableEq File] (resolve : Text → File)
    (device : Firmware τ) (command : Memory) (machine : Machine (Volume File × τ)) :
    (Ends (Volume.firmware resolve device) command machine ∨
      Refuses (Volume.firmware resolve device) noneTwice command machine) ∧
    ∀ depth, Ends (Volume.firmware resolve device) command machine ∨
      Refuses (Volume.firmware resolve device) (atMost depth) command machine := by
  have files := lasts_terminalCatFile resolve device
  obtain ⟨bound, bounds⟩ := noneTwice_bounds
  exact ⟨ends_or_refuses files bounds command machine,
    fun depth => ends_or_refuses files (atMost_bounds depth) command machine⟩

end Policies

/-! ## A script that runs itself -/

section Repeating

variable {σ : Type} (fw : Firmware σ)

/-- A line that is named `source` runs the script of its second word. -/
theorem interpret_source (fuel : Nat) {command : Memory} {line name : Text}
    (readable : scan command = some line) (alone : ampersand ∉ line) (noBar : bar ∉ line)
    (words : tokens terminalMaxArgs line = [text "source", name]) :
    interpret fw parseFresh (fuel + 1) command = (do
      record "source" [text "source", name]
      orUsage fw (← terminalSourceFile fw (interpret fw parseFresh fuel) (name ++ [0]))
        "usage: source <script>") := by
  have named : commandOf line = some (text "source") := by rw [commandOf, if_neg noBar, words]; rfl
  rcases interpret_command fw fuel readable alone with
    ⟨_, _, unnamed⟩ | ⟨args, row, member, rowName, inRow, found, _, same⟩
  · exact absurd named (unnamed sourceNames (by decide) "source" (by decide))
  · have inNames : row.1 ∈ commandNames :=
      commands_names fw (interpret fw parseFresh fuel) fuel (tokens terminalMaxArgs line) args ▸
        List.mem_map_of_mem member
    have sameName : text rowName = text "source" := Option.some.inj (found.symm.trans named)
    have sources : row.1 = sourceNames :=
      (sourceNames_only row.1 inNames rowName inRow).mp (sameName ▸ by decide)
    rw [sources] at inRow
    rw [same, commands_unique fw _ _ _ _ member (commands_source fw _ _ _ _) sources,
      List.mem_singleton.mp inRow, words]
    rfl

end Repeating

/-- A script whose only line runs the script itself. -/
def selfScript : List UInt8 := (text "source script").map (·.toUInt8)

/-- The volume holds the script and works. Nothing but the script itself is then in the way of
its end. -/
structure HoldsSelf (machine : Machine (Volume Text × Unit)) : Prop where
  available : machine.canLocate = true
  stored : machine.firmware.1.contents (text "script") = some selfScript
  faultless : machine.firmware.1.faults = []

/-- With any fuel, the interpreter with tokens of its own uses it up.

Induct over the fuel: the run comes to the same line, on a volume that still holds the script. -/
theorem interpret_self (fuel : Nat) {machine : Machine (Volume Text × Unit)}
    (holds : HoldsSelf machine) :
    (interpret quietVolume parseFresh fuel (constant "source script")).run machine =
      .error .outOfFuel := by
  induction fuel generalizing machine with
  | zero => rfl
  | succ fuel ih =>
    have readable : scan (constant "source script") = some (text "source script") := by decide
    have words : tokens terminalMaxArgs (text "source script") = [text "source", text "script"] := by
      decide +kernel
    have named : scan (constant "script") = some (text "script") := by decide
    rw [interpret_source quietVolume fuel readable (by decide) (by decide) words]
    let noted : Machine (Volume Text × Unit) := { machine with trace := machine.trace ++
      [.command (text "source") (wordsOf machine.terminal [text "source", text "script"])] }
    have recorded : (record "source" [text "source", text "script"]).run machine =
        .ok ((), noted) := rfl
    have delivers : Delivers quietVolume (constant "script") selfScript noted :=
      delivers_volume id Volume.quiet named holds.available holds.stored holds.faultless
    obtain ⟨loaded, frame, quiet, ran⟩ := run_terminalSourceFile
      (interpret quietVolume parseFresh fuel) delivers
    have undisturbed : Volume.Undisturbed noted loaded := quiet _ inferInstance
    have faultless : Volume.StaysFaultless noted loaded := quiet _ inferInstance
    have stillHolds : HoldsSelf loaded := by
      refine ⟨?_, undisturbed.files _ _ holds.stored, faultless holds.faultless⟩
      obtain ⟨_, _, rfl⟩ := frame
      exact holds.available
    have lines : (scriptLines (selfScript.take (scriptBufferSize - 1))).map cutLine =
        [text "source script"] := by decide +kernel
    rw [lines, runEach_cons, pure_bind] at ran
    have again : (terminalSourceFile quietVolume (interpret quietVolume parseFresh fuel)
        (constant "script")).run noted = .error .outOfFuel :=
      ran.trans (run_bind_of_error (run_bind_of_error (ih stillHolds)))
    rw [run_bind_of_ok recorded]
    exact run_bind_of_error again

/-- The script that runs itself never ends. -/
theorem selfScript_runsOn :
    ¬ Ends quietVolume (constant "source script") (holding selfScript) := by
  rintro ⟨_, settled, fuel, rfl⟩
  have entered : HoldsSelf (holding selfScript) := ⟨rfl, rfl, rfl⟩
  exact settled ((alike_stops (coupled_interpret fuel _ _) .outOfFuel).mpr
    (interpret_self fuel entered))

end ExistentOS.Terminal
