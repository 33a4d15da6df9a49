import ExistentOS.Terminal.InterpreterFrames

/-!
# The shared line buffer

Every call of `terminal_parse_command` overwrites the one line buffer that all words of the
source point into, and the interpreter calls itself while it holds such words. It is
compared here with the interpreter whose words are tokens of their own: as long as the
buffer still holds the words of a line, its commands do the same with either, and behind
a nested call no word is read any more.
-/

namespace ExistentOS.Terminal

open Programs Terminated Accounts Eosfs

variable {σ α β : Type} {fw : Firmware σ}

/-- The first machine is the second one with the given contents of the line buffer. -/
def AtLine (line : Vector CHAR16 128) (machine machine' : Machine σ) : Prop :=
  machine = machine'.withLine line

/-- The same value, and machines that differ in the given contents of the line buffer only. -/
def SameAt (line : Vector CHAR16 128) (value value' : α) (machine machine' : Machine σ) : Prop :=
  value = value' ∧ AtLine line machine machine'

/-- The same value, and machines that differ in the line buffer only. -/
def Alike (value value' : α) (machine machine' : Machine σ) : Prop :=
  value = value' ∧ ∃ line, AtLine line machine machine'

/-- The first routine does with the given line buffer what the second one does without it. -/
abbrev Mirrors (line : Vector CHAR16 128) (first second : Routine σ α) : Prop :=
  Coupled (AtLine line) first second (SameAt line)

variable {line : Vector CHAR16 128}

/-- The same sequel of the same value. -/
theorem mirrors_bind {first second : Routine σ α} {next next' : α → Routine σ β}
    {Q : β → β → Machine σ → Machine σ → Prop} (head : Mirrors line first second)
    (rest : ∀ value, Coupled (AtLine line) (next value) (next' value) Q) :
    Coupled (AtLine line) (first >>= next) (second >>= next') Q := by
  apply coupled_bind head
  rintro value _ machine machine' ⟨rfl, same⟩
  exact rest value machine machine' same

/-- What leaves the line buffer alone is alike in particular. -/
theorem Mirrors.alike {first second : Routine σ α} (mirrors : Mirrors line first second) :
    Coupled (AtLine line) first second Alike :=
  mirrors.mono (fun _ _ same => same) (fun _ _ _ _ same => ⟨same.1, line, same.2⟩)

/-- The same sequel of the same value, whatever has become of the line buffer. -/
theorem alike_bind {first second : Routine σ α} {next next' : α → Routine σ β}
    (head : Coupled (AtLine line) first second Alike)
    (rest : ∀ value line, Coupled (AtLine line) (next value) (next' value) Alike) :
    Coupled (AtLine line) (first >>= next) (second >>= next') Alike := by
  apply coupled_bind head
  rintro value _ machine machine' ⟨rfl, line, same⟩
  exact rest value line machine machine' same

/-- A value is the same on both sides. -/
theorem mirrors_pure (value : α) : Mirrors line (pure value : Routine σ α) (pure value) :=
  coupled_pure fun _ _ same => ⟨rfl, same⟩

/-- The effects of the commands do not look at the line buffer. -/
theorem commutes_effect (line : Vector CHAR16 128) {routine : Routine σ α}
    (named : CommandEffect fw α routine) :
    Commutes (Machine.withLine · line) routine := by
  cases named with
  | record name argv => exact commutes_view (fun _ => rfl) (fun _ => commutes_modify fun _ => rfl)
  | setDrive drive =>
    apply commutes_modify
    intro machine
    simp only [terminalSetDrive, Machine.withLine]
    split <;> rfl
  | storage named => exact Composed.commutes_storage line named

/-- A composed routine does with any line buffer what it does without it. -/
theorem mirrors_self {routine : Routine σ α}
    (composed : Composed fw (fun _ => True) (CommandEffect fw) routine) :
    Mirrors line routine routine :=
  (composed.commutes_line line fun _ _ named => commutes_effect line named).coupled

/-! ## Words of the line buffer -/

section Held

variable {argv : List Nat} {found : List Text} (held : List.Forall₂ (HoldsToken line) argv found)
include held

/-- A word is read from the buffer as its token. -/
theorem coupled_argument (index : Nat) :
    Coupled (AtLine line) (argument argv index : Routine σ Memory) (argument found index)
      (fun memory memory' machine machine' => AtLine line machine machine' ∧
        ∃ token, scan memory = some token ∧ memory' = token ++ [0]) := by
  rcases Nat.lt_or_ge index argv.length with inside | outside
  · have insideFound : index < found.length := held.length_eq ▸ inside
    have holds : HoldsToken line argv[index] found[index] := held.get inside insideFound
    have read : ∀ {entry : Type} [Word entry] {entries : List entry} (set : index < entries.length),
        (argument entries index : Routine σ Memory) =
          get >>= fun machine => pure (Word.memory machine.terminal entries[index]) := by
      intro entry _ entries set
      rw [argument, List.getElem?_eq_getElem set]
      rfl
    rw [read inside, read insideFound]
    apply coupled_view
    rintro machine machine' rfl
    exact coupled_pure fun _ _ same => ⟨same, found[index], holds, rfl⟩
  · have outsideFound : found.length ≤ index := held.length_eq ▸ outside
    rw [argument, argument, List.getElem?_eq_none outside, List.getElem?_eq_none outsideFound]
    exact coupled_throw Stop.overrun

/-- What is done with a word may depend on its string only. -/
theorem coupled_argument_bind (index : Nat) {next next' : Memory → Routine σ β}
    {Q : β → β → Machine σ → Machine σ → Prop}
    (rest : ∀ memory token, scan memory = some token →
      Coupled (AtLine line) (next memory) (next' (token ++ [0])) Q) :
    Coupled (AtLine line) (argument argv index >>= next) (argument found index >>= next') Q := by
  apply coupled_bind (coupled_argument held index)
  rintro memory _ machine machine' ⟨same, token, readable, rfl⟩
  exact rest memory token readable machine machine' same

/-- The recorded words are the tokens, which the line buffer holds at their places. -/
theorem wordsOf_held (terminal : TerminalStorage) :
    wordsOf { terminal with line := line } argv = wordsOf terminal found := by
  induction held with
  | nil => rfl
  | @cons place token _ _ holds _ ih =>
    have readable : scan (wordAt { terminal with line := line } place) = some token := holds
    have own : scan (token ++ [0]) = some token :=
      scan_append token [] (scan_split _ token readable).1
    simp only [wordsOf, List.map_cons] at ih ⊢
    exact congrArg₂ List.cons (congrArg (Option.getD · []) (readable.trans own.symm)) ih

/-- The dispatched command is recorded with the same words. -/
theorem mirrors_record (name : String) :
    Mirrors line (record name argv : Routine σ Unit) (record name found) := by
  apply coupled_view
  rintro _ machine rfl
  apply coupled_modify
  rintro _ machine' rfl
  refine ⟨rfl, ?_⟩
  have same := wordsOf_held held machine.terminal
  exact congrArg (fun words : List Text => { machine'.withLine line with
    trace := machine'.trace ++ [Event.command (text name) words] }) same

/-! ## Commands -/

omit held in
/-- A missing value stops both sides alike. -/
theorem mirrors_orOverrun (value : Option α) :
    Mirrors line (orOverrun value : Routine σ α) (orOverrun value) := by
  cases value with
  | none => exact coupled_throw Stop.overrun
  | some found => exact mirrors_pure found

omit held in
/-- What follows a store into a buffer works on the stored units. -/
theorem coupled_push {capacity : Nat} {written : List α} {unit : α}
    {next next' : List α → Routine σ β} {Q : β → β → Machine σ → Machine σ → Prop}
    (rest : Coupled (AtLine line) (next (written ++ [unit])) (next' (written ++ [unit])) Q) :
    Coupled (AtLine line) (orOverrun (push capacity written unit) >>= next)
      (orOverrun (push capacity written unit) >>= next') Q := by
  cases stored : push capacity written unit with
  | none => exact coupled_throw Stop.overrun
  | some grown =>
    obtain ⟨_, rfl⟩ := push_some stored
    exact rest

/-- A word is compared with a name by its string. -/
theorem mirrors_matches (index : Nat) (name : String) :
    Mirrors line
      (do orOverrun (terminalMatchCommand (← argument argv index) (constant name)) : Routine σ Bool)
      (do orOverrun (terminalMatchCommand (← argument found index) (constant name))) := by
  apply coupled_argument_bind held
  intro memory token readable
  have same := (terminalMatchCommand_reads (constant name)).same readable
  exact same ▸ mirrors_orOverrun _

/-- The first word is the same, so the same command is recognised. -/
theorem mirrors_isCall (admissible : Bool) (name : String) :
    Mirrors line (isCall admissible argv name : Routine σ Bool) (isCall admissible found name) := by
  apply coupled_ite Iff.rfl
  · intro _
    exact mirrors_matches held 0 name
  · intro _
    exact mirrors_pure false

/-- The first argument is the same on both sides. -/
theorem mirrors_firstArgumentIs (name : String) :
    Mirrors line (firstArgumentIs argv name : Routine σ Bool) (firstArgumentIs found name) := by
  apply coupled_ite (by rw [held.length_eq])
  · intro _
    exact mirrors_matches held 1 name
  · intro _
    exact mirrors_pure false

/-- `@echo` mirrors. -/
theorem mirrors_switchEcho :
    Mirrors line (switchEcho argv : Routine σ Bool) (switchEcho found) := by
  have set : ∀ enabled, Mirrors line (do setEcho enabled; return false : Routine σ Bool)
      (do setEcho enabled; return false) := by
    intro enabled
    have composed : Composed (Firmware.inert : Firmware σ) (fun _ => True)
        (CommandEffect Firmware.inert) (do setEcho enabled; return false) :=
      Composed.bind (composed_setEcho enabled) (fun _ => Composed.pure false)
    exact mirrors_self composed
  apply mirrors_bind (mirrors_firstArgumentIs held "off")
  intro off
  apply coupled_ite Iff.rfl (fun _ => set false)
  intro _
  apply mirrors_bind (mirrors_firstArgumentIs held "on")
  intro on
  exact coupled_ite Iff.rfl (fun _ => set true) (fun _ => mirrors_pure false)

/-- `switchlang` mirrors. -/
theorem mirrors_switchLanguage :
    Mirrors line (switchLanguage fw argv) (switchLanguage fw found) := by
  have switched : ∀ mode message, Mirrors line (do setMode mode; reply fw message)
      (do setMode mode; reply fw message) := fun mode message =>
    mirrors_self (Composed.bind (composed_setMode mode) (fun _ => composed_reply message))
  apply mirrors_bind (mirrors_firstArgumentIs held "bash")
  intro bash
  apply coupled_ite Iff.rfl (fun _ => switched .bash _)
  intro _
  apply mirrors_bind (mirrors_firstArgumentIs held "batch")
  intro batch
  exact coupled_ite Iff.rfl (fun _ => switched .batch _)
    (fun _ => mirrors_self (composed_reply _))

/-- Writing the words of a line, by induction over them. -/
theorem mirrors_terminalWriteArgList (separate : Bool) :
    Mirrors line (terminalWriteArgList fw separate argv)
      (terminalWriteArgList fw separate found) := by
  induction held generalizing separate with
  | nil => exact mirrors_pure ()
  | @cons place token places tokens holds _ ih =>
    have word : Mirrors line
        (get >>= fun machine => do
          terminalWrite fw (Word.memory machine.terminal place)
          terminalWriteArgList fw true places)
        (get >>= fun machine => do
          terminalWrite fw (Word.memory machine.terminal token)
          terminalWriteArgList fw true tokens) := by
      apply coupled_view
      rintro _ machine rfl
      have same : terminalWrite fw (Word.memory (machine.withLine line).terminal place) =
          terminalWrite fw (token ++ [0]) := (terminalWrite_reads fw).same holds
      rw [same]
      exact mirrors_bind (mirrors_self (composed_written token)) (fun _ => ih true)
    apply coupled_ite Iff.rfl
    · intro _
      exact mirrors_bind (mirrors_self (composed_written [space])) (fun _ => word)
    · intro _
      exact word

/-- Changing the drive mirrors: the letter is taken from the same word. -/
theorem mirrors_changeDrive :
    Mirrors line (changeDrive argv : Routine σ Bool) (changeDrive found) := by
  apply coupled_ite (by rw [held.length_eq])
  · intro _
    apply coupled_argument_bind held
    intro memory token readable
    rw [terminalDrivePrefix_reads.same readable]
    apply mirrors_bind (mirrors_orOverrun _)
    intro drive
    cases drive with
    | none => exact mirrors_pure false
    | some drive =>
      have effect : CommandEffect (Firmware.inert : Firmware σ) _ _ := CommandEffect.setDrive drive
      exact mirrors_bind (commutes_effect line effect).coupled (fun _ => mirrors_pure true)
  · intro _
    exact mirrors_pure false

/-- `dir` and `ls` mirror. -/
theorem mirrors_listDrive : Mirrors line (listDrive fw argv) (listDrive fw found) := by
  apply mirrors_bind (mirrors_changeDrive held)
  intro changed
  exact mirrors_self (Composed.view (fun _ _ => rfl) (fun _ =>
    Composed.bind (composed_terminalShowDriveRoot trivial _) (fun _ => Composed.pure false)))

/-- `cd` mirrors. -/
theorem mirrors_changeDirectory :
    Mirrors line (changeDirectory fw argv) (changeDirectory fw found) := by
  apply mirrors_bind (mirrors_changeDrive held)
  intro changed
  have shown : Composed fw (fun _ => True) (CommandEffect fw) (do
      let machine ← get
      terminalWriteFieldLine fw machine.terminal.currentPath.toList
      return false) :=
    Composed.view (fun _ _ => rfl) (fun _ =>
      Composed.bind (composed_terminalWriteFieldLine (Or.inr trivial)) (fun _ => Composed.pure false))
  exact mirrors_self (Composed.ite (fun _ => Composed.bind (composed_say _) (fun _ => shown))
    (fun _ => shown))

/-- The words to be stored are stored from the tokens. -/
theorem terminalWriteFile_held (terminal : TerminalStorage) (path : Memory) (append : Bool) :
    terminalWriteFile fw path (argv.map (Word.memory { terminal with line := line })) append =
      terminalWriteFile fw path (found.map (Word.memory terminal)) append := by
  have texts : List.Forall₂ (fun word token => scan word = some token)
      (argv.map (Word.memory { terminal with line := line })) found := by
    rw [List.forall₂_map_left_iff]
    exact held
  simp only [terminalWriteFile, storeInto, storeHere, storeWords_same [] false texts]
  rfl

/-- `write` and `append` mirror. Nothing runs before their words are read that could fill the
buffer again. -/
theorem mirrors_storeWordsOf : Mirrors line (storeWordsOf fw argv) (storeWordsOf fw found) := by
  apply mirrors_bind (mirrors_isCall held true "append")
  intro append
  apply coupled_ite (by rw [held.length_eq])
  · intro _
    apply coupled_argument_bind held
    intro memory token readable
    apply coupled_view
    rintro _ machine rfl
    have dropped : List.Forall₂ (HoldsToken line) (argv.drop 2) (found.drop 2) :=
      List.forall₂_drop 2 held
    have same : terminalWriteFile fw memory
          ((argv.drop 2).map (Word.memory (machine.withLine line).terminal)) append =
        terminalWriteFile fw (token ++ [0]) ((found.drop 2).map (Word.memory machine.terminal))
          append :=
      ((terminalWriteFile_reads fw _ append).same readable).trans
        (terminalWriteFile_held dropped machine.terminal (token ++ [0]) append)
    have files : ∀ (α : Type) (routine : Routine σ α), FileStep fw α routine →
        CommandEffect fw α routine := fun _ _ named => CommandEffect.storage (StorageStep.file named)
    have composed : Composed fw (fun _ => True) (CommandEffect fw)
        (terminalWriteFile fw (token ++ [0])
          ((found.drop 2).map (Word.memory machine.terminal)) append) :=
      composed_terminalWriteFile files (Or.inr trivial) (Or.inr trivial) append
    have stored : Mirrors line
        (terminalWriteFile fw memory
          ((argv.drop 2).map (Word.memory (machine.withLine line).terminal)) append)
        (terminalWriteFile fw (token ++ [0])
          ((found.drop 2).map (Word.memory machine.terminal)) append) := by
      rw [same]
      exact mirrors_self composed
    exact mirrors_bind stored (fun done => mirrors_self (composed_orUsage done _))
  · intro _
    exact mirrors_self (composed_reply _)

/-- Searching the words of a line, by induction over them. -/
theorem mirrors_showMatching (terminal : TerminalStorage) (needle : Memory) :
    Mirrors line
      (showMatching fw needle (argv.map (Word.memory { terminal with line := line })))
      (showMatching fw needle (found.map (Word.memory terminal))) := by
  induction held with
  | nil => exact mirrors_pure ()
  | @cons place token places tokens holds _ ih =>
    have sameTest : terminalContains (Word.memory { terminal with line := line } place) needle =
        terminalContains (token ++ [0]) needle := (terminalContains_reads needle).same holds
    have sameShown : terminalWriteLine fw (Word.memory { terminal with line := line } place) =
        terminalWriteLine fw (token ++ [0]) := (terminalWriteLine_reads fw).same holds
    have shown : Composed fw (fun _ => True) (CommandEffect fw)
        (terminalWriteLine fw (token ++ [0])) := composed_terminalWriteLine (Or.inr trivial)
    simp only [List.map_cons, showMatching]
    rw [sameTest, sameShown]
    apply mirrors_bind (mirrors_orOverrun _)
    intro contained
    exact coupled_ite Iff.rfl (fun _ => mirrors_bind (mirrors_self shown) (fun _ => ih))
      (fun _ => ih)

/-- `grep` mirrors. -/
theorem mirrors_grepWords : Mirrors line (grepWords fw argv) (grepWords fw found) := by
  apply coupled_ite (by rw [held.length_eq])
  · intro _
    exact mirrors_self (composed_reply _)
  · intro _
    apply coupled_argument_bind held
    intro memory token readable
    apply coupled_view
    rintro _ machine rfl
    have same : showMatching fw memory = showMatching fw (token ++ [0]) :=
      (showMatching_reads fw).same readable
    rw [same]
    exact mirrors_bind (mirrors_showMatching (List.forall₂_drop 2 held) machine.terminal _)
      (fun _ => mirrors_pure false)

/-- `useradd` mirrors. -/
theorem mirrors_addUser : Mirrors line (addUser fw argv) (addUser fw found) := by
  apply coupled_ite (by rw [held.length_eq])
  · intro _
    apply coupled_argument_bind held
    intro name nameToken nameReadable
    apply coupled_argument_bind held
    intro password passwordToken passwordReadable
    have same : accountsAdd fw name password =
        accountsAdd fw (nameToken ++ [0]) (passwordToken ++ [0]) :=
      ((accountsAdd_readsName fw password).same nameReadable).trans
        ((accountsAdd_readsPassword fw (nameToken ++ [0])).same passwordReadable)
    rw [same]
    have composed : Composed fw (fun _ => True) (CommandEffect fw)
        (accountsAdd fw (nameToken ++ [0]) (passwordToken ++ [0])) :=
      composed_accountsAdd (fun _ _ named => CommandEffect.storage named) (Or.inr trivial)
    exact mirrors_self (Composed.bind composed (fun added =>
      Composed.ite (fun _ => composed_reply _) (fun _ => composed_reply _)))
  · intro _
    exact mirrors_self (composed_reply _)

/-- A file command does with its path what it does with the token, whatever becomes of the line
buffer. -/
theorem coupled_onFile {command command' : Memory → Routine σ Bool} (reads : ReadsString command)
    (usage : String) (acts : ∀ token : Text,
      Coupled (AtLine line) (command (token ++ [0])) (command' (token ++ [0])) Alike) :
    Coupled (AtLine line) (onFile fw argv command usage) (onFile fw found command' usage) Alike := by
  apply coupled_ite (by rw [held.length_eq])
  · intro _
    apply coupled_argument_bind held
    intro memory token readable
    rw [reads.same readable]
    exact alike_bind (acts token) (fun done _ => (mirrors_self (composed_orUsage done usage)).alike)
  · intro _
    exact (mirrors_self (composed_reply usage)).alike

end Held

/-! ## Taking lines apart -/

/-- Taking a line apart leaves its words in the line buffer. -/
theorem coupled_parse (line : Vector CHAR16 128) {command : Memory} {text : Text}
    (readable : scan command = some text) (maxArgs : Nat) :
    Coupled (AtLine line) (terminalParseCommand command maxArgs : Routine σ (List Nat))
      (parseFresh command maxArgs) (fun argv found machine machine' => ∃ parsed,
        AtLine parsed machine machine' ∧ found = tokens maxArgs text ∧
          List.Forall₂ (HoldsToken parsed) argv found) := by
  obtain ⟨copied, start, argv, parsed, stored, skipped, found, held, _⟩ :=
    parse_exact line readable maxArgs
  have fresh : (parseFresh command maxArgs : Routine σ (List Text)) =
      pure (tokens maxArgs text) := by
    rw [parseFresh, readable]
    rfl
  have ran : ∀ machine : Machine σ,
      (terminalParseCommand command maxArgs).run (machine.withLine line) =
        .ok (argv, machine.withLine parsed) := by
    intro machine
    have entered : (get : Routine σ (Machine σ)).run (machine.withLine line) =
      .ok (machine.withLine line, machine.withLine line) := rfl
    have buffer : (machine.withLine line).terminal.line = line := rfl
    rw [terminalParseCommand, run_bind_of_ok entered, buffer, stored, run_orOverrun_bind, skipped,
      run_orOverrun_bind, found]
    rfl
  rw [fresh]
  rintro _ machine rfl
  rw [ran]
  refine ⟨fun reason stopped => (by cases stopped), fun value after returned => ?_⟩
  cases returned
  exact ⟨argv, machine.withLine parsed, rfl, parsed, rfl, rfl, held⟩

/-- What follows the parsing of a line works on the words in the new line buffer. -/
theorem coupled_parse_bind (line : Vector CHAR16 128) {command : Memory} {text : Text}
    (readable : scan command = some text) (maxArgs : Nat) {next : List Nat → Routine σ β}
    {next' : List Text → Routine σ β} {Q : β → β → Machine σ → Machine σ → Prop}
    (rest : ∀ parsed argv, List.Forall₂ (HoldsToken parsed) argv (tokens maxArgs text) →
      Coupled (AtLine parsed) (next argv) (next' (tokens maxArgs text)) Q) :
    Coupled (AtLine line) (terminalParseCommand command maxArgs >>= next)
      (parseFresh command maxArgs >>= next') Q := by
  apply coupled_bind (coupled_parse line readable maxArgs)
  rintro argv _ machine machine' ⟨parsed, same, rfl, held⟩
  exact rest parsed argv held machine machine' same

/-- A pipeline is recognized and run in the same way. The line buffer stays as it is unless there
is one. -/
theorem coupled_terminalTryPipeline (line : Vector CHAR16 128) (text : Text) :
    Coupled (AtLine line) (terminalTryPipeline fw terminalParseCommand text)
      (terminalTryPipeline fw parseFresh text) (fun piped piped' machine machine' =>
        piped = piped' ∧ (∃ line, AtLine line machine machine') ∧
          (piped = false → AtLine line machine machine')) := by
  have done : ∀ {line' : Vector CHAR16 128} {routine : Routine σ Unit},
      Composed fw (fun _ => True) (CommandEffect fw) routine →
      Coupled (AtLine line') (do routine; return true) (do routine; return true)
        (fun piped piped' machine machine' => piped = piped' ∧
          (∃ line, AtLine line machine machine') ∧ (piped = false → AtLine line machine machine')) := by
    intro line' routine composed
    apply mirrors_bind (mirrors_self composed)
    intro _
    exact coupled_pure fun _ _ same => ⟨rfl, ⟨line', same⟩, fun isFalse => by cases isFalse⟩
  have readable : ∀ segment, ∃ copied, scan (terminalCopySegment segment) = some copied :=
    fun segment => Option.ne_none_iff_exists'.mp (scan_ends (terminalCopySegment_ends segment))
  apply coupled_ite Iff.rfl
  · intro _
    obtain ⟨left, leftReadable⟩ := readable (text.takeWhile (· ≠ bar))
    apply coupled_parse_bind line leftReadable
    intro parsed argv held
    rw [held.length_eq]
    apply mirrors_bind (mirrors_isCall held _ "echo")
    intro echo
    apply coupled_ite Iff.rfl
    · intro _
      obtain ⟨right, rightReadable⟩ := readable (text.dropWhile (· ≠ bar)).tail
      apply coupled_parse_bind parsed rightReadable
      intro reparsed argv held
      rw [held.length_eq]
      apply mirrors_bind (mirrors_isCall held _ "grep")
      intro grep
      apply coupled_ite Iff.rfl
      · intro _
        apply mirrors_bind (mirrors_orOverrun _)
        intro echoed
        apply coupled_argument_bind held
        intro needle token needleReadable
        rw [(terminalContains_readsNeedle _).same needleReadable]
        apply mirrors_bind (mirrors_orOverrun _)
        intro found
        apply coupled_ite Iff.rfl
        · intro _
          exact done (composed_terminalWriteLine (Or.inr trivial))
        · intro _
          exact coupled_pure fun _ _ same =>
            ⟨rfl, ⟨reparsed, same⟩, fun isFalse => by cases isFalse⟩
      · intro _
        exact done (composed_say _)
    · intro _
      exact done (composed_say _)
  · intro _
    exact coupled_pure fun _ _ same => ⟨rfl, ⟨line, same⟩, fun _ => same⟩

/-! ## Scripts -/

section Scripts

variable {script script' : Memory → Routine σ Bool}
  (inner : ∀ line text, Coupled (AtLine line) (script (text ++ [0])) (script' (text ++ [0])) Alike)
include inner

/-- The lines of a script run in the same way.

Induct over the bytes that are left. -/
theorem coupled_runLines (line : Vector CHAR16 128) (text : Text) (bytes : List UInt8) :
    Coupled (AtLine line) (runLines script text bytes) (runLines script' text bytes) Alike := by
  induction bytes generalizing line text with
  | nil =>
    apply coupled_ite Iff.rfl
    · intro _
      apply coupled_push
      exact alike_bind (inner line text) (fun _ _ => (mirrors_pure ()).alike)
    · intro _
      exact (mirrors_pure ()).alike
  | cons byte rest ih =>
    apply coupled_ite Iff.rfl (fun _ => ih line text)
    intro _
    apply coupled_ite Iff.rfl
    · intro _
      apply coupled_push
      apply coupled_ite Iff.rfl
      · intro _
        exact alike_bind (inner line text) (fun _ later => ih later [])
      · intro _
        exact ih line []
    · intro _
      exact coupled_ite Iff.rfl (fun _ => coupled_push (ih line _)) (fun _ => ih line text)

/-- A script is read alike, and its lines are executed alike if the commands are. They may fill
the line buffer again, which is why the result is alike and not mirrored. -/
theorem coupled_terminalSourceFile (line : Vector CHAR16 128) (path : Memory) :
    Coupled (AtLine line) (terminalSourceFile fw script path) (terminalSourceFile fw script' path)
      Alike := by
  apply mirrors_bind (mirrors_self (composed_terminalOpenFile (Or.inr trivial) _ _))
  intro opened
  cases opened with
  | none => exact (mirrors_pure false).alike
  | some file =>
    apply mirrors_bind (mirrors_self (Composed.readFile file _))
    intro answer
    apply mirrors_bind (mirrors_self (Composed.closeFile file))
    intro _
    apply coupled_ite Iff.rfl (fun _ => (mirrors_pure false).alike)
    intro _
    have composed : Composed fw (fun _ => True) (CommandEffect fw)
        (orStop (behindStored scriptBufferSize answer.size) (reported answer.bytes answer.size)) :=
      composed_reported _ (Or.inr trivial)
    apply mirrors_bind (mirrors_self composed)
    intro bytes
    exact alike_bind (coupled_runLines inner line [] bytes) (fun _ _ => (mirrors_pure true).alike)

end Scripts

/-! ## The table -/

/-- The two rows have the same names and do the same, up to the line buffer. -/
structure RowMirrors (line : Vector CHAR16 128) (row row' : List String × Routine σ Bool) :
    Prop where
  names : row.1 = row'.1
  acts : Coupled (AtLine line) row.2 row'.2 Alike

/-- The rows are those of the table, in its order. -/
theorem mirrors_commands {argv : List Nat} {found : List Text}
    (held : List.Forall₂ (HoldsToken line) argv found) {script script' : Memory → Routine σ Bool}
    (inner : ∀ line text, Coupled (AtLine line) (script (text ++ [0])) (script' (text ++ [0])) Alike)
    (fuel : Nat) (args : Memory) :
    List.Forall₂ (RowMirrors line) (commands fw script fuel argv args)
      (commands fw script' fuel found args) := by
  have row : ∀ (names : List String) {run run' : Routine σ Bool}, Mirrors line run run' →
      RowMirrors line (names, run) (names, run') := fun names _ _ mirrors => ⟨rfl, mirrors.alike⟩
  have same : ∀ (names : List String) {run : Routine σ Bool},
      Composed fw (fun _ => True) (CommandEffect fw) run → RowMirrors line (names, run) (names, run) :=
    fun names _ composed => row names (mirrors_self composed)
  have files : ∀ (α : Type) (routine : Routine σ α), FileStep fw α routine →
      CommandEffect fw α routine := fun _ _ named => CommandEffect.storage (StorageStep.file named)
  have storage : ∀ (α : Type) (routine : Routine σ α), StorageStep fw α routine →
      CommandEffect fw α routine := fun _ _ named => CommandEffect.storage named
  have tails : List.Forall₂ (HoldsToken line) argv.tail found.tail := by
    simpa using List.forall₂_drop 1 held
  unfold commands
  refine .cons (row _ (mirrors_switchEcho held)) ?_
  refine .cons (same _ (Composed.pure false)) ?_
  refine .cons (row _ (mirrors_switchLanguage held)) ?_
  refine .cons (same _ (composed_reply _)) ?_
  refine .cons (row _ (mirrors_bind (mirrors_terminalWriteArgList tails false)
    (fun _ => mirrors_self (composed_reply _)))) ?_
  refine .cons (same _ (Composed.bind (composed_terminalRunNano trivial fuel)
    (fun _ => Composed.pure false))) ?_
  iterate 2 refine .cons (same _ (composed_reply _)) ?_
  refine .cons ⟨rfl, coupled_onFile held (terminalCatFile_reads fw fuel) _ fun _ =>
    (mirrors_self (composed_terminalCatFile (Or.inr trivial) trivial fuel (Or.inr trivial))).alike⟩ ?_
  refine .cons ⟨rfl, coupled_onFile held (terminalTouchFile_reads fw) _ fun _ =>
    (mirrors_self (composed_terminalTouchFile (Or.inr trivial))).alike⟩ ?_
  refine .cons ⟨rfl, coupled_onFile held (terminalRemoveFile_reads fw) _ fun _ =>
    (mirrors_self (composed_terminalRemoveFile files (Or.inr trivial))).alike⟩ ?_
  refine .cons (row _ (mirrors_storeWordsOf held)) ?_
  refine .cons ⟨rfl, coupled_onFile held (terminalSourceFile_reads fw script) _ fun token =>
    coupled_terminalSourceFile inner line (token ++ [0])⟩ ?_
  iterate 3 refine .cons (same _ (composed_reply _)) ?_
  refine .cons (same _ (Composed.bind (composed_terminalWriteLine (Or.inr trivial))
    (fun _ => Composed.pure false))) ?_
  refine .cons (same _ (composed_reply _)) ?_
  refine .cons (row _ (mirrors_listDrive held)) ?_
  refine .cons (same _ (composed_reply _)) ?_
  refine .cons (same _ (Composed.bind (composed_say _)
    (fun _ => Composed.bind (composed_say _) (fun _ => composed_reply _)))) ?_
  refine .cons (same _ (composed_reply _)) ?_
  refine .cons (same _ (Composed.bind (composed_say _) (fun _ => Composed.pure true))) ?_
  iterate 5 refine .cons (same _ (composed_reply _)) ?_
  refine .cons (row _ (mirrors_changeDirectory held)) ?_
  iterate 6 refine .cons (same _ (composed_reply _)) ?_
  refine .cons (same _ (composed_showUser trivial)) ?_
  refine .cons (row _ (mirrors_grepWords held)) ?_
  refine .cons (same _ (composed_showUsers trivial)) ?_
  refine .cons (row _ (mirrors_addUser held)) ?_
  refine .cons (same _ (Composed.bind (composed_changePassword trivial fuel
    fun _ _ _ => composed_accountsChangePassword storage (Or.inr trivial))
    (fun _ => Composed.pure false))) ?_
  refine .cons (same _ (Composed.bind (composed_terminalLogin trivial fuel
    fun _ _ _ => composed_accountsLogin storage (Or.inr trivial)) (fun _ => Composed.pure false))) ?_
  refine .cons (same _ (composed_reply _)) ?_
  refine .cons (same _ (Composed.bind (composed_setMode .bash) (fun _ => composed_reply _))) ?_
  refine .cons (same _ (Composed.bind (composed_setMode .batch) (fun _ => composed_reply _))) ?_
  exact .nil

/-! ## The interpreter -/

/-- Running a command of a table, by induction over the rows. -/
theorem coupled_dispatch {argv : List Nat} {found : List Text}
    (held : List.Forall₂ (HoldsToken line) argv found) {word : Memory} {token : Text}
    (readable : scan word = some token) {table table' : List (List String × Routine σ Bool)}
    (rows : List.Forall₂ (RowMirrors line) table table') :
    Coupled (AtLine line) (dispatch fw argv word table) (dispatch fw found (token ++ [0]) table')
      Alike := by
  induction rows with
  | nil => exact (mirrors_self (composed_reply _)).alike
  | @cons row row' _ _ mirrors _ ih =>
    simp only [dispatch]
    rw [mirrors.names, (matchedName_reads row'.1).same readable]
    apply mirrors_bind (mirrors_orOverrun _)
    intro matched
    cases matched with
    | none => exact ih
    | some name => exact mirrors_bind (mirrors_record held name) (fun _ => mirrors.acts)

/-- A line without a terminator leaves its buffer before anything else happens. -/
theorem executeLine_unterminated {α : Type} [Word α] {parse : Memory → Nat → Routine σ (List α)}
    {execute : Memory → Routine σ Bool}
    {table : List α → Memory → List (List String × Routine σ Bool)} {command : Memory}
    (unread : scan command = none)
    (stops : ∀ machine, wp (parse command terminalMaxArgs) (fun _ _ => True) (· = .overrun) machine)
    (machine : Machine σ) :
    (executeLine fw parse execute table command).run machine = .error .overrun := by
  have stopped : wp (executeLine fw parse execute table command) (fun _ _ => False) (· = .overrun)
      machine := by
    rw [executeLine, wp_bind]
    apply wp_mono (stops machine) _ (fun _ stop => stop)
    intro argv parsed _
    rw [wp_bind, wp_orOverrun]
    refine ⟨fun args _ => ?_, fun _ => rfl⟩
    rw [wp_bind, wp_orOverrun, unread]
    exact ⟨fun _ never => (by cases never), fun _ => rfl⟩
  obtain ⟨returns, stops⟩ := (wp_iff _ _ _ _).mp stopped
  cases ran : (executeLine fw parse execute table command).run machine with
  | error stop => exact congrArg Except.error (stops stop ran)
  | ok result => exact (returns result.1 result.2 ran).elim

/-- Taking a line apart only stops by leaving a buffer. -/
theorem terminalParseCommand_stops (command : Memory) (maxArgs : Nat) (machine : Machine σ) :
    wp (terminalParseCommand command maxArgs) (fun _ _ => True) (· = .overrun) machine := by
  rw [terminalParseCommand, wp_bind, wp_get, wp_bind, wp_orOverrun]
  refine ⟨fun line _ => ?_, fun _ => rfl⟩
  rw [wp_bind, wp_orOverrun]
  refine ⟨fun start _ => ?_, fun _ => rfl⟩
  rw [wp_bind, wp_orOverrun]
  exact ⟨fun _ _ => trivial, fun _ => rfl⟩

/-- Parsing without the buffer stops only for an overrun. -/
theorem parseFresh_stops (command : Memory) (maxArgs : Nat) (machine : Machine σ) :
    wp (parseFresh command maxArgs) (fun _ _ => True) (· = .overrun) machine := by
  rw [parseFresh, wp_bind, wp_orOverrun]
  exact ⟨fun _ _ => trivial, fun _ => rfl⟩

/-- A line runs in the same way whatever the line buffer holds. -/
theorem coupled_executeLine {execute execute' : Memory → Routine σ Bool}
    (inner : ∀ line command, Coupled (AtLine line) (execute command) (execute' command) Alike)
    {table : List Nat → Memory → List (List String × Routine σ Bool)}
    {table' : List Text → Memory → List (List String × Routine σ Bool)}
    (rows : ∀ line argv found args, List.Forall₂ (HoldsToken line) argv found →
      List.Forall₂ (RowMirrors line) (table argv args) (table' found args))
    (line : Vector CHAR16 128) (command : Memory) :
    Coupled (AtLine line) (executeLine fw terminalParseCommand execute table command)
      (executeLine fw parseFresh execute' table' command) Alike := by
  cases readable : scan command with
  | none =>
    intro machine machine' _
    rw [executeLine_unterminated readable (terminalParseCommand_stops command _),
      executeLine_unterminated readable (parseFresh_stops command _)]
    exact ⟨fun _ stopped => stopped, fun _ _ ran => (by cases ran)⟩
  | some readText =>
    apply coupled_parse_bind line readable
    intro parsed argv held
    apply mirrors_bind (mirrors_orOverrun _)
    intro args
    rw [readable]
    apply mirrors_bind (mirrors_orOverrun _)
    intro text
    apply coupled_ite Iff.rfl
    · intro _
      exact alike_bind (inner parsed _) (fun _ later => inner later _)
    · intro _
      have words : Coupled (AtLine parsed)
          (if argv.isEmpty then return false
            else argument argv 0 >>= fun word => dispatch fw argv word (table argv args))
          (if (tokens terminalMaxArgs readText).isEmpty then return false
            else argument (tokens terminalMaxArgs readText) 0 >>= fun word =>
              dispatch fw (tokens terminalMaxArgs readText) word
                (table' (tokens terminalMaxArgs readText) args)) Alike := by
        apply coupled_ite (by rw [List.isEmpty_iff_length_eq_zero, List.isEmpty_iff_length_eq_zero,
          held.length_eq])
        · intro _
          exact (mirrors_pure false).alike
        · intro _
          apply coupled_argument_bind held
          intro word token wordReadable
          exact coupled_dispatch held wordReadable (rows parsed argv _ args held)
      apply coupled_bind (coupled_terminalTryPipeline parsed text)
      rintro piped _ machine machine' ⟨rfl, ⟨piping, alike⟩, unpiped⟩
      cases piped with
      | true => exact (mirrors_pure false).alike machine machine' alike
      | false => exact words machine machine' (unpiped rfl)

/-- The interpreter of the source does what the one with tokens of its own does, whatever the line
buffer holds.

Induct over the nesting. -/
theorem coupled_interpret (fuel : Nat) (line : Vector CHAR16 128) (command : Memory) :
    Coupled (AtLine line) (terminalExecuteCommand fw fuel command)
      (interpret fw parseFresh fuel command) Alike := by
  induction fuel generalizing line command with
  | zero => exact coupled_throw Stop.outOfFuel
  | succ fuel ih =>
    exact coupled_executeLine ih (fun line _ _ args held =>
      mirrors_commands held (fun line text => ih line (text ++ [0])) fuel args) line command

/-- What is known of the interpreter with tokens of its own is known of the interpreter. -/
theorem wp_terminalExecuteCommand {fuel : Nat} {command : Memory} {machine : Machine σ}
    {Q Q' : Bool → Machine σ → Prop} {E : Stop → Prop}
    (holds : wp (interpret fw parseFresh fuel command) Q E machine)
    (blind : ∀ result after line, Q result after → Q' result (after.withLine line)) :
    wp (terminalExecuteCommand fw fuel command) Q' E machine := by
  have entered : AtLine machine.terminal.line machine machine := rfl
  apply (coupled_interpret fuel machine.terminal.line command).wp entered holds
  rintro result _ _ after ⟨rfl, line, rfl⟩ known
  exact blind result after line known

/-- A quiet frame that does not look at the line buffer and that the commands that do more keep
is kept by the interpreter. -/
theorem keeps_terminalExecuteCommand {R : Machine σ → Machine σ → Prop} [QuietFrame fw R]
    [LineBlind R]
    (kept : ∀ (α : Type) (routine : Routine σ α), CommandStep fw α routine → Keeps R routine)
    (fuel : Nat) (command : Memory) : Keeps R (terminalExecuteCommand fw fuel command) := by
  rw [keeps_iff_wp]
  intro machine
  exact wp_terminalExecuteCommand ((keeps_iff_wp _).mp (keeps_interpret kept fuel command) machine)
    (fun _ _ line related => LineBlind.line line related)

/-! ## The line buffer is not observable -/

/-- What there is to observe of a run: its result or its stop, and the machine it leaves apart from
the line buffer. -/
def observed (outcome : Except Stop (α × Machine σ)) : Except Stop (α × Machine σ) :=
  outcome.map fun result => (result.1, result.2.withLine (Vector.replicate 128 0))

/-- Of routines that are alike, the same is observed. -/
theorem observed_alike {first second : Routine σ α} {machine : Machine σ}
    (alike : Coupled (AtLine machine.terminal.line) first second Alike) :
    observed (first.run machine) = observed (second.run machine) := by
  obtain ⟨stops, returns⟩ := alike machine machine rfl
  cases ran : second.run machine with
  | error stop => rw [stops stop ran]
  | ok result =>
    obtain ⟨value, after⟩ := result
    obtain ⟨_, _, same, rfl, line, rfl⟩ := returns value after ran
    rw [same]
    rfl

/-- Of routines that are alike, the first one returns what the second one does. -/
theorem run_alike {first second : Routine σ α} {machine : Machine σ}
    (alike : Coupled (AtLine machine.terminal.line) first second Alike) {value : α}
    {after : Machine σ} (ran : second.run machine = .ok (value, after)) :
    ∃ line, first.run machine = .ok (value, after.withLine line) := by
  obtain ⟨_, _, same, rfl, line, rfl⟩ := (alike machine machine rfl).2 value after ran
  exact ⟨line, same⟩

/-- Of routines that are alike, both stop for the same reason. -/
theorem alike_stops {first second : Routine σ α} {machine : Machine σ}
    (alike : Coupled (AtLine machine.terminal.line) first second Alike) (stop : Stop) :
    first.run machine = .error stop ↔ second.run machine = .error stop := by
  obtain ⟨stops, returns⟩ := alike machine machine rfl
  refine ⟨fun stopped => ?_, stops stop⟩
  cases same : second.run machine with
  | error other =>
    exact congrArg Except.error (Except.error.inj ((stops other same).symm.trans stopped))
  | ok result =>
    obtain ⟨_, _, mirrored, _⟩ := returns result.1 result.2 same
    cases mirrored.symm.trans stopped

/-- Of routines that are alike, the second one returns what the first one does. -/
theorem alike_run {first second : Routine σ α} {machine : Machine σ}
    (alike : Coupled (AtLine machine.terminal.line) first second Alike) {value : α}
    {after : Machine σ} (ran : first.run machine = .ok (value, after)) :
    ∃ line reached, second.run machine = .ok (value, reached) ∧ after = reached.withLine line := by
  obtain ⟨stops, returns⟩ := alike machine machine rfl
  cases same : second.run machine with
  | error stop =>
    rw [stops stop same] at ran
    cases ran
  | ok result =>
    obtain ⟨_, _, mirrored, rfl, line, rfl⟩ := returns result.1 result.2 same
    rw [mirrored] at ran
    cases ran
    exact ⟨line, result.2, rfl, rfl⟩

/-- The shared line buffer is not observable. Every command line gives the same result, output,
calls and state as with an interpreter whose words are tokens of their own, for every firmware,
every state and every nesting. Lines inside a line fill the buffer again, but only once the words
of the outer one have been read. -/
theorem lineBuffer_unobservable (fw : Firmware σ) (fuel : Nat) (command : Memory)
    (machine : Machine σ) :
    observed ((terminalExecuteCommand fw fuel command).run machine) =
      observed ((interpret fw parseFresh fuel command).run machine) :=
  observed_alike (coupled_interpret fuel machine.terminal.line command)

end ExistentOS.Terminal
