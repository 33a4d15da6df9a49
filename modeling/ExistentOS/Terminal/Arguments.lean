import ExistentOS.Terminal.Storing

/-!
# Which words take part

`echo`, `write`, `append` and `grep` act on the words that follow their names. The interpreter
keeps eight words of a line and cannot tell a line with eight words from a longer one.
-/

namespace ExistentOS.Terminal

open Programs Terminated Runs Traces

variable {σ α : Type} {fw : Firmware σ}

/-! ## Searching -/

/-- A comparison of strings says whether one is a prefix of the other. -/
theorem startsWith_exact {text needle : Text} (free : (0 : CHAR16) ∉ text)
    (needleFree : (0 : CHAR16) ∉ needle) :
    startsWith (text ++ [0]) (needle ++ [0]) = some (decide (needle <+: text)) := by
  induction text generalizing needle with
  | nil =>
    cases needle with
    | nil => rfl
    | cons right needle =>
      have nonzero : right ≠ 0 := fun zero => needleFree (zero ▸ List.mem_cons_self)
      simp [startsWith, nonzero]
  | cons left text ih =>
    have leftNonzero : left ≠ 0 := fun zero => free (zero ▸ List.mem_cons_self)
    cases needle with
    | nil => simp [startsWith]
    | cons right needle =>
      have nonzero : right ≠ 0 := fun zero => needleFree (zero ▸ List.mem_cons_self)
      have tail := ih (fun member => free (List.mem_cons_of_mem left member))
        (fun member => needleFree (List.mem_cons_of_mem right member))
      rw [List.cons_append, List.cons_append, startsWith]
      by_cases same : left = right
      · rw [if_pos ⟨leftNonzero, nonzero, same⟩, tail]
        simp [List.cons_prefix_cons, same]
      · rw [if_neg fun all => same all.2.2]
        simp [List.cons_prefix_cons, Ne.symm same, nonzero]

/-- The search finds a string exactly in the texts that contain it. -/
theorem terminalContains_exact {text needle : Text} (free : (0 : CHAR16) ∉ text)
    (needleFree : (0 : CHAR16) ∉ needle) :
    terminalContains (text ++ [0]) (needle ++ [0]) = some (decide (needle <:+: text)) := by
  cases needle with
  | nil => simp [terminalContains]
  | cons first needle =>
    have nonzero : first ≠ 0 := fun zero => needleFree (zero ▸ List.mem_cons_self)
    have places : containsFrom (first :: needle ++ [0]) (text ++ [0]) =
        some (decide (first :: needle <:+: text)) := by
      induction text with
      | nil => simp [containsFrom]
      | cons unit rest ih =>
        have unitNonzero : unit ≠ 0 := fun zero => free (zero ▸ List.mem_cons_self)
        have tail := ih fun member => free (List.mem_cons_of_mem unit member)
        have here := startsWith_exact free needleFree
        have split : unit :: rest ++ [0] = unit :: (rest ++ [0]) := rfl
        rw [split] at here ⊢
        rw [containsFrom, if_neg unitNonzero, here]
        by_cases starts : first :: needle <+: unit :: rest
        · simp [starts, List.infix_cons_iff]
        · rw [decide_eq_false starts, Option.bind_eq_bind, Option.bind_some,
            if_neg Bool.false_ne_true, tail]
          simp [starts, List.infix_cons_iff]
    rw [List.cons_append, terminalContains, List.head?_cons, Option.bind_eq_bind, Option.bind_some,
      if_neg nonzero]
    exact places

/-- `terminal_contains` tells whether a string occurs in another one. It does so where nothing
can be read behind the two terminators, and otherwise in the same way. So it never reads further
than the strings go. -/
theorem terminalContains_occurs {memory needleMemory : Memory} {text needle : Text}
    (readable : scan memory = some text) (needleReadable : scan needleMemory = some needle) :
    terminalContains (text ++ [0]) (needle ++ [0]) = some (decide (needle <:+: text)) ∧
      terminalContains memory needleMemory = some (decide (needle <:+: text)) := by
  obtain ⟨free, _⟩ := scan_split memory text readable
  obtain ⟨needleFree, _⟩ := scan_split needleMemory needle needleReadable
  have exactly := terminalContains_exact free needleFree
  refine ⟨exactly, ?_⟩
  rw [(terminalContains_reads needleMemory).same readable,
    (terminalContains_readsNeedle (text ++ [0])).same needleReadable, exactly]

/-- A match that starts again behind a partial one, at the end of the text. -/
theorem terminalContains_occurs_restarted :
    terminalContains (constant "aaab") (constant "aab") = some true := by
  have readable : scan (constant "aaab") = some (text "aaab") := by decide
  have needleReadable : scan (constant "aab") = some (text "aab") := by decide
  have occurs : text "aab" <:+: text "aaab" := by decide
  rw [(terminalContains_occurs readable needleReadable).2, decide_eq_true occurs]

/-! ## Printing -/

variable (fw) in
/-- Words behind a first one are printed, each behind a space. -/
theorem shows_argsBehind {words : List Text} (free : ∀ word ∈ words, (0 : CHAR16) ∉ word) :
    ∃ texts, Shows fw texts () (terminalWriteArgList fw true words) ∧
      texts.flatten = words.flatMap (space :: ·) := by
  induction words with
  | nil => exact ⟨[], shows_pure (), rfl⟩
  | cons word rest ih =>
    obtain ⟨texts, shown, flat⟩ := ih fun later member => free later (List.mem_cons_of_mem word member)
    have gap : (0 : CHAR16) ∉ [space] := by decide
    have first : Shows fw [word] () (terminalWrite fw (word ++ [0])) :=
      shows_terminalWrite (free word List.mem_cons_self)
    refine ⟨[space] :: word :: texts, ?_, by simp [flat]⟩
    rw [terminalWriteArgList, if_pos rfl]
    exact (shows_terminalWrite gap).then (shows_view fun _ => first.then shown)

variable (fw) in
/-- Words are printed with single spaces between them. -/
theorem shows_args {words : List Text} (free : ∀ word ∈ words, (0 : CHAR16) ∉ word) :
    ∃ texts, Shows fw texts () (terminalWriteArgList fw false words) ∧
      texts.flatten = joined space words := by
  cases words with
  | nil => exact ⟨[], shows_pure (), rfl⟩
  | cons word rest =>
    obtain ⟨texts, shown, flat⟩ := shows_argsBehind fw
      fun later member => free later (List.mem_cons_of_mem word member)
    have first : Shows fw [word] () (terminalWrite fw (word ++ [0])) :=
      shows_terminalWrite (free word List.mem_cons_self)
    refine ⟨word :: texts, ?_, by rw [joined_cons, List.flatten_cons, flat]⟩
    rw [terminalWriteArgList, if_neg Bool.false_ne_true]
    exact shows_view fun _ => first.then shown

variable (fw) in
/-- `echo` prints its words and a line end. -/
theorem shows_echo {words : List Text} (free : ∀ word ∈ words, (0 : CHAR16) ∉ word) :
    ∃ texts, Shows fw texts false (do
        terminalWriteArgList fw false words
        reply fw "") ∧
      texts.flatten = joined space words ++ [carriageReturn, lineFeed] := by
  obtain ⟨texts, shown, flat⟩ := shows_args fw free
  have emptyFree : (0 : CHAR16) ∉ text "" := List.not_mem_nil
  refine ⟨texts ++ [text "", [carriageReturn, lineFeed]], shown.then (shows_reply emptyFree), ?_⟩
  rw [List.flatten_append, flat]
  rfl

/-- What a search prints: the words that contain the pattern, each on a line. -/
def matching (pattern : Text) (words : List Text) : Text :=
  (words.filter fun word => decide (pattern <:+: word)).flatMap (· ++ [carriageReturn, lineFeed])

variable (fw) in
/-- A search prints the words that contain the pattern. -/
theorem shows_matching {pattern : Text} (patternFree : (0 : CHAR16) ∉ pattern) {words : List Text}
    (free : ∀ word ∈ words, (0 : CHAR16) ∉ word) :
    ∃ texts, Shows fw texts () (showMatching fw (pattern ++ [0]) (words.map (· ++ [0]))) ∧
      texts.flatten = matching pattern words := by
  induction words with
  | nil => exact ⟨[], shows_pure (), rfl⟩
  | cons word rest ih =>
    obtain ⟨texts, shown, flat⟩ := ih fun later member => free later (List.mem_cons_of_mem word member)
    have wordFree := free word List.mem_cons_self
    have searched := terminalContains_exact wordFree patternFree
    by_cases contains : pattern <:+: word
    · refine ⟨[word, [carriageReturn, lineFeed]] ++ texts, ?_, by simp [matching, contains, flat]⟩
      rw [List.map_cons, showMatching, searched, decide_eq_true contains]
      exact (shows_terminalWriteLine wordFree).then shown
    · refine ⟨texts, ?_, by simp [matching, contains, flat]⟩
      rw [List.map_cons, showMatching, searched, decide_eq_false contains]
      exact shown

/-! ## Storing -/

/-- The event writes neither to the console nor to a file. -/
def Unmarked (event : Event) : Prop := written [event] = [] ∧ stores [event] = []

/-- Unmarked events write nothing, neither on the console nor to files. -/
theorem unmarked_events {events : List Event} (unmarked : ∀ event ∈ events, Unmarked event) :
    written events = [] ∧ stores events = [] := by
  induction events with
  | nil => exact ⟨rfl, rfl⟩
  | cons event rest ih =>
    obtain ⟨shown, stored⟩ := ih fun later member => unmarked later (List.mem_cons_of_mem event member)
    obtain ⟨shownHere, storedHere⟩ := unmarked event List.mem_cons_self
    rw [← List.singleton_append, written_append, stores_append, shown, stored, shownHere, storedHere]
    exact ⟨rfl, rfl⟩

/-- The routine writes neither to the console nor to a file. -/
def Unmarking (routine : Routine σ α) : Prop :=
  Logs Machine.trace routine fun _ events => written events = [] ∧ stores events = []

/-- A value shows and stores nothing. -/
theorem unmarking_pure (value : α) : Unmarking (pure value : Routine σ α) := logs_pure ⟨rfl, rfl⟩

/-- A call whose event shows and stores nothing. -/
theorem unmarking_call (operation : σ → α × σ) (event : α → Event)
    (unmarked : ∀ answer, Unmarked (event answer)) : Unmarking (call operation event) :=
  logs_call operation event fun _ => unmarked _

/-- Opening a file on the volume shows and stores nothing. -/
theorem unmarking_openOnVolume (path : Memory) (mode attributes : UInt64) :
    Unmarking (openOnVolume fw path mode attributes) := by
  have unmarked : ∀ event : Event, event.isOpening = true → Unmarked event := by
    intro event isOpening
    cases event <;> first | exact ⟨rfl, rfl⟩ | cases isOpening
  intro machine opened after ran
  obtain ⟨events, traced, opening⟩ :=
    (emits_openOnVolume unmarked fw path mode attributes).related machine opened after ran
  exact ⟨events, traced, unmarked_events opening⟩

/-- What comes one after the other shows and stores nothing together. -/
theorem Unmarking.then {β : Type} {first : Routine σ β} {next : β → Routine σ α}
    (unmarking : Unmarking first) (rest : ∀ value, Unmarking (next value)) :
    Unmarking (first >>= next) := by
  apply logs_bind
  apply Logs.mono unmarking
  rintro value early ⟨silent, untouched⟩
  apply Logs.mono (rest value)
  rintro result late ⟨silentLater, untouchedLater⟩
  simp [silent, untouched, silentLater, untouchedLater]

/-- The routine writes nothing to the console, and these bytes to one file if it succeeds. -/
def StoresIfDone (bytes : List UInt8) (routine : Routine σ Bool) : Prop :=
  Logs Machine.trace routine fun done events =>
    written events = [] ∧ (done = true → stores events = [bytes])

/-- A failure need not store anything. -/
theorem storesIfDone_failed (bytes : List UInt8) :
    StoresIfDone bytes (pure false : Routine σ Bool) := logs_pure ⟨rfl, Bool.noConfusion⟩

/-- What is stored behind an unmarking part is what is stored at all. -/
theorem Unmarking.storesIfDone {bytes : List UInt8} {first : Routine σ α} {next : α → Routine σ Bool}
    (unmarking : Unmarking first) (rest : ∀ value, StoresIfDone bytes (next value)) :
    StoresIfDone bytes (first >>= next) := by
  apply logs_bind
  apply Logs.mono unmarking
  rintro value early ⟨silent, untouched⟩
  apply Logs.mono (rest value)
  rintro result late ⟨silentLater, stored⟩
  simpa [silent, untouched, silentLater] using stored

/-- Storing at the position of a handle writes the line, and it succeeds only if it has done so. -/
theorem storesIfDone_storeHere {stored : List Memory} {line : List UInt8}
    (words : storeWords [] false stored = some line) (file : Handle) :
    StoresIfDone (line ++ [lineFeed.toUInt8]) (storeHere fw file stored) := by
  have closes : Unmarking (closeFile fw file) := unmarking_call _ _ fun _ => ⟨rfl, rfl⟩
  have flushes : Unmarking (flushFile fw file) := by
    apply logs_ite
    · intro _
      have flushed : Unmarking (call (fw.flush file) (.flush file)) :=
        unmarking_call _ _ fun _ => ⟨rfl, rfl⟩
      exact flushed.then fun _ => unmarking_pure ()
    · intro _
      exact unmarking_pure ()
  apply logs_orOverrun words
  apply logs_bind
  apply logs_orStop
  intro pushed found
  obtain ⟨_, rfl⟩ := push_some found
  apply logs_bind
  apply logs_call
  intro state
  apply logs_ite
  · intro _
    apply logs_bind
    apply logs_call
    intro later
    exact logs_pure ⟨rfl, Bool.noConfusion⟩
  · intro _
    have done : Unmarking (do
        flushFile fw file
        let _ ← closeFile fw file
        return true) := flushes.then fun _ => closes.then fun _ => unmarking_pure true
    apply Logs.mono done
    rintro result late ⟨silent, untouched⟩
    exact ⟨silent, fun _ => congrArg _ untouched⟩

/-- `terminal_write_file` writes the line to one file if it succeeds. -/
theorem storesIfDone_terminalWriteFile {path : Memory} {stored : List Memory} {line : List UInt8}
    (words : storeWords [] false stored = some line) (append : Bool) :
    StoresIfDone (line ++ [lineFeed.toUInt8]) (terminalWriteFile fw path stored append) := by
  apply (unmarking_openOnVolume path createMode efiFileArchive).storesIfDone
  intro opened
  cases opened with
  | none => exact storesIfDone_failed _
  | some file =>
    have positions : Unmarking (setPosition fw file (if append then 0xFFFFFFFFFFFFFFFF else 0)) :=
      unmarking_call _ _ fun _ => ⟨rfl, rfl⟩
    have closes : Unmarking (closeFile fw file) := unmarking_call _ _ fun _ => ⟨rfl, rfl⟩
    apply positions.storesIfDone
    intro status
    apply logs_ite
    · intro _
      exact closes.storesIfDone fun _ => storesIfDone_failed _
    · intro _
      exact storesIfDone_storeHere words file

/-! ## Commands -/

/-- The usage that a command prints where it does nothing else. -/
def usageOf (name : String) : Option String :=
  if name = "grep" then some "usage: grep <pattern> <text>"
  else if name = "write" ∨ name = "append" then some "usage: write|append <file> <text"
  else none

/-- Every word behind the name of a command takes part in what the command does. -/
def TakesPart (name : String) (rest : List Text) (events : List Event) : Prop :=
  (name = "echo" → output events = joined space rest ++ [carriageReturn, lineFeed]) ∧
    (name = "write" ∨ name = "append" → stores events = [lineOf rest.tail]) ∧
    (name = "grep" → ∀ pattern words, rest = pattern :: words →
      output events = matching pattern words)

/-- The words that the interpreter does not keep would not have made a difference. -/
def NothingLost (name : String) (rest : List Text) : Prop :=
  if name = "grep" then
    ∀ pattern words, rest = pattern :: words →
      ∀ word ∈ words.drop (terminalMaxArgs - 2), ¬ pattern <:+: word
  else rest.length < terminalMaxArgs

/-- A row that only writes texts adds them to the trace of its command. -/
theorem written_row {fuel : Nat} {line : Text} {name : String} {argv : List Text}
    {row : Routine σ Bool} {texts : List Text} {value : Bool}
    (unfolded : interpret fw parseFresh (fuel + 1) (line ++ [0]) = (do record name argv; row))
    (shown : Shows fw texts value row) {machine after : Machine σ} {result : Bool}
    (console : canWrite machine = true)
    (ran : (terminalExecuteCommand fw (fuel + 1) (line ++ [0])).run machine = .ok (result, after))
    {events : List Event} (traced : after.trace = machine.trace ++ events) :
    written events = texts := by
  obtain ⟨buffer, reached, rowRan, rfl⟩ := row_run unfolded ran
  cases (shown (commanded machine name argv)).symm.trans rowRan
  obtain ⟨found, extended, visibleTexts, _⟩ := afterWrites_trace fw (commanded machine name argv) texts
  have visible : canWrite (commanded machine name argv) = true := console
  rw [if_pos visible] at visibleTexts
  have same : events = .command (text name) (wordsOf machine.terminal argv) :: found := by
    have whole := traced.symm.trans extended
    have start : machine.trace ++ events = machine.trace ++
        [.command (text name) (wordsOf machine.terminal argv)] ++ found := whole
    simpa using start
  rw [same]
  exact visibleTexts

/-- Whatever `echo` is given, it prints the words that are kept. -/
theorem echo_output (fuel : Nat) {line : Text} {rest : List Text}
    (single : Single line (text "echo" :: rest)) {machine after : Machine σ} {result : Bool}
    (console : canWrite machine = true)
    (ran : (terminalExecuteCommand fw (fuel + 1) (line ++ [0])).run machine = .ok (result, after))
    {events : List Event} (traced : after.trace = machine.trace ++ events) :
    output events = joined space rest ++ [carriageReturn, lineFeed] := by
  have free : ∀ word ∈ rest, (0 : CHAR16) ∉ word := fun word member =>
    single.wordsFree word (List.mem_cons_of_mem _ member)
  obtain ⟨texts, shown, flat⟩ := shows_echo fw free
  rw [output, written_row (interpret_echo fw fuel single) shown console ran traced, flat]

/-- `grep` prints the words that are kept and contain its pattern. -/
theorem grep_output (fuel : Nat) {line pattern : Text} {words : List Text}
    (single : Single line (text "grep" :: pattern :: words)) {machine after : Machine σ}
    {result : Bool} (console : canWrite machine = true)
    (ran : (terminalExecuteCommand fw (fuel + 1) (line ++ [0])).run machine = .ok (result, after))
    {events : List Event} (traced : after.trace = machine.trace ++ events)
    (answered : text "usage: grep <pattern> <text>" ∉ written events) :
    output events = matching pattern words := by
  have free := single.wordsFree
  have wordsFree : ∀ word ∈ words, (0 : CHAR16) ∉ word := fun word member =>
    free word (List.mem_cons_of_mem _ (List.mem_cons_of_mem _ member))
  have patternFree : (0 : CHAR16) ∉ pattern := free pattern (by simp)
  by_cases few : words = []
  · subst few
    have usage : (0 : CHAR16) ∉ text "usage: grep <pattern> <text>" := by decide
    have row : Shows fw [text "usage: grep <pattern> <text>", [carriageReturn, lineFeed]] false
        (grepWords fw [text "grep", pattern]) := shows_reply usage
    rw [written_row (interpret_grep fw fuel single) row console ran traced] at answered
    exact absurd List.mem_cons_self answered
  · obtain ⟨texts, shown, flat⟩ := shows_matching fw patternFree wordsFree
    have row : Shows fw (texts ++ []) false (grepWords fw (text "grep" :: pattern :: words)) := by
      have many : ¬ (text "grep" :: pattern :: words).length < 3 := by
        have nonempty := List.length_pos_iff.mpr few
        simp only [List.length_cons]
        omega
      rw [grepWords, if_neg many]
      exact shows_view fun _ => shown.then (shows_pure false)
    have printed := written_row (interpret_grep fw fuel single) row console ran traced
    rw [output, printed, List.append_nil, flat]

/-- The console of a machine is there for another one. -/
def SameConsole (before after : Machine σ) : Prop := canWrite after = canWrite before

instance : Std.Refl (SameConsole (σ := σ)) := ⟨fun _ => rfl⟩

instance : IsTrans (Machine σ) SameConsole := ⟨fun _ _ _ early late => late.trans early⟩

/-- Storing words keeps the console, so the answer of the command can be shown. -/
theorem sameConsole_terminalWriteFile (path : Memory) (stored : List Memory) (append : Bool) :
    Keeps SameConsole (terminalWriteFile fw path stored append) := by
  have frame : CallFrame fw (SameConsole (σ := σ)) := callFrame (fun _ _ _ _ => rfl) (fun _ _ => rfl) fw
  exact (composed_terminalWriteFile (fun _ _ named => named) (Or.inr trivial) (Or.inr trivial)
    append).keepsFiles

/-- `write` and `append` store the words that are kept. -/
theorem store_stores (fuel : Nat) {line : Text} {name : String} {append : Bool}
    {argv : List Text} (named : (name, append) ∈ storeNames)
    (single : Single line (text name :: argv)) {machine after : Machine σ} {result : Bool}
    (console : canWrite machine = true)
    (ran : (terminalExecuteCommand fw (fuel + 1) (line ++ [0])).run machine = .ok (result, after))
    {events : List Event} (traced : after.trace = machine.trace ++ events)
    (answered : text "usage: write|append <file> <text" ∉ written events) :
    stores events = [lineOf argv.tail] := by
  have usage : (0 : CHAR16) ∉ text "usage: write|append <file> <text" := by decide
  have unstored : argv.length < 2 → text "usage: write|append <file> <text" ∈ written events := by
    intro few
    rw [written_row (interpret_storeNothing fw fuel named single few) (shows_reply usage) console ran
      traced]
    exact List.mem_cons_self
  rcases argv with _ | ⟨path, _ | ⟨word, rest⟩⟩
  · exact absurd (unstored Nat.zero_lt_two) answered
  · exact absurd (unstored Nat.one_lt_two) answered
  · obtain ⟨buffer, reached, rowRan, rfl⟩ := row_run (interpret_store fw fuel named single) ran
    obtain ⟨done, stored, wrote, replied⟩ := (run_bind_ok _ _ _ _).mp rowRan
    cases (shows_orUsage usage done stored).symm.trans replied
    have free := single.wordsFree
    have wordsFree : ∀ later ∈ word :: rest, (0 : CHAR16) ∉ later := fun later member =>
      free later (List.mem_cons_of_mem _ (List.mem_cons_of_mem _ member))
    have room := single.room
    have assembled := storeWords_joined wordsFree (List.cons_ne_nil word rest) (by omega)
    obtain ⟨early, extended, silent, complete⟩ :=
      storesIfDone_terminalWriteFile assembled append _ done stored wrote
    have visible : canWrite stored = true :=
      ((sameConsole_terminalWriteFile _ _ append).related _ done stored wrote).trans console
    obtain ⟨late, ended, replies, _⟩ := afterWrites_trace fw stored
      (if done then [] else [text "usage: write|append <file> <text", [carriageReturn, lineFeed]])
    rw [if_pos visible] at replies
    have parts : events =
        .command (text name) (wordsOf machine.terminal (text name :: path :: word :: rest)) ::
          (early ++ late) := by
      have whole := traced.symm.trans (ended.trans (congrArg (· ++ late) extended))
      have start : machine.trace ++ events = machine.trace ++
          [.command (text name) (wordsOf machine.terminal (text name :: path :: word :: rest))] ++
            early ++ late := whole
      simpa using start
    have marks : written events = written early ++ written late ∧
        stores events = stores early ++ stores late := by
      rw [parts, ← written_append, ← stores_append]
      exact ⟨rfl, rfl⟩
    cases done with
    | false =>
      rw [marks.1, replies] at answered
      exact absurd (List.mem_append_right _ List.mem_cons_self) answered
    | true =>
      have nothing : late = [] := List.self_eq_append_right.mp ended
      rw [marks.2, complete rfl, nothing]
      rfl

/-! ## All words -/

/-- More words than are kept change what a search prints only if one of them contains the
pattern. -/
theorem matching_take_iff (pattern : Text) (words : List Text) (count : Nat) :
    matching pattern (words.take count) = matching pattern words ↔
      ∀ word ∈ words.drop count, ¬ pattern <:+: word := by
  have parts : matching pattern words =
      matching pattern (words.take count) ++ matching pattern (words.drop count) := by
    rw [matching, matching, matching, ← List.flatMap_append, ← List.filter_append,
      List.take_append_drop]
  rw [parts, List.self_eq_append_right, matching]
  simp

/-- More words than are kept change what is put together from them. -/
theorem kept_iff (between : CHAR16) (words : List Text) (count : Nat) :
    joined between (words.take (count + 1)) = joined between words ↔ words.length ≤ count + 1 := by
  constructor
  · intro same
    exact (joined_take_length_iff between words count).mp (congrArg List.length same)
  · intro few
    rw [List.take_of_length_le few]

/-- More words than are kept change the line that is stored. -/
theorem lineOf_take_iff (words : List Text) (count : Nat) :
    lineOf (words.take (count + 1)) = lineOf words ↔ words.length ≤ count + 1 := by
  constructor
  · intro same
    apply (joined_take_length_iff space words count).mp
    have lengths := congrArg List.length same
    simpa [lineOf] using lengths
  · intro few
    rw [List.take_of_length_le few]

/-- Every word of a command takes part in what it does, if and only if there are at most eight
words with its name or the others would not have made a difference. Parsing stops at eight words
and says nothing. -/
theorem words_take_part_iff (fuel : Nat) {line : Text} {name : String} {rest : List Text}
    (named : name ∈ ["echo", "write", "append", "grep"]) (typed : Typed line (text name :: rest))
    {machine after : Machine σ} {result : Bool} (console : canWrite machine = true)
    (ran : (terminalExecuteCommand fw (fuel + 1) (line ++ [0])).run machine = .ok (result, after))
    {events : List Event} (traced : after.trace = machine.trace ++ events)
    (answered : ∀ usage ∈ usageOf name, text usage ∉ written events) :
    TakesPart name rest events ↔ NothingLost name rest := by
  have single : Single line (text name :: rest.take 7) := typed.single
  have stored : ∀ append, (name, append) ∈ storeNames →
      usageOf name = some "usage: write|append <file> <text" →
      (stores events = [lineOf rest.tail] ↔ rest.length < terminalMaxArgs) := by
    intro append store usage
    have kept := store_stores fuel store single console ran traced (answered _ usage)
    have tail : (rest.take 7).tail = rest.tail.take 6 := by
      cases rest <;> rfl
    have count : rest.tail.length ≤ 6 ↔ rest.length < terminalMaxArgs := by
      rw [List.length_tail, terminalMaxArgs]
      omega
    rw [kept, tail, List.singleton_inj, lineOf_take_iff, count]
  simp only [List.mem_cons, List.not_mem_nil, or_false] at named
  obtain rfl | rfl | rfl | rfl := named
  · have kept := echo_output fuel single console ran traced
    have count : rest.length ≤ 7 ↔ rest.length < terminalMaxArgs := Nat.lt_succ_iff.symm
    simp [TakesPart, NothingLost, kept, kept_iff, count]
  · simpa [TakesPart, NothingLost] using stored false (by decide) rfl
  · simpa [TakesPart, NothingLost] using stored true (by decide) rfl
  · cases rest with
    | nil => simp [TakesPart, NothingLost]
    | cons pattern words =>
      have kept := grep_output fuel single console ran traced (answered _ rfl)
      have lost := matching_take_iff pattern words 6
      rw [← kept] at lost
      have six : terminalMaxArgs - 2 = 6 := rfl
      simpa [TakesPart, NothingLost, six] using lost

/-! ## A line of nine words -/

/-- A row that only writes runs, and adds its texts to the trace. -/
theorem row_runs {fuel : Nat} {line : Text} {name : String} {argv : List Text}
    {row : Routine σ Bool} {texts : List Text} {value : Bool}
    (unfolded : interpret fw parseFresh (fuel + 1) (line ++ [0]) = (do record name argv; row))
    (shown : Shows fw texts value row) (machine : Machine σ) :
    ∃ after events,
      (terminalExecuteCommand fw (fuel + 1) (line ++ [0])).run machine = .ok (value, after) ∧
      after.trace = machine.trace ++ events := by
  obtain ⟨buffer, ran⟩ := run_row unfolded (shown (commanded machine name argv))
  obtain ⟨found, extended, _⟩ := afterWrites_trace fw (commanded machine name argv) texts
  refine ⟨_, .command (text name) (wordsOf machine.terminal argv) :: found, ran, ?_⟩
  exact extended.trans (List.append_assoc machine.trace [_] found)

/-- The eight digits behind the name. -/
def digits : List Text :=
  [text "1", text "2", text "3", text "4", text "5", text "6", text "7", text "8"]

/-- The sample line has nine words, one more than there are slots. -/
theorem echo_typed : Typed (text "echo 1 2 3 4 5 6 7 8") (text "echo" :: digits) := by
  constructor <;> decide

/-- The line prints something. -/
theorem echo_runs : ∃ after events,
    (terminalExecuteCommand Volume.quiet 1 (text "echo 1 2 3 4 5 6 7 8" ++ [0])).run
      (Machine.entered ()) = .ok (false, after) ∧
    after.trace = (Machine.entered ()).trace ++ events := by
  have free : ∀ word ∈ digits.take 7, (0 : CHAR16) ∉ word := by decide
  obtain ⟨texts, shown, _⟩ := shows_echo Volume.quiet free
  exact row_runs (interpret_echo Volume.quiet 0 echo_typed.single) shown (Machine.entered ())

/-- Not all of the nine words take part. -/
theorem words_take_part_digits : ∃ after events,
    (terminalExecuteCommand Volume.quiet 1 (text "echo 1 2 3 4 5 6 7 8" ++ [0])).run
      (Machine.entered ()) = .ok (false, after) ∧
    after.trace = (Machine.entered ()).trace ++ events ∧ ¬ TakesPart "echo" digits events := by
  obtain ⟨after, events, ran, traced⟩ := echo_runs
  have named : "echo" ∈ ["echo", "write", "append", "grep"] := List.mem_cons_self
  have unanswered : ∀ usage ∈ usageOf "echo", text usage ∉ written events := by
    intro usage member
    cases member
  have lost : ¬ NothingLost "echo" digits := by
    rw [NothingLost, if_neg (by decide)]
    decide
  exact ⟨after, events, ran, traced,
    mt (words_take_part_iff 0 named echo_typed rfl ran traced unanswered).mp lost⟩

/-- The last digit is not printed. -/
theorem echo_loses_digit : ∃ after events,
    (terminalExecuteCommand Volume.quiet 1 (text "echo 1 2 3 4 5 6 7 8" ++ [0])).run
      (Machine.entered ()) = .ok (false, after) ∧
    after.trace = (Machine.entered ()).trace ++ events ∧
    output events = text "1 2 3 4 5 6 7" ++ [carriageReturn, lineFeed] ∧
    joined space digits = text "1 2 3 4 5 6 7 8" := by
  obtain ⟨after, events, ran, traced⟩ := echo_runs
  have printed := echo_output 0 echo_typed.single rfl ran traced
  exact ⟨after, events, ran, traced, printed, rfl⟩

end ExistentOS.Terminal
