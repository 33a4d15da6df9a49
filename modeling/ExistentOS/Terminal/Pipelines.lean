import ExistentOS.Terminal.Arguments

/-!
# What a pipeline prints

The left side of a pipeline is read twice: as words, which decide whether it echoes anything, and
as the text behind its first five units, which is what is searched and printed. So the blanks
between the words are kept, where `echo` alone puts single spaces.
-/

namespace ExistentOS.Terminal

open Programs Terminated Runs

variable {σ : Type} {fw : Firmware σ}

/-! ## The two sides -/

/-- A side of a pipeline is taken apart into its words. -/
theorem parse_segment {segment : Text} (fits : segment.length ≤ terminalMaxLine - 1)
    (free : (0 : CHAR16) ∉ segment) (maxArgs : Nat) :
    (parseFresh (terminalCopySegment segment) maxArgs : Routine σ (List Text)) =
      pure ((runs isBlank segment).take maxArgs) := by
  have trimmedFree : (0 : CHAR16) ∉ trimmed segment := fun zero => free (trimmed_subset segment zero)
  have short : (trimmed segment).length ≤ terminalMaxLine - 1 :=
    (trimmed_length segment).trans fits
  have kept : tokens maxArgs (trimmed segment) = (runs isBlank segment).take maxArgs := by
    rw [tokens, List.take_of_length_le short, runs_trimmed]
  rw [parseFresh, terminalCopySegment_fits fits, scan_append (trimmed segment) [] trimmedFree, ← kept]
  rfl

/-- A call is told by the first word. -/
theorem isCall_first {word : Text} (rest : List Text) (solid : ∀ unit ∈ word, unit ≠ 0 ∧ unit ≠ space)
    {name : String} (free : (0 : CHAR16) ∉ text name) :
    isCall true (word :: rest) name = (pure (decide (word = text name)) : Routine σ Bool) := by
  rw [isCall, if_pos rfl, argument_set rfl, pure_bind, constant,
    terminalMatchCommand_word word (text name) solid free]
  rfl

/-- The left side echoes something: its first word is `echo`, and there is another one. -/
def Echoes (left : Text) : Prop := ∃ word rest, runs isBlank left = text "echo" :: word :: rest

/-- The right side searches for a pattern, which is its second and last word. -/
def Greps (right pattern : Text) : Prop := runs isBlank right = [text "grep", pattern]

instance (right pattern : Text) : Decidable (Greps right pattern) :=
  inferInstanceAs (Decidable (_ = _))

/-! ## What is printed -/

section Sides

variable {line left right : Text}

/-- A line with a bar falls apart at the first one. Further bars belong to the right side, as in
the source. -/
structure Piped (line left right : Text) : Prop where
  split : line = left ++ bar :: right
  first : bar ∉ left
  free : (0 : CHAR16) ∉ line
  fits : line.length ≤ terminalMaxLine - 1

/-- The left side has no terminator. -/
theorem Piped.leftFree (piped : Piped line left right) : (0 : CHAR16) ∉ left := fun zero =>
  piped.free (piped.split ▸ List.mem_append_left _ zero)

/-- The right side has no terminator. -/
theorem Piped.rightFree (piped : Piped line left right) : (0 : CHAR16) ∉ right := fun zero =>
  piped.free (piped.split ▸ List.mem_append_right _ (List.mem_cons_of_mem bar zero))

/-- Both sides of a line with a bar fit. -/
theorem Piped.lengths (piped : Piped line left right) :
    left.length + right.length + 1 ≤ terminalMaxLine - 1 := by
  have fits := piped.fits
  rw [piped.split, List.length_append, List.length_cons] at fits
  omega

/-- A pipeline is tried with the words of its two sides. -/
theorem pipeline_left (piped : Piped line left right) :
    terminalTryPipeline fw parseFresh line = (do
      if ← isCall (((runs isBlank left).take terminalMaxArgs).length ≥ 2)
          ((runs isBlank left).take terminalMaxArgs) "echo" then
        if ← isCall (((runs isBlank right).take terminalMaxArgs).length = 2)
            ((runs isBlank right).take terminalMaxArgs) "grep" then
          let echoed := terminalCopySegment (← orOverrun (behind 5 left))
          let needle ← argument ((runs isBlank right).take terminalMaxArgs) 1
          if ← orOverrun (terminalContains echoed needle) then terminalWriteLine fw echoed
          return true
        else
          say fw "usage: echo <text> | grep <pattern>"
          return true
      else
        say fw "pipes currently support echo | grep"
        return true) := by
  have leftFree := piped.leftFree
  have rightFree := piped.rightFree
  have lengths := piped.lengths
  obtain ⟨rfl, first, _, _⟩ := piped
  have inLine : bar ∈ left ++ bar :: right := by simp
  obtain ⟨taken, dropped⟩ := cut_first first right
  rw [terminalTryPipeline, if_pos inLine, taken, dropped, List.tail_cons]
  dsimp only
  rw [parse_segment (by omega) leftFree, parse_segment (by omega) rightFree]
  rfl

/-- Words of a side contain neither blanks nor terminators. -/
theorem runs_solid {side : Text} (free : (0 : CHAR16) ∉ side) {word : Text}
    (member : word ∈ runs isBlank side) : ∀ unit ∈ word, unit ≠ 0 ∧ unit ≠ space := by
  intro unit inside
  obtain ⟨inSide, solid⟩ := runs_units isBlank member unit inside
  constructor
  · rintro rfl
    exact free inSide
  · rintro rfl
    cases solid

/-- A side with enough words is a call of the command that its first word names. -/
theorem isCall_side {side : Text} (free : (0 : CHAR16) ∉ side) {name : String}
    (nameFree : (0 : CHAR16) ∉ text name) {admissible : Bool}
    (nonempty : admissible = true → runs isBlank side ≠ []) :
    (isCall admissible ((runs isBlank side).take terminalMaxArgs) name : Routine σ Bool) =
      pure (admissible && decide ((runs isBlank side).head? = some (text name))) := by
  cases admissible with
  | false => rfl
  | true =>
    obtain ⟨word, rest, words⟩ := List.exists_cons_of_ne_nil (nonempty rfl)
    have solid := runs_solid free (words ▸ List.mem_cons_self : word ∈ runs isBlank side)
    rw [words]
    have called : (isCall true (word :: rest.take 7) name : Routine σ Bool) =
        pure (decide (word = text name)) := isCall_first _ solid nameFree
    have kept : (word :: rest).take terminalMaxArgs = word :: rest.take 7 := rfl
    rw [kept]
    simpa using called

/-- The test of the left side decides whether it echoes something. -/
theorem echoes_iff (left : Text) :
    (decide (((runs isBlank left).take terminalMaxArgs).length ≥ 2) &&
      decide ((runs isBlank left).head? = some (text "echo"))) = true ↔ Echoes left := by
  rw [Bool.and_eq_true, decide_eq_true_iff, decide_eq_true_iff, List.length_take, Echoes]
  rcases runs isBlank left with _ | ⟨first, _ | ⟨second, rest⟩⟩
  · simp
  · simp
  · simp [terminalMaxArgs]

/-- The test of the right side decides whether it searches for one pattern. -/
theorem greps_iff (right : Text) :
    (decide (((runs isBlank right).take terminalMaxArgs).length = 2) &&
      decide ((runs isBlank right).head? = some (text "grep"))) = true ↔
        ∃ pattern, Greps right pattern := by
  rw [Bool.and_eq_true, decide_eq_true_iff, decide_eq_true_iff, List.length_take]
  unfold Greps
  rcases runs isBlank right with _ | ⟨first, _ | ⟨second, _ | ⟨third, rest⟩⟩⟩
  · simp
  · simp [terminalMaxArgs]
  · simp [terminalMaxArgs]
  · have many : min terminalMaxArgs (first :: second :: third :: rest).length ≠ 2 := by
      simp only [List.length_cons, terminalMaxArgs]
      omega
    simpa using fun two => absurd two many

/-- Whether the left side is a call of `echo`. -/
theorem isCall_echo (piped : Piped line left right) {echoes : Bool}
    (decided : echoes = true ↔ Echoes left) :
    (isCall (((runs isBlank left).take terminalMaxArgs).length ≥ 2)
      ((runs isBlank left).take terminalMaxArgs) "echo" : Routine σ Bool) = pure echoes := by
  have nonempty : decide (((runs isBlank left).take terminalMaxArgs).length ≥ 2) = true →
      runs isBlank left ≠ [] := by
    intro two none
    simp [none] at two
  rw [isCall_side piped.leftFree (by decide) nonempty]
  exact congrArg pure (Bool.eq_iff_iff.mpr ((echoes_iff left).trans decided.symm))

/-- Whether the right side is a call of `grep`. -/
theorem isCall_grep (piped : Piped line left right) {greps : Bool}
    (decided : greps = true ↔ ∃ pattern, Greps right pattern) :
    (isCall (((runs isBlank right).take terminalMaxArgs).length = 2)
      ((runs isBlank right).take terminalMaxArgs) "grep" : Routine σ Bool) = pure greps := by
  have nonempty : decide (((runs isBlank right).take terminalMaxArgs).length = 2) = true →
      runs isBlank right ≠ [] := by
    intro two none
    simp [none] at two
  rw [isCall_side piped.rightFree (by decide) nonempty]
  exact congrArg pure (Bool.eq_iff_iff.mpr ((greps_iff right).trans decided.symm))

/-- A pipeline that echoes nothing is refused by a message, and its right side is not looked at. -/
theorem pipeline_unechoed (piped : Piped line left right) (silent : ¬ Echoes left) :
    Shows fw [text "pipes currently support echo | grep", [carriageReturn, lineFeed]] true
      (terminalTryPipeline fw parseFresh line) := by
  have refused : false = true ↔ Echoes left := by simp [silent]
  rw [pipeline_left piped, isCall_echo piped refused]
  have message : (0 : CHAR16) ∉ text "pipes currently support echo | grep" := by decide
  exact (shows_say message).then (shows_pure true)

/-- A pipeline that searches for nothing is refused. -/
theorem pipeline_unsearched (piped : Piped line left right) (echoes : Echoes left)
    (blind : ∀ pattern, ¬ Greps right pattern) :
    Shows fw [text "usage: echo <text> | grep <pattern>", [carriageReturn, lineFeed]] true
      (terminalTryPipeline fw parseFresh line) := by
  have called : true = true ↔ Echoes left := by simp [echoes]
  have refused : false = true ↔ ∃ pattern, Greps right pattern := by simp [blind]
  rw [pipeline_left piped, isCall_echo piped called, pure_bind, if_pos rfl, isCall_grep piped refused]
  have message : (0 : CHAR16) ∉ text "usage: echo <text> | grep <pattern>" := by decide
  exact (shows_say message).then (shows_pure true)

/-- A left side that echoes something is longer than the name of its command. -/
theorem Echoes.room (echoes : Echoes left) : 5 ≤ left.length := by
  obtain ⟨word, rest, words⟩ := echoes
  have room := runs_first_length isBlank words
  have name : (text "echo").length = 4 := by decide
  omega

/-- A pipeline prints the text behind the first five units of its left side, if that contains the
pattern. -/
theorem pipeline_shows (piped : Piped line left right) (echoes : Echoes left) {pattern : Text}
    (greps : Greps right pattern) :
    Shows fw (if pattern <:+: trimmed (left.drop 5) then
      [trimmed (left.drop 5), [carriageReturn, lineFeed]] else []) true
      (terminalTryPipeline fw parseFresh line) := by
  have called : true = true ↔ Echoes left := by simp [echoes]
  have searched : true = true ↔ ∃ pattern, Greps right pattern := by simpa using ⟨pattern, greps⟩
  have lengths := piped.lengths
  have fits : (left.drop 5).length ≤ terminalMaxLine - 1 := by
    rw [List.length_drop]
    omega
  have echoedFree : (0 : CHAR16) ∉ trimmed (left.drop 5) := fun zero =>
    piped.leftFree (List.mem_of_mem_drop (trimmed_subset _ zero))
  have patternFree : (0 : CHAR16) ∉ pattern := by
    intro zero
    have member : pattern ∈ runs isBlank right := by
      rw [greps]
      simp
    exact (runs_solid piped.rightFree member 0 zero).1 rfl
  have found := terminalContains_exact echoedFree patternFree
  have printing : Shows fw (if pattern <:+: trimmed (left.drop 5) then
      [trimmed (left.drop 5), [carriageReturn, lineFeed]] else []) true (do
        if ← orOverrun (terminalContains (terminalCopySegment (left.drop 5)) (pattern ++ [0])) then
          terminalWriteLine fw (terminalCopySegment (left.drop 5))
        return true) := by
    rw [terminalCopySegment_fits fits, found]
    by_cases contains : pattern <:+: trimmed (left.drop 5)
    · rw [if_pos contains, decide_eq_true contains]
      exact (shows_terminalWriteLine echoedFree).then (shows_pure true)
    · rw [if_neg contains, decide_eq_false contains]
      exact shows_pure true
  rw [pipeline_left piped, isCall_echo piped called, pure_bind, if_pos rfl,
    isCall_grep piped searched, pure_bind, if_pos rfl, behind, if_pos echoes.room, greps]
  exact printing

end Sides

/-! ## Pipelines as commands -/

/-- A line that is a pipeline does what the pipeline does. -/
theorem interpret_piped (fuel : Nat) {line : Text} (free : (0 : CHAR16) ∉ line)
    (alone : ampersand ∉ line) {texts : List Text}
    (shown : Shows fw texts true (terminalTryPipeline fw parseFresh line)) :
    Shows fw texts false (interpret fw parseFresh (fuel + 1) (line ++ [0])) := by
  obtain ⟨args, _, unfolded⟩ := interpret_alone fw fuel (scan_append line [] free) alone
  intro machine
  rw [unfolded, run_bind_of_ok (shown machine)]
  rfl

/-- What a line writes, if it only writes. -/
theorem run_shown {fuel : Nat} {command : Memory} {texts : List Text} {value : Bool}
    (shown : Shows fw texts value (interpret fw parseFresh fuel command)) {machine : Machine σ}
    (console : canWrite machine = true) :
    ∃ after events, (terminalExecuteCommand fw fuel command).run machine = .ok (value, after) ∧
      after.trace = machine.trace ++ events ∧ written events = texts := by
  obtain ⟨buffer, ran⟩ :=
    run_alike (coupled_interpret fuel machine.terminal.line command) (shown machine)
  obtain ⟨events, extended, outcome, _⟩ := afterWrites_trace fw machine texts
  rw [if_pos console] at outcome
  exact ⟨_, events, ran, extended, outcome⟩

/-- The words of a command behind its name. -/
theorem runs_command {name gap rest : Text} (nonempty : name ≠ [])
    (solid : ∀ unit ∈ name, isBlank unit = false) (blanks : ∀ unit ∈ gap, isBlank unit = true)
    (separated : gap ≠ []) :
    runs isBlank (name ++ gap ++ rest) = name :: runs isBlank rest := by
  obtain ⟨blank, others, rfl⟩ := List.exists_cons_of_ne_nil separated
  have skipped : runs isBlank (others ++ rest) = runs isBlank rest :=
    runs_before isBlank (fun unit member => blanks unit (List.mem_cons_of_mem _ member)) rest
  rw [List.append_assoc, List.cons_append,
    runs_first isBlank nonempty solid (blanks blank List.mem_cons_self), skipped]

/-- The words of a text contain a pattern where the text does. -/
theorem infix_words {right pattern : Text} (greps : Greps right pattern) (shown : Text) :
    pattern <:+: shown ↔ ∃ word ∈ runs isBlank shown, pattern <:+: word := by
  have member : pattern ∈ runs isBlank right := by
    rw [greps]
    simp
  exact infix_iff_runs isBlank (runs_nonempty isBlank member)
    (fun unit inside => (runs_units isBlank member unit inside).2) shown

/-- Words put together with single spaces are found again. -/
theorem runs_words {shown : Text} :
    runs isBlank (joined space (runs isBlank shown)) = runs isBlank shown :=
  runs_joined isBlank rfl (fun _ member => runs_nonempty isBlank member)
    (fun _ member unit inside => (runs_units isBlank member unit inside).2)

section Stages

variable {gap shown right pattern : Text} {words : List Text}

/-- The text of an `echo` that is searched for a pattern. The line fits its buffer, and no word
of the `echo` is lost. -/
structure Searched (gap shown right : Text) (words : List Text) (pattern : Text) : Prop where
  separated : gap ≠ []
  blanks : ∀ unit ∈ gap, isBlank unit = true
  split : runs isBlank shown = words
  nonempty : words ≠ []
  few : words.length ≤ 7
  unbarred : bar ∉ shown
  greps : Greps right pattern
  free : (0 : CHAR16) ∉ text "echo" ++ gap ++ shown ++ bar :: right
  alone : ampersand ∉ text "echo" ++ gap ++ shown ++ bar :: right
  short : (text "echo" ++ gap ++ shown ++ bar :: right).length < terminalMaxLine

/-- The line is the `echo` and the search. -/
theorem Searched.piped (searched : Searched gap shown right words pattern) :
    Piped (text "echo" ++ gap ++ shown ++ bar :: right) (text "echo" ++ gap ++ shown) right := by
  have noBar : bar ∉ gap := fun member => by cases searched.blanks bar member
  have named : bar ∉ text "echo" := by decide
  constructor
  · rfl
  · simp [named, noBar, searched.unbarred]
  · exact searched.free
  · exact Nat.le_sub_one_of_lt searched.short

/-- The `echo` is a command with the words of its text. -/
theorem Searched.typed (searched : Searched gap shown right words pattern) :
    Typed (text "echo" ++ gap ++ shown) (text "echo" :: words) := by
  have name : ∀ unit ∈ text "echo", isBlank unit = false := by
    simpa using List.any_eq_false.mp (rfl : (text "echo").any isBlank = false)
  have short := searched.short
  rw [List.length_append] at short
  constructor
  · omega
  · exact searched.piped.leftFree
  · exact fun member => searched.alone (List.mem_append_left _ member)
  · exact searched.piped.first
  · rw [runs_command (by decide) name searched.blanks searched.separated, searched.split]

/-- The words of the `echo` are not too many. -/
theorem Searched.single (searched : Searched gap shown right words pattern) :
    Single (text "echo" ++ gap ++ shown) (text "echo" :: words) := by
  have whole : (text "echo" :: words).take terminalMaxArgs = text "echo" :: words :=
    List.take_of_length_le (Nat.succ_le_succ searched.few)
  exact whole ▸ searched.typed.single

/-- The left side of a search echoes. -/
theorem Searched.echoes (searched : Searched gap shown right words pattern) :
    Echoes (text "echo" ++ gap ++ shown) := by
  obtain ⟨first, rest, cut⟩ := List.exists_cons_of_ne_nil searched.nonempty
  exact ⟨first, rest, cut ▸ searched.typed.split⟩

/-- Behind the first five units of the `echo` stands its text. -/
theorem Searched.behind (searched : Searched gap shown right words pattern) :
    trimmed ((text "echo" ++ gap ++ shown).drop 5) = trimmed shown := by
  obtain ⟨blank, others, rfl⟩ := List.exists_cons_of_ne_nil searched.separated
  have blanks : ∀ unit ∈ others, isBlank unit = true := fun unit member =>
    searched.blanks unit (List.mem_cons_of_mem blank member)
  exact trimmed_before blanks shown

/-- What the `echo` prints with and without the search. -/
theorem searched_outputs (fuel : Nat) (searched : Searched gap shown right words pattern)
    {machine : Machine σ} (console : canWrite machine = true) :
    ∃ echoed echoEvents piped pipeEvents,
      (terminalExecuteCommand fw (fuel + 1) (text "echo" ++ gap ++ shown ++ [0])).run machine =
        .ok (false, echoed) ∧
      echoed.trace = machine.trace ++ echoEvents ∧
      (terminalExecuteCommand fw (fuel + 1)
        (text "echo" ++ gap ++ shown ++ bar :: right ++ [0])).run machine = .ok (false, piped) ∧
      piped.trace = machine.trace ++ pipeEvents ∧
      output echoEvents = joined space words ++ [carriageReturn, lineFeed] ∧
      output pipeEvents = if pattern <:+: trimmed shown then
        trimmed shown ++ [carriageReturn, lineFeed] else [] := by
  have single := searched.single
  obtain ⟨texts, echoes, flat⟩ := shows_echo fw fun word member =>
    single.wordsFree word (List.mem_cons_of_mem _ member)
  obtain ⟨echoed, echoEvents, echoRan, echoTraced⟩ :=
    row_runs (interpret_echo fw fuel single) echoes machine
  have echoOutput := echo_output fuel single console echoRan echoTraced
  have printed : Shows fw (if pattern <:+: trimmed shown then
      [trimmed shown, [carriageReturn, lineFeed]] else []) true
      (terminalTryPipeline fw parseFresh (text "echo" ++ gap ++ shown ++ bar :: right)) :=
    searched.behind ▸ pipeline_shows searched.piped searched.echoes searched.greps
  obtain ⟨after, pipeEvents, pipeRan, pipeTraced, pipeWritten⟩ :=
    run_shown (interpret_piped fuel searched.free searched.alone printed) console
  refine ⟨echoed, echoEvents, after, pipeEvents, echoRan, echoTraced, pipeRan, pipeTraced, echoOutput,
    ?_⟩
  rw [output, pipeWritten]
  by_cases contains : pattern <:+: trimmed shown
  · rw [if_pos contains, if_pos contains]
    simp
  · rw [if_neg contains, if_neg contains]
    rfl

/-- A pipeline agrees with its stages, if and only if its text has single spaces between its
words, or no word contains the pattern. The pipeline prints its text as it was typed, where
`echo` joins its words by single spaces. -/
theorem pipeline_agrees_iff (fuel : Nat) (searched : Searched gap shown right words pattern)
    {machine : Machine σ} (console : canWrite machine = true) :
    ∃ echoed echoEvents piped pipeEvents,
      (terminalExecuteCommand fw (fuel + 1) (text "echo" ++ gap ++ shown ++ [0])).run machine =
        .ok (false, echoed) ∧
      echoed.trace = machine.trace ++ echoEvents ∧
      (terminalExecuteCommand fw (fuel + 1)
        (text "echo" ++ gap ++ shown ++ bar :: right ++ [0])).run machine = .ok (false, piped) ∧
      piped.trace = machine.trace ++ pipeEvents ∧
      output echoEvents = joined space words ++ [carriageReturn, lineFeed] ∧
      ((output pipeEvents = if pattern <:+: joined space words then output echoEvents else []) ↔
        trimmed shown = joined space words ∨ ∀ word ∈ words, ¬ pattern <:+: word) := by
  obtain ⟨echoed, echoEvents, piped, pipeEvents, echoRan, echoTraced, pipeRan, pipeTraced, echoOutput,
    pipeOutput⟩ := searched_outputs fuel searched console
  refine ⟨echoed, echoEvents, piped, pipeEvents, echoRan, echoTraced, pipeRan, pipeTraced, echoOutput,
    ?_⟩
  have inText : pattern <:+: trimmed shown ↔ ∃ word ∈ words, pattern <:+: word := by
    rw [infix_words searched.greps, runs_trimmed, searched.split]
  have inWords : pattern <:+: joined space words ↔ ∃ word ∈ words, pattern <:+: word := by
    rw [infix_words searched.greps, ← searched.split, runs_words]
  rw [pipeOutput, echoOutput]
  by_cases contains : ∃ word ∈ words, pattern <:+: word
  · have missing : ¬ ∀ word ∈ words, ¬ pattern <:+: word := by simpa using contains
    rw [if_pos (inText.mpr contains), if_pos (inWords.mpr contains), or_iff_left missing]
    simp
  · have missing : ∀ word ∈ words, ¬ pattern <:+: word := by simpa using contains
    rw [if_neg fun within => contains (inText.mp within),
      if_neg fun within => contains (inWords.mp within)]
    exact iff_of_true rfl (Or.inr missing)

end Stages

/-! ## Two words, with one or two spaces between them -/

/-- The gap of the samples is blank. -/
theorem oneSpace : ∀ unit ∈ text " ", isBlank unit = true := List.all_eq_true.mp rfl

/-- The pipeline shows what `echo` alone shows, if the words are one blank apart. -/
theorem pipeline_agrees_plain :
    ∃ echoed echoEvents piped pipeEvents,
      (terminalExecuteCommand Volume.quiet 1 (text "echo" ++ text " " ++ text "a b " ++ [0])).run
        (Machine.entered ()) = .ok (false, echoed) ∧
      echoed.trace = (Machine.entered ()).trace ++ echoEvents ∧
      (terminalExecuteCommand Volume.quiet 1
        (text "echo" ++ text " " ++ text "a b " ++ bar :: text " grep b" ++ [0])).run
        (Machine.entered ()) = .ok (false, piped) ∧
      piped.trace = (Machine.entered ()).trace ++ pipeEvents ∧
      output echoEvents = text "a b" ++ [carriageReturn, lineFeed] ∧
      output pipeEvents = output echoEvents := by
  have searched : Searched (text " ") (text "a b ") (text " grep b") [text "a", text "b"]
      (text "b") := by
    refine ⟨?_, oneSpace, ?_, ?_, ?_, ?_, ?_, ?_, ?_, ?_⟩ <;> decide
  obtain ⟨echoed, echoEvents, piped, pipeEvents, echoRan, echoTraced, pipeRan, pipeTraced, shown,
    exactly⟩ := pipeline_agrees_iff 0 searched (show canWrite (Machine.entered ()) = true from rfl)
  have apart : trimmed (text "a b ") = joined space [text "a", text "b"] := by decide
  have found : text "b" <:+: joined space [text "a", text "b"] := by decide
  have agrees := exactly.mpr (Or.inl apart)
  rw [if_pos found] at agrees
  exact ⟨echoed, echoEvents, piped, pipeEvents, echoRan, echoTraced, pipeRan, pipeTraced, shown,
    agrees⟩

/-- The pipeline keeps the two spaces, and `echo` alone does not. -/
theorem pipeline_keeps_spaces :
    ∃ echoed echoEvents piped pipeEvents,
      (terminalExecuteCommand Volume.quiet 1 (text "echo a  b " ++ [0])).run (Machine.entered ()) =
        .ok (false, echoed) ∧
      echoed.trace = (Machine.entered ()).trace ++ echoEvents ∧
      (terminalExecuteCommand Volume.quiet 1 (text "echo a  b | grep a" ++ [0])).run
        (Machine.entered ()) = .ok (false, piped) ∧
      piped.trace = (Machine.entered ()).trace ++ pipeEvents ∧
      output echoEvents = text "a b" ++ [carriageReturn, lineFeed] ∧
      output pipeEvents = text "a  b" ++ [carriageReturn, lineFeed] ∧ text "a" <:+: text "a b" := by
  have console : canWrite (Machine.entered ()) = true := rfl
  have searched : Searched (text " ") (text "a  b ") (text " grep a") [text "a", text "b"]
      (text "a") := by
    refine ⟨?_, oneSpace, ?_, ?_, ?_, ?_, ?_, ?_, ?_, ?_⟩ <;> decide
  obtain ⟨echoed, echoEvents, piped, pipeEvents, echoRan, echoTraced, pipeRan, pipeTraced, echoOutput,
    pipeOutput⟩ := searched_outputs 0 searched console
  have contains : text "a" <:+: trimmed (text "a  b ") := by decide
  rw [if_pos contains] at pipeOutput
  exact ⟨echoed, echoEvents, piped, pipeEvents, echoRan, echoTraced, pipeRan, pipeTraced, echoOutput,
    pipeOutput, by decide⟩

end ExistentOS.Terminal
