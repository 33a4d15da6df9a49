import ExistentOS.Terminal.Pipelines

/-!
# Blanks in front of a command line

The words of a line are found behind its blanks, so most commands do the same with further blanks in
front. Two count from the start of the line instead: `system` prints what stands behind the first
space, and a pipeline prints what stands behind the first five units.
-/

namespace ExistentOS.Terminal

open Programs Terminated Runs

variable {σ : Type} {fw : Firmware σ}

/-! ## What stays the same -/

section Fronts

variable {gap : Text} (blanks : ∀ unit ∈ gap, isBlank unit = true) (line : Text)
include blanks

/-- The arguments of a line that fits are found behind its blanks. -/
theorem tokens_before {maxArgs : Nat} (fits : (gap ++ line).length ≤ terminalMaxLine - 1) :
    tokens maxArgs (gap ++ line) = tokens maxArgs line := by
  have shorter : line.length ≤ terminalMaxLine - 1 := by
    rw [List.length_append] at fits
    omega
  rw [tokens, tokens, List.take_of_length_le fits, List.take_of_length_le shorter,
    runs_before isBlank blanks]

/-- Blanks contain no other unit. -/
theorem mem_before {unit : CHAR16} (solid : isBlank unit = false) :
    unit ∈ gap ++ line ↔ unit ∈ line := by
  have absent : unit ∉ gap := by
    intro member
    have blank := blanks unit member
    rw [solid] at blank
    cases blank
  rw [List.mem_append, or_iff_right absent]

/-- A single command is one with blanks in front. -/
theorem Single.before {argv : List Text} {line : Text} (single : Single line argv)
    (fits : (gap ++ line).length ≤ terminalMaxLine - 1) : Single (gap ++ line) argv := by
  obtain ⟨free, alone, unpiped, words⟩ := single
  constructor
  · exact (mem_before blanks line rfl).not.mpr free
  · exact (mem_before blanks line rfl).not.mpr alone
  · exact (mem_before blanks line rfl).not.mpr unpiped
  · exact (tokens_before blanks line fits).trans words

end Fronts

/-! ## The table -/

/-- A row that the word does not match may be replaced. -/
theorem dispatch_replaced (argv : List Text) {word : Memory} {names : List String}
    (unmatched : matchedName word names = some none) (front rest : List (List String × Routine σ Bool))
    (run other : Routine σ Bool) :
    dispatch fw argv word (front ++ (names, run) :: rest) =
      dispatch fw argv word (front ++ (names, other) :: rest) := by
  induction front with
  | nil =>
    rw [List.nil_append, List.nil_append, dispatch, dispatch, unmatched]
    rfl
  | cons row later ih =>
    rw [List.cons_append, List.cons_append, dispatch, dispatch, ih]

/-- Only `system` is given the text behind the first space. -/
theorem dispatch_args (execute : Memory → Routine σ Bool) (fuel : Nat) (argv : List Text)
    {word : Text} (solid : ∀ unit ∈ word, unit ≠ 0 ∧ unit ≠ space) (other : word ≠ text "system")
    (args args' : Memory) :
    dispatch fw argv (word ++ [0]) (commands fw execute fuel argv args) =
      dispatch fw argv (word ++ [0]) (commands fw execute fuel argv args') := by
  have named : ∀ name ∈ ["system"], (0 : CHAR16) ∉ text name := by decide
  have unmatched : matchedName (word ++ [0]) ["system"] = some none := by
    rw [matchedName_word solid ["system"] named]
    simp [other]
  exact dispatch_replaced argv unmatched ((commands fw execute fuel argv args).take 16)
    ((commands fw execute fuel argv args).drop 17) _ _

/-! ## Lines that do the same -/

section Same

variable {gap line : Text} (fuel : Nat) (blanks : ∀ unit ∈ gap, isBlank unit = true)
  (free : (0 : CHAR16) ∉ line)
include blanks free

/-- A line with an ampersand does the same, as its parts are trimmed. -/
theorem interpret_before_split (joined : ampersand ∈ line) :
    interpret fw parseFresh (fuel + 1) (gap ++ line ++ [0]) =
      interpret fw parseFresh (fuel + 1) (line ++ [0]) := by
  have wholeFree : (0 : CHAR16) ∉ gap ++ line := (mem_before blanks line rfl).not.mpr free
  obtain ⟨first, rest, rfl, unjoined⟩ := exists_segment joined
  have front : ampersand ∉ gap ++ first := (mem_before blanks first rfl).not.mpr unjoined
  have whole : scan (gap ++ (first ++ ampersand :: rest) ++ [0]) =
      some (gap ++ first ++ ampersand :: rest) := by
    rw [← List.append_assoc gap]
    exact scan_append _ [] (List.append_assoc gap first _ ▸ wholeFree)
  have copied : terminalCopySegment (gap ++ first) = terminalCopySegment first := by
    rw [terminalCopySegment, terminalCopySegment, trimmed_before blanks]
  rw [interpret_split fuel whole front, interpret_split fuel (scan_append _ [] free) unjoined, copied]

/-- A single command other than `system` does the same. -/
theorem interpret_before_single (fits : (gap ++ line).length ≤ terminalMaxLine - 1)
    (alone : ampersand ∉ line) (unpiped : bar ∉ line) {word : Text} {rest : List Text}
    (words : tokens terminalMaxArgs line = word :: rest) (other : word ≠ text "system") :
    interpret fw parseFresh (fuel + 1) (gap ++ line ++ [0]) =
      interpret fw parseFresh (fuel + 1) (line ++ [0]) := by
  have single : Single line (word :: rest) := ⟨free, alone, unpiped, words⟩
  have member : word ∈ tokens terminalMaxArgs line := words ▸ List.mem_cons_self
  obtain ⟨args, _, unfolded⟩ := interpret_single fw fuel single
  obtain ⟨args', _, unfolded'⟩ := interpret_single fw fuel (single.before blanks fits)
  rw [unfolded, unfolded']
  exact dispatch_args _ fuel (word :: rest) (tokens_solid free member) other args' args

/-- A line without words does nothing. -/
theorem interpret_before_empty (fits : (gap ++ line).length ≤ terminalMaxLine - 1)
    (alone : ampersand ∉ line) (unpiped : bar ∉ line) (words : tokens terminalMaxArgs line = []) :
    interpret fw parseFresh (fuel + 1) (gap ++ line ++ [0]) =
      interpret fw parseFresh (fuel + 1) (line ++ [0]) := by
  have single : Single line [] := ⟨free, alone, unpiped, words⟩
  rw [interpret_none fw fuel single, interpret_none fw fuel (single.before blanks fits)]

end Same

/-! ## Lines that only write -/

/-- What is observed of two routines that only write is the same, if and only if they write the
same texts or there is no console. -/
theorem observed_shown_iff {α : Type} {first second : Routine σ α} {texts texts' : List Text}
    {value : α} (shown : Shows fw texts value first) (shown' : Shows fw texts' value second)
    (machine : Machine σ) :
    observed (first.run machine) = observed (second.run machine) ↔
      canWrite machine = false ∨ texts = texts' := by
  rw [shown machine, shown' machine]
  obtain ⟨events, traced, wrote, _⟩ := afterWrites_trace fw machine texts
  obtain ⟨events', traced', wrote', _⟩ := afterWrites_trace fw machine texts'
  constructor
  · intro same
    have machines : (afterWrites fw machine texts).withLine (Vector.replicate 128 0) =
        (afterWrites fw machine texts').withLine (Vector.replicate 128 0) :=
      congrArg Prod.snd (Except.ok.inj same)
    have traces : (afterWrites fw machine texts).trace = (afterWrites fw machine texts').trace := by
      simpa [Machine.withLine] using congrArg Machine.trace machines
    rw [traced, traced'] at traces
    have sameEvents : events = events' := List.append_cancel_left traces
    cases console : canWrite machine with
    | false => exact Or.inl rfl
    | true =>
      rw [if_pos console] at wrote wrote'
      exact Or.inr (wrote.symm.trans (sameEvents ▸ wrote'))
  · rintro (silent | rfl)
    · rw [afterWrites_silent fw silent, afterWrites_silent fw silent]
    · rfl

/-! ## `system` -/

/-- What stands behind the first space of a line, and behind the spaces that follow it. -/
def argsOf (line : Text) : Text := (line.dropWhile (· ≠ space)).dropWhile (· = space)

/-- Skipping stops at the end of a string. -/
theorem skipWhile_text {kind skipped : CHAR16 → Bool} (stops : kind 0 = false) {line : Text}
    (same : ∀ unit ∈ line, kind unit = skipped unit) :
    skipWhile kind (line ++ [0]) = some (line.dropWhile skipped ++ [0]) := by
  induction line with
  | nil => simp [skipWhile, stops]
  | cons unit rest ih =>
    have tail := ih fun later member => same later (List.mem_cons_of_mem unit member)
    have first : kind unit = skipped unit := same unit List.mem_cons_self
    rw [List.cons_append, skipWhile, first]
    by_cases skips : skipped unit = true
    · rw [if_pos skips, tail, List.dropWhile_cons_of_pos skips]
    · rw [if_neg skips, List.dropWhile_cons_of_neg skips]
      rfl

/-- The arguments of a line are found, and are what `argsOf` says. -/
theorem terminalCommandArgs_exact {line : Text} (free : (0 : CHAR16) ∉ line) :
    terminalCommandArgs (line ++ [0]) = some (argsOf line ++ [0]) := by
  have front : skipWhile (fun unit => unit ≠ 0 && unit ≠ space) (line ++ [0]) =
      some (line.dropWhile (· ≠ space) ++ [0]) := by
    apply skipWhile_text (by decide)
    intro unit member
    have nonzero : unit ≠ 0 := fun zero => free (zero ▸ member)
    simp [nonzero]
  rw [terminalCommandArgs, front]
  exact skipWhile_text (by decide) fun _ _ => rfl

/-- The arguments contain nothing that the line does not. -/
theorem argsOf_subset (line : Text) : argsOf line ⊆ line :=
  List.Subset.trans (List.dropWhile_subset _) (List.dropWhile_subset _)

/-- What stands behind the first space is no longer than the line. -/
theorem argsOf_length (line : Text) : (argsOf line).length ≤ line.length :=
  (List.length_dropWhile_le _ _).trans (List.length_dropWhile_le _ _)

/-- Behind the first space, spaces in front do not matter. -/
theorem argsOf_space (line : Text) : argsOf (space :: line) = line.dropWhile (· = space) := by
  rw [argsOf, List.dropWhile_cons_of_neg (by simp), List.dropWhile_cons_of_pos (by simp)]

/-- Units in front of the first space do not matter. -/
theorem argsOf_before {front : Text} (spaceless : space ∉ front) (line : Text) :
    argsOf (front ++ line) = argsOf line := by
  have others : ∀ unit ∈ front, decide (unit ≠ space) = true := by
    intro unit member
    have other : unit ≠ space := fun same => spaceless (same ▸ member)
    simpa using other
  rw [argsOf, List.dropWhile_append_of_pos others, argsOf]

/-- Blanks in front leave what stands behind the first space as it is, if and only if there is no
space among them, or only spaces stand behind the first one and the line starts with a space
itself. -/
theorem argsOf_before_iff (gap : Text) {line : Text} (nonempty : line ≠ []) :
    argsOf (gap ++ line) = argsOf line ↔ space ∉ gap ∨
      line.head? = some space ∧ ∀ unit ∈ gap.dropWhile (· ≠ space), unit = space := by
  by_cases spaced : space ∈ gap
  · obtain ⟨front, later, rfl, spaceless⟩ := List.eq_append_cons_of_mem spaced
    obtain ⟨_, dropped⟩ := cut_first spaceless later
    have shown : argsOf (front ++ space :: later ++ line) = (later ++ line).dropWhile (· = space) := by
      rw [List.append_assoc, argsOf_before spaceless, List.cons_append, argsOf_space]
    have tailed : (∀ unit ∈ space :: later, unit = space) ↔
        ∀ unit ∈ later, decide (unit = space) = true := by simp
    rw [shown, dropped, tailed, or_iff_right (not_not.mpr spaced)]
    obtain ⟨first, tail, rfl⟩ := List.exists_cons_of_ne_nil nonempty
    constructor
    · intro same
      have lengths := congrArg List.length same
      by_cases spaces : ∀ unit ∈ later, decide (unit = space) = true
      · refine ⟨?_, spaces⟩
        by_contra otherHead
        have otherFirst : first ≠ space := fun isSpace => otherHead (congrArg some isSpace)
        have solid : space ∉ [first] := by simpa using otherFirst.symm
        have shorter := argsOf_length tail
        have skipped : argsOf (first :: tail) = argsOf tail := argsOf_before solid tail
        rw [List.dropWhile_append_of_pos spaces,
          List.dropWhile_cons_of_neg (by simpa using otherFirst), skipped, List.length_cons] at lengths
        omega
      · have kept : (later.dropWhile (· = space)).isEmpty = false := by
          rw [List.isEmpty_eq_false_iff]
          exact fun none => spaces (List.dropWhile_eq_nil_iff.mp none)
        have positive := List.length_pos_iff.mpr (List.isEmpty_eq_false_iff.mp kept)
        have shorter := argsOf_length (first :: tail)
        rw [List.dropWhile_append, kept, if_neg Bool.false_ne_true, List.length_append] at lengths
        omega
    · rintro ⟨starts, spaces⟩
      obtain rfl : first = space := Option.some.inj starts
      rw [List.dropWhile_append_of_pos spaces, argsOf_space, List.dropWhile_cons_of_pos (by simp)]
  · exact iff_of_true (argsOf_before spaced line) (Or.inl spaced)

/-- `system` prints what stands behind the first space of its line. -/
theorem system_shows (fw : Firmware σ) (fuel : Nat) {line : Text} {rest : List Text}
    (single : Single line (text "system" :: rest)) :
    ∃ row, interpret fw parseFresh (fuel + 1) (line ++ [0]) =
        (do record "system" (text "system" :: rest); row) ∧
      Shows fw [argsOf line, [carriageReturn, lineFeed]] false row := by
  obtain ⟨args, found, unfolded⟩ := interpret_system fw fuel single
  rw [terminalCommandArgs_exact single.free] at found
  obtain rfl := Option.some.inj found
  have free : (0 : CHAR16) ∉ argsOf line := fun zero => single.free (argsOf_subset line zero)
  exact ⟨_, unfolded, (shows_terminalWriteLine free).then (shows_pure false)⟩

/-! ## Pipelines -/

/-- How many blanks a line starts with. -/
def indent (line : Text) : Nat := (line.takeWhile isBlank).length

/-- How many units of its name stand behind the first five units of an `echo`. -/
def namedUnits (line : Text) : Nat := min (indent line - 1) 4

/-- Blanks in front of a line indent it further. -/
theorem indent_before {gap : Text} (blanks : ∀ unit ∈ gap, isBlank unit = true) (line : Text) :
    indent (gap ++ line) = gap.length + indent line := by
  rw [indent, List.takeWhile_append_of_pos blanks, List.length_append, indent]

/-- An `echo` is its name between blanks, with something behind. -/
theorem Echoes.parts {left : Text} (echoes : Echoes left) :
    ∃ front blank rest, left = front ++ (text "echo" ++ blank :: rest) ∧
      (∀ unit ∈ front, isBlank unit = true) ∧ isBlank blank = true := by
  obtain ⟨word, others, words⟩ := echoes
  obtain ⟨front, later, rfl, blanks, solid, same⟩ := exists_gap isBlank left
  obtain ⟨piece, more, rfl, free, ends⟩ := exists_piece isBlank later
  rw [words] at same
  have nonempty : piece ≠ [] := by
    rintro rfl
    cases more with
    | nil => cases same
    | cons unit rest =>
      have blank : isBlank unit = true := ends unit rfl
      rw [solid unit rfl] at blank
      cases blank
  rw [runs_piece isBlank nonempty free ends] at same
  obtain ⟨rfl, tail⟩ := List.cons.inj same
  cases more with
  | nil => cases tail
  | cons blank rest => exact ⟨front, blank, rest, rfl, blanks, ends blank rfl⟩

section Echoed

variable {front rest : Text} {blank : CHAR16}

/-- Behind the first five units of an `echo` stand the last units of its name, if it is indented. -/
theorem drop_echo (blanks : ∀ unit ∈ front, isBlank unit = true) (separates : isBlank blank = true) :
    trimmed ((front ++ (text "echo" ++ blank :: rest)).drop 5) =
      trimmed ((text "echo").drop (4 - min (front.length - 1) 4) ++ blank :: rest) := by
  have named : (text "echo").length = 4 := by decide
  have single : ∀ unit ∈ [blank], isBlank unit = true := by simpa using separates
  cases front with
  | nil => exact (trimmed_before single rest).symm
  | cons first others =>
    have dropped : ∀ unit ∈ (first :: others).drop 5, isBlank unit = true := fun unit member =>
      blanks unit (List.mem_of_mem_drop member)
    have count : 5 - (first :: others).length = 4 - min ((first :: others).length - 1) 4 := by
      rw [List.length_cons]
      omega
    have within : 4 - min ((first :: others).length - 1) 4 - 4 = 0 := by omega
    rw [List.drop_append, trimmed_before dropped, count, List.drop_append, named, within,
      List.drop_zero]

/-- An indented `echo` shows the end of its own name, because the code skips five units of the
line and not of the command. -/
theorem namedUnits_echo (blanks : ∀ unit ∈ front, isBlank unit = true) :
    namedUnits (front ++ (text "echo" ++ blank :: rest)) = min (front.length - 1) 4 := by
  rw [namedUnits, indent_before blanks]
  rfl

/-- The text of an `echo` tells how many units of its name it contains. -/
theorem namedUnits_inj (separates : isBlank blank = true) {count count' : Nat} (few : count ≤ 4)
    (few' : count' ≤ 4)
    (same : trimmed ((text "echo").drop (4 - count) ++ blank :: rest) =
      trimmed ((text "echo").drop (4 - count') ++ blank :: rest)) : count = count' := by
  have words := congrArg (runs isBlank) same
  rw [runs_trimmed, runs_trimmed, runs_append_cons isBlank _ separates,
    runs_append_cons isBlank _ separates] at words
  have told : ∀ count ≤ 4, ∀ count' ≤ 4, runs isBlank ((text "echo").drop (4 - count)) =
      runs isBlank ((text "echo").drop (4 - count')) → count = count' := by decide
  exact told count few count' few' (List.append_cancel_right words)

end Echoed

/-- A pattern without blanks is found in a text where it is found in the trimmed text. -/
theorem infix_trimmed {right pattern : Text} (greps : Greps right pattern) (shown : Text) :
    pattern <:+: trimmed shown ↔ pattern <:+: shown := by
  rw [infix_words greps, infix_words greps, runs_trimmed]

/-- With blanks in front, an `echo` is searched in a text that ends with the text without them, and
that is the same only if it contains as much of the name. -/
theorem drop_before {gap left : Text} (blanks : ∀ unit ∈ gap, isBlank unit = true)
    (echoes : Echoes left) :
    (trimmed (left.drop 5) = trimmed ((gap ++ left).drop 5) ↔
      namedUnits left = namedUnits (gap ++ left)) ∧
    ∀ {right pattern : Text}, Greps right pattern → pattern <:+: trimmed (left.drop 5) →
      pattern <:+: trimmed ((gap ++ left).drop 5) := by
  obtain ⟨front, blank, rest, rfl, fronts, separates⟩ := echoes.parts
  have both : ∀ unit ∈ gap ++ front, isBlank unit = true := by
    simpa [or_imp, forall_and] using ⟨blanks, fronts⟩
  rw [← List.append_assoc gap front, drop_echo fronts separates, drop_echo both separates,
    namedUnits_echo fronts, namedUnits_echo both]
  constructor
  · exact ⟨namedUnits_inj separates (Nat.min_le_right _ _) (Nat.min_le_right _ _),
      fun same => by rw [same]⟩
  · intro right pattern greps
    rw [infix_trimmed greps, infix_trimmed greps]
    have fewer : 4 - min ((gap ++ front).length - 1) 4 ≤ 4 - min (front.length - 1) 4 := by
      rw [List.length_append]
      omega
    have ending : (text "echo").drop (4 - min (front.length - 1) 4) <:+
        (text "echo").drop (4 - min ((gap ++ front).length - 1) 4) :=
      List.drop_suffix_drop_left _ fewer
    obtain ⟨more, split⟩ := ending
    intro within
    rw [← split, List.append_assoc]
    exact within.trans (List.suffix_append more _).isInfix

/-- The texts that a pipeline writes: one line if its text contains the pattern, and none
otherwise. -/
def searchedTexts (left pattern : Text) : List Text :=
  if pattern <:+: trimmed (left.drop 5) then
    [trimmed (left.drop 5), [carriageReturn, lineFeed]]
  else []

/-- With blanks in front a pipeline writes the same, if and only if as much of the name is in its
text or nothing is found. -/
theorem searchedTexts_before_iff {gap left right pattern : Text}
    (blanks : ∀ unit ∈ gap, isBlank unit = true) (echoes : Echoes left) (greps : Greps right pattern) :
    searchedTexts (gap ++ left) pattern = searchedTexts left pattern ↔
      namedUnits left = namedUnits (gap ++ left) ∨ ¬ pattern <:+: (gap ++ left).drop 5 := by
  obtain ⟨same, more⟩ := drop_before blanks echoes
  have unfound := (infix_trimmed greps ((gap ++ left).drop 5)).symm.not
  rw [searchedTexts, searchedTexts, ← same, unfound]
  by_cases within : pattern <:+: trimmed ((gap ++ left).drop 5)
  · rw [if_pos within, or_iff_left (not_not.mpr within)]
    by_cases before : pattern <:+: trimmed (left.drop 5)
    · rw [if_pos before]
      simp [eq_comm]
    · rw [if_neg before]
      exact iff_of_false (List.cons_ne_nil _ _) fun equal => before (equal ▸ within)
  · rw [if_neg within, if_neg fun before => within (more greps before)]
    exact iff_of_true rfl (Or.inr within)

/-! ## The same effect -/

/-- Two command lines have the same effect, if the same is observed of them with any fuel. -/
def SameEffect (fw : Firmware σ) (machine : Machine σ) (command other : Memory) : Prop :=
  ∀ fuel, observed ((terminalExecuteCommand fw fuel command).run machine) =
    observed ((terminalExecuteCommand fw fuel other).run machine)

/-- Blanks in front of a line do not change what it writes: a `system` does not have its first
space among them, and a pipeline finds nothing behind its first five units or has as much of its
name there anyway. -/
structure Harmless (gap line : Text) : Prop where
  system : ampersand ∉ line → commandOf line = some (text "system") → space ∉ gap ∨
    line.head? = some space ∧ ∀ unit ∈ gap.dropWhile (· ≠ space), unit = space
  piped : ampersand ∉ line → ∀ {left right pattern : Text}, Piped line left right → Echoes left →
    Greps right pattern →
      namedUnits left = namedUnits (gap ++ left) ∨ ¬ pattern <:+: (gap ++ left).drop 5

/-- The effect of a line is that of the interpreter with words in memory of their own. -/
theorem sameEffect_iff (machine : Machine σ) (command other : Memory) :
    SameEffect fw machine command other ↔
      ∀ fuel, observed ((interpret fw parseFresh (fuel + 1) command).run machine) =
        observed ((interpret fw parseFresh (fuel + 1) other).run machine) := by
  constructor
  · intro same fuel
    rw [← lineBuffer_unobservable, ← lineBuffer_unobservable]
    exact same (fuel + 1)
  · intro same fuel
    rw [lineBuffer_unobservable, lineBuffer_unobservable]
    cases fuel with
    | zero => rfl
    | succ fuel => exact same fuel

/-- Where the same condition decides with every fuel, it decides. -/
theorem sameEffect_each {machine : Machine σ} {command other : Memory} {condition : Prop}
    (each : ∀ fuel, observed ((interpret fw parseFresh (fuel + 1) command).run machine) =
      observed ((interpret fw parseFresh (fuel + 1) other).run machine) ↔ condition) :
    SameEffect fw machine command other ↔ condition := by
  rw [sameEffect_iff]
  exact ⟨fun same => (each 0).mp (same 0), fun same fuel => (each fuel).mpr same⟩

/-- A line falls apart at its first bar in one way. -/
theorem Piped.unique {line left right left' right' : Text} (piped : Piped line left right)
    (piped' : Piped line left' right') : left' = left ∧ right' = right := by
  have lefts : ∀ {left right : Text}, Piped line left right → line.takeWhile (· ≠ bar) = left := by
    intro left right piped
    obtain ⟨rfl, first, _, _⟩ := piped
    exact (cut_first first right).1
  obtain rfl : left' = left := (lefts piped').symm.trans (lefts piped)
  have same := piped'.split.symm.trans piped.split
  exact ⟨rfl, (List.cons.inj (List.append_cancel_left same)).2⟩

/-- A pipeline is one with blanks in front. -/
theorem Piped.before {gap line left right : Text} (piped : Piped line left right)
    (blanks : ∀ unit ∈ gap, isBlank unit = true)
    (fits : (gap ++ line).length ≤ terminalMaxLine - 1) :
    Piped (gap ++ line) (gap ++ left) right := by
  constructor
  · rw [piped.split, List.append_assoc]
  · exact (mem_before blanks left rfl).not.mpr piped.first
  · exact (mem_before blanks line rfl).not.mpr piped.free
  · exact fits

section Law

variable (fw) {gap line : Text} (blanks : ∀ unit ∈ gap, isBlank unit = true)
  (free : (0 : CHAR16) ∉ line) (fits : (gap ++ line).length ≤ terminalMaxLine - 1)
include blanks free fits

/-- Blanks in front of a pipeline: they matter exactly if its text shows the end of the name
`echo`. -/
theorem pipeline_before_iff (alone : ampersand ∉ line) {left right : Text}
    (piped : Piped line left right) (machine : Machine σ) :
    SameEffect fw machine (gap ++ line ++ [0]) (line ++ [0]) ↔
      canWrite machine = false ∨ ∀ pattern, Echoes left → Greps right pattern →
        namedUnits left = namedUnits (gap ++ left) ∨ ¬ pattern <:+: (gap ++ left).drop 5 := by
  have wholeFree : (0 : CHAR16) ∉ gap ++ line := (mem_before blanks line rfl).not.mpr free
  have wholeAlone : ampersand ∉ gap ++ line := (mem_before blanks line rfl).not.mpr alone
  have wholePiped := piped.before blanks fits
  have sameLeft : Echoes (gap ++ left) ↔ Echoes left := by
    rw [Echoes, Echoes, runs_before isBlank blanks]
  have writes : ∀ {texts texts' : List Text},
      Shows fw texts true (terminalTryPipeline fw parseFresh (gap ++ line)) →
      Shows fw texts' true (terminalTryPipeline fw parseFresh line) →
      (SameEffect fw machine (gap ++ line ++ [0]) (line ++ [0]) ↔
        canWrite machine = false ∨ texts = texts') := by
    intro texts texts' shown shown'
    apply sameEffect_each
    exact fun fuel => observed_shown_iff (interpret_piped fuel wholeFree wholeAlone shown)
      (interpret_piped fuel free alone shown') machine
  by_cases echoes : Echoes left
  · have wholeEchoes := sameLeft.mpr echoes
    by_cases searches : ∃ pattern, Greps right pattern
    · obtain ⟨pattern, greps⟩ := searches
      have only : ∀ other, Greps right other → other = pattern := by
        intro other greps'
        have words : [text "grep", other] = [text "grep", pattern] := greps'.symm.trans greps
        simpa using words
      rw [writes (pipeline_shows wholePiped wholeEchoes greps) (pipeline_shows piped echoes greps)]
      have texts := searchedTexts_before_iff blanks echoes greps
      rw [searchedTexts, searchedTexts] at texts
      rw [texts]
      constructor
      · rintro (silent | same)
        · exact Or.inl silent
        · exact Or.inr fun other _ greps' => only other greps' ▸ same
      · rintro (silent | same)
        · exact Or.inl silent
        · exact Or.inr (same pattern echoes greps)
    · have blind : ∀ pattern, ¬ Greps right pattern := fun pattern greps => searches ⟨pattern, greps⟩
      rw [writes (pipeline_unsearched wholePiped wholeEchoes blind)
        (pipeline_unsearched piped echoes blind)]
      exact iff_of_true (Or.inr rfl) (Or.inr fun pattern _ greps => absurd greps (blind pattern))
  · rw [writes (pipeline_unechoed wholePiped (sameLeft.not.mpr echoes))
      (pipeline_unechoed piped echoes)]
    exact iff_of_true (Or.inr rfl) (Or.inr fun _ isEcho => absurd isEcho echoes)

/-- Blanks in front of `system`: they matter exactly if the arguments then begin with its own
name. -/
theorem system_before_iff {rest : List Text} (single : Single line (text "system" :: rest))
    (machine : Machine σ) :
    SameEffect fw machine (gap ++ line ++ [0]) (line ++ [0]) ↔
      canWrite machine = false ∨ space ∉ gap ∨
        line.head? = some space ∧ ∀ unit ∈ gap.dropWhile (· ≠ space), unit = space := by
  have nonempty : line ≠ [] := by
    rintro rfl
    cases single.words
  have texts : [argsOf (gap ++ line), [carriageReturn, lineFeed]] =
      [argsOf line, [carriageReturn, lineFeed]] ↔ argsOf (gap ++ line) = argsOf line := by simp
  rw [← argsOf_before_iff gap nonempty]
  apply sameEffect_each
  intro fuel
  obtain ⟨row, unfolded, shown⟩ := system_shows fw fuel single
  obtain ⟨row', unfolded', shown'⟩ := system_shows fw fuel (single.before blanks fits)
  rw [unfolded, unfolded', run_bind_of_ok (run_record _ _ machine),
    run_bind_of_ok (run_record _ _ machine), observed_shown_iff shown' shown, texts]
  rfl

end Law

/-! ## Which blanks do no harm -/

/-- In front of an ampersand no blanks do harm. -/
theorem harmless_joined (gap : Text) {line : Text} (joined : ampersand ∈ line) : Harmless gap line :=
  ⟨fun alone => absurd joined alone, fun alone => absurd joined alone⟩

/-- What is required of blanks in front of a pipeline. -/
theorem harmless_piped_iff (gap : Text) {line left right : Text} (alone : ampersand ∉ line)
    (piped : Piped line left right) : Harmless gap line ↔
      ∀ pattern, Echoes left → Greps right pattern →
        namedUnits left = namedUnits (gap ++ left) ∨ ¬ pattern <:+: (gap ++ left).drop 5 := by
  have barred : bar ∈ line := by simp [piped.split]
  have unnamed : commandOf line = none := if_pos barred
  constructor
  · exact fun harmless pattern echoes greps => harmless.piped alone piped echoes greps
  · intro required
    constructor
    · intro _ named
      rw [unnamed] at named
      cases named
    · intro _ left' right' pattern piped' echoes greps
      obtain ⟨rfl, rfl⟩ := piped.unique piped'
      exact required pattern echoes greps

/-- What is required of blanks in front of a single command. -/
theorem harmless_single_iff (gap : Text) {line : Text} (alone : ampersand ∉ line)
    (unpiped : bar ∉ line) : Harmless gap line ↔
      ((tokens terminalMaxArgs line).head? = some (text "system") → space ∉ gap ∨
        line.head? = some space ∧ ∀ unit ∈ gap.dropWhile (· ≠ space), unit = space) := by
  have named : commandOf line = (tokens terminalMaxArgs line).head? := if_neg unpiped
  constructor
  · exact fun harmless isSystem => harmless.system alone (named.trans isSystem)
  · intro required
    constructor
    · exact fun _ isSystem => required (named.symm.trans isSystem)
    · intro _ left right pattern piped
      exact absurd (by simp [piped.split]) unpiped

/-- Blanks in front of a command line do not matter, if and only if there is no console or they
do not change what the line writes. Two commands look at the line and not at its words: `system`,
whose arguments begin behind the first space, and the pipeline, which skips the first five units. -/
theorem blanks_harmless_iff (fw : Firmware σ) {gap line : Text}
    (blanks : ∀ unit ∈ gap, isBlank unit = true) (free : (0 : CHAR16) ∉ line)
    (fits : (gap ++ line).length ≤ 127) (machine : Machine σ) :
    SameEffect fw machine (gap ++ line ++ [0]) (line ++ [0]) ↔
      canWrite machine = false ∨ Harmless gap line := by
  have same : (∀ fuel, interpret fw parseFresh (fuel + 1) (gap ++ line ++ [0]) =
      interpret fw parseFresh (fuel + 1) (line ++ [0])) →
      SameEffect fw machine (gap ++ line ++ [0]) (line ++ [0]) := by
    intro equal
    rw [sameEffect_iff]
    exact fun fuel => by rw [equal fuel]
  by_cases joined : ampersand ∈ line
  · have effect := same fun fuel => interpret_before_split fuel blanks free joined
    exact iff_of_true effect (Or.inr (harmless_joined gap joined))
  · by_cases barred : bar ∈ line
    · obtain ⟨left, right, split, first⟩ := List.eq_append_cons_of_mem barred
      have shorter : line.length ≤ terminalMaxLine - 1 := by
        rw [List.length_append] at fits
        exact (Nat.le_add_left _ _).trans fits
      have piped : Piped line left right := ⟨split, first, free, shorter⟩
      rw [harmless_piped_iff gap joined piped]
      exact pipeline_before_iff fw blanks free fits joined piped machine
    · rw [harmless_single_iff gap joined barred]
      cases words : tokens terminalMaxArgs line with
      | nil =>
        have effect := same fun fuel =>
          interpret_before_empty fuel blanks free fits joined barred words
        exact iff_of_true effect (Or.inr fun isSystem => by cases isSystem)
      | cons word rest =>
        rw [List.head?_cons, Option.some_inj]
        by_cases isSystem : word = text "system"
        · subst isSystem
          rw [system_before_iff fw blanks free fits ⟨free, joined, barred, words⟩ machine]
          simp
        · have effect := same fun fuel =>
            interpret_before_single fuel blanks free fits joined barred words isSystem
          exact iff_of_true effect (Or.inr fun named => absurd named isSystem)

/-- A space in front of a list of commands does no harm, though the second one is a `system`. -/
theorem blanks_harmless_list :
    SameEffect Volume.quiet (Machine.entered ()) (text " " ++ text "ver & system x" ++ [0])
      (text "ver & system x" ++ [0]) :=
  (blanks_harmless_iff Volume.quiet oneSpace (by decide) (by decide) (Machine.entered ())).mpr
    (Or.inr (harmless_joined (text " ") (by decide)))

/-- With a space in front, `system` prints its own name. -/
theorem system_prints_itself :
    ¬ SameEffect Volume.quiet (Machine.entered ()) (text " " ++ text "system x" ++ [0])
      (text "system x" ++ [0]) := by
  have single : Single (text "system x") [text "system", text "x"] := by
    constructor <;> decide
  rw [system_before_iff Volume.quiet oneSpace (by decide) (by decide) single]
  have console : canWrite (Machine.entered ()) = true := rfl
  rw [console]
  decide

end ExistentOS.Terminal
