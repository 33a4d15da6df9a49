import Mathlib.Data.List.Forall2
import ExistentOS.Library.Coupled
import ExistentOS.Library.Runs
import ExistentOS.Terminal.Parsing

/-!
# Tokens

`terminal_parse_command` as a function of the text of its line: the words between the
blanks of the units that fit into the line buffer, at most so many. The loop of the source
leaves in the line buffer a string for each of them, and puts later terminators behind
the earlier words only.
-/

namespace ExistentOS.Terminal

open Programs Terminated Runs

variable {σ α : Type}

/-- A token of its own. -/
instance : Word Text := ⟨fun _ token => token ++ [0]⟩

/-- The words of a line, as many as there is room for, of the units that the line buffer has room
for. -/
def tokens (maxArgs : Nat) (line : Text) : List Text :=
  (runs isBlank (line.take (terminalMaxLine - 1))).take maxArgs

/-- `terminal_parse_command` with words in memory of their own. This is the specification of the
words, and not what the source does. -/
def parseFresh (command : Memory) (maxArgs : Nat) : Routine σ (List Text) := do
  let line ← orOverrun (scan command)
  return tokens maxArgs line

/-- The place of the line buffer holds the token, with a terminator behind it. -/
def HoldsToken (buffer : Vector CHAR16 128) (place : Nat) (token : Text) : Prop :=
  scan (buffer.toList.drop place) = some token

/-- The tokens do not overlap: each ends, with its terminator, in front of the later places. -/
def Apart (argv : List Nat) (found : List Text) : Prop :=
  (argv.zip found).Pairwise fun first second => first.1 + first.2.length < second.1

/-! ## The loop over the words -/

/-- Units of a kind are skipped up to the first one of another kind. -/
theorem skipWhile_exact (kind : CHAR16 → Bool) (piece : Text) (unit : CHAR16) (rest : Memory)
    (within : ∀ unit ∈ piece, kind unit = true) (behind : kind unit = false) :
    skipWhile kind (piece ++ unit :: rest) = some (unit :: rest) := by
  induction piece with
  | nil => simp [skipWhile, behind]
  | cons first later ih =>
    have skipped : kind first = true := within first List.mem_cons_self
    have tail := ih fun unit member => within unit (List.mem_cons_of_mem first member)
    simpa [skipWhile, skipped] using tail

/-- The cursor moves over units of a kind up to the first one of another kind. -/
theorem advance_exact (kind : CHAR16 → Bool) (buffer : Vector CHAR16 128) (before piece : Text)
    (unit : CHAR16) (rest : Memory) (stored : buffer.toList = before ++ (piece ++ unit :: rest))
    (within : ∀ unit ∈ piece, kind unit = true) (behind : kind unit = false) :
    advance kind buffer before.length = some (before.length + piece.length) := by
  have width : 128 = before.length + (piece.length + (rest.length + 1)) := by
    have lengths := congrArg List.length stored
    simpa using lengths
  rw [advance, stored, List.drop_left, skipWhile_exact kind piece unit rest within behind]
  simp only [Option.map_some, terminalMaxLine, List.length_cons, Option.some.injEq]
  omega

/-- A unit of the buffer known by what stands in front of it. -/
theorem buffer_get {buffer : Vector CHAR16 128} {before rest : Memory} {unit : CHAR16}
    (stored : buffer.toList = before ++ unit :: rest) : buffer[before.length]? = some unit := by
  have found : buffer.toList[before.length]? = some unit := by
    rw [stored]
    simp
  simpa using found

/-- A unit of a text without terminators is a blank or a unit of a word. -/
theorem isWord_of {unit : CHAR16} (nonzero : unit ≠ 0) (solid : isBlank unit = false) :
    isWord unit = true := by
  simp [isWord, nonzero, solid]

/-- The blanks end in front of the next word or of the terminator. -/
theorem exists_stop {further : Text} (next : ∀ unit ∈ further.head?, isBlank unit = false)
    (rest : Memory) :
    ∃ stop behind, further ++ 0 :: rest = stop :: behind ∧ isBlank stop = false := by
  cases further with
  | nil => exact ⟨0, rest, rfl, rfl⟩
  | cons stop others => exact ⟨stop, _, rfl, next stop rfl⟩

/-- A word does not start with a terminator. -/
theorem word_starts {buffer : Vector CHAR16 128} {before word : Text} {behind : Memory}
    (stored : buffer.toList = before ++ (word ++ behind)) (nonempty : word ≠ [])
    (ofWord : ∀ unit ∈ word, isWord unit = true) :
    ∃ unit, buffer[before.length]? = some unit ∧ unit ≠ 0 := by
  obtain ⟨unit, others, rfl⟩ := List.exists_cons_of_ne_nil nonempty
  refine ⟨unit, buffer_get stored, ?_⟩
  rintro rfl
  have terminator : isWord 0 = false := by decide
  rw [ofWord 0 List.mem_cons_self] at terminator
  cases terminator

/-- A word that ends the line is the only one left. -/
theorem words_last (left : Nat) {buffer : Vector CHAR16 128} {before word : Text} {rest : Memory}
    (stored : buffer.toList = before ++ (word ++ 0 :: rest)) (nonempty : word ≠ [])
    (ofWord : ∀ unit ∈ word, isWord unit = true) :
    words (left + 1) buffer before.length = some ([before.length], buffer) := by
  have ending : advance isWord buffer before.length = some (before.length + word.length) :=
    advance_exact isWord buffer before word 0 rest stored ofWord (by decide)
  have last : buffer[before.length + word.length]? = some 0 := by
    rw [← List.length_append]
    exact buffer_get (stored.trans (List.append_assoc before word (0 :: rest)).symm)
  obtain ⟨unit, first, started⟩ := word_starts stored nonempty ofWord
  simp [words, first, started, ending, last]

/-- A word with a blank behind it is cut off there, and the loop goes on behind the blanks. -/
theorem words_next (left : Nat) {buffer : Vector CHAR16 128} {before word gap : Text}
    {blank stop : CHAR16} {behind : Memory}
    (stored : buffer.toList = before ++ (word ++ blank :: (gap ++ stop :: behind)))
    (nonempty : word ≠ []) (ofWord : ∀ unit ∈ word, isWord unit = true)
    (separates : isBlank blank = true) (inside : blank ≠ 0)
    (blanks : ∀ unit ∈ gap, isBlank unit = true) (solid : isBlank stop = false) :
    ∃ cut : Vector CHAR16 128, cut.toList = before ++ word ++ [0] ++ gap ++ stop :: behind ∧
      words (left + 1) buffer before.length =
        (words left cut (before ++ word ++ [0] ++ gap).length).map
          fun found => (before.length :: found.1, found.2) := by
  have ending : advance isWord buffer before.length = some (before.length + word.length) :=
    advance_exact isWord buffer before word blank _ stored ofWord (by simp [isWord, separates])
  have last : buffer[before.length + word.length]? = some blank := by
    rw [← List.length_append]
    exact buffer_get (stored.trans (List.append_assoc before word _).symm)
  have cut : (buffer.setIfInBounds (before.length + word.length) 0).toList =
      before ++ word ++ [0] ++ (gap ++ stop :: behind) := by
    rw [Vector.toList_setIfInBounds, stored, ← List.append_assoc, ← List.length_append,
      set_after_prefix]
    simp
  have counted : (before ++ word ++ [0]).length = before.length + word.length + 1 := by
    rw [List.length_append, List.length_append, List.length_singleton]
  have onwards : advance isBlank (buffer.setIfInBounds (before.length + word.length) 0)
      (before.length + word.length + 1) = some (before ++ word ++ [0] ++ gap).length := by
    rw [List.length_append, ← counted]
    exact advance_exact isBlank _ (before ++ word ++ [0]) gap stop behind cut blanks solid
  refine ⟨_, cut.trans (List.append_assoc _ gap _).symm, ?_⟩
  obtain ⟨unit, first, started⟩ := word_starts stored nonempty ofWord
  simp only [words, first, started, ending, last, inside, onwards, Option.bind_eq_bind,
    Option.bind_some, if_false, Option.map_eq_bind]
  rfl

/-- The loop over the words finds the words of the text, and what stands in front of the cursor
stays.

Induct over the number of words that are still admitted. -/
theorem words_exact (left : Nat) (buffer : Vector CHAR16 128) (before text : Text) (rest : Memory)
    (stored : buffer.toList = before ++ (text ++ 0 :: rest)) (free : (0 : CHAR16) ∉ text)
    (solid : ∀ unit ∈ text.head?, isBlank unit = false) :
    ∃ argv parsed behind, words left buffer before.length = some (argv, parsed) ∧
      parsed.toList = before ++ behind ∧
      List.Forall₂ (HoldsToken parsed) argv ((runs isBlank text).take left) ∧
      Apart argv ((runs isBlank text).take left) ∧ ∀ place ∈ argv, before.length ≤ place := by
  induction left generalizing buffer before text with
  | zero => exact ⟨[], buffer, _, rfl, stored, by simp [Apart]⟩
  | succ left ih =>
    cases text with
    | nil =>
      have first : buffer[before.length]? = some 0 := buffer_get stored
      exact ⟨[], buffer, _, by simp [words, first], stored, by simp [Apart]⟩
    | cons unit tail =>
      have nonzero : ∀ found ∈ unit :: tail, found ≠ 0 := fun _ member zero => free (zero ▸ member)
      have opening : isBlank unit = false := solid unit rfl
      obtain ⟨word, later, split, pieces, ends⟩ := exists_piece isBlank (unit :: tail)
      have nonempty : word ≠ [] := by
        rintro rfl
        have blank := ends unit (by rw [← List.nil_append later, ← split]; rfl)
        rw [opening] at blank
        cases blank
      rw [split] at stored nonzero ⊢
      have ofWord : ∀ unit ∈ word, isWord unit = true := fun found member =>
        isWord_of (nonzero found (List.mem_append_left later member)) (pieces found member)
      have wordFree : (0 : CHAR16) ∉ word := fun member =>
        nonzero 0 (List.mem_append_left later member) rfl
      cases later with
      | nil =>
        rw [List.append_nil] at stored ⊢
        refine ⟨[before.length], buffer, _, words_last left stored nonempty ofWord, stored, ?_⟩
        have held : HoldsToken buffer before.length word := by
          rw [HoldsToken, stored, List.drop_left]
          exact scan_append word rest wordFree
        rw [runs_single isBlank nonempty pieces]
        simpa [Apart] using held
      | cons blank more =>
        have separates : isBlank blank = true := ends blank rfl
        have inside : blank ≠ 0 := nonzero blank (by simp)
        obtain ⟨gap, further, parts, blanks, next, same⟩ := exists_gap isBlank more
        obtain ⟨stop, behindGap, stopped, solidStop⟩ := exists_stop next rest
        rw [List.append_assoc, List.cons_append, parts, List.append_assoc, stopped] at stored
        obtain ⟨cut, layout, stepped⟩ :=
          words_next left stored nonempty ofWord separates inside blanks solidStop
        rw [← stopped] at layout
        obtain ⟨argv, parsed, behind, ran, kept, held, apart, later⟩ := ih cut
          (before ++ word ++ [0] ++ gap) further layout
          (fun member => nonzero 0 (by simp [parts, member]) rfl) next
        have beyond : ∀ place ∈ argv, before.length + word.length < place := by
          intro place member
          have least := later place member
          simp only [List.length_append, List.length_singleton] at least
          omega
        refine ⟨before.length :: argv, parsed, word ++ 0 :: (gap ++ behind), ?_, ?_, ?_, ?_, ?_⟩
        · rw [stepped, ran]
          rfl
        · rw [kept]
          simp
        · rw [runs_first isBlank nonempty pieces separates more, List.take_succ_cons, ← same]
          refine List.Forall₂.cons ?_ held
          rw [HoldsToken, kept]
          simp only [List.append_assoc, List.drop_left]
          exact scan_append word _ wordFree
        · rw [runs_first isBlank nonempty pieces separates more, List.take_succ_cons, ← same]
          refine List.Pairwise.cons (fun found member => ?_) apart
          exact beyond found.1 (List.of_mem_zip member).1
        · intro place member
          rcases List.mem_cons.mp member with rfl | member
          · exact le_rfl
          · exact Nat.le_of_add_right_le (beyond place member).le

/-- The steps of `terminal_parse_command` on a line buffer: the words of the line that fits are
in the buffer afterwards. -/
theorem parse_exact (line : Vector CHAR16 128) {command : Memory} {text : Text}
    (readable : scan command = some text) (maxArgs : Nat) :
    ∃ copied start argv parsed, copy line command = some copied ∧
      advance isBlank copied 0 = some start ∧ words maxArgs copied start = some (argv, parsed) ∧
      List.Forall₂ (HoldsToken parsed) argv (tokens maxArgs text) ∧
      Apart argv (tokens maxArgs text) := by
  obtain ⟨copied, ran⟩ := copy_succeeds line command text readable
  have stored := scan_copy line copied command text readable ran
  obtain ⟨free, rest, split⟩ := scan_split _ _ stored
  obtain ⟨gap, later, parts, blanks, solid, same⟩ := exists_gap isBlank (text.take 127)
  have layout : copied.toList = gap ++ (later ++ 0 :: rest) := by
    rw [split, parts, List.append_assoc]
  have laterFree : (0 : CHAR16) ∉ later := fun member =>
    free (parts ▸ List.mem_append_right gap member)
  obtain ⟨stop, behind, stopped, solidStop⟩ := exists_stop solid rest
  have started : advance isBlank copied 0 = some gap.length := by
    have moved := advance_exact isBlank copied [] gap stop behind
      (by rw [layout, stopped]; rfl) blanks solidStop
    simpa using moved
  obtain ⟨argv, parsed, _, found, _, held, apart, _⟩ :=
    words_exact maxArgs copied gap later rest layout laterFree solid
  rw [same] at held apart
  exact ⟨copied, gap.length, argv, parsed, ran, started, found, held, apart⟩

/-- `terminal_parse_command` finds the maximal runs of units other than blanks in the first 127
units of its command, as many as there is room for, and leaves them in disjoint parts of the line
buffer. So no word can be changed through another one. -/
theorem terminalParseCommand_runs {command : Memory} {text : Text}
    (readable : scan command = some text) (maxArgs : Nat) (machine : Machine σ) :
    ∃ argv parsed, (terminalParseCommand command maxArgs).run machine =
        .ok (argv, { machine with terminal := { machine.terminal with line := parsed } }) ∧
      argv.length = min maxArgs (runs isBlank (text.take 127)).length ∧
      List.Forall₂ (HoldsToken parsed) argv ((runs isBlank (text.take 127)).take maxArgs) ∧
      Apart argv ((runs isBlank (text.take 127)).take maxArgs) := by
  obtain ⟨copied, start, argv, parsed, ran, started, found, held, apart⟩ :=
    parse_exact machine.terminal.line readable maxArgs
  refine ⟨argv, parsed, ?_, ?_, held, apart⟩
  · have entered : (get : Routine σ (Machine σ)).run machine = .ok (machine, machine) := rfl
    rw [terminalParseCommand, run_bind_of_ok entered, ran, run_orOverrun_bind, started,
      run_orOverrun_bind, found, run_orOverrun_bind]
    rfl
  · rw [held.length_eq, tokens, List.length_take]
    rfl

/-- The words of a line with a blank in front. -/
theorem terminalParseCommand_runs_two : ∃ argv after,
    (terminalParseCommand (constant " cd  x ") 8).run (Machine.entered ()) = .ok (argv, after) ∧
      argv.length = 2 := by
  have readable : scan (constant " cd  x ") = some (text " cd  x ") := by decide
  obtain ⟨argv, parsed, ran, counted, _⟩ :=
    terminalParseCommand_runs readable 8 (Machine.entered ())
  exact ⟨argv, _, ran, counted.trans (by decide)⟩

end ExistentOS.Terminal
