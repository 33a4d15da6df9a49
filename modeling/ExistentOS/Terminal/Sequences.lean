import ExistentOS.Terminal.LineEditing
import ExistentOS.Terminal.Nesting

/-!
# Lists of commands

A line with ampersands is run segment by segment. The interpreter splits at the first
ampersand only and calls itself for the trimmed remainder, so the segments that it finds
in the end are those of the whole line: trimming does not move a segment, and no segment
of a line that fits is cut.
-/

namespace ExistentOS.Terminal

open Programs Terminated

variable {σ α : Type}

/-! ## Trimming -/

/-- Blanks in front do not matter to a trimmed segment. -/
theorem trimmed_before {gap : Text} (blanks : ∀ unit ∈ gap, isBlank unit = true) (segment : Text) :
    trimmed (gap ++ segment) = trimmed segment := by
  rw [trimmed, List.dropWhile_append_of_pos blanks, trimmed]

/-- Blanks behind do not matter to a trimmed segment. -/
theorem trimmed_behind {gap : Text} (blanks : ∀ unit ∈ gap, isBlank unit = true) (segment : Text) :
    trimmed (segment ++ gap) = trimmed segment := by
  have reversed : ∀ unit ∈ gap.reverse, isBlank unit = true :=
    fun unit member => blanks unit (List.mem_reverse.mp member)
  rw [trimmed, trimmed, List.dropWhile_append]
  by_cases empty : (segment.dropWhile isBlank).isEmpty = true
  · have none : segment.dropWhile isBlank = [] := List.isEmpty_iff.mp empty
    have gone : gap.dropWhile isBlank = [] := List.dropWhile_eq_nil_iff.mpr blanks
    rw [if_pos empty, none, gone]
  · rw [if_neg empty, List.reverse_append, List.dropWhile_append_of_pos reversed]

/-- A segment is what is left of it between blanks. -/
theorem exists_trimmed (segment : Text) : ∃ before behind,
    segment = before ++ trimmed segment ++ behind ∧
    (∀ unit ∈ before, isBlank unit = true) ∧ ∀ unit ∈ behind, isBlank unit = true := by
  refine ⟨segment.takeWhile isBlank,
    ((segment.dropWhile isBlank).reverse.takeWhile isBlank).reverse, ?_, ?_, ?_⟩
  · have kept : trimmed segment ++ ((segment.dropWhile isBlank).reverse.takeWhile isBlank).reverse =
        segment.dropWhile isBlank := by
      rw [trimmed, ← List.reverse_append, List.takeWhile_append_dropWhile, List.reverse_reverse]
    rw [List.append_assoc, kept, List.takeWhile_append_dropWhile]
  · exact fun unit member => List.mem_takeWhile_imp member
  · exact fun unit member => List.mem_takeWhile_imp (List.mem_reverse.mp member)

/-- Trimming adds no unit. -/
theorem trimmed_subset (segment : Text) : trimmed segment ⊆ segment := by
  intro unit member
  obtain ⟨before, behind, same, _, _⟩ := exists_trimmed segment
  rw [same]
  exact List.mem_append_left behind (List.mem_append_right before member)

/-- Trimming makes a segment no longer. -/
theorem trimmed_length (segment : Text) : (trimmed segment).length ≤ segment.length := by
  obtain ⟨before, behind, same, _, _⟩ := exists_trimmed segment
  have lengths := congrArg List.length same
  rw [List.length_append, List.length_append] at lengths
  omega

/-- A segment that fits is not cut, only trimmed. -/
theorem terminalCopySegment_fits {segment : Text} (fits : segment.length ≤ terminalMaxLine - 1) :
    terminalCopySegment segment = trimmed segment ++ [0] := by
  rw [terminalCopySegment, List.take_of_length_le (Nat.le_trans (trimmed_length segment) fits)]

/-! ## Segments -/

/-- The segments of a line between its ampersands, without the blanks around them. -/
def segments (line : Text) : List Text := (line.splitOn ampersand).map trimmed

/-- A line has at least one segment, which may be empty. -/
theorem segments_nonempty (line : Text) : segments line ≠ [] := by
  rw [segments, ne_eq, List.map_eq_nil_iff]
  exact List.splitOn_ne_nil ampersand line

/-- A line without ampersands is one segment, the line itself. -/
theorem segments_single {line : Text} (free : ampersand ∉ line) :
    segments line = [trimmed line] := by
  rw [segments, List.splitOn_eq_singleton free]
  rfl

/-- A segment up to an ampersand comes first. -/
theorem segments_first {first : Text} (free : ampersand ∉ first) (rest : Text) :
    segments (first ++ ampersand :: rest) = trimmed first :: segments rest := by
  rw [segments, List.splitOn_append_cons_self_of_not_mem free]
  rfl

/-- A line with an ampersand is a segment, the ampersand and the rest. -/
theorem exists_segment {line : Text} (joined : ampersand ∈ line) :
    ∃ first rest, line = first ++ ampersand :: rest ∧ ampersand ∉ first :=
  List.eq_append_cons_of_mem joined

/-- Blanks behind do not matter to the segments.

Induct over the length of the line, segment by segment. -/
theorem segments_behind {gap : Text} (blanks : ∀ unit ∈ gap, isBlank unit = true) (line : Text) :
    segments (line ++ gap) = segments line := by
  have gapFree : ampersand ∉ gap := fun member => by cases blanks ampersand member
  induction counted : line.length using Nat.strong_induction_on generalizing line with
  | _ length ih =>
    by_cases joined : ampersand ∈ line
    · obtain ⟨first, rest, rfl, free⟩ := exists_segment joined
      have shorter : rest.length < length := by
        rw [← counted, List.length_append, List.length_cons]
        omega
      rw [List.append_assoc, List.cons_append, segments_first free, segments_first free,
        ih rest.length shorter rest rfl]
    · have free : ampersand ∉ line ++ gap := fun member =>
        (List.mem_append.mp member).elim joined gapFree
      rw [segments_single free, segments_single joined, trimmed_behind blanks]

/-- Blanks in front do not matter to the segments. -/
theorem segments_before {gap : Text} (blanks : ∀ unit ∈ gap, isBlank unit = true) (line : Text) :
    segments (gap ++ line) = segments line := by
  have gapFree : ampersand ∉ gap := fun member => by cases blanks ampersand member
  by_cases joined : ampersand ∈ line
  · obtain ⟨first, rest, rfl, free⟩ := exists_segment joined
    have frontFree : ampersand ∉ gap ++ first := fun member =>
      (List.mem_append.mp member).elim gapFree free
    rw [← List.append_assoc, segments_first frontFree, segments_first free, trimmed_before blanks]
  · have free : ampersand ∉ gap ++ line := fun member =>
      (List.mem_append.mp member).elim gapFree joined
    rw [segments_single free, segments_single joined, trimmed_before blanks]

/-- A trimmed line has the same segments, once they are trimmed themselves. -/
theorem segments_trimmed (line : Text) : segments (trimmed line) = segments line := by
  obtain ⟨before, behind, same, front, back⟩ := exists_trimmed line
  calc segments (trimmed line)
      = segments (before ++ trimmed line) := (segments_before front _).symm
    _ = segments (before ++ trimmed line ++ behind) := (segments_behind back _).symm
    _ = segments line := by rw [← same]

/-! ## Running segments in turn -/

/-- Run lines in turn. The result is that of the last one. -/
def inTurn (execute : Memory → Routine σ Bool) : List Text → Routine σ Bool
  | [] => return false
  | [last] => execute (last ++ [0])
  | first :: rest => do
    let _ ← execute (first ++ [0])
    inTurn execute rest

/-- The first part is run for its effect, and what is left decides. -/
theorem inTurn_cons (execute : Memory → Routine σ Bool) (first : Text) {rest : List Text}
    (nonempty : rest ≠ []) :
    inTurn execute (first :: rest) = (do let _ ← execute (first ++ [0]); inTurn execute rest) := by
  cases rest with
  | nil => exact absurd rfl nonempty
  | cons second others => rfl

/-- Lines that are extended one by one are extended in turn. -/
theorem extended_inTurn {execute execute' : Memory → Routine σ Bool}
    (inner : ∀ line, Extended (execute line) (execute' line)) (lines : List Text) :
    Extended (inTurn execute lines) (inTurn execute' lines) := by
  induction lines with
  | nil => exact extends_refl _
  | cons first rest ih =>
    by_cases last : rest = []
    · subst last
      exact inner _
    · rw [inTurn_cons execute first last, inTurn_cons execute' first last]
      exact extends_bind (inner _) (fun _ => ih)

variable {fw : Firmware σ}

/-- A line with an ampersand is run as its first segment and its rest. -/
theorem interpret_split (fuel : Nat) {command : Memory} {first rest : Text}
    (readable : scan command = some (first ++ ampersand :: rest)) (free : ampersand ∉ first) :
    interpret fw parseFresh (fuel + 1) command = (do
      let _ ← interpret fw parseFresh fuel (terminalCopySegment first)
      interpret fw parseFresh fuel (terminalCopySegment rest)) := by
  have ends : (0 : CHAR16) ∈ command :=
    (scan_isSome command).mp (Option.isSome_iff_exists.mpr ⟨_, readable⟩)
  obtain ⟨args, found, _⟩ := terminalCommandArgs_ends ends
  have joined : ampersand ∈ first ++ ampersand :: rest := by simp
  obtain ⟨front, behind⟩ := Runs.cut_first free rest
  rw [interpret, executeLine, parseFresh, found, readable]
  change (if ampersand ∈ first ++ ampersand :: rest then _ else _) = _
  rw [if_pos joined, front, behind]
  rfl

/-- A line that fits is called for its trimmed text. An ampersand in it splits it further. -/
theorem interpret_rest (fw : Firmware σ) (fuel : Nat) {line : Text}
    (fits : line.length ≤ terminalMaxLine - 1) (free : (0 : CHAR16) ∉ line) :
    (segments line = [trimmed line] ∧ terminalCopySegment line = trimmed line ++ [0]) ∨
      ∃ first rest, segments line = trimmed first :: segments rest ∧
        rest.length < line.length ∧ (0 : CHAR16) ∉ rest ∧
        interpret fw parseFresh (fuel + 1) (terminalCopySegment line) = (do
          let _ ← interpret fw parseFresh fuel (trimmed first ++ [0])
          interpret fw parseFresh fuel (terminalCopySegment rest)) := by
  have copied := terminalCopySegment_fits fits
  by_cases joined : ampersand ∈ trimmed line
  · obtain ⟨first, rest, same, firstFree⟩ := exists_segment joined
    have shorter := trimmed_length line
    rw [same, List.length_append, List.length_cons] at shorter
    have trimmedFree : (0 : CHAR16) ∉ trimmed line := fun member => free (trimmed_subset line member)
    have restFree : (0 : CHAR16) ∉ rest := fun member =>
      trimmedFree (same ▸ List.mem_append_right first (List.mem_cons_of_mem ampersand member))
    refine Or.inr ⟨first, rest, ?_, by omega, restFree, ?_⟩
    · rw [← segments_trimmed, same, segments_first firstFree]
    · have readable : scan (terminalCopySegment line) = some (first ++ ampersand :: rest) := by
        rw [copied, scan_append (trimmed line) [] trimmedFree, same]
      rw [interpret_split fuel readable firstFree, terminalCopySegment_fits (by omega)]
  · refine Or.inl ⟨?_, copied⟩
    obtain ⟨before, behind, whole, front, back⟩ := exists_trimmed line
    have lineFree : ampersand ∉ line := by
      intro member
      rw [whole, List.mem_append, List.mem_append] at member
      rcases member with (early | inside) | late
      · cases front ampersand early
      · exact joined inside
      · cases back ampersand late
    exact segments_single lineFree

/-- What is called for a line is extended by its segments in turn.

Induct over the nesting: the split leaves less of it for the rest. -/
theorem interpret_inTurn (fuel : Nat) {line : Text} (fits : line.length ≤ terminalMaxLine - 1)
    (free : (0 : CHAR16) ∉ line) :
    Extended (interpret fw parseFresh fuel (terminalCopySegment line))
      (inTurn (interpret fw parseFresh fuel) (segments line)) := by
  induction fuel generalizing line with
  | zero => exact extends_exhausted _
  | succ fuel ih =>
    have more : ∀ command, Extended (interpret fw parseFresh fuel command)
        (interpret fw parseFresh (fuel + 1) command) :=
      fun command => interpret_stable parseFresh command fuel (fuel + 1) (Nat.le_succ fuel)
    rcases interpret_rest fw fuel fits free with
      ⟨single, copied⟩ | ⟨first, rest, split, shorter, restFree, unfolded⟩
    · rw [single, copied]
      exact extends_refl _
    · rw [split, unfolded, inTurn_cons _ _ (segments_nonempty rest)]
      refine extends_bind (more _) (fun _ => ?_)
      exact (ih (by omega) restFree).trans (extended_inTurn more _)

/-- The segments of a line in turn are extended by what is called for the line, with enough fuel.

Induct over the length of the line, segment by segment. -/
theorem inTurn_interpret (fuel : Nat) {line : Text} (fits : line.length ≤ terminalMaxLine - 1)
    (free : (0 : CHAR16) ∉ line) :
    Extended (inTurn (interpret fw parseFresh fuel) (segments line))
      (interpret fw parseFresh (fuel + line.length) (terminalCopySegment line)) := by
  induction counted : line.length using Nat.strong_induction_on generalizing line with
  | _ length ih =>
    have more : ∀ command larger, fuel ≤ larger → Extended (interpret fw parseFresh fuel command)
        (interpret fw parseFresh larger command) :=
      fun command larger => interpret_stable parseFresh command fuel larger
    rcases interpret_rest fw (fuel + (length - 1)) fits free with
      ⟨single, copied⟩ | ⟨first, rest, split, shorter, restFree, unfolded⟩
    · rw [single, copied]
      exact more _ _ (Nat.le_add_right fuel length)
    · have nested : fuel + length = fuel + (length - 1) + 1 := by omega
      rw [split, nested, unfolded, inTurn_cons _ _ (segments_nonempty rest)]
      refine extends_bind (more _ _ (Nat.le_add_right fuel _)) (fun _ => ?_)
      have extended := ih rest.length (by omega) (by omega) restFree rfl
      exact extended.trans (interpret_stable parseFresh _ _ _ (by omega))

/-- A whole line and its segments in turn settle on the same outcomes. -/
theorem settles_segments {command : Memory} {line : Text} (readable : scan command = some line)
    (fits : line.length ≤ terminalMaxLine - 1) (joined : ampersand ∈ line) (machine : Machine σ)
    (outcome : Except Stop (Bool × Machine σ)) :
    Settles .outOfFuel (fun fuel => interpret fw parseFresh fuel command) machine outcome ↔
      Settles .outOfFuel (fun fuel => inTurn (interpret fw parseFresh fuel) (segments line)) machine
        outcome := by
  obtain ⟨free, _, _⟩ := scan_split _ _ readable
  obtain ⟨first, rest, rfl, firstFree⟩ := exists_segment joined
  have restFree : (0 : CHAR16) ∉ rest := fun member =>
    free (List.mem_append_right first (List.mem_cons_of_mem ampersand member))
  rw [List.length_append, List.length_cons] at fits
  have copied : terminalCopySegment first = trimmed first ++ [0] :=
    terminalCopySegment_fits (by omega)
  rw [segments_first firstFree]
  apply settles_congr
  · intro fuel
    cases fuel with
    | zero => exact ⟨0, extends_exhausted _⟩
    | succ fuel =>
      refine ⟨fuel, ?_⟩
      rw [interpret_split fuel readable firstFree, inTurn_cons _ _ (segments_nonempty rest), copied]
      exact extends_after fun _ => interpret_inTurn fuel (by omega) restFree
  · intro fuel
    refine ⟨fuel + rest.length + 1, ?_⟩
    rw [interpret_split _ readable firstFree, inTurn_cons _ _ (segments_nonempty rest), copied]
    refine extends_bind (interpret_stable parseFresh _ _ _ (Nat.le_add_right fuel _)) (fun _ => ?_)
    exact inTurn_interpret fuel (by omega) restFree

/-! ## Command lists -/

/-- With enough fuel, this is what there is to observe of a run. -/
def Observes (run : Nat → Routine σ α) (machine : Machine σ)
    (outcome : Except Stop (α × Machine σ)) : Prop :=
  ∃ result, Settles .outOfFuel run machine result ∧ observed result = outcome

/-- Running out of fuel is observed as such only. -/
theorem observed_outOfFuel (result : Except Stop (α × Machine σ)) :
    observed result = .error .outOfFuel ↔ result = .error .outOfFuel := by
  cases result with
  | error stop => exact Iff.rfl
  | ok found => exact iff_of_false (fun same => by cases same) (fun same => by cases same)

/-- Where the same is observed with every fuel, the same is observed with enough of it. -/
theorem observes_congr {first second : Nat → Routine σ α} {machine : Machine σ}
    (same : ∀ fuel, observed ((first fuel).run machine) = observed ((second fuel).run machine))
    (outcome : Except Stop (α × Machine σ)) :
    Observes first machine outcome ↔ Observes second machine outcome := by
  have moves : ∀ {one other : Nat → Routine σ α},
      (∀ fuel, observed ((one fuel).run machine) = observed ((other fuel).run machine)) →
      Observes one machine outcome → Observes other machine outcome := by
    rintro one other same ⟨_, ⟨settled, fuel, rfl⟩, rfl⟩
    refine ⟨_, ⟨fun exhausted => settled ?_, fuel, rfl⟩, (same fuel).symm⟩
    rwa [← observed_outOfFuel, same fuel, observed_outOfFuel]
  exact ⟨moves same, moves fun fuel => (same fuel).symm⟩

/-- The line buffer does not matter to lines that are run in turn. -/
theorem coupled_inTurn (fuel : Nat) (line : Vector CHAR16 128) (lines : List Text) :
    Coupled (AtLine line) (inTurn (terminalExecuteCommand fw fuel) lines)
      (inTurn (interpret fw parseFresh fuel) lines) Alike := by
  induction lines generalizing line with
  | nil => exact (mirrors_pure false).alike
  | cons first rest ih =>
    by_cases last : rest = []
    · subst last
      exact coupled_interpret fuel line _
    · rw [inTurn_cons _ first last, inTurn_cons _ first last]
      exact alike_bind (coupled_interpret fuel line _) (fun _ later => ih later)

/-- A blank line is left at once, and nothing is done for it. -/
theorem interpret_blank (fuel : Nat) :
    interpret fw parseFresh (fuel + 1) [0] = (return false) := by
  have blank : (terminalTryPipeline fw parseFresh [] : Routine σ Bool) = pure false := rfl
  rw [interpret, executeLine]
  exact blank ▸ rfl

/-- Sequencing. A line with ampersands, of any length that fits into the buffers, comes to an end
exactly if its trimmed segments do when they are run in turn, each once and from left to right,
and then nothing differs but the line buffer. An empty segment has no effect. -/
theorem ampersands_inTurn (fw : Firmware σ) {command : Memory} {line : Text}
    (readable : scan command = some line) (fits : line.length ≤ 127) (joined : ampersand ∈ line)
    (machine : Machine σ) :
    (∀ outcome, Observes (fun fuel => terminalExecuteCommand fw fuel command) machine outcome ↔
      Observes (fun fuel => inTurn (terminalExecuteCommand fw fuel) (segments line)) machine
        outcome) ∧
    ∀ (empty : Text) (reached : Machine σ), trimmed empty = [] →
      Observes (fun fuel => terminalExecuteCommand fw fuel (trimmed empty ++ [0])) reached
        (observed (.ok (false, reached))) := by
  constructor
  · intro outcome
    have whole : ∀ fuel, observed ((terminalExecuteCommand fw fuel command).run machine) =
        observed ((interpret fw parseFresh fuel command).run machine) :=
      fun fuel => observed_alike (coupled_interpret fuel _ command)
    have parts : ∀ fuel,
        observed ((inTurn (terminalExecuteCommand fw fuel) (segments line)).run machine) =
          observed ((inTurn (interpret fw parseFresh fuel) (segments line)).run machine) :=
      fun fuel => observed_alike (coupled_inTurn fuel _ (segments line))
    rw [observes_congr whole, observes_congr parts]
    simp only [Observes, settles_segments readable fits joined]
  · intro empty reached blank
    have same : ∀ fuel, observed ((terminalExecuteCommand fw fuel (trimmed empty ++ [0])).run reached) =
        observed ((interpret fw parseFresh fuel (trimmed empty ++ [0])).run reached) :=
      fun fuel => observed_alike (coupled_interpret fuel _ _)
    rw [observes_congr same, blank]
    refine ⟨.ok (false, reached), ⟨fun exhausted => (by cases exhausted), 1, ?_⟩, rfl⟩
    exact congrArg (StateT.run · reached) (interpret_blank 0)

/-- The machine behind a line of two commands with an empty segment between them. -/
def twoCommands : Machine (List CHAR16) :=
  finalState (terminalExecuteCommand keyboard 3 (constant "whoami && ver")) (Machine.entered [])

/-- The segments of that line, run in turn, come to the same end, with the answers of both commands
on the console. -/
theorem ampersands_inTurn_commands :
    output twoCommands.trace = text "nobody\r\nFisix OS batch terminal 0.1\r\n" ∧
      Observes (fun fuel => inTurn (terminalExecuteCommand keyboard fuel)
        [text "whoami", [], text "ver"]) (Machine.entered []) (observed (.ok (false, twoCommands))) := by
  have readable : scan (constant "whoami && ver") = some (text "whoami && ver") := by decide
  have parts : segments (text "whoami && ver") = [text "whoami", [], text "ver"] := by decide +kernel
  have ran : (terminalExecuteCommand keyboard 3 (constant "whoami && ver")).run (Machine.entered []) =
      .ok (false, twoCommands) := run_finalState (by decide +kernel)
  have ends : Observes (fun fuel => terminalExecuteCommand keyboard fuel (constant "whoami && ver"))
      (Machine.entered []) (observed (.ok (false, twoCommands))) :=
    ⟨_, ⟨fun exhausted => (by cases exhausted), 3, ran⟩, rfl⟩
  refine ⟨by decide +kernel, parts ▸ ?_⟩
  exact ((ampersands_inTurn keyboard readable (by decide) (by decide) (Machine.entered [])).1 _).mp ends

end ExistentOS.Terminal
