import Mathlib.Algebra.Order.BigOperators.Group.List
import Mathlib.Algebra.Order.Ring.Nat
import Mathlib.Data.List.TakeWhile

/-!
# The pieces between separators

A text taken apart at separators, without the empty pieces: the words of a line between
blanks, the lines of a text between line ends. A loop that skips separators and then
collects a piece is followed by the equations for a text that starts with either.
-/

namespace Runs

universe u
variable {α : Type u} (separator : α → Bool)

/-- The non-empty pieces of a text between separators. Several separators in a row count as one. -/
def runs (text : List α) : List (List α) := (text.splitOnP separator).filter (!·.isEmpty)

@[simp] theorem runs_nil : runs separator [] = [] := rfl

/-- A separator in front is skipped. -/
theorem runs_skip {unit : α} (separates : separator unit = true) (rest : List α) :
    runs separator (unit :: rest) = runs separator rest := by
  rw [runs, List.splitOnP_cons_eq_if_modifyHead, if_pos separates]
  rfl

/-- Separators in front are skipped. -/
theorem runs_dropWhile (text : List α) :
    runs separator (text.dropWhile separator) = runs separator text := by
  induction text with
  | nil => rfl
  | cons unit rest ih =>
    by_cases separates : separator unit = true
    · rw [List.dropWhile_cons_of_pos separates, ih, runs_skip separator separates]
    · rw [List.dropWhile_cons_of_neg separates]

/-- A piece up to a separator comes first. -/
theorem runs_first {piece : List α} (nonempty : piece ≠ [])
    (free : ∀ unit ∈ piece, separator unit = false) {unit : α} (separates : separator unit = true)
    (rest : List α) : runs separator (piece ++ unit :: rest) = piece :: runs separator rest := by
  have split := List.splitOnP_append_cons_of_forall_mem free unit separates rest
  rw [runs, split, List.filter_cons_of_pos (by simpa using nonempty)]
  rfl

/-- A text without separators is one piece, if it is not empty. -/
theorem runs_single {piece : List α} (nonempty : piece ≠ [])
    (free : ∀ unit ∈ piece, separator unit = false) : runs separator piece = [piece] := by
  rw [runs, List.splitOnP_eq_singleton free, List.filter_cons_of_pos (by simpa using nonempty)]
  rfl

/-- A piece up to a separator or up to the end comes first. -/
theorem runs_piece {piece later : List α} (nonempty : piece ≠ [])
    (free : ∀ unit ∈ piece, separator unit = false)
    (ends : ∀ unit ∈ later.head?, separator unit = true) :
    runs separator (piece ++ later) = piece :: runs separator later := by
  cases later with
  | nil => rw [List.append_nil, runs_single separator nonempty free, runs_nil]
  | cons unit rest =>
    rw [runs_first separator nonempty free (ends unit rfl), runs_skip separator (ends unit rfl)]

/-- Pieces are not empty. -/
theorem runs_nonempty {text piece : List α} (member : piece ∈ runs separator text) : piece ≠ [] := by
  have kept := (List.mem_filter.mp member).2
  simpa using kept

/-- A piece consists of units of the text that are no separators. -/
theorem runs_units {text piece : List α} (member : piece ∈ runs separator text) :
    ∀ unit ∈ piece, unit ∈ text ∧ separator unit = false := by
  have within : ∀ piece ∈ text.splitOnP separator,
      ∀ unit ∈ piece, unit ∈ text ∧ separator unit = false := by
    clear member
    induction text with
    | nil => simp
    | cons first rest ih =>
      have inRest : ∀ piece ∈ rest.splitOnP separator,
          ∀ unit ∈ piece, unit ∈ first :: rest ∧ separator unit = false :=
        fun piece member unit inside =>
          (ih piece member unit inside).imp_left (List.mem_cons_of_mem first)
      rw [List.splitOnP_cons_eq_if_modifyHead]
      by_cases separates : separator first = true
      · rw [if_pos separates, List.forall_mem_cons]
        exact ⟨by simp, inRest⟩
      · rw [if_neg separates]
        obtain ⟨head, others, split⟩ :=
          List.exists_cons_of_ne_nil (List.splitOnP_ne_nil separator rest)
        rw [split, List.forall_mem_cons] at inRest
        rw [split, List.modifyHead_cons, List.forall_mem_cons]
        refine ⟨fun unit inside => ?_, inRest.2⟩
        rcases List.mem_cons.mp inside with rfl | later
        · exact ⟨List.mem_cons_self, Bool.eq_false_iff.mpr separates⟩
        · exact inRest.1 unit later
  exact within piece (List.mem_filter.mp member).1

/-- A piece is no longer than its text. -/
theorem runs_length {text piece : List α} (member : piece ∈ runs separator text) :
    piece.length ≤ text.length := by
  have within : ∀ piece ∈ text.splitOnP separator, piece.length ≤ text.length := by
    clear member
    induction text with
    | nil => simp
    | cons first rest ih =>
      rw [List.splitOnP_cons_eq_if_modifyHead]
      by_cases separates : separator first = true
      · rw [if_pos separates, List.forall_mem_cons]
        exact ⟨Nat.zero_le _, fun piece member => Nat.le_succ_of_le (ih piece member)⟩
      · rw [if_neg separates]
        obtain ⟨head, others, split⟩ :=
          List.exists_cons_of_ne_nil (List.splitOnP_ne_nil separator rest)
        rw [split, List.forall_mem_cons] at ih
        rw [split, List.modifyHead_cons, List.forall_mem_cons]
        exact ⟨Nat.succ_le_succ ih.1, fun piece member => Nat.le_succ_of_le (ih.2 piece member)⟩
  exact within piece (List.mem_filter.mp member).1

/-- A separator ends a piece, and what follows has pieces of its own. -/
theorem runs_append_cons (text : List α) {unit : α} (separates : separator unit = true)
    (rest : List α) :
    runs separator (text ++ unit :: rest) = runs separator text ++ runs separator rest := by
  rw [runs, List.splitOnP_append_cons text rest separates, List.filter_append]
  rfl

/-- Separators in front of a text do not matter. -/
theorem runs_before {gap : List α} (separators : ∀ unit ∈ gap, separator unit = true)
    (text : List α) : runs separator (gap ++ text) = runs separator text := by
  rw [← runs_dropWhile, List.dropWhile_append_of_pos separators, runs_dropWhile]

/-- Separators behind a text do not matter, and neither do those in front. -/
theorem runs_behind (text : List α) {gap : List α}
    (separators : ∀ unit ∈ gap, separator unit = true) :
    runs separator (text ++ gap) = runs separator text := by
  cases gap with
  | nil => rw [List.append_nil]
  | cons unit rest =>
    have dropped : rest.dropWhile separator = [] := List.dropWhile_eq_nil_iff.mpr
      fun unit member => separators unit (List.mem_cons_of_mem _ member)
    rw [runs_append_cons separator text (separators unit List.mem_cons_self),
      ← runs_dropWhile separator rest, dropped, runs_nil, List.append_nil]

/-- The search for the first occurrence of a unit ends in front of it. -/
theorem cut_first [DecidableEq α] {unit : α} {front : List α} (absent : unit ∉ front)
    (rest : List α) : (front ++ unit :: rest).takeWhile (· ≠ unit) = front ∧
      (front ++ unit :: rest).dropWhile (· ≠ unit) = unit :: rest := by
  have others : ∀ other ∈ front, decide (other ≠ unit) = true := by
    intro other member
    rw [decide_eq_true_eq]
    rintro rfl
    exact absent member
  constructor
  · rw [List.takeWhile_append_of_pos others, List.takeWhile_cons_of_neg (by simp), List.append_nil]
  · rw [List.dropWhile_append_of_pos others, List.dropWhile_cons_of_neg (by simp)]

/-- A text is a piece without separators and what follows from the next separator on. -/
theorem exists_piece (text : List α) : ∃ piece later, text = piece ++ later ∧
    (∀ unit ∈ piece, separator unit = false) ∧ ∀ unit ∈ later.head?, separator unit = true := by
  refine ⟨_, _, (List.takeWhile_append_dropWhile (p := (!separator ·))).symm, ?_, ?_⟩
  · intro unit member
    simpa using List.mem_takeWhile_imp member
  · intro unit head
    have stopped := List.head?_dropWhile_not (!separator ·) text
    rw [Option.mem_def.mp head] at stopped
    simpa using stopped

/-- A text is some separators and what follows from the next other unit on. -/
theorem exists_gap (text : List α) : ∃ gap later, text = gap ++ later ∧
    (∀ unit ∈ gap, separator unit = true) ∧ (∀ unit ∈ later.head?, separator unit = false) ∧
    runs separator later = runs separator text := by
  refine ⟨_, _, (List.takeWhile_append_dropWhile (p := separator)).symm, ?_, ?_,
    runs_dropWhile separator text⟩
  · exact fun unit member => List.mem_takeWhile_imp member
  · intro unit head
    have stopped := List.head?_dropWhile_not separator text
    rw [Option.mem_def.mp head] at stopped
    simpa using stopped

/-- A piece before another one leaves room for a separator and for that other piece. -/
theorem runs_first_length {text first second : List α} {others : List (List α)}
    (found : runs separator text = first :: second :: others) :
    first.length + 2 ≤ text.length := by
  obtain ⟨gap, later, rfl, _, solid, same⟩ := exists_gap separator text
  rw [found] at same
  obtain ⟨piece, more, rfl, free, ends⟩ := exists_piece separator later
  have nonempty : piece ≠ [] := by
    rintro rfl
    cases more with
    | nil => cases same
    | cons unit _ =>
      have blank := ends unit rfl
      rw [solid unit rfl] at blank
      cases blank
  cases more with
  | nil =>
    rw [List.append_nil, runs_single separator nonempty free] at same
    cases same
  | cons unit rest =>
    rw [runs_first separator nonempty free (ends unit rfl)] at same
    obtain ⟨rfl, following⟩ := List.cons_eq_cons.mp same
    have further : rest ≠ [] := by
      rintro rfl
      cases following
    have counted := List.length_pos_iff.mpr further
    rw [List.length_append, List.length_append, List.length_cons]
    omega

/-- The pieces and the separators between them fit into the text. -/
theorem runs_total (text : List α) :
    ((runs separator text).map (·.length + 1)).sum ≤ text.length + 1 := by
  have whole : ((text.splitOnP separator).map (·.length + 1)).sum = text.length + 1 := by
    induction text with
    | nil => rfl
    | cons first rest ih =>
      rw [List.splitOnP_cons_eq_if_modifyHead]
      by_cases separates : separator first = true
      · rw [if_pos separates, List.map_cons, List.sum_cons, ih, List.length_cons, List.length_nil]
        omega
      · rw [if_neg separates]
        obtain ⟨head, others, split⟩ :=
          List.exists_cons_of_ne_nil (List.splitOnP_ne_nil separator rest)
        rw [split, List.map_cons, List.sum_cons] at ih
        rw [split, List.modifyHead_cons, List.map_cons, List.sum_cons, List.length_cons,
          List.length_cons]
        omega
  rw [← whole]
  exact (List.filter_sublist.map _).sum_le_sum fun _ _ => Nat.zero_le _

/-! ## Parts of pieces -/

/-- A text without the separator lies on one side of it. -/
theorem infix_append_cons_iff {part : List α} (text : List α) {unit : α} (absent : unit ∉ part)
    (rest : List α) : part <:+: text ++ unit :: rest ↔ part <:+: text ∨ part <:+: rest := by
  have starts : ∀ before : List α, part <+: before ++ unit :: rest → part <+: before := by
    intro before within
    by_cases short : part.length ≤ before.length
    · exact List.prefix_of_prefix_length_le within (List.prefix_append before _) short
    · have longer : before ++ [unit] <+: part := by
        apply List.prefix_of_prefix_length_le _ within
        · rw [List.length_append, List.length_singleton]
          omega
        · exact ⟨rest, by simp⟩
      exact absurd (longer.subset (by simp)) absent
  induction text with
  | nil =>
    rw [List.nil_append, List.infix_cons_iff, List.infix_nil]
    constructor
    · rintro (within | within)
      · exact Or.inl (List.prefix_nil.mp (starts [] within))
      · exact Or.inr within
    · rintro (rfl | within)
      · exact Or.inl List.nil_prefix
      · exact Or.inr within
  | cons first later ih =>
    rw [List.cons_append, List.infix_cons_iff, List.infix_cons_iff]
    constructor
    · rintro (within | within)
      · exact Or.inl (Or.inl (starts (first :: later) within))
      · exact (ih.mp within).imp_left Or.inr
    · rintro ((within | within) | within)
      · exact Or.inl (within.trans (List.prefix_append (first :: later) _))
      · exact Or.inr (ih.mpr (Or.inl within))
      · exact Or.inr (ih.mpr (Or.inr within))

/-- A text without separators lies in a piece.

Induct over the length of the text, which falls apart at any separator. -/
theorem infix_iff_runs {part : List α} (nonempty : part ≠ [])
    (solid : ∀ unit ∈ part, separator unit = false) (text : List α) :
    part <:+: text ↔ ∃ piece ∈ runs separator text, part <:+: piece := by
  induction size : text.length using Nat.strong_induction_on generalizing text with
  | _ _ ih =>
    obtain ⟨piece, later, rfl, free, ends⟩ := exists_piece separator text
    have first : part <:+: piece ↔ ∃ found ∈ runs separator piece, part <:+: found := by
      by_cases empty : piece = []
      · subst empty
        simpa using nonempty
      · simp [runs_single separator empty free]
    cases later with
    | nil => rwa [List.append_nil]
    | cons unit rest =>
      have separates : separator unit = true := ends unit rfl
      have absent : unit ∉ part := fun member => by simp [solid unit member] at separates
      have shorter : rest.length < (piece ++ unit :: rest).length := by
        rw [List.length_append, List.length_cons]
        omega
      have behind := ih rest.length (size ▸ shorter) rest rfl
      rw [infix_append_cons_iff piece absent, first, behind,
        runs_append_cons separator piece separates]
      simp only [List.mem_append, or_and_right, exists_or]

/-! ## Pieces put together -/

/-- The pieces with one separator between any two of them. -/
def joined (between : α) (pieces : List (List α)) : List α := [between].intercalate pieces

/-- The first piece, and each of the others behind a separator. -/
theorem joined_cons (between : α) (piece : List α) (rest : List (List α)) :
    joined between (piece :: rest) = piece ++ rest.flatMap (between :: ·) := by
  induction rest generalizing piece with
  | nil => rw [joined, List.intercalate_singleton, List.flatMap_nil, List.append_nil]
  | cons next later ih =>
    have tail := ih next
    rw [joined] at tail ⊢
    rw [List.intercalate_cons_cons, tail, List.flatMap_cons]
    simp

/-- The length of some pieces, each with a separator. -/
theorem flatMap_cons_length (between : α) (pieces : List (List α)) :
    (pieces.flatMap (between :: ·)).length = (pieces.map (·.length + 1)).sum := by
  rw [List.length_flatMap]
  rfl

/-- Pieces put together with a separator are found again. -/
theorem runs_joined {between : α} (separates : separator between = true) {pieces : List (List α)}
    (nonempty : ∀ piece ∈ pieces, piece ≠ [])
    (solid : ∀ piece ∈ pieces, ∀ unit ∈ piece, separator unit = false) :
    runs separator (joined between pieces) = pieces := by
  induction pieces with
  | nil => rfl
  | cons piece rest ih =>
    have tail := ih (fun later member => nonempty later (List.mem_cons_of_mem piece member))
      (fun later member => solid later (List.mem_cons_of_mem piece member))
    have first := nonempty piece List.mem_cons_self
    have free := solid piece List.mem_cons_self
    rw [joined_cons]
    cases rest with
    | nil => rw [List.flatMap_nil, List.append_nil, runs_single separator first free]
    | cons next others =>
      have behind : (next :: others).flatMap (between :: ·) =
          between :: joined between (next :: others) := by
        rw [joined_cons, List.flatMap_cons]
        rfl
      rw [behind, runs_first separator first free separates, tail]

/-- The length of some pieces put together, and one. -/
theorem joined_length (between : α) {pieces : List (List α)} (nonempty : pieces ≠ []) :
    (joined between pieces).length + 1 = (pieces.map (·.length + 1)).sum := by
  obtain ⟨piece, rest, rfl⟩ := List.exists_cons_of_ne_nil nonempty
  rw [joined_cons, List.length_append, flatMap_cons_length, List.map_cons, List.sum_cons]
  omega

/-- The first of some pieces put together are shorter than all of them. -/
theorem joined_take_length_iff (between : α) (pieces : List (List α)) (count : Nat) :
    (joined between (pieces.take (count + 1))).length = (joined between pieces).length ↔
      pieces.length ≤ count + 1 := by
  constructor
  · intro same
    by_contra many
    have nonempty : pieces ≠ [] := by
      rintro rfl
      exact many (Nat.zero_le _)
    have someTaken : pieces.take (count + 1) ≠ [] := by simpa using nonempty
    have taken := joined_length between someTaken
    have whole := joined_length between nonempty
    have parts := congrArg (fun kept => (kept.map (·.length + 1)).sum)
      (List.take_append_drop (count + 1) pieces)
    rw [List.map_append, List.sum_append] at parts
    have lost : (pieces.drop (count + 1)).length ≤
        ((pieces.drop (count + 1)).map (·.length + 1)).sum := by
      have each : ∀ size ∈ (pieces.drop (count + 1)).map (·.length + 1), 1 ≤ size := by
        intro size member
        obtain ⟨piece, _, rfl⟩ := List.mem_map.mp member
        exact Nat.le_add_left 1 piece.length
      have total := List.length_le_sum_of_one_le _ each
      rwa [List.length_map] at total
    rw [List.length_drop] at lost
    omega
  · intro few
    rw [List.take_of_length_le few]

end Runs
