import Mathlib.Data.List.Basic

/-!
# Terminated strings in memory

A pointer is represented by the units that can still be read from it, up to the
end of its object. The string at a pointer is the units before the first zero;
there is none when the object ends first, which is the over-read that the
callers of `scan` have to exclude.
-/

namespace Terminated

universe u
variable {α : Type u} [Zero α] [DecidableEq α]

/-- The string at a pointer, or nothing when no terminator can be read. -/
def scan : List α → Option (List α)
  | [] => none
  | unit :: rest => if unit = 0 then some [] else (scan rest).map (unit :: ·)

/-- A terminated text is read back exactly, whatever follows the terminator. -/
theorem scan_append (text rest : List α) (free : (0 : α) ∉ text) :
    scan (text ++ 0 :: rest) = some text := by
  induction text with
  | nil => simp [scan]
  | cons unit tail ih =>
    have nonzero : unit ≠ 0 := fun zero => free (zero ▸ List.mem_cons_self)
    have tailFree : (0 : α) ∉ tail := fun member => free (List.mem_cons_of_mem unit member)
    simp [scan, nonzero, ih tailFree]

/-- A successful scan splits the memory at its first terminator. -/
theorem scan_split (memory text : List α) (found : scan memory = some text) :
    (0 : α) ∉ text ∧ ∃ rest, memory = text ++ 0 :: rest := by
  induction memory generalizing text with
  | nil => cases found
  | cons unit tail ih =>
    by_cases zero : unit = 0
    · have empty : text = [] := by simpa [scan, zero] using found.symm
      subst empty
      exact ⟨List.not_mem_nil, tail, by rw [zero]; rfl⟩
    · simp only [scan, zero, if_false, Option.map_eq_some_iff] at found
      obtain ⟨shorter, scanned, rfl⟩ := found
      obtain ⟨free, rest, split⟩ := ih shorter scanned
      refine ⟨?_, rest, by rw [split]; rfl⟩
      intro member
      rcases List.mem_cons.mp member with same | deeper
      · exact zero same.symm
      · exact free deeper

/-- Scanning succeeds exactly when there is a terminator to find. -/
theorem scan_isSome (memory : List α) : (scan memory).isSome = true ↔ (0 : α) ∈ memory := by
  induction memory with
  | nil => simp [scan]
  | cons unit tail ih =>
    by_cases zero : unit = 0
    · simp [scan, zero]
    · simp [scan, zero, ih, Ne.symm zero]

/-- Where there is a terminator, a scan finds a text. -/
theorem scan_ends {memory : List α} (ends : (0 : α) ∈ memory) : scan memory ≠ none :=
  Option.isSome_iff_ne_none.mp ((scan_isSome memory).mpr ends)

/-- A text shorter than its memory leaves room for the terminator found. -/
theorem scan_length (memory text : List α) (found : scan memory = some text) :
    text.length < memory.length := by
  obtain ⟨_, rest, rfl⟩ := scan_split memory text found
  simp

/-- The function reads a string up to its terminator only. Then it may be applied to any memory
in which the string begins. -/
def ReadsString {β : Type*} (read : List α → β) : Prop :=
  ∀ text rest, (0 : α) ∉ text → read (text ++ 0 :: rest) = read (text ++ [0])

omit [DecidableEq α] in
/-- What reads a string through a function that reads its string. -/
theorem ReadsString.comp {β γ : Type*} {read : List α → β} (reads : ReadsString read) (next : β → γ) :
    ReadsString fun memory => next (read memory) :=
  fun text rest free => congrArg next (reads text rest free)

/-- Scanning reads a string up to its terminator only. -/
theorem scan_reads : ReadsString (scan : List α → Option (List α)) :=
  fun text rest free => (scan_append text rest free).trans (scan_append text [] free).symm

/-- Where the same string is found, the same is read. -/
theorem ReadsString.same {β : Type*} {read : List α → β} (reads : ReadsString read)
    {memory text : List α} (found : scan memory = some text) : read memory = read (text ++ [0]) := by
  obtain ⟨free, rest, rfl⟩ := scan_split memory text found
  exact reads text rest free

/-! ## Bounded stores -/

omit [Zero α] [DecidableEq α] in
/-- Store a unit behind those already written, in a buffer of the given capacity. -/
def push (capacity : Nat) (written : List α) (unit : α) : Option (List α) :=
  if written.length < capacity then some (written ++ [unit]) else none

omit [Zero α] [DecidableEq α] in
/-- Where there is room, the unit is stored. -/
theorem push_room {capacity : Nat} {written : List α} (room : written.length < capacity) (unit : α) :
    push capacity written unit = some (written ++ [unit]) := if_pos room

omit [Zero α] [DecidableEq α] in
/-- A store succeeds within the buffer only. -/
theorem push_some {capacity : Nat} {written stored : List α} {unit : α}
    (pushed : push capacity written unit = some stored) :
    written.length < capacity ∧ stored = written ++ [unit] := by
  by_cases room : written.length < capacity
  · rw [push_room room] at pushed
    exact ⟨room, (Option.some.inj pushed).symm⟩
  · rw [push, if_neg room] at pushed
    cases pushed

/-! ## Bounded copies

The recurring copy loop of the modelled code: units are stored until the source
ends or all but the last slot of the destination is filled, and the next slot
receives the terminator. Slots after the terminator keep what they held. -/

/-- Continue a bounded copy at an index that still leaves room for the
terminator. The source is read before the bound is tested. -/
def copyFrom {limit : Nat} (destination : Vector α (limit + 1)) (index : Nat)
    (room : index ≤ limit) : List α → Option (Vector α (limit + 1))
  | [] => none
  | unit :: rest =>
    if more : unit ≠ 0 ∧ index < limit then
      copyFrom (destination.set index unit) (index + 1) more.2 rest
    else some (destination.set index 0)

/-- Copy a string, cut to the capacity of the destination. A terminator is stored in any case. -/
def copy {limit : Nat} (destination : Vector α (limit + 1)) (source : List α) :
    Option (Vector α (limit + 1)) := copyFrom destination 0 (Nat.zero_le limit) source

omit [Zero α] [DecidableEq α] in
/-- Setting a cell of a list known by its prefix and suffix. -/
theorem set_after_prefix (before after : List α) (old new : α) :
    (before ++ old :: after).set before.length new = before ++ new :: after := by
  rw [List.set_append_right _ _ (Nat.le_refl _), Nat.sub_self]
  rfl

/-- The copy loop leaves what it has already written, then the readable prefix
of the source that still fits, then the terminator and the untouched rest.

Induct over the source. Each stored unit moves the boundary between the written
prefix and the untouched suffix by one slot. -/
theorem copyFrom_exact {limit : Nat} (destination : Vector α (limit + 1)) (written old : List α)
    (room : written.length ≤ limit) (text rest : List α) (free : (0 : α) ∉ text)
    (layout : destination.toList = written ++ old) :
    ∃ copied, copyFrom destination written.length room (text ++ 0 :: rest) = some copied ∧
      copied.toList = written ++ text.take (limit - written.length) ++
        0 :: old.drop (min text.length (limit - written.length) + 1) := by
  have width : written.length + old.length = limit + 1 := by
    rw [← List.length_append, ← layout, Vector.length_toList]
  obtain ⟨slot, later, rfl⟩ : ∃ slot later, old = slot :: later := by
    cases old with
    | nil => simp at width; omega
    | cons slot later => exact ⟨slot, later, rfl⟩
  induction text generalizing destination written slot later with
  | nil =>
    have stored : (destination.set written.length (0 : α)).toList = written ++ 0 :: later := by
      rw [Vector.toList_set, layout, set_after_prefix]
    exact ⟨destination.set written.length 0, by simp [copyFrom], by simp [stored]⟩
  | cons unit tail ih =>
    have nonzero : unit ≠ 0 := fun zero => free (zero ▸ List.mem_cons_self)
    have tailFree : (0 : α) ∉ tail := fun member => free (List.mem_cons_of_mem unit member)
    by_cases inside : written.length < limit
    · have stored : (destination.set written.length unit).toList = (written ++ [unit]) ++ later := by
        rw [Vector.toList_set, layout, set_after_prefix]
        simp
      have grown : (written ++ [unit]).length = written.length + 1 := by simp
      obtain ⟨next, further, rfl⟩ : ∃ next further, later = next :: further := by
        cases later with
        | nil => simp at width; omega
        | cons next further => exact ⟨next, further, rfl⟩
      obtain ⟨copied, ran, exact⟩ := ih (destination.set written.length unit) (written ++ [unit])
        (by rw [grown]; exact inside) tailFree next further stored
        (by simp only [List.length_append, List.length_cons, List.length_nil] at width ⊢; omega)
      refine ⟨copied, ?_, ?_⟩
      · simp only [List.cons_append, copyFrom, nonzero, ne_eq, not_false_eq_true, inside, and_self,
          dite_true]
        simpa only [grown] using ran
      · obtain ⟨space, spaceEq⟩ : ∃ space, limit - written.length = space + 1 :=
          ⟨limit - written.length - 1, by omega⟩
        have less : limit - (written ++ [unit]).length = space := by rw [grown]; omega
        rw [exact, less, spaceEq, List.take_succ_cons, List.length_cons, Nat.add_min_add_right]
        simp
    · have full : limit - written.length = 0 := by omega
      have stored : (destination.set written.length (0 : α)).toList = written ++ 0 :: later := by
        rw [Vector.toList_set, layout, set_after_prefix]
      exact ⟨destination.set written.length 0, by simp [copyFrom, inside], by simp [stored, full]⟩

/-- A bounded copy reads its source up to the terminator only.

Induct over the source. -/
theorem copyFrom_reads {limit : Nat} (destination : Vector α (limit + 1)) (index : Nat)
    (room : index ≤ limit) : ReadsString (copyFrom destination index room) := by
  intro text rest free
  induction text generalizing destination index with
  | nil => simp [copyFrom]
  | cons unit tail ih =>
    have tailFree : (0 : α) ∉ tail := fun member => free (List.mem_cons_of_mem unit member)
    simp only [List.cons_append, copyFrom]
    split
    · exact ih _ _ _ tailFree
    · rfl

/-- A bounded copy stores the longest prefix that fits, terminated, and leaves
the slots behind the terminator as they were. -/
theorem copy_exact {limit : Nat} (destination : Vector α (limit + 1)) (text rest : List α)
    (free : (0 : α) ∉ text) :
    ∃ copied, copy destination (text ++ 0 :: rest) = some copied ∧
      copied.toList = text.take limit ++
        0 :: destination.toList.drop (min text.length limit + 1) := by
  obtain ⟨copied, ran, exact⟩ := copyFrom_exact destination [] destination.toList
    (Nat.zero_le limit) text rest free rfl
  exact ⟨copied, ran, by simpa using exact⟩

/-- The destination of a bounded copy holds exactly the part that fits. -/
theorem scan_copy {limit : Nat} (destination copied : Vector α (limit + 1)) (source text : List α)
    (readable : scan source = some text) (ran : copy destination source = some copied) :
    scan copied.toList = some (text.take limit) := by
  obtain ⟨free, rest, rfl⟩ := scan_split source text readable
  obtain ⟨stored, same, exact⟩ := copy_exact destination text rest free
  obtain rfl : stored = copied := Option.some.inj (same.symm.trans ran)
  rw [exact]
  exact scan_append _ _ (fun member => free (List.mem_of_mem_take member))

/-- Copying a readable string always succeeds, however long it is. -/
theorem copy_succeeds {limit : Nat} (destination : Vector α (limit + 1)) (source text : List α)
    (readable : scan source = some text) : ∃ copied, copy destination source = some copied := by
  obtain ⟨free, rest, rfl⟩ := scan_split source text readable
  obtain ⟨copied, ran, _⟩ := copy_exact destination text rest free
  exact ⟨copied, ran⟩

end Terminated
