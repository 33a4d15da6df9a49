import ExistentOS.Storage

/-!
# Text fields of an account

The three string loops of `accounts.c`, on the units that can be read from each
pointer. A loop that reaches the end of its object before it may stop has no
result; on terminated strings the loops decide equality and validity and store
whatever `valid` has admitted without loss.
-/

namespace ExistentOS.Accounts

open Terminated

/-- `equal`: advance both pointers over equal non-zero units, then require both
to be at a terminator. -/
def equal : Memory → Memory → Option Bool
  | a :: as, b :: bs =>
    if a ≠ 0 ∧ b ≠ 0 ∧ a = b then equal as bs else some (a = 0 && b = 0)
  | _, _ => none

/-- `valid` from the current unit on, with the units counted so far. -/
def validFrom : Memory → Nat → Option Bool
  | [], _ => none
  | unit :: rest, count =>
    if unit ≠ 0 then
      if unit = space ∨ count + 1 > accountTextMax then some false else validFrom rest (count + 1)
    else some (count ≠ 0)

/-- `valid`: non-empty, without spaces, at most 31 units. A tab is no space here. -/
def valid (text : Memory) : Option Bool := validFrom text 0

/-- `copy` into a 32-slot field. What the field held behind the new terminator stays there. -/
def copy (field : Vector CHAR16 (accountTextMax + 1)) (source : Memory) :
    Option (Vector CHAR16 (accountTextMax + 1)) := Terminated.copy field source

/-- The texts that `valid` admits, as a property of the text. -/
def Valid (name : Text) : Prop :=
  name ≠ [] ∧ space ∉ name ∧ name.length ≤ accountTextMax

instance (name : Text) : Decidable (Valid name) := by unfold Valid; infer_instance

/-- `equal` reads its second string up to the terminator only. -/
theorem equal_reads (first : Memory) : ReadsString (equal first) := by
  intro text rest free
  induction text generalizing first with
  | nil => cases first <;> simp [equal]
  | cons unit tail ih =>
    have tailFree : (0 : CHAR16) ∉ tail := fun member => free (List.mem_cons_of_mem unit member)
    cases first with
    | nil => rfl
    | cons a as =>
      simp only [List.cons_append, equal]
      split
      · exact ih as tailFree
      · rfl

/-- A string is tested up to its terminator only. -/
theorem valid_reads : ReadsString valid := by
  suffices counted : ∀ count, ReadsString (validFrom · count) from counted 0
  intro count text rest free
  induction text generalizing count with
  | nil => simp [validFrom]
  | cons unit tail ih =>
    have tailFree : (0 : CHAR16) ∉ tail := fun member => free (List.mem_cons_of_mem unit member)
    simp only [List.cons_append, validFrom]
    split
    · split
      · rfl
      · exact ih (count + 1) tailFree
    · rfl

/-- A string is copied up to its terminator only. -/
theorem copy_reads (field : Vector CHAR16 (accountTextMax + 1)) : ReadsString (copy field) :=
  copyFrom_reads field 0 (Nat.zero_le accountTextMax)

/-- On terminated strings, `equal` decides equality of the texts.

Induct over the first text. The loop stops at the first difference, where at
most one of the strings can be at its terminator. -/
theorem equal_exact (first second : Memory) (left right : Text)
    (readLeft : scan first = some left) (readRight : scan second = some right) :
    equal first second = some (decide (left = right)) := by
  induction first generalizing second left right with
  | nil => cases readLeft
  | cons a as ih =>
    obtain ⟨b, bs, rfl⟩ : ∃ b bs, second = b :: bs := by
      cases second with
      | nil => cases readRight
      | cons b bs => exact ⟨b, bs, rfl⟩
    by_cases endLeft : a = 0
    · have leftEmpty : left = [] := by simpa [scan, endLeft] using readLeft.symm
      by_cases endRight : b = 0
      · have rightEmpty : right = [] := by simpa [scan, endRight] using readRight.symm
        simp [equal, endLeft, endRight, leftEmpty, rightEmpty]
      · have rightUnit : right ≠ [] := by
          rintro rfl
          simp [scan, endRight] at readRight
        simp [equal, endLeft, endRight, leftEmpty, Ne.symm rightUnit]
    · obtain ⟨leftTail, scannedLeft, rfl⟩ : ∃ tail, scan as = some tail ∧ a :: tail = left := by
        simpa [scan, endLeft] using readLeft
      by_cases endRight : b = 0
      · have rightEmpty : right = [] := by simpa [scan, endRight] using readRight.symm
        simp [equal, endLeft, endRight, rightEmpty]
      · obtain ⟨rightTail, scannedRight, rfl⟩ : ∃ tail, scan bs = some tail ∧ b :: tail = right := by
          simpa [scan, endRight] using readRight
        by_cases same : a = b
        · simp [equal, endRight, same, ih bs leftTail rightTail scannedLeft scannedRight]
        · simp [equal, endLeft, endRight, same]

/-- The counting loop admits exactly the non-empty texts without a space that do
not exceed the bound together with what was counted before. -/
theorem validFrom_exact (memory : Memory) (name : Text) (count : Nat)
    (readable : scan memory = some name) (bounded : count ≤ accountTextMax) :
    validFrom memory count = some (decide
      (count + name.length ≠ 0 ∧ space ∉ name ∧ count + name.length ≤ accountTextMax)) := by
  induction memory generalizing name count with
  | nil => cases readable
  | cons unit rest ih =>
    by_cases atEnd : unit = 0
    · have empty : name = [] := by simpa [scan, atEnd] using readable.symm
      subst empty
      simp [validFrom, atEnd, bounded]
    · obtain ⟨tail, scanned, rfl⟩ : ∃ tail, scan rest = some tail ∧ unit :: tail = name := by
        simpa [scan, atEnd] using readable
      by_cases blank : unit = space
      · simp [validFrom, blank, show space ≠ (0 : CHAR16) by decide]
      · by_cases tooLong : count + 1 > accountTextMax
        · have excluded : ¬ (count + (unit :: tail).length ≤ accountTextMax) := by
            rw [List.length_cons]
            omega
          simp only [validFrom, atEnd, ne_eq, not_false_eq_true, if_true, blank, tooLong, or_true]
          simp only [excluded, and_false, decide_false]
        · have rest := ih tail (count + 1) scanned (by omega)
          simp only [validFrom, atEnd, ne_eq, not_false_eq_true, if_true, blank, tooLong, or_self,
            if_false, rest, List.length_cons, List.mem_cons, Ne.symm blank, false_or]
          congr 2
          rw [show count + 1 + tail.length = count + (tail.length + 1) by omega]

/-- On a terminated string, `valid` decides validity of the text. -/
theorem valid_exact (memory : Memory) (name : Text) (readable : scan memory = some name) :
    valid memory = some (decide (Valid name)) := by
  have counted : (0 + name.length ≠ 0 ∧ space ∉ name ∧ 0 + name.length ≤ accountTextMax) ↔
      Valid name := by
    simp only [Valid, Nat.zero_add, ne_eq, List.length_eq_zero_iff]
  rw [valid, validFrom_exact memory name 0 readable (Nat.zero_le _)]
  exact congrArg some (decide_eq_decide.mpr counted)

/-- Two strings compare equal only if both end and have the same text. -/
theorem equal_true (first second : Memory) (same : equal first second = some true) :
    ∃ name, scan first = some name ∧ scan second = some name := by
  induction first generalizing second with
  | nil => simp [equal] at same
  | cons a as ih =>
    cases second with
    | nil => simp [equal] at same
    | cons b bs =>
      by_cases advance : a ≠ 0 ∧ b ≠ 0 ∧ a = b
      · rw [equal, if_pos advance] at same
        obtain ⟨tail, left, right⟩ := ih bs same
        obtain ⟨_, nonzero, rfl⟩ := advance
        exact ⟨a :: tail, by simp [scan, nonzero, left], by simp [scan, nonzero, right]⟩
      · rw [equal, if_neg advance, Option.some.injEq, Bool.and_eq_true, decide_eq_true_iff,
          decide_eq_true_iff] at same
        exact ⟨[], by simp [scan, same.1], by simp [scan, same.2]⟩

/-- A text is found valid only if it ends. -/
theorem validFrom_ends (memory : Memory) (count : Nat)
    (accepted : validFrom memory count = some true) : ∃ name, scan memory = some name := by
  induction memory generalizing count with
  | nil => simp [validFrom] at accepted
  | cons unit rest ih =>
    by_cases atEnd : unit = 0
    · exact ⟨[], by simp [scan, atEnd]⟩
    · simp only [validFrom, ne_eq, atEnd, not_false_eq_true, if_true] at accepted
      split at accepted
      · cases accepted
      · obtain ⟨tail, scanned⟩ := ih _ accepted
        exact ⟨unit :: tail, by simp [scan, atEnd, scanned]⟩

/-- A text found valid is valid, so the test of the source is sound. -/
theorem valid_true (memory : Memory) (accepted : valid memory = some true) :
    ∃ name, scan memory = some name ∧ Valid name := by
  obtain ⟨name, readable⟩ := validFrom_ends memory 0 accepted
  rw [valid_exact memory name readable, Option.some.injEq, decide_eq_true_iff] at accepted
  exact ⟨name, readable, accepted⟩

/-- A valid text is stored completely, as it is no longer than a field has room for. -/
theorem copy_valid (field : Vector CHAR16 (accountTextMax + 1)) (memory : Memory) (name : Text)
    (readable : scan memory = some name) (fits : name.length ≤ accountTextMax) :
    ∃ copied, copy field memory = some copied ∧ scan copied.toList = some name := by
  obtain ⟨copied, ran⟩ := copy_succeeds field memory name readable
  refine ⟨copied, ran, ?_⟩
  rw [scan_copy field copied memory name readable ran, List.take_of_length_le fits]

/-- Copying a string over the same string changes no slot, not even behind the
terminator. -/
theorem copy_same (field : Vector CHAR16 (accountTextMax + 1)) (memory : Memory) (name : Text)
    (stored : scan field.toList = some name) (readable : scan memory = some name) :
    copy field memory = some field := by
  obtain ⟨free, rest, rfl⟩ := scan_split memory name readable
  obtain ⟨_, later, layout⟩ := scan_split field.toList name stored
  have fits : name.length ≤ accountTextMax := by
    have short := scan_length field.toList name stored
    rw [Vector.length_toList] at short
    omega
  obtain ⟨copied, ran, exact⟩ := copy_exact field name rest free
  have unchanged : copied.toList = field.toList := by
    rw [exact, List.take_of_length_le fits, Nat.min_eq_left fits, layout]
    simp
  have same : copied = field := Vector.toList_inj.mp unchanged
  rw [Accounts.copy, ran, same]

end ExistentOS.Accounts
