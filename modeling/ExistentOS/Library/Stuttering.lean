import Mathlib.Data.List.Basic

/-!
# Stuttering words

A machine reads a word letter by letter, moves on with each letter and answers with some
outputs. A stuttering word repeats some of its letters. The machine does not notice the
repetitions of a word if every letter that another one follows, or none, leaves it in a
state where the same letter changes nothing and is not answered.
-/

namespace Stuttering

universe u v w
variable {S : Type u} {α : Type v} {β : Type w}

/-! ## Words -/

/-- The longer word is the shorter one with some letters repeated. A letter is repeated directly
behind itself, and the order stays. -/
inductive Stutters : List α → List α → Prop where
  | nil : Stutters [] []
  | letter {word longer : List α} (letter : α) (rest : Stutters word longer) :
    Stutters (letter :: word) (letter :: longer)
  | again {letter : α} {word longer : List α} (rest : Stutters (letter :: word) longer) :
    Stutters (letter :: word) (letter :: longer)

/-- A stuttering word has the letters of the word. -/
theorem Stutters.subset {word longer : List α} (stutters : Stutters word longer) :
    word ⊆ longer := by
  induction stutters with
  | nil => exact List.Subset.refl []
  | letter letter _ ih => exact List.cons_subset_cons letter ih
  | again _ ih => exact List.Subset.trans ih (List.subset_cons_self _ _)

/-- Leaving out letters keeps a word stuttering, as repetitions go with their letters. -/
theorem Stutters.filter {word longer : List α} (stutters : Stutters word longer)
    (keeps : α → Bool) : Stutters (word.filter keeps) (longer.filter keeps) := by
  induction stutters with
  | nil => exact nil
  | @letter _ _ letter _ ih =>
    by_cases kept : keeps letter
    · rw [List.filter_cons_of_pos kept, List.filter_cons_of_pos kept]
      exact ih.letter letter
    · rwa [List.filter_cons_of_neg kept, List.filter_cons_of_neg kept]
  | @again letter word longer _ ih =>
    have step : (letter :: longer).filter keeps =
        if keeps letter then letter :: longer.filter keeps else longer.filter keeps :=
      List.filter_cons
    by_cases kept : keeps letter
    · rw [step, if_pos kept]
      rw [List.filter_cons_of_pos kept] at ih ⊢
      exact ih.again
    · rwa [step, if_neg kept]

/-- Stopping in front of a letter keeps a word stuttering. -/
theorem Stutters.takeWhile {word longer : List α} (stutters : Stutters word longer)
    (goes : α → Bool) : Stutters (word.takeWhile goes) (longer.takeWhile goes) := by
  induction stutters with
  | nil => exact nil
  | @letter _ _ letter _ ih =>
    rw [List.takeWhile_cons, List.takeWhile_cons]
    split
    · exact ih.letter letter
    · exact nil
  | @again letter word longer _ ih =>
    rw [List.takeWhile_cons] at ih ⊢
    rw [List.takeWhile_cons]
    by_cases kept : goes letter
    · rw [if_pos kept] at ih ⊢
      rw [if_pos kept]
      exact ih.again
    · rw [if_neg kept, if_neg kept]
      exact nil

/-! ## Machines -/

section Machines

variable (step : S → α → S) (out : S → α → List β)

/-- What the machine answers to a word, letter by letter. -/
def outputs : S → List α → List β
  | _, [] => []
  | state, letter :: rest => out state letter ++ outputs (step state letter) rest

/-- The letter changes nothing in the state, and is not answered. Reading it again can then not
be noticed. -/
structure Settled (state : S) (letter : α) : Prop where
  stays : step state letter = state
  silent : out state letter = []

/-- Every letter that is not followed by itself leaves a state in which it is settled. -/
def Steady (state : S) (word : List α) : Prop :=
  ∀ before letter after, word = before ++ letter :: after →
    after.head? = some letter ∨ Settled step out ((before ++ [letter]).foldl step state) letter

/-- The machine ends in the same state and answers the same, whichever of the two words it reads. -/
structure Alike (state : S) (first second : List α) : Prop where
  ends : first.foldl step state = second.foldl step state
  answers : outputs step out state first = outputs step out state second

variable {step out}

/-- What later inputs put out depends on the state that the earlier ones have left. -/
theorem outputs_append (state : S) (first second : List α) :
    outputs step out state (first ++ second) =
      outputs step out state first ++ outputs step out (first.foldl step state) second := by
  induction first generalizing state with
  | nil => rfl
  | cons letter rest ih =>
    rw [List.cons_append, outputs, ih, outputs, List.append_assoc, List.foldl_cons]

/-- Words with the same first letter are alike if they are behind it. -/
theorem Alike.cons {state : S} {letter : α} {first second : List α}
    (alike : Alike step out (step state letter) first second) :
    Alike step out state (letter :: first) (letter :: second) where
  ends := alike.ends
  answers := congrArg (out state letter ++ ·) alike.answers

/-- Inputs that are alike in turn are alike. -/
theorem Alike.trans {state : S} {first second third : List α}
    (before : Alike step out state first second) (behind : Alike step out state second third) :
    Alike step out state first third :=
  ⟨before.ends.trans behind.ends, before.answers.trans behind.answers⟩

/-- A letter that is settled can be left out. -/
theorem Settled.alike {state : S} {letter : α} (settled : Settled step out state letter)
    (word : List α) : Alike step out state (letter :: word) word := by
  constructor
  · rw [List.foldl_cons, settled.stays]
  · rw [outputs, settled.silent, settled.stays, List.nil_append]

/-- Steadiness is a matter of the first letter and of the further ones. -/
theorem steady_cons_iff {state : S} {letter : α} {word : List α} :
    Steady step out state (letter :: word) ↔
      (word.head? = some letter ∨ Settled step out (step state letter) letter) ∧
        Steady step out (step state letter) word := by
  constructor
  · intro steady
    refine ⟨steady [] letter word rfl, fun before next after split => ?_⟩
    exact steady (letter :: before) next after (congrArg (letter :: ·) split)
  · rintro ⟨first, others⟩ before next after split
    cases before with
    | nil =>
      cases split
      exact first
    | cons head before =>
      cases split
      exact others before next after rfl

/-- The first letter of a steady word may come once more.

Induct over the word. The letters that are equal to the first one are passed, up to the last of
them, which is settled. -/
theorem Steady.again {state : S} {letter : α} {word : List α}
    (steady : Steady step out state (letter :: word)) :
    Steady step out (step state letter) (letter :: word) ∧
      Alike step out state (letter :: letter :: word) (letter :: word) := by
  induction word generalizing state with
  | nil =>
    obtain ⟨last | settled, rest⟩ := steady_cons_iff.mp steady
    · cases last
    · refine ⟨steady_cons_iff.mpr ⟨Or.inr ?_, ?_⟩, (settled.alike []).cons⟩
      · rwa [settled.stays]
      · rwa [settled.stays]
  | cons next word ih =>
    obtain ⟨same | settled, rest⟩ := steady_cons_iff.mp steady
    · cases same
      obtain ⟨further, alike⟩ := ih rest
      exact ⟨steady_cons_iff.mpr ⟨Or.inl rfl, further⟩, alike.cons⟩
    · refine ⟨steady_cons_iff.mpr ⟨Or.inr ?_, ?_⟩, (settled.alike (next :: word)).cons⟩
      · rwa [settled.stays]
      · rwa [settled.stays]

/-- The repetitions of a steady word are not noticed. -/
theorem Stutters.alike {word longer : List α} (stutters : Stutters word longer) {state : S}
    (steady : Steady step out state word) : Alike step out state longer word := by
  induction stutters generalizing state with
  | nil => exact ⟨rfl, rfl⟩
  | letter letter _ ih => exact (ih (steady_cons_iff.mp steady).2).cons
  | again _ ih =>
    obtain ⟨further, alike⟩ := steady.again
    exact (ih further).cons.trans alike

/-- Letters that are settled in every state can be left out. -/
theorem alike_filter {keeps : α → Bool}
    (idle : ∀ state letter, keeps letter = false → Settled step out state letter) (state : S)
    (word : List α) : Alike step out state word (word.filter keeps) := by
  induction word generalizing state with
  | nil => exact ⟨rfl, rfl⟩
  | cons letter rest ih =>
    by_cases kept : keeps letter
    · rw [List.filter_cons_of_pos kept]
      exact (ih (step state letter)).cons
    · rw [List.filter_cons_of_neg kept]
      exact ((idle state letter (Bool.not_eq_true _ ▸ kept)).alike rest).trans (ih state)

end Machines

end Stuttering
