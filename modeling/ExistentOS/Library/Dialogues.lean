import ExistentOS.Library.Programs
import Mathlib.Data.List.Basic

/-!
# Dialogues

A dialogue takes inputs one after the other. Before each of them something is said, the input is
answered, and it leads to another state or to a result. A loop carries a dialogue out if each of its
rounds takes some inputs as the dialogue does. Such a loop returns only with the result of the
inputs it has taken, and it does return if inputs with a result are there to be taken.
-/

namespace Dialogues

open Programs

/-- What is said before an input, what an input is answered with, and where it leads. -/
structure Dialogue (S I O R : Type) where
  prompt : S → List O
  answer : S → I → List O
  next : S → I → S ⊕ R

namespace Dialogue

variable {S I O R : Type} (dialogue : Dialogue S I O R)

/-- Where some inputs lead. No input is taken behind a result. -/
def reaches : S → List I → Option (S ⊕ R)
  | state, [] => some (.inl state)
  | state, input :: rest =>
    match dialogue.next state input with
    | .inl later => reaches later rest
    | .inr result => if rest = [] then some (.inr result) else none

/-- What is said while some inputs are taken: for each the prompt and the answer. -/
def transcript : S → List I → List O
  | _, [] => []
  | state, input :: rest =>
    dialogue.prompt state ++ dialogue.answer state input ++
      match dialogue.next state input with
      | .inl later => transcript later rest
      | .inr _ => []

variable {dialogue} {state later : S} {input : I} {result : R}

/-- An input that leads to another state. The rest of the inputs is taken there. -/
theorem reaches_goes (goes : dialogue.next state input = .inl later) (rest : List I) :
    dialogue.reaches state (input :: rest) = dialogue.reaches later rest := by
  simp [reaches, goes]

/-- An input that leads to a result. No further one is taken. -/
theorem reaches_ends (ends : dialogue.next state input = .inr result) :
    dialogue.reaches state [input] = some (.inr result) := by
  simp [reaches, ends]

/-- The transcript of an input that goes on is followed by that of the state it leads to. -/
theorem transcript_goes (goes : dialogue.next state input = .inl later) (rest : List I) :
    dialogue.transcript state (input :: rest) =
      dialogue.prompt state ++ dialogue.answer state input ++ dialogue.transcript later rest := by
  simp [transcript, goes]

/-- The transcript of an input that ends the dialogue is the prompt and the answer. -/
theorem transcript_ends (ends : dialogue.next state input = .inr result) :
    dialogue.transcript state [input] = dialogue.prompt state ++ dialogue.answer state input := by
  simp [transcript, ends]

/-- What follows some inputs is taken in the state that they lead to. -/
theorem reaches_append {first : List I} (leads : dialogue.reaches state first = some (.inl later))
    (rest : List I) : dialogue.reaches state (first ++ rest) = dialogue.reaches later rest := by
  induction first generalizing state with
  | nil =>
    have same : state = later := by simpa [reaches] using leads
    rw [same, List.nil_append]
  | cons input inputs ih =>
    cases taken : dialogue.next state input with
    | inl middle =>
      rw [reaches_goes taken] at leads
      rw [List.cons_append, reaches_goes taken, ih leads]
    | inr result => simp [reaches, taken] at leads

/-- Inputs that lead somewhere are transcribed first, and the rest from there. -/
theorem transcript_append {first : List I} (leads : dialogue.reaches state first = some (.inl later))
    (rest : List I) :
    dialogue.transcript state (first ++ rest) =
      dialogue.transcript state first ++ dialogue.transcript later rest := by
  induction first generalizing state with
  | nil =>
    have same : state = later := by simpa [reaches] using leads
    simp [transcript, same]
  | cons input inputs ih =>
    cases taken : dialogue.next state input with
    | inl middle =>
      rw [reaches_goes taken] at leads
      rw [List.cons_append, transcript_goes taken, transcript_goes taken, ih leads]
      simp only [List.append_assoc]
    | inr result => simp [reaches, taken] at leads

/-- Inputs that have a result end with it. -/
theorem reaches_result {first rest : List I}
    (ends : dialogue.reaches state first = some (.inr result)) {outcome : S ⊕ R}
    (leads : dialogue.reaches state (first ++ rest) = some outcome) :
    rest = [] ∧ outcome = .inr result := by
  induction first generalizing state with
  | nil => simp [reaches] at ends
  | cons input inputs ih =>
    cases taken : dialogue.next state input with
    | inl middle =>
      rw [reaches_goes taken] at ends
      rw [List.cons_append, reaches_goes taken] at leads
      exact ih ends leads
    | inr found =>
      simp only [reaches, taken, Option.ite_none_right_eq_some, Option.some.injEq,
        Sum.inr.injEq] at ends
      obtain ⟨rfl, rfl⟩ := ends
      simp only [List.cons_append, List.nil_append, reaches, taken,
        Option.ite_none_right_eq_some, Option.some.injEq] at leads
      exact ⟨leads.1, leads.2.symm⟩

end Dialogue

/-! ## Loops -/

section Loops

variable {S I O R M β α ε : Type}

/-- How a program carries a dialogue out: the state of the dialogue in which a round is entered,
the value that stands for a result, and what the program does while it takes some inputs. -/
structure Carrier (dialogue : Dialogue S I O R) (M β α : Type) where
  view : β → M → S
  value : R → α
  takes : List I → List O → S ⊕ R → M → M → Prop
  further : ∀ {first rest early late middle outcome start between after},
    takes first early (.inl middle) start between → takes rest late outcome between after →
      takes (first ++ rest) (early ++ late) outcome start after

variable {dialogue : Dialogue S I O R} (carrier : Carrier dialogue M β α)

/-- The outcome of a round is the one of the dialogue: both go on, in a state that the view
shows, or both end with the same value. -/
inductive Carrier.Agrees (after : M) : β ⊕ α → S ⊕ R → Prop where
  | goes (current : β) : Agrees after (.inl current) (.inl (carrier.view current after))
  | ends (result : R) : Agrees after (.inr (carrier.value result)) (.inr result)

/-- Between two states the program takes inputs as the dialogue does, from where the dialogue
stands to the outcome that it reaches. -/
structure Carrier.Carries (current : β) (inputs : List I) (outcome : S ⊕ R) (start after : M) :
    Prop where
  reaches : dialogue.reaches (carrier.view current start) inputs = some outcome
  takes : carrier.takes inputs (dialogue.transcript (carrier.view current start) inputs) outcome
    start after

variable {carrier}

/-- Rounds in turn take their inputs in turn. -/
theorem Carrier.Carries.then {current next : β} {first rest : List I} {outcome : S ⊕ R}
    {start between after : M}
    (head : carrier.Carries current first (.inl (carrier.view next between)) start between)
    (tail : carrier.Carries next rest outcome between after) :
    carrier.Carries current (first ++ rest) outcome start after where
  reaches := (Dialogue.reaches_append head.reaches rest).trans tail.reaches
  takes := by
    rw [Dialogue.transcript_append head.reaches]
    exact carrier.further head.takes tail.takes

variable {exhausted : ε} {body : β → Program M ε (β ⊕ α)}

/-- A loop whose rounds take inputs as the dialogue does returns only with a result of the inputs
that it has taken.

Induct over the fuel. -/
theorem carries_of_iterate (carrier : Carrier dialogue M β α) (invariant : M → Prop)
    (round : ∀ current start outcome after, invariant start →
      (body current).run start = .ok (outcome, after) →
      (outcome.isLeft → invariant after) ∧ ∃ inputs reached,
        carrier.Carries current inputs reached start after ∧ carrier.Agrees after outcome reached)
    {fuel : Nat} {current : β} {start after : M} {value : α} (entered : invariant start)
    (ran : (iterate exhausted body fuel current).run start = .ok (value, after)) :
    ∃ inputs result, value = carrier.value result ∧
      carrier.Carries current inputs (.inr result) start after := by
  induction fuel generalizing current start with
  | zero => cases ran
  | succ fuel ih =>
    rw [iterate] at ran
    obtain ⟨outcome, between, taken, rest⟩ := (run_bind_ok _ _ _ _).mp ran
    obtain ⟨held, inputs, reached, carries, agrees⟩ :=
      round current start outcome between entered taken
    cases agrees with
    | goes next =>
      obtain ⟨later, result, same, ends⟩ := ih (held rfl) rest
      exact ⟨inputs ++ later, result, same, carries.then ends⟩
    | ends result =>
      cases rest
      exact ⟨inputs, result, rfl, carries⟩

/-- A loop whose rounds take inputs that are there returns the result of the inputs, if they have
one.

Induct over the inputs: a round takes at least one of them. -/
theorem iterate_carries (carrier : Carrier dialogue M β α) (exhausted : ε)
    (body : β → Program M ε (β ⊕ α)) (ready : List I → M → Prop)
    (round : ∀ current start inputs result, ready inputs start →
      dialogue.reaches (carrier.view current start) inputs = some (.inr result) →
      ∃ first rest outcome reached after, inputs = first ++ rest ∧ first ≠ [] ∧
        (body current).run start = .ok (outcome, after) ∧ ready rest after ∧
        carrier.Carries current first reached start after ∧ carrier.Agrees after outcome reached)
    {fuel : Nat} {current : β} {start : M} {inputs : List I} {result : R}
    (given : ready inputs start)
    (ends : dialogue.reaches (carrier.view current start) inputs = some (.inr result))
    (enough : inputs.length ≤ fuel) :
    ∃ after, (iterate exhausted body fuel current).run start = .ok (carrier.value result, after) ∧
      ready [] after ∧ carrier.Carries current inputs (.inr result) start after := by
  induction fuel generalizing current start inputs with
  | zero =>
    have none : inputs = [] := by simpa using enough
    rw [none] at ends
    cases ends
  | succ fuel ih =>
    obtain ⟨first, rest, outcome, reached, between, rfl, some, ran, left, carries, agrees⟩ :=
      round current start inputs result given ends
    rw [iterate, run_bind_of_ok ran]
    cases agrees with
    | goes next =>
      rw [Dialogue.reaches_append carries.reaches] at ends
      have taken : 0 < first.length := List.length_pos_iff.mpr some
      rw [List.length_append] at enough
      obtain ⟨after, returned, empty, further⟩ := ih left ends (by omega)
      exact ⟨after, returned, empty, carries.then further⟩
    | ends found =>
      obtain ⟨rfl, same⟩ := Dialogue.reaches_result carries.reaches ends
      obtain rfl : result = found := by simpa using same
      rw [List.append_nil]
      exact ⟨between, rfl, left, carries⟩

end Loops

end Dialogues
