import ExistentOS.Library.Programs

/-!
# What programs add to a trace

A state may carry a log that programs only extend. `Logs` gives the meaning of a program by what its
returning runs append to the log, whatever the rest of the state is. A monitor reads a log event by
event and may object to one of them; `Monitored` says that it never objects to what a program
appends, and where it stands when the program returns. Both have one rule for each way in which
programs are put together.
-/

namespace Traces

open Programs

variable {S ε α β E : Type} {log : S → List E}

/-- The program appends to the log only, and what it appends and returns meets `Q`. -/
def Logs (log : S → List E) (program : Program S ε α) (Q : α → List E → Prop) : Prop :=
  ∀ state value after, program.run state = .ok (value, after) →
    ∃ events, log after = log state ++ events ∧ Q value events

section Logs

variable {Q : α → List E → Prop}

/-- What is logged may be described more weakly. -/
theorem Logs.mono {Q' : α → List E → Prop} {program : Program S ε α} (logs : Logs log program Q)
    (weaker : ∀ value events, Q value events → Q' value events) : Logs log program Q' := by
  intro state value after ran
  obtain ⟨events, appended, holds⟩ := logs state value after ran
  exact ⟨events, appended, weaker value events holds⟩

/-- A value logs nothing. -/
theorem logs_pure {value : α} (holds : Q value []) : Logs log (pure value : Program S ε α) Q := by
  rintro state _ _ ⟨rfl⟩
  exact ⟨[], (List.append_nil _).symm, holds⟩

/-- A program that stops returns nothing that could be described. -/
theorem logs_throw (reason : ε) : Logs log (throw reason : Program S ε α) Q := by
  intro state value after ran
  cases ran

/-- A sequence appends what its parts append, in their order. -/
theorem logs_bind {first : Program S ε β} {next : β → Program S ε α}
    (parts : Logs log first fun value early =>
      Logs log (next value) fun result late => Q result (early ++ late)) :
    Logs log (first >>= next) Q := by
  intro state result after ran
  obtain ⟨value, middle, before, behind⟩ := (run_bind_ok first next state (result, after)).mp ran
  obtain ⟨early, reached, rest⟩ := parts state value middle before
  obtain ⟨late, ended, holds⟩ := rest middle result after behind
  exact ⟨early ++ late, by rw [ended, reached, List.append_assoc], holds⟩

/-- What follows a view of the state. -/
theorem logs_view {next : S → Program S ε α} (rest : ∀ state, Logs log (next state) Q) :
    Logs log (get >>= next) Q := fun state value after ran => rest state state value after ran

/-- Both branches log as described. -/
theorem logs_ite {condition : Prop} [Decidable condition] {left right : Program S ε α}
    (whenTrue : condition → Logs log left Q) (whenFalse : ¬ condition → Logs log right Q) :
    Logs log (if condition then left else right) Q := by
  by_cases chosen : condition
  · rw [if_pos chosen]
    exact whenTrue chosen
  · rw [if_neg chosen]
    exact whenFalse chosen

end Logs

/-! ## Monitors -/

variable {M : Type}

/-- A monitor reads some events. It may object to one, and then reads no more. -/
def check (step : M → E → Option M) (before : M) (events : List E) : Option M :=
  events.foldlM step before

@[simp] theorem check_nil (step : M → E → Option M) (before : M) :
    check step before [] = some before := rfl

/-- Events are read one after the other, so the monitor may be stopped in between. -/
theorem check_append (step : M → E → Option M) (before : M) (early late : List E) :
    check step before (early ++ late) = (check step before early).bind (check step · late) :=
  List.foldlM_append

/-- The monitor does not object to what the program appends, and then stands as `Q` says. -/
def Monitored (log : S → List E) (step : M → E → Option M) (before : M) (program : Program S ε α)
    (Q : α → M → Prop) : Prop :=
  Logs log program fun value events => ∃ after, check step before events = some after ∧ Q value after

section Monitored

variable {step : M → E → Option M} {before : M} {Q : α → M → Prop}

/-- What the monitor has come to may be described more weakly. -/
theorem Monitored.mono {Q' : α → M → Prop} {program : Program S ε α}
    (monitored : Monitored log step before program Q) (weaker : ∀ value after, Q value after →
      Q' value after) : Monitored log step before program Q' :=
  Logs.mono monitored fun value _ ⟨after, checked, holds⟩ => ⟨after, checked, weaker value after holds⟩

/-- A value leaves the monitor where it is. -/
theorem monitored_pure {value : α} (holds : Q value before) :
    Monitored log step before (pure value : Program S ε α) Q := logs_pure ⟨before, rfl, holds⟩

/-- A program that stops satisfies every monitor. -/
theorem monitored_throw (reason : ε) :
    Monitored log step before (throw reason : Program S ε α) Q := logs_throw reason

/-- The second part starts where the first part has left the monitor. -/
theorem monitored_bind {first : Program S ε β} {next : β → Program S ε α}
    (parts : Monitored log step before first fun value middle =>
      Monitored log step middle (next value) Q) : Monitored log step before (first >>= next) Q := by
  apply logs_bind
  apply Logs.mono parts
  rintro value early ⟨middle, checked, rest⟩
  apply Logs.mono rest
  rintro result late ⟨after, followed, holds⟩
  exact ⟨after, by rw [check_append, checked, Option.bind_some, followed], holds⟩

/-- Reading the state logs nothing. -/
theorem monitored_view {next : S → Program S ε α}
    (rest : ∀ state, Monitored log step before (next state) Q) :
    Monitored log step before (get >>= next) Q := logs_view rest

/-- Both branches are monitored from the same place. -/
theorem monitored_ite {condition : Prop} [Decidable condition] {left right : Program S ε α}
    (whenTrue : condition → Monitored log step before left Q)
    (whenFalse : ¬ condition → Monitored log step before right Q) :
    Monitored log step before (if condition then left else right) Q := logs_ite whenTrue whenFalse

/-- A loop whose rounds leave the monitor where it was, unless they are the last ones. -/
theorem monitored_iterate (exhausted : ε) {body : β → Program S ε (β ⊕ α)}
    (round : ∀ current, Monitored log step before (body current) fun outcome after =>
      outcome.elim (fun _ => after = before) (Q · after)) (fuel : Nat) (current : β) :
    Monitored log step before (iterate exhausted body fuel current) Q := by
  induction fuel generalizing current with
  | zero => exact monitored_throw exhausted
  | succ fuel ih =>
    apply monitored_bind
    apply (round current).mono
    intro outcome after established
    cases outcome with
    | inl next =>
      obtain rfl : after = before := established
      exact ih next
    | inr result => exact monitored_pure established

end Monitored

end Traces
