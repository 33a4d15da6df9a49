import ExistentOS.Library.Programs

/-!
# Two programs side by side

The relational meaning of two programs over states of their own: from related states,
both stop for the same reason, or both return, with related values in related states.
The rules follow the structure that the two programs share, so that a difference between
them only has to be looked at where it occurs.
-/

namespace Programs

variable {S T ε α α' β β' : Type}

/-- From states related by `P`, both programs stop for the same reason, or both return, and `Q`
relates their values and their final states. -/
def Coupled (P : S → T → Prop) (first : Program S ε α) (second : Program T ε α')
    (Q : α → α' → S → T → Prop) : Prop :=
  ∀ state state', P state state' →
    (∀ reason, second.run state' = .error reason → first.run state = .error reason) ∧
      ∀ value' after', second.run state' = .ok (value', after') →
        ∃ value after, first.run state = .ok (value, after) ∧ Q value value' after after'

variable {P P' : S → T → Prop} {Q Q' : α → α' → S → T → Prop}

/-- Returned values are related if they are in every pair of related states. -/
theorem coupled_pure {value : α} {value' : α'}
    (related : ∀ state state', P state state' → Q value value' state state') :
    Coupled P (pure value : Program S ε α) (pure value' : Program T ε α') Q := by
  intro state state' entered
  refine ⟨fun reason stopped => (by cases stopped), fun found after ran => ?_⟩
  cases ran
  exact ⟨value, state, rfl, related state state' entered⟩

/-- Programs that stop for the same reason. There is nothing to relate behind a stop. -/
theorem coupled_throw (reason : ε) :
    Coupled P (throw reason : Program S ε α) (throw reason : Program T ε α') Q := by
  intro state state' _
  refine ⟨fun reason' stopped => ?_, fun found after ran => (by cases ran)⟩
  cases stopped
  rfl

/-- Sequences are related if their parts are, whatever related values the first parts return. -/
theorem coupled_bind {first : Program S ε α} {second : Program T ε α'}
    {next : α → Program S ε β} {next' : α' → Program T ε β'} {Q' : β → β' → S → T → Prop}
    (head : Coupled P first second Q)
    (rest : ∀ value value', Coupled (Q value value') (next value) (next' value') Q') :
    Coupled P (first >>= next) (second >>= next') Q' := by
  intro state state' entered
  obtain ⟨stops, returns⟩ := head state state' entered
  cases ran : second.run state' with
  | error reason =>
    have stopped := stops reason ran
    rw [StateT.run_bind, StateT.run_bind, stopped, ran]
    refine ⟨fun reason' same => ?_, fun found after same => (by cases same)⟩
    cases same
    rfl
  | ok result =>
    obtain ⟨value', middle'⟩ := result
    obtain ⟨value, middle, mirrored, related⟩ := returns value' middle' ran
    rw [run_bind_of_ok mirrored, run_bind_of_ok ran]
    exact rest value value' middle middle' related

/-- The rule of consequence: a stronger relation before, a weaker one behind. -/
theorem Coupled.mono {first : Program S ε α} {second : Program T ε α'}
    (coupled : Coupled P first second Q)
    (entry : ∀ state state', P' state state' → P state state')
    (exit : ∀ value value' after after', Q value value' after after' →
      Q' value value' after after') : Coupled P' first second Q' := by
  intro state state' entered
  obtain ⟨stops, returns⟩ := coupled state state' (entry state state' entered)
  refine ⟨stops, fun value' after' ran => ?_⟩
  obtain ⟨value, after, mirrored, related⟩ := returns value' after' ran
  exact ⟨value, after, mirrored, exit value value' after after' related⟩

/-- Programs that look at their states first, and go on from what they have seen. -/
theorem coupled_view {next : S → Program S ε α} {next' : T → Program T ε α'}
    (rest : ∀ state state', P state state' → Coupled P (next state) (next' state') Q) :
    Coupled P (get >>= next) (get >>= next') Q :=
  fun state state' entered => rest state state' entered state state' entered

/-- Updates that keep the states related. -/
theorem coupled_modify {update : S → S} {update' : T → T} {Q : PUnit → PUnit → S → T → Prop}
    (related : ∀ state state', P state state' → Q ⟨⟩ ⟨⟩ (update state) (update' state')) :
    Coupled P (modify update : Program S ε PUnit) (modify update' : Program T ε PUnit) Q := by
  intro state state' entered
  refine ⟨fun reason stopped => (by cases stopped), fun found after ran => ?_⟩
  cases ran
  exact ⟨⟨⟩, update state, rfl, related state state' entered⟩

/-- Choices made in the same way are related if their alternatives are. -/
theorem coupled_ite {condition condition' : Prop} [Decidable condition] [Decidable condition']
    {left right : Program S ε α} {left' right' : Program T ε α'}
    (same : condition ↔ condition')
    (whenTrue : condition' → Coupled P left left' Q)
    (whenFalse : ¬ condition' → Coupled P right right' Q) :
    Coupled P (if condition then left else right) (if condition' then left' else right') Q := by
  by_cases chosen : condition'
  · rw [if_pos (same.mpr chosen), if_pos chosen]
    exact whenTrue chosen
  · rw [if_neg (fun holds => chosen (same.mp holds)), if_neg chosen]
    exact whenFalse chosen

/-- A program that does not notice a change runs as itself on the changed state. -/
theorem Commutes.coupled {change : S → S} {program : Program S ε α}
    (commutes : Commutes change program) :
    Coupled (fun state state' => state = change state') program program
      (fun value value' after after' => value = value' ∧ after = change after') := by
  rintro _ state' rfl
  rw [commutes state']
  cases program.run state' with
  | error reason =>
    refine ⟨fun reason' same => ?_, fun found after same => (by cases same)⟩
    cases same
    rfl
  | ok result =>
    refine ⟨fun reason' same => (by cases same), fun found after same => ?_⟩
    cases same
    exact ⟨found, change after, rfl, rfl, rfl⟩

/-- The meaning of the second program is a meaning of the first one. -/
theorem Coupled.wp {first : Program S ε α} {second : Program T ε α'}
    (coupled : Coupled P first second Q) {state : S} {state' : T} (entered : P state state')
    {R' : α' → T → Prop} {R : α → S → Prop} {E : ε → Prop} (holds : wp second R' E state')
    (transfer : ∀ value value' after after', Q value value' after after' → R' value' after' →
      R value after) : Programs.wp first R E state := by
  obtain ⟨stops, returns⟩ := coupled state state' entered
  obtain ⟨returned, stopped⟩ := (wp_iff _ _ _ _).mp holds
  cases ran : second.run state' with
  | error reason =>
    rw [wp_iff, stops reason ran]
    refine ⟨fun value after same => (by cases same), fun reason' same => ?_⟩
    cases same
    exact stopped reason ran
  | ok result =>
    obtain ⟨value', after'⟩ := result
    obtain ⟨value, after, mirrored, related⟩ := returns value' after' ran
    exact wp_of_run mirrored (transfer value value' after after' related (returned value' after' ran))

end Programs
