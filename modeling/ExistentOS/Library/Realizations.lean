import ExistentOS.Library.Programs

/-!
# Programs that realize a description

A description is a program over states of its own. Another program realizes it when, from
related states, it returns whatever the description returns and leaves related states again.
Where the description stops, it asks nothing. The rules follow the structure that the program
and its description share; everything else is settled by a run of the program.
-/

namespace Programs

variable {S T ε δ α β γ : Type}

/-- From related states, the program returns whatever the description does, and the states stay
related. -/
def Realizes (R : S → T → Prop) (program : Program S ε α) (description : Program T δ α) : Prop :=
  ∀ state described, R state described → ∀ value after',
    description.run described = .ok (value, after') →
      ∃ after, program.run state = .ok (value, after) ∧ R after after'

variable {R : S → T → Prop}

/-- A value realizes itself, in related states. -/
theorem realizes_pure (value : α) :
    Realizes R (pure value : Program S ε α) (pure value : Program T δ α) := by
  rintro state described related _ _ ⟨rfl⟩
  exact ⟨state, rfl, related⟩

/-- A description that stops asks nothing of the program. -/
theorem realizes_throw (program : Program S ε α) (reason : δ) :
    Realizes R program (throw reason : Program T δ α) := by
  intro state described related value after' ran
  cases ran

/-- A description may stop for a reason of its own. -/
theorem realizes_unless {program : Program S ε α} {description : Program T δ α} {condition : Prop}
    [Decidable condition] (reason : δ) (rest : ¬ condition → Realizes R program description) :
    Realizes R program (if condition then throw reason else description) := by
  by_cases stops : condition
  · simpa [stops] using realizes_throw program reason
  · simpa [stops] using rest stops

/-- Sequences are realized part by part, through the related states in between. -/
theorem Realizes.bind {first : Program S ε α} {next : α → Program S ε β} {described : Program T δ α}
    {further : α → Program T δ β} (head : Realizes R first described)
    (rest : ∀ value, Realizes R (next value) (further value)) :
    Realizes R (first >>= next) (described >>= further) := by
  intro state state' related value after' ran
  obtain ⟨found, middle', early, late⟩ := (run_bind_ok _ _ _ _).mp ran
  obtain ⟨middle, returned, held⟩ := head state state' related found middle' early
  obtain ⟨after, reached, final⟩ := rest found middle middle' held value after' late
  exact ⟨after, (run_bind_of_ok returned).trans reached, final⟩

/-- What only prepares a program need not be described. -/
theorem Realizes.prepared {first : Program S ε α} {next : Program S ε β} {description : Program T δ β}
    (quiet : ∀ state described, R state described → ∃ value after,
      first.run state = .ok (value, after) ∧ R after described)
    (rest : Realizes R next description) : Realizes R (first >>= fun _ => next) description := by
  intro state described related value after' ran
  obtain ⟨_, middle, returned, held⟩ := quiet state described related
  obtain ⟨after, reached, final⟩ := rest middle described held value after' ran
  exact ⟨after, (run_bind_of_ok returned).trans reached, final⟩

/-- Choices on equivalent conditions are realized if their alternatives are. -/
theorem realizes_ite {condition condition' : Prop} [Decidable condition] [Decidable condition']
    {left right : Program S ε α} {left' right' : Program T δ α} (same : condition ↔ condition')
    (whenTrue : condition' → Realizes R left left')
    (whenFalse : ¬ condition' → Realizes R right right') :
    Realizes R (if condition then left else right) (if condition' then left' else right') := by
  by_cases chosen : condition'
  · simpa [chosen, same.mpr chosen] using whenTrue chosen
  · simpa [chosen, mt same.mp chosen] using whenFalse chosen

/-- A description that looks at its state is realized if it is from every state that it finds. -/
theorem realizes_view {program : Program S ε α} {description : T → Program T δ α}
    (rest : ∀ state described, R state described → ∀ value after',
      (description described).run described = .ok (value, after') →
        ∃ after, program.run state = .ok (value, after) ∧ R after after') :
    Realizes R program (get >>= description) := rest

/-- A program that returns a value behind an update is described by the update. -/
theorem realizes_update {program : Program S ε α} {update : T → T} {value : α}
    (ran : ∀ state described, R state described →
      ∃ after, program.run state = .ok (value, after) ∧ R after (update described)) :
    Realizes R program (do modify update; return value : Program T δ α) := by
  rintro state described related _ _ ⟨rfl⟩
  exact ran state described related

/-- Loops are realized round by round, if they start from the same value.

Induct over the fuel. -/
theorem realizes_iterate {exhausted : ε} {exhausted' : δ} {body : β → Program S ε (β ⊕ α)}
    {body' : β → Program T δ (β ⊕ α)} (round : ∀ current, Realizes R (body current) (body' current))
    (fuel : Nat) (start : β) :
    Realizes R (iterate exhausted body fuel start) (iterate exhausted' body' fuel start) := by
  induction fuel generalizing start with
  | zero => exact realizes_throw _ exhausted'
  | succ fuel ih =>
    apply (round start).bind
    intro outcome
    cases outcome with
    | inl next => exact ih next
    | inr value => exact realizes_pure value

/-- Operations in turn are realized one by one.

Induct over the operations. -/
theorem realizes_forM {program : γ → Program S ε PUnit} {description : γ → Program T δ PUnit}
    {operations : List γ}
    (each : ∀ operation ∈ operations, Realizes R (program operation) (description operation)) :
    Realizes R (operations.forM program) (operations.forM description) := by
  induction operations with
  | nil => exact realizes_pure PUnit.unit
  | cons first rest ih =>
    apply (each first List.mem_cons_self).bind
    intro _
    exact ih fun operation member => each operation (List.mem_cons_of_mem first member)

end Programs
