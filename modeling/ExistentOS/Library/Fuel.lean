import ExistentOS.Library.Programs

/-!
# Enough fuel

A program with fuel stops for one reason when the fuel is used up. Another program extends
it when both run alike unless the first one stops for that reason. The rules follow the
structure of the programs, so that an interpreter extends itself when its fuel grows. What
a family of programs settles on is then a matter of the family, not of the fuel.
-/

namespace Programs

variable {S ε α β : Type} {exhausted : ε}

/-- The second program runs like the first one unless that one has used up its fuel. -/
def Extends (exhausted : ε) (first second : Program S ε α) : Prop :=
  ∀ state, first.run state ≠ .error exhausted → second.run state = first.run state

/-- A program extends itself. -/
theorem extends_refl (program : Program S ε α) : Extends exhausted program program :=
  fun _ _ => rfl

/-- Extending twice is extending. The fuel in the middle is not used up where the first was not. -/
theorem Extends.trans {first second third : Program S ε α} (early : Extends exhausted first second)
    (late : Extends exhausted second third) : Extends exhausted first third := by
  intro state settled
  have same := early state settled
  rw [late state (same ▸ settled), same]

/-- Everything extends a program without fuel. This is the base of the inductions on fuel. -/
theorem extends_exhausted (program : Program S ε α) :
    Extends exhausted (throw exhausted) program := fun _ settled => absurd rfl settled

/-- A sequence is extended by a sequence of extensions. -/
theorem extends_bind {first second : Program S ε α} {next next' : α → Program S ε β}
    (head : Extends exhausted first second)
    (rest : ∀ value, Extends exhausted (next value) (next' value)) :
    Extends exhausted (first >>= next) (second >>= next') := by
  intro state settled
  have headSettled : first.run state ≠ .error exhausted := by
    intro stopped
    rw [StateT.run_bind, stopped] at settled
    exact settled rfl
  have same := head state headSettled
  cases ran : first.run state with
  | error reason => rw [StateT.run_bind, StateT.run_bind, same, ran]; rfl
  | ok result =>
    obtain ⟨value, middle⟩ := result
    rw [run_bind_of_ok ran] at settled ⊢
    rw [run_bind_of_ok (same.trans ran)]
    exact rest value middle settled

/-- What follows a common part may be extended. -/
theorem extends_after {first : Program S ε α} {next next' : α → Program S ε β}
    (rest : ∀ value, Extends exhausted (next value) (next' value)) :
    Extends exhausted (first >>= next) (first >>= next') :=
  extends_bind (extends_refl first) rest

/-- A choice is extended by a choice of extensions. -/
theorem extends_ite {condition : Prop} [Decidable condition] {left right left' right' : Program S ε α}
    (whenTrue : Extends exhausted left left') (whenFalse : Extends exhausted right right') :
    Extends exhausted (if condition then left else right)
      (if condition then left' else right') := by
  by_cases chosen : condition
  · rw [if_pos chosen, if_pos chosen]
    exact whenTrue
  · rw [if_neg chosen, if_neg chosen]
    exact whenFalse

/-- A loop is extended by one with more fuel and extended rounds.

Induct over the smaller fuel. -/
theorem extends_iterate {body body' : β → Program S ε (β ⊕ α)}
    (rounds : ∀ current, Extends exhausted (body current) (body' current)) {fuel fuel' : Nat}
    (more : fuel ≤ fuel') (current : β) :
    Extends exhausted (iterate exhausted body fuel current)
      (iterate exhausted body' fuel' current) := by
  induction fuel generalizing fuel' current with
  | zero => exact extends_exhausted _
  | succ fuel ih =>
    obtain ⟨larger, rfl⟩ := Nat.exists_eq_add_of_le' (Nat.zero_lt_of_lt more)
    refine extends_bind (rounds current) (fun outcome => ?_)
    cases outcome with
    | inl next => exact ih (Nat.le_of_succ_le_succ more) next
    | inr result => exact extends_refl _

/-! ## Outcomes -/

/-- The family of programs comes to the outcome with some fuel. With more fuel it comes to the
same, if it is stable. -/
def Settles (exhausted : ε) (run : Nat → Program S ε α) (state : S)
    (outcome : Except ε (α × S)) : Prop :=
  outcome ≠ .error exhausted ∧ ∃ fuel, (run fuel).run state = outcome

/-- More fuel only extends the programs of the family. -/
def Stable (exhausted : ε) (run : Nat → Program S ε α) : Prop :=
  ∀ fuel fuel', fuel ≤ fuel' → Extends exhausted (run fuel) (run fuel')

/-- A stable family settles on one outcome at most. -/
theorem Settles.unique {run : Nat → Program S ε α} (stable : Stable exhausted run) {state : S}
    {outcome outcome' : Except ε (α × S)} (first : Settles exhausted run state outcome)
    (second : Settles exhausted run state outcome') : outcome = outcome' := by
  obtain ⟨settled, fuel, rfl⟩ := first
  obtain ⟨settled', fuel', rfl⟩ := second
  rcases Nat.le_total fuel fuel' with more | more
  · exact (stable fuel fuel' more state settled).symm
  · exact stable fuel' fuel more state settled'

/-- Families that extend each other settle on the same outcomes. -/
theorem settles_congr {first second : Nat → Program S ε α}
    (forth : ∀ fuel, ∃ fuel', Extends exhausted (first fuel) (second fuel'))
    (back : ∀ fuel, ∃ fuel', Extends exhausted (second fuel) (first fuel')) (state : S)
    (outcome : Except ε (α × S)) :
    Settles exhausted first state outcome ↔ Settles exhausted second state outcome := by
  constructor
  · rintro ⟨settled, fuel, rfl⟩
    obtain ⟨fuel', extended⟩ := forth fuel
    exact ⟨settled, fuel', extended state settled⟩
  · rintro ⟨settled, fuel, rfl⟩
    obtain ⟨fuel', extended⟩ := back fuel
    exact ⟨settled, fuel', extended state settled⟩

/-! ## Programs that last -/

/-- From some fuel on, the programs of the family do not use it up. -/
def Lasts (exhausted : ε) (run : Nat → Program S ε α) (state : S) : Prop :=
  ∃ least, ∀ fuel ≥ least, (run fuel).run state ≠ .error exhausted

/-- What lasts settles on an outcome, as some member of the family does not run out. -/
theorem Lasts.settles {run : Nat → Program S ε α} {state : S} (lasts : Lasts exhausted run state) :
    ∃ outcome, Settles exhausted run state outcome := by
  obtain ⟨least, settled⟩ := lasts
  exact ⟨_, settled least (Nat.le_refl least), least, rfl⟩

/-- A program without loops lasts if it does not stop as one that is exhausted. -/
theorem lasts_constant {program : Program S ε α} {state : S}
    (settled : program.run state ≠ .error exhausted) : Lasts exhausted (fun _ => program) state :=
  ⟨0, fun _ _ => settled⟩

/-- A program that returns at once lasts. -/
theorem lasts_pure (value : α) (state : S) :
    Lasts exhausted (fun _ => (pure value : Program S ε α)) state := by
  refine lasts_constant ?_
  intro stopped
  cases stopped

/-- One unit of fuel may be used at once. -/
theorem lasts_succ {run body : Nat → Program S ε α} {state : S}
    (unfolded : ∀ fuel, run (fuel + 1) = body fuel) (lasts : Lasts exhausted body state) :
    Lasts exhausted run state := by
  obtain ⟨least, settled⟩ := lasts
  refine ⟨least + 1, fun fuel more => ?_⟩
  obtain ⟨smaller, rfl⟩ := Nat.exists_eq_add_of_le' (Nat.zero_lt_of_lt more)
  rw [unfolded]
  exact settled smaller (Nat.le_of_succ_le_succ more)

/-- A sequence lasts if its parts do, provided that the first part is stable: what follows it then
starts in one state only. -/
theorem lasts_bind {first : Nat → Program S ε α} {next : Nat → α → Program S ε β} {state : S}
    (stable : Stable exhausted first) (head : Lasts exhausted first state)
    (rest : ∀ value after fuel, (first fuel).run state = .ok (value, after) →
      Lasts exhausted (fun fuel => next fuel value) after) :
    Lasts exhausted (fun fuel => first fuel >>= next fuel) state := by
  obtain ⟨least, settled⟩ := head
  have same : ∀ fuel ≥ least, (first fuel).run state = (first least).run state :=
    fun fuel more => stable least fuel more state (settled least (Nat.le_refl least))
  cases ran : (first least).run state with
  | error reason =>
    have other : reason ≠ exhausted := by
      rintro rfl
      exact settled least (Nat.le_refl least) ran
    refine ⟨least, fun fuel more stopped => ?_⟩
    rw [StateT.run_bind, same fuel more, ran] at stopped
    exact other (Except.error.inj stopped)
  | ok result =>
    obtain ⟨value, after⟩ := result
    obtain ⟨later, settledRest⟩ := rest value after least ran
    refine ⟨max least later, fun fuel more => ?_⟩
    rw [run_bind_of_ok ((same fuel (Nat.le_trans (Nat.le_max_left least later) more)).trans ran)]
    exact settledRest fuel (Nat.le_trans (Nat.le_max_right least later) more)

/-- What follows a program without loops lasts, if it does from every state the program leaves. -/
theorem lasts_after {first : Program S ε α} {next : Nat → α → Program S ε β} {state : S}
    (settled : first.run state ≠ .error exhausted)
    (rest : ∀ value after, first.run state = .ok (value, after) →
      Lasts exhausted (fun fuel => next fuel value) after) :
    Lasts exhausted (fun fuel => first >>= next fuel) state :=
  lasts_bind (fun _ _ _ => extends_refl first) (lasts_constant settled)
    fun value after _ ran => rest value after ran

/-- A choice lasts if its alternatives do. -/
theorem lasts_ite {condition : Prop} [Decidable condition] {left right : Nat → Program S ε α}
    {state : S} (whenTrue : condition → Lasts exhausted left state)
    (whenFalse : ¬ condition → Lasts exhausted right state) :
    Lasts exhausted (fun fuel => if condition then left fuel else right fuel) state := by
  by_cases chosen : condition
  · simpa only [if_pos chosen] using whenTrue chosen
  · simpa only [if_neg chosen] using whenFalse chosen

end Programs
