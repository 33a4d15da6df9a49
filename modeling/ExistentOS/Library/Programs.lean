import Mathlib.Order.Defs.Unbundled

/-!
# Stateful programs with early stops

A program reads and writes a state and either returns a value or stops for a
recorded reason. `wp` gives the meaning of a program by its postconditions: one
on the returned value and final state, one on the reason of a stop. Taking the
second to be `True` gives partial correctness, `False` total correctness, and
anything in between excludes chosen stops only.

`Keeps` is the frame side of the same meaning. A reflexive transitive relation
kept by every piece of a program is kept by the whole, so it suffices to look
at the primitive updates. Loops without a bound in the source are `iterate`,
whose fuel only limits the number of rounds and is itself a stop.
-/

namespace Programs

/-- A state transformer that may stop. The final state of a stopped program is
not observable. -/
abbrev Program (S ε α : Type) := StateT S (Except ε) α

variable {S ε α β γ : Type}

/-- The program returns only with `Q`, and stops only for reasons in `E`. -/
def wp (program : Program S ε α) (Q : α → S → Prop) (E : ε → Prop) (state : S) : Prop :=
  match program.run state with
  | .ok (value, after) => Q value after
  | .error reason => E reason

/-- A weakest precondition is read off the run of the program. -/
theorem wp_iff (program : Program S ε α) (Q : α → S → Prop) (E : ε → Prop) (state : S) :
    wp program Q E state ↔
      (∀ value after, program.run state = .ok (value, after) → Q value after) ∧
        (∀ reason, program.run state = .error reason → E reason) := by
  unfold wp
  cases program.run state with
  | error reason => simp
  | ok result =>
    obtain ⟨value, after⟩ := result
    constructor
    · intro holds
      refine ⟨fun value' after' same => ?_, fun reason same => by cases same⟩
      cases same
      exact holds
    · intro holds
      exact holds.1 value after rfl

/-- A value keeps the state. -/
@[simp] theorem wp_pure (value : α) (Q : α → S → Prop) (E : ε → Prop) (state : S) :
    wp (pure value : Program S ε α) Q E state ↔ Q value state := Iff.rfl

/-- Reading hands the state on and keeps it. -/
@[simp] theorem wp_get (Q : S → S → Prop) (E : ε → Prop) (state : S) :
    wp (get : Program S ε S) Q E state ↔ Q state state := Iff.rfl

/-- Storing replaces the state. -/
@[simp] theorem wp_set (next : S) (Q : PUnit → S → Prop) (E : ε → Prop) (state : S) :
    wp (set next : Program S ε PUnit) Q E state ↔ Q ⟨⟩ next := Iff.rfl

/-- Updating replaces the state by its update. -/
@[simp] theorem wp_modify (update : S → S) (Q : PUnit → S → Prop) (E : ε → Prop) (state : S) :
    wp (modify update : Program S ε PUnit) Q E state ↔ Q ⟨⟩ (update state) := Iff.rfl

/-- A program that stops has no state afterwards. -/
@[simp] theorem wp_throw (reason : ε) (Q : α → S → Prop) (E : ε → Prop) (state : S) :
    wp (throw reason : Program S ε α) Q E state ↔ E reason := Iff.rfl

/-- Sequencing composes the meanings: the first program must establish whatever
the second one requires. -/
@[simp] theorem wp_bind (first : Program S ε α) (next : α → Program S ε β)
    (Q : β → S → Prop) (E : ε → Prop) (state : S) :
    wp (first >>= next) Q E state ↔ wp first (fun value => wp (next value) Q E) E state := by
  unfold wp
  rw [StateT.run_bind]
  cases first.run state <;> rfl

/-- Relabelling the returned value moves into the postcondition. -/
@[simp] theorem wp_map (relabel : α → β) (program : Program S ε α) (Q : β → S → Prop)
    (E : ε → Prop) (state : S) :
    wp (relabel <$> program) Q E state ↔ wp program (fun value => Q (relabel value)) E state := by
  rw [map_eq_pure_bind, wp_bind]
  rfl

/-- A choice has the meaning of the alternative that its condition selects. -/
@[simp] theorem wp_ite (condition : Prop) [Decidable condition] (left right : Program S ε α)
    (Q : α → S → Prop) (E : ε → Prop) (state : S) :
    wp (if condition then left else right) Q E state ↔
      (condition → wp left Q E state) ∧ (¬ condition → wp right Q E state) := by
  by_cases chosen : condition <;> simp [chosen]

/-- A postcondition on either side may be weakened. -/
theorem wp_mono {program : Program S ε α} {Q Q' : α → S → Prop} {E E' : ε → Prop} {state : S}
    (holds : wp program Q E state) (returns : ∀ value after, Q value after → Q' value after)
    (stops : ∀ reason, E reason → E' reason) : wp program Q' E' state := by
  rw [wp_iff] at holds ⊢
  exact ⟨fun value after ran => returns value after (holds.1 value after ran),
    fun reason stopped => stops reason (holds.2 reason stopped)⟩

/-- A partial postcondition that holds of every outcome needs nothing of the program. -/
theorem wp_any {program : Program S ε α} {Q : α → S → Prop} {state : S}
    (holds : ∀ value after, Q value after) : wp program Q (fun _ => True) state :=
  (wp_iff program Q _ state).mpr ⟨fun value after _ => holds value after, fun _ _ => trivial⟩

/-- Two meanings of the same program hold together. -/
theorem wp_and {program : Program S ε α} {Q Q' : α → S → Prop} {E : ε → Prop} {state : S}
    (left : wp program Q E state) (right : wp program Q' E state) :
    wp program (fun value after => Q value after ∧ Q' value after) E state := by
  rw [wp_iff] at left right ⊢
  exact ⟨fun value after ran => ⟨left.1 value after ran, right.1 value after ran⟩, left.2⟩

/-- A known run decides the weakest precondition. So sample runs and specifications can be used
together. -/
theorem wp_of_run {program : Program S ε α} {Q : α → S → Prop} {E : ε → Prop} {state after : S}
    {value : α} (ran : program.run state = .ok (value, after)) (holds : Q value after) :
    wp program Q E state := by
  unfold wp
  rw [ran]
  exact holds

/-- A returning run satisfies every postcondition the program has. -/
theorem wp_returns {program : Program S ε α} {Q : α → S → Prop} {E : ε → Prop} {state after : S}
    {value : α} (holds : wp program Q E state) (ran : program.run state = .ok (value, after)) :
    Q value after := ((wp_iff program Q E state).mp holds).1 value after ran

/-- A total meaning is a returning run with the postcondition. -/
theorem wp_total_iff (program : Program S ε α) (Q : α → S → Prop) (state : S) :
    wp program Q (fun _ => False) state ↔
      ∃ value after, program.run state = .ok (value, after) ∧ Q value after := by
  unfold wp
  cases ran : program.run state with
  | error reason => simp
  | ok result =>
    obtain ⟨value, after⟩ := result
    constructor
    · intro holds
      exact ⟨value, after, rfl, holds⟩
    · rintro ⟨value', after', same, holds⟩
      cases same
      exact holds

/-- A returning sequence consists of two returning parts. -/
theorem run_bind_ok (first : Program S ε α) (next : α → Program S ε β) (state : S)
    (result : β × S) :
    (first >>= next).run state = .ok result ↔
      ∃ value middle, first.run state = .ok (value, middle) ∧
        (next value).run middle = .ok result := by
  rw [StateT.run_bind]
  cases ran : first.run state with
  | error reason => simp [bind, Except.bind]
  | ok pair =>
    obtain ⟨value, middle⟩ := pair
    constructor
    · intro rest
      exact ⟨value, middle, rfl, rest⟩
    · rintro ⟨value', middle', same, rest⟩
      cases same
      exact rest

/-- After a known first part, a sequence runs as its second part. -/
theorem run_bind_of_ok {first : Program S ε α} {next : α → Program S ε β} {state middle : S}
    {value : α} (ran : first.run state = .ok (value, middle)) :
    (first >>= next).run state = (next value).run middle := by
  rw [StateT.run_bind, ran]
  rfl

/-- A value that the program can return from some state. What is said of it holds on every path. -/
def Returns (program : Program S ε α) (value : α) : Prop :=
  ∃ state after, program.run state = .ok (value, after)

/-- The state in which a run ends, if it returns. Otherwise it is the state in which the run
began. -/
def finalState (program : Program S ε α) (state : S) : S :=
  match program.run state with
  | .ok result => result.2
  | .error _ => state

/-- A run that returns a value ends in its final state. -/
theorem run_finalState {program : Program S ε α} {state : S} {value : α}
    (returned : (program.run state).toOption.map Prod.fst = some value) :
    program.run state = .ok (value, finalState program state) := by
  unfold finalState
  cases ran : program.run state with
  | error reason =>
    rw [ran] at returned
    cases returned
  | ok result =>
    rw [ran] at returned
    cases returned
    rfl

/-- A sequence whose first program stops, stops for the same reason. -/
theorem run_bind_of_error {first : Program S ε α} {next : α → Program S ε β} {state : S} {reason : ε}
    (stopped : first.run state = .error reason) : (first >>= next).run state = .error reason := by
  rw [StateT.run_bind, stopped]
  rfl

/-- A postcondition of every run is a property of every returned value. -/
theorem returns_of_wp {program : Program S ε α} {Q : α → Prop}
    (holds : ∀ state, wp program (fun value _ => Q value) (fun _ => True) state) (value : α)
    (returned : Returns program value) : Q value := by
  obtain ⟨state, after, ran⟩ := returned
  exact ((wp_iff _ _ _ _).mp (holds state)).1 value after ran

/-! ## Changes of the state that a program does not notice -/

/-- The program returns the same before and after a change of the state, and leaves the change
in place. -/
def Commutes (change : S → S) (program : Program S ε α) : Prop :=
  ∀ state, program.run (change state) =
    (program.run state).map fun result => (result.1, change result.2)

section Commutes

variable {change : S → S}

/-- A value commutes with every change of the state. -/
theorem commutes_pure (value : α) : Commutes change (pure value : Program S ε α) := fun _ => rfl

/-- Stopping commutes with every change of the state. -/
theorem commutes_throw (reason : ε) : Commutes change (throw reason : Program S ε α) := fun _ => rfl

/-- An update commutes with the change as a program if it does as a function. -/
theorem commutes_modify {update : S → S}
    (same : ∀ state, update (change state) = change (update state)) :
    Commutes change (modify update : Program S ε PUnit) := by
  intro state
  have ran : ∀ state, (modify update : Program S ε PUnit).run state = .ok (⟨⟩, update state) :=
    fun _ => rfl
  rw [ran, ran, same]
  rfl

/-- A view of the state is not disturbed if what follows does not depend on the change. -/
theorem commutes_view {next : S → Program S ε α} (blind : ∀ state, next (change state) = next state)
    (rest : ∀ state, Commutes change (next state)) :
    Commutes change (get >>= next) := by
  intro state
  have entered : ∀ state, (get : Program S ε S).run state = .ok (state, state) := fun _ => rfl
  rw [run_bind_of_ok (entered _), run_bind_of_ok (entered _), blind]
  exact rest state state

/-- Programs that do not notice a change compose, as far as values are returned. -/
theorem commutes_bind {first : Program S ε α} {next : α → Program S ε β}
    (head : Commutes change first)
    (rest : ∀ value, Returns first value → Commutes change (next value)) :
    Commutes change (first >>= next) := by
  intro state
  rw [StateT.run_bind, StateT.run_bind, head state]
  cases ran : first.run state with
  | error reason => rfl
  | ok result =>
    obtain ⟨value, middle⟩ := result
    exact rest value ⟨state, middle, ran⟩ middle

end Commutes

/-! ## Frames -/

/-- Every returning run relates its initial state to its final one. Runs that stop are not
concerned: what they leave is not observed. -/
structure Keeps (R : S → S → Prop) (program : Program S ε α) : Prop where
  related : ∀ state value after, program.run state = .ok (value, after) → R state after

section Frames

variable {R : S → S → Prop}

/-- Frames are the partial postconditions that mention the initial state. -/
theorem keeps_iff_wp (program : Program S ε α) :
    Keeps R program ↔ ∀ state, wp program (fun _ after => R state after) (fun _ => True) state := by
  constructor
  · intro kept state
    exact (wp_iff _ _ _ _).mpr
      ⟨fun value after ran => kept.related state value after ran, fun _ _ => trivial⟩
  · intro holds
    constructor
    intro state value after ran
    exact wp_returns (Q := fun _ reached => R state reached) (holds state) ran

/-- A postcondition holds along with every frame that the program keeps. -/
theorem wp_framed {program : Program S ε α} {Q : α → S → Prop} {E : ε → Prop} {state : S}
    (kept : Keeps R program) (holds : wp program Q E state) :
    wp program (fun value after => R state after ∧ Q value after) E state := by
  rw [wp_iff] at holds ⊢
  exact ⟨fun value after ran => ⟨kept.related state value after ran, holds.1 value after ran⟩,
    holds.2⟩

/-- A weaker relation is kept as well, so one proof serves for many frames. -/
theorem Keeps.mono {R' : S → S → Prop} {program : Program S ε α} (kept : Keeps R program)
    (weaker : ∀ state after, R state after → R' state after) : Keeps R' program where
  related state value after ran := weaker state after (kept.related state value after ran)

/-- A stopping program keeps everything, as it has no final state. -/
theorem keeps_throw (reason : ε) : Keeps R (throw reason : Program S ε α) := by
  constructor
  intro state value after ran
  cases ran

/-- Setting the state keeps a relation that contains the update. -/
theorem keeps_modify {update : S → S} (related : ∀ state, R state (update state)) :
    Keeps R (modify update : Program S ε PUnit) := by
  constructor
  intro state value after ran
  cases ran
  exact related state

/-- A choice keeps what both alternatives keep. -/
theorem keeps_ite {condition : Prop} [Decidable condition] {left right : Program S ε α}
    (whenTrue : condition → Keeps R left) (whenFalse : ¬ condition → Keeps R right) :
    Keeps R (if condition then left else right) := by
  by_cases chosen : condition
  · rw [if_pos chosen]
    exact whenTrue chosen
  · rw [if_neg chosen]
    exact whenFalse chosen

/-- A returned value changes nothing. -/
theorem keeps_pure [Std.Refl R] (value : α) : Keeps R (pure value : Program S ε α) := by
  constructor
  intro state value after ran
  cases ran
  exact Std.Refl.refl state

/-- Reading the state changes nothing. -/
theorem keeps_get [Std.Refl R] : Keeps R (get : Program S ε S) := by
  constructor
  intro state value after ran
  cases ran
  exact Std.Refl.refl state

/-- Sequencing keeps a transitive relation that what follows keeps for every returned value. -/
theorem keeps_bind_returns [IsTrans S R] {first : Program S ε α} {next : α → Program S ε β}
    (head : Keeps R first) (rest : ∀ value, Returns first value → Keeps R (next value)) :
    Keeps R (first >>= next) := by
  constructor
  intro state value after ran
  obtain ⟨found, middle, before, behind⟩ := (run_bind_ok first next state (value, after)).mp ran
  exact IsTrans.trans state middle after (head.related state found middle before)
    ((rest found ⟨state, middle, before⟩).related middle value after behind)

/-- Sequencing keeps a transitive relation. This is what makes frames compose along a program. -/
theorem keeps_bind [IsTrans S R] {first : Program S ε α} {next : α → Program S ε β}
    (head : Keeps R first) (rest : ∀ value, Keeps R (next value)) :
    Keeps R (first >>= next) := keeps_bind_returns head (fun value _ => rest value)

/-- A list of operations keeps what each of them keeps. -/
theorem keeps_mapM [Std.Refl R] [IsTrans S R] (operations : List β) (perform : β → Program S ε α)
    (kept : ∀ operation ∈ operations, Keeps R (perform operation)) :
    Keeps R (operations.mapM perform) := by
  induction operations with
  | nil => exact keeps_pure []
  | cons first rest ih =>
    rw [List.mapM_cons]
    apply keeps_bind (kept first List.mem_cons_self)
    intro result
    apply keeps_bind (ih fun operation member => kept operation (List.mem_cons_of_mem first member))
    intro results
    exact keeps_pure (result :: results)

end Frames

/-! ## Sequences of operations -/

section Sequences

/-- An invariant restored by every operation of a list holds after the list. -/
theorem wp_mapM {perform : β → Program S ε α} {invariant : S → Prop} {E : ε → Prop}
    (operations : List β)
    (step : ∀ operation ∈ operations, ∀ state, invariant state →
      wp (perform operation) (fun _ after => invariant after) E state)
    (state : S) (entered : invariant state) :
    wp (operations.mapM perform) (fun _ after => invariant after) E state := by
  induction operations generalizing state with
  | nil => exact entered
  | cons first rest ih =>
    rw [List.mapM_cons, wp_bind]
    refine wp_mono (step first List.mem_cons_self state entered) ?_ (fun _ holds => holds)
    intro _ middle held
    rw [wp_bind]
    have further : ∀ operation ∈ rest, ∀ state, invariant state →
        wp (perform operation) (fun _ after => invariant after) E state :=
      fun operation member => step operation (List.mem_cons_of_mem first member)
    exact wp_mono (ih further middle held) (fun _ _ reached => reached) (fun _ holds => holds)

variable {A : Type}

/-- The answers of an abstract machine to a list of operations, and its final
state. -/
def answers (respond : β → A → α × A) : List β → A → List α × A
  | [], current => ([], current)
  | operation :: rest, current =>
    let (answer, next) := respond operation current
    let (later, final) := answers respond rest next
    (answer :: later, final)

/-- A forward simulation. If every operation, from related states, returns what
the abstract machine answers and leads to related states, then so does every list
of operations. -/
theorem simulates {perform : β → Program S ε α} {respond : β → A → α × A} {R : S → A → Prop}
    (operations : List β)
    (step : ∀ operation ∈ operations, ∀ state current, R state current →
      ∃ after, (perform operation).run state = .ok ((respond operation current).1, after) ∧
        R after (respond operation current).2)
    (state : S) (current : A) (related : R state current) :
    ∃ after, (operations.mapM perform).run state =
        .ok ((answers respond operations current).1, after) ∧
      R after (answers respond operations current).2 := by
  induction operations generalizing state current with
  | nil => exact ⟨state, rfl, related⟩
  | cons first rest ih =>
    obtain ⟨middle, ran, held⟩ := step first List.mem_cons_self state current related
    obtain ⟨after, reran, final⟩ := ih
      (fun operation member => step operation (List.mem_cons_of_mem first member))
      middle _ held
    refine ⟨after, ?_, final⟩
    rw [List.mapM_cons, run_bind_of_ok ran, run_bind_of_ok reran]
    rfl

end Sequences

/-! ## Unbounded loops -/

/-- Repeat a body until it yields a result. Fuel counts the rounds that may
still start; running out of it is an explicit stop. -/
def iterate (exhausted : ε) (body : β → Program S ε (β ⊕ α)) : Nat → β → Program S ε α
  | 0, _ => throw exhausted
  | fuel + 1, current => do
    match ← body current with
    | .inl next => iterate exhausted body fuel next
    | .inr result => pure result

/-- The invariant rule. A round entered with the invariant either restores it
for the next round or establishes the postcondition of the loop. -/
theorem wp_iterate (exhausted : ε) (body : β → Program S ε (β ⊕ α)) (invariant : β → S → Prop)
    (Q : α → S → Prop) (E : ε → Prop) (stop : E exhausted)
    (round : ∀ current state, invariant current state →
      wp (body current) (fun outcome after => outcome.elim (invariant · after) (Q · after)) E state)
    (fuel : Nat) (current : β) (state : S) (entered : invariant current state) :
    wp (iterate exhausted body fuel current) Q E state := by
  induction fuel generalizing current state with
  | zero => exact stop
  | succ fuel ih =>
    simp only [iterate, wp_bind]
    refine wp_mono (round current state entered) ?_ (fun _ holds => holds)
    intro outcome after established
    cases outcome with
    | inl next => exact ih next after established
    | inr result => exact established

/-- A loop keeps a reflexive and transitive relation that its rounds keep. -/
theorem keeps_iterate {R : S → S → Prop} [Std.Refl R] [IsTrans S R] (exhausted : ε)
    {body : β → Program S ε (β ⊕ α)} (round : ∀ current, Keeps R (body current)) (fuel : Nat)
    (current : β) : Keeps R (iterate exhausted body fuel current) := by
  induction fuel generalizing current with
  | zero => exact keeps_throw exhausted
  | succ fuel ih =>
    apply keeps_bind (round current)
    intro outcome
    cases outcome with
    | inl next => exact ih next
    | inr result => exact keeps_pure result

/-- A loop over other data whose rounds are those of a given loop, seen through two functions. -/
theorem iterate_map {γ δ : Type} (exhausted : ε) {body : β → Program S ε (β ⊕ α)}
    {body' : γ → Program S ε (γ ⊕ δ)} (view : β → γ) (result : α → δ)
    (round : ∀ current, body' (view current) = Sum.map view result <$> body current)
    (fuel : Nat) (current : β) :
    iterate exhausted body' fuel (view current) = result <$> iterate exhausted body fuel current := by
  induction fuel generalizing current with
  | zero => rfl
  | succ fuel ih =>
    rw [iterate, iterate, round, bind_map_left, map_bind]
    refine bind_congr fun outcome => ?_
    cases outcome with
    | inl next => exact ih next
    | inr found => exact (map_pure result found).symm

end Programs
