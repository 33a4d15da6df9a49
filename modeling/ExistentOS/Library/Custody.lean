import Mathlib.Algebra.Order.Group.Multiset
import ExistentOS.Library.Traces

/-!
# Handles in custody

Events may open a handle, operate on a handle, and close the handle that they operate on. A log of
them is disciplined if every handle is closed as often as it is opened and operated on only while it
is open. A monitor that keeps the open handles decides this.

A triple says which handles a program needs and which ones it leaves, whatever else is open. So
there is one rule for each way in which programs are put together, and a frame rule. The same handle
may be open several times.
-/

namespace Custody

open Programs Traces

variable {E H : Type}

/-- What events do to handles. An event that closes a handle also uses it, so closing twice is a
use of what is not open. -/
structure Book (E H : Type) where
  opens : E → Option H
  uses : E → Option H
  closes : E → Option H
  operates : ∀ {event handle}, closes event = some handle → uses event = some handle

namespace Book

/-- The handle that there may be, as a multiset of at most one. -/
def only (handle : Option H) : Multiset H := handle.elim 0 ({·})

@[simp] theorem only_none : only (none : Option H) = 0 := rfl

@[simp] theorem only_some (handle : H) : only (some handle) = {handle} := rfl

variable [DecidableEq H] (book : Book E H)

/-! ## Logs -/

/-- How often a handle is opened. A handle may be handed out again once it is closed. -/
def opened (handle : H) (events : List E) : Nat :=
  events.countP fun event => book.opens event = some handle

/-- How often a handle is closed. -/
def closed (handle : H) (events : List E) : Nat :=
  events.countP fun event => book.closes event = some handle

/-- Every handle is closed as often as it is opened, and no event operates on a handle that is not
open. -/
structure Disciplined (events : List E) : Prop where
  balanced : ∀ handle, book.closed handle events = book.opened handle events
  alive : ∀ before event after, events = before ++ event :: after →
    ∀ handle, book.uses event = some handle →
      book.closed handle before < book.opened handle before

/-- The handle of an answer counts once, and no other does. -/
theorem count_only (handle : H) (found : Option H) :
    (only found).count handle = if found = some handle then 1 else 0 := by
  cases found with
  | none => rfl
  | some other => simp [only, Multiset.count_singleton, eq_comm]

/-- The open handles after an event, unless it operates on a handle that is not open. -/
def step (held : Multiset H) (event : E) : Option (Multiset H) :=
  if ∀ handle ∈ book.uses event, handle ∈ held then
    some (only (book.opens event) + (held - only (book.closes event)))
  else none

/-- What an event does to handles: the handle that it opens, uses and closes. -/
def acts (event : E) : Option H × Option H × Option H :=
  (book.opens event, book.uses event, book.closes event)

/-- An event is read by what it opens, uses and closes. Proofs about calls rewrite with this and
not with the events. -/
theorem step_of_acts {event : E} {opens uses closes : Option H}
    (acts : book.acts event = (opens, uses, closes)) (held : Multiset H) :
    book.step held event =
      if ∀ handle ∈ uses, handle ∈ held then some (only opens + (held - only closes)) else none := by
  obtain ⟨rfl, rfl, rfl⟩ : book.opens event = opens ∧ book.uses event = uses ∧
      book.closes event = closes := by simpa [Book.acts] using acts
  rfl

/-- An event changes the number of times that a handle is open as it opens and closes it. -/
theorem step_count {held next : Multiset H} {event : E} (stepped : book.step held event = some next)
    (handle : H) : next.count handle + book.closed handle [event] =
      held.count handle + book.opened handle [event] := by
  rw [step] at stepped
  split at stepped
  · rename_i present
    obtain rfl := Option.some.inj stepped
    have counted : (only (book.closes event)).count handle ≤ held.count handle := by
      rw [count_only]
      split
      · rename_i closing
        exact Multiset.one_le_count_iff_mem.mpr (present handle (book.operates closing))
      · exact Nat.zero_le _
    rw [count_only] at counted
    simp only [Multiset.count_add, Multiset.count_sub, count_only, closed, opened,
      List.countP_cons, List.countP_nil, decide_eq_true_eq]
    omega
  · cases stepped

/-- The open handles are those that have been opened more often than closed. -/
theorem check_count {held after : Multiset H} {events : List E}
    (checked : check book.step held events = some after) (handle : H) :
    after.count handle + book.closed handle events =
      held.count handle + book.opened handle events := by
  induction events generalizing held with
  | nil =>
    obtain rfl := Option.some.inj checked
    rfl
  | cons event rest ih =>
    rw [← List.singleton_append, check_append] at checked
    obtain ⟨next, stepped, followed⟩ := Option.bind_eq_some_iff.mp checked
    have first : book.step held event = some next := by simpa [check] using stepped
    have counted := book.step_count first handle
    have later := ih followed
    rw [← List.singleton_append, closed, opened, List.countP_append, List.countP_append]
    rw [closed, opened] at counted later
    omega

/-- A log that the monitor reads without objection, from nothing open to nothing open, is
disciplined. -/
theorem disciplined_of_check {events : List E} (checked : check book.step 0 events = some 0) :
    book.Disciplined events := by
  constructor
  · intro handle
    simpa using book.check_count checked handle
  · rintro before event after rfl handle used
    rw [check_append] at checked
    obtain ⟨held, early, late⟩ := Option.bind_eq_some_iff.mp checked
    have counted := book.check_count early handle
    rw [← List.singleton_append, check_append] at late
    obtain ⟨next, stepped, _⟩ := Option.bind_eq_some_iff.mp late
    have member : handle ∈ held := by
      by_contra absent
      have refused : book.step held event = none := if_neg fun present => absent (present handle used)
      simp [check, refused] at stepped
    have positive := Multiset.count_pos.mpr member
    rw [Multiset.count_zero] at counted
    omega

/-! ## Triples -/

section Triples

variable {S ε α β : Type} (log : S → List E)

/-- The program needs the handles in front, and leaves those behind, whatever else is open. -/
def Passes (before : Multiset H) (program : Program S ε α) (after : α → Multiset H) : Prop :=
  ∀ rest, Monitored log book.step (before + rest) program fun value held => held = after value + rest

variable {book log} {before : Multiset H} {after : α → Multiset H}

/-- The handles that are left may be described differently. -/
theorem Passes.mono {after' : α → Multiset H} {program : Program S ε α}
    (passes : book.Passes log before program after) (same : ∀ value, after value = after' value) :
    book.Passes log before program after' := by
  intro rest
  apply (passes rest).mono
  rintro value _ rfl
  rw [same]

/-- A value leaves the handles that are open. -/
theorem passes_pure {value : α} (same : before = after value) :
    book.Passes log before (pure value : Program S ε α) after :=
  fun rest => monitored_pure (by rw [same])

/-- A value that is returned leaves everything open. -/
theorem passes_keep {value : α} :
    book.Passes log before (pure value : Program S ε α) fun _ => before := passes_pure rfl

/-- A program that stops owes no handle. -/
theorem passes_throw (reason : ε) :
    book.Passes log before (throw reason : Program S ε α) after := fun _ => monitored_throw reason

/-- The second program needs what the first one leaves. -/
theorem passes_bind {middle : β → Multiset H} {first : Program S ε β} {next : β → Program S ε α}
    (head : book.Passes log before first middle)
    (tail : ∀ value, book.Passes log (middle value) (next value) after) :
    book.Passes log before (first >>= next) after := by
  intro rest
  apply monitored_bind
  apply (head rest).mono
  rintro value _ rfl
  exact tail value rest

/-- Reading the state uses no handle. -/
theorem passes_view {next : S → Program S ε α}
    (tail : ∀ state, book.Passes log before (next state) after) :
    book.Passes log before (get >>= next) after :=
  fun rest => monitored_view fun state => tail state rest

/-- Both branches pass from the same handles to the same handles. -/
theorem passes_ite {condition : Prop} [Decidable condition] {left right : Program S ε α}
    (whenTrue : condition → book.Passes log before left after)
    (whenFalse : ¬ condition → book.Passes log before right after) :
    book.Passes log before (if condition then left else right) after := fun rest =>
  monitored_ite (fun chosen => whenTrue chosen rest) (fun chosen => whenFalse chosen rest)

/-- A loop whose rounds leave what they need, unless they are the last ones. -/
theorem passes_iterate (exhausted : ε) {body : β → Program S ε (β ⊕ α)}
    (round : ∀ current, book.Passes log before (body current) fun outcome =>
      outcome.elim (fun _ => before) after) (fuel : Nat) (current : β) :
    book.Passes log before (iterate exhausted body fuel current) after := by
  intro rest
  apply monitored_iterate
  intro current
  apply (round current rest).mono
  rintro (next | result) _ rfl
  · rfl
  · rfl

/-- Performing a program for every element of a list. -/
theorem passes_forM {elements : List β} {body : β → Program S ε PUnit}
    (each : ∀ element, book.Passes log before (body element) fun _ => before) :
    book.Passes log before (elements.forM body) fun _ => before := by
  induction elements with
  | nil => exact passes_pure rfl
  | cons first rest ih => exact passes_bind (each first) fun _ => ih

/-- A program leaves other open handles as they are. -/
theorem passes_frame {program : Program S ε α} (passes : book.Passes log before program after)
    (others : Multiset H) :
    book.Passes log (before + others) program fun value => after value + others := by
  intro rest
  rw [add_assoc]
  apply (passes (others + rest)).mono
  rintro value _ rfl
  rw [add_assoc]

/-- A program that needs no handle and leaves none may run while some are open. -/
theorem passes_within {program : Program S ε α} (passes : book.Passes log 0 program fun _ => 0)
    (held : Multiset H) : book.Passes log held program fun _ => held := by
  have framed := passes_frame passes held
  simpa only [zero_add] using framed

/-- What a program that closes what it opens appends to its log is disciplined. -/
theorem disciplined_of_passes {program : Program S ε α}
    (passes : book.Passes log 0 program fun _ => 0) :
    Logs log program fun _ events => book.Disciplined events := by
  apply Logs.mono (passes 0)
  rintro value events ⟨held, checked, rfl⟩
  exact book.disciplined_of_check (by simpa only [add_zero] using checked)

end Triples

end Book

end Custody
