import Mathlib.Algebra.Group.Nat.Defs
import Mathlib.Data.Prod.Lex
import Mathlib.Order.Bounds.Defs

/-!
# Counting searches

A loop with a counter of machine width that runs up to a bound until its body finds something.
The counter has to be able to reach the bound; a narrower one would start again before it does.
What is found is found at the first place, and where nothing is found there is nothing. Nested
loops find the first place in the lexicographic order.
-/

namespace Searches

variable {width bound : Nat} {β : Type*}

/-- A step below a bound that the counter can reach does not wrap. -/
theorem toNat_next {counter : BitVec width} (reachable : bound < 2 ^ width)
    (inside : counter.toNat < bound) : (counter + 1).toNat = counter.toNat + 1 := by
  have one : (1 : BitVec width).toNat = 1 := Nat.mod_eq_of_lt (show 1 < 2 ^ width by omega)
  rw [BitVec.toNat_add, one]
  exact Nat.mod_eq_of_lt (by omega)

/-- Count from a place up to a bound until the body finds something. -/
def countUp (bound : Nat) (reachable : bound < 2 ^ width) (body : BitVec width → Option β)
    (counter : BitVec width) : Option β :=
  if _ : counter.toNat < bound then
    match body counter with
    | some result => some result
    | none => countUp bound reachable body (counter + 1)
  else none
termination_by bound - counter.toNat
decreasing_by
  rw [toNat_next reachable ‹_›]
  omega

section Found

variable {reachable : bound < 2 ^ width} {body : BitVec width → Option β}

/-- The places from a counter on are the counter and the places from the next one on. -/
theorem from_iff {counter place : BitVec width} (reachable : bound < 2 ^ width)
    (inside : counter.toNat < bound) :
    counter ≤ place ↔ place = counter ∨ counter + 1 ≤ place := by
  rw [BitVec.le_def, BitVec.le_def, toNat_next reachable inside, ← BitVec.toNat_inj]
  omega

/-- Nothing is found if the body finds nothing at any place. -/
theorem countUp_eq_none_iff (counter : BitVec width) :
    countUp bound reachable body counter = none ↔
      ∀ place, counter ≤ place → place.toNat < bound → body place = none := by
  induction counter using countUp.induct bound reachable body with
  | case1 counter inside result found =>
    rw [countUp, dif_pos inside, found]
    constructor
    · intro none
      cases none
    · intro nothing
      rw [nothing counter (BitVec.le_refl counter) inside] at found
      cases found
  | case2 counter inside nothing ih =>
    rw [countUp, dif_pos inside, nothing, ih]
    constructor
    · intro later place behind below
      rcases (from_iff reachable inside).mp behind with rfl | further
      · exact nothing
      · exact later place further below
    · intro all place behind below
      exact all place ((from_iff reachable inside).mpr (Or.inr behind)) below
  | case3 counter outside =>
    rw [countUp, dif_neg outside]
    refine ⟨fun _ place behind below => ?_, fun _ => rfl⟩
    rw [BitVec.le_def] at behind
    omega

/-- What is found is what the body finds at the first place where it finds something. -/
theorem countUp_eq_some_iff (counter : BitVec width) (result : β) :
    countUp bound reachable body counter = some result ↔
      ∃ place, counter ≤ place ∧ place.toNat < bound ∧ body place = some result ∧
        ∀ earlier, counter ≤ earlier → earlier < place → body earlier = none := by
  induction counter using countUp.induct bound reachable body with
  | case1 counter inside other found =>
    rw [countUp, dif_pos inside, found]
    constructor
    · rintro same
      refine ⟨counter, BitVec.le_refl counter, inside, found.trans same, ?_⟩
      exact fun earlier behind before => absurd before (BitVec.not_lt.mpr behind)
    · rintro ⟨place, behind, _, here, before⟩
      rcases (from_iff reachable inside).mp behind with rfl | further
      · exact found.symm.trans here
      · have first : counter < place := by
          rw [BitVec.le_def, toNat_next reachable inside] at further
          exact BitVec.lt_def.mpr further
        rw [before counter (BitVec.le_refl counter) first] at found
        cases found
  | case2 counter inside nothing ih =>
    rw [countUp, dif_pos inside, nothing, ih]
    constructor
    · rintro ⟨place, behind, below, here, before⟩
      refine ⟨place, (from_iff reachable inside).mpr (Or.inr behind), below, here, ?_⟩
      intro earlier start early
      rcases (from_iff reachable inside).mp start with rfl | further
      · exact nothing
      · exact before earlier further early
    · rintro ⟨place, behind, below, here, before⟩
      rcases (from_iff reachable inside).mp behind with rfl | further
      · rw [here] at nothing
        cases nothing
      · exact ⟨place, further, below, here, fun earlier start =>
          before earlier ((from_iff reachable inside).mpr (Or.inr start))⟩
  | case3 counter outside =>
    rw [countUp, dif_neg outside]
    refine ⟨fun none => (by cases none), ?_⟩
    rintro ⟨place, behind, below, _⟩
    rw [BitVec.le_def] at behind
    omega

/-- Every place comes behind zero. -/
theorem zero_least (place : BitVec width) : 0 ≤ place := BitVec.le_def.mpr (by simp)

/-- A counter below the bound is the number of a place. -/
theorem exists_fin {place : BitVec width} (reachable : bound < 2 ^ width) :
    place.toNat < bound ↔ ∃ number : Fin bound, place = BitVec.ofNat width number := by
  constructor
  · intro below
    exact ⟨⟨place.toNat, below⟩, BitVec.eq_of_toNat_eq (by simp)⟩
  · rintro ⟨number, rfl⟩
    rw [BitVec.toNat_ofNat, Nat.mod_eq_of_lt (number.isLt.trans reachable)]
    exact number.isLt

/-- A count from zero on finds nothing if there is nothing at any number below the bound. -/
theorem count_eq_none_iff :
    countUp bound reachable body 0 = none ↔
      ∀ number : Fin bound, body (BitVec.ofNat width number) = none := by
  rw [countUp_eq_none_iff]
  constructor
  · intro nothing number
    exact nothing _ (zero_least _) ((exists_fin reachable).mpr ⟨number, rfl⟩)
  · intro nothing place _ below
    obtain ⟨number, rfl⟩ := (exists_fin reachable).mp below
    exact nothing number

/-- A count from zero on finds what there is at the smallest number where there is something. -/
theorem count_eq_some_iff (result : β) :
    countUp bound reachable body 0 = some result ↔
      ∃ number : Fin bound, body (BitVec.ofNat width number) = some result ∧
        ∀ earlier < number, body (BitVec.ofNat width earlier) = none := by
  have order : ∀ first second : Fin bound,
      BitVec.ofNat width first < BitVec.ofNat width second ↔ first < second := by
    intro first second
    rw [BitVec.lt_def, BitVec.toNat_ofNat, BitVec.toNat_ofNat,
      Nat.mod_eq_of_lt (first.isLt.trans reachable), Nat.mod_eq_of_lt (second.isLt.trans reachable)]
    exact Fin.lt_def.symm
  rw [countUp_eq_some_iff]
  constructor
  · rintro ⟨place, _, below, here, before⟩
    obtain ⟨number, rfl⟩ := (exists_fin reachable).mp below
    exact ⟨number, here, fun earlier less => before _ (zero_least _) ((order _ _).mpr less)⟩
  · rintro ⟨number, here, before⟩
    have below : (BitVec.ofNat width number).toNat < bound :=
      (exists_fin reachable).mpr ⟨number, rfl⟩
    refine ⟨_, zero_least _, below, here, fun earlier _ less => ?_⟩
    obtain ⟨smaller, rfl⟩ := (exists_fin reachable).mp ((BitVec.lt_def.mp less).trans below)
    exact before smaller ((order _ _).mp less)

end Found

/-- A pair is the lexicographically least of a set if there is none with a smaller first part, and
none with the same first part and a smaller second one. -/
theorem isLeast_toLex {First Second : Type*} [LinearOrder First] [LinearOrder Second]
    {places : Set (First ×ₗ Second)} {first : First} {second : Second}
    (member : toLex (first, second) ∈ places)
    (before : ∀ earlier < first, ∀ other, toLex (earlier, other) ∉ places)
    (within : ∀ earlier < second, toLex (first, earlier) ∉ places) :
    IsLeast places (toLex (first, second)) := by
  refine ⟨member, fun place found => ?_⟩
  by_contra smaller
  rcases Prod.Lex.lt_iff.mp (not_le.mp smaller) with less | ⟨same, less⟩
  · exact before _ less (ofLex place).2 found
  · have here : toLex (first, (ofLex place).2) = place := by
      rw [← show (ofLex place).1 = first from same]
      rfl
    exact within _ less (here ▸ found)

end Searches
