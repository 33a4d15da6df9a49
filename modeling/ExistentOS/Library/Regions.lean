import ExistentOS.Library.ByteMemory

/-!
# Regions of a byte memory

A region is a run of consecutive addresses, which may wrap around. Two memories that are the
same outside of a region read the same wherever a load keeps apart from it. A stack of words
that reaches around the whole memory but for a gap below its pointer tells everything outside
of that gap.
-/

namespace ByteMemory

open Codecs

/-- Consecutive addresses from a first one on. They may wrap around the end of the address space. -/
structure Region (bits : Nat) where
  start : BitVec bits
  size : Nat
  deriving DecidableEq, Repr

variable {bits width : Nat} {Word : Type}

/-- An address of the region, that is, one less than its length behind its first. -/
def Region.Holds (region : Region bits) (place : BitVec bits) : Prop :=
  (place - region.start).toNat < region.size

/-- Every address of one region is an address of the other. -/
def Region.Within (inner outer : Region bits) : Prop :=
  ∀ place, inner.Holds place → outer.Holds place

/-- Two regions without a common address. What is stored in one cannot be read in the other. -/
def Region.Apart (first second : Region bits) : Prop :=
  ∀ place, first.Holds place → ¬ second.Holds place

/-- Being apart does not depend on the order. -/
theorem Region.Apart.symm {first second : Region bits} (apart : first.Apart second) :
    second.Apart first :=
  fun place inside other => apart place other inside

instance : Std.Symm (@Region.Apart bits) := ⟨fun _ _ apart => apart.symm⟩

/-- What is within a region keeps apart from whatever the region keeps apart from. -/
theorem Region.Apart.within {first second inner : Region bits} (apart : first.Apart second)
    (within : inner.Within second) : first.Apart inner :=
  fun place inside other => apart place inside (within place other)

/-- The addresses of a region at their distances from the first. -/
theorem Region.holds_offset (region : Region bits) {index : Nat} (inside : index < region.size) :
    region.Holds (region.start + BitVec.ofNat bits index) := by
  have distance : region.start + BitVec.ofNat bits index - region.start = BitVec.ofNat bits index := by
    rw [BitVec.add_comm, BitVec.add_sub_cancel]
  rw [Region.Holds, distance, BitVec.toNat_ofNat]
  exact Nat.lt_of_le_of_lt (Nat.mod_le _ _) inside

/-- The first addresses of a region are a region within it. -/
theorem Region.within_start (start : BitVec bits) {count size : Nat} (fewer : count ≤ size) :
    Region.Within ⟨start, count⟩ ⟨start, size⟩ :=
  fun _ held => Nat.lt_of_lt_of_le held fewer

/-- A part of a region at a distance from its first address. -/
theorem Region.within_offset (start : BitVec bits) {offset count size : Nat}
    (inside : offset + count ≤ size) (room : size ≤ 2 ^ bits) :
    Region.Within ⟨start + BitVec.ofNat bits offset, count⟩ ⟨start, size⟩ := by
  intro place held
  have distance : place - start =
      place - (start + BitVec.ofNat bits offset) + BitVec.ofNat bits offset := by grind
  have near : (place - (start + BitVec.ofNat bits offset)).toNat < count := held
  have sum : (place - start).toNat = (place - (start + BitVec.ofNat bits offset)).toNat + offset := by
    rw [distance, BitVec.toNat_add, BitVec.toNat_ofNat, Nat.add_mod_mod, Nat.mod_eq_of_lt (by omega)]
  have below : (place - start).toNat < size := by omega
  exact below

/-- Two memories that differ at most in a region. Steps that store in the region are proved to
keep this. -/
def SameOutside (region : Region bits) (before after : Image bits) : Prop :=
  ∀ place, ¬ region.Holds place → after place = before place

namespace SameOutside

variable {region inner outer : Region bits} {before between after : Image bits}

/-- A memory is the same as itself outside of any region. -/
theorem refl (region : Region bits) (memory : Image bits) : SameOutside region memory memory :=
  fun _ _ => rfl

/-- Being the same outside of a region does not depend on the order. -/
theorem symm (same : SameOutside region before after) : SameOutside region after before :=
  fun place outside => (same place outside).symm

/-- Changes inside one region stay inside it together. -/
theorem trans (early : SameOutside region before between)
    (late : SameOutside region between after) : SameOutside region before after :=
  fun place outside => (late place outside).trans (early place outside)

/-- A difference within a region is one within any larger region. -/
theorem mono (same : SameOutside inner before after) (within : inner.Within outer) :
    SameOutside outer before after :=
  fun place outside => same place fun inside => outside (within place inside)

/-- Loads apart from the region read the same. -/
theorem load (same : SameOutside region before after) {address : BitVec bits} {count : Nat}
    (apart : Region.Apart ⟨address, count⟩ region) :
    ByteMemory.load after address count = ByteMemory.load before address count :=
  load_congr address count fun _ inside =>
    same _ (apart _ (Region.holds_offset ⟨address, count⟩ inside))

/-- Words apart from the region read the same. -/
theorem loadWord (codec : Codec Word width) (same : SameOutside region before after)
    {address : BitVec bits} (apart : Region.Apart ⟨address, width⟩ region) :
    ByteMemory.loadWord codec after address = ByteMemory.loadWord codec before address := by
  rw [ByteMemory.loadWord, ByteMemory.loadWord, same.load apart]

/-- The same bytes stored in both memories leave them the same outside of the region. -/
theorem store (same : SameOutside region before after) (address : BitVec bits)
    (bytes : List UInt8) :
    SameOutside region (ByteMemory.store before address bytes)
      (ByteMemory.store after address bytes) := by
  intro place outside
  rw [ByteMemory.store, ByteMemory.store, same place outside]

end SameOutside

/-- A store changes nothing outside of its bytes. -/
theorem sameOutside_store (memory : Image bits) (address : BitVec bits) (bytes : List UInt8) :
    SameOutside ⟨address, bytes.length⟩ memory (store memory address bytes) :=
  fun place outside => store_outside memory address place bytes (Nat.le_of_not_lt outside)

/-- A stored word changes nothing outside of its bytes. -/
theorem sameOutside_storeWord (codec : Codec Word width) (memory : Image bits)
    (address : BitVec bits) (word : Word) :
    SameOutside ⟨address, width⟩ memory (storeWord codec memory address word) := by
  have stored := sameOutside_store memory address (codec.encode word)
  rw [codec.encode_length] at stored
  exact stored

/-! ## Memories told by a stack -/

/-- The words at a number of consecutive places, as a list. -/
def wordsFrom (codec : Codec Word width) (memory : Image bits) (pointer : BitVec bits) :
    Nat → List Word
  | 0 => []
  | count + 1 =>
    loadWord codec memory pointer :: wordsFrom codec memory (pointer + BitVec.ofNat bits width) count

/-- As many words are read as were asked for. -/
@[simp] theorem wordsFrom_length (codec : Codec Word width) (memory : Image bits)
    (pointer : BitVec bits) (count : Nat) :
    (wordsFrom codec memory pointer count).length = count := by
  induction count generalizing pointer with
  | zero => rfl
  | succ count ih => rw [wordsFrom, List.length_cons, ih]

/-- The words of a memory are a stack in it. -/
theorem stacked_wordsFrom (codec : Codec Word width) (memory : Image bits)
    (pointer : BitVec bits) (count : Nat) :
    Stacked codec memory pointer (wordsFrom codec memory pointer count) := by
  induction count generalizing pointer with
  | zero => trivial
  | succ count ih => exact ⟨rfl, ih _⟩

/-- A word determines its bytes, as encodings have no second decoding. -/
theorem load_of_loadWord (codec : Codec Word width) {first second : Image bits}
    {address : BitVec bits}
    (same : loadWord codec second address = loadWord codec first address) :
    load second address width = load first address width := by
  have encoded := congrArg codec.encode same
  rwa [loadWord, loadWord, codec.encode_decode _ (load_length ..),
    codec.encode_decode _ (load_length ..)] at encoded

/-- The bytes at a place are those that a load lists. -/
theorem getElem_load (memory : Image bits) (address : BitVec bits) {count index : Nat}
    (inside : index < (load memory address count).length) :
    (load memory address count)[index] = memory (address + BitVec.ofNat bits index) := by
  simp [load]

/-- Memories with the same stack have the same bytes at its places. -/
theorem agree_of_stacked (codec : Codec Word width) {first second : Image bits}
    {pointer : BitVec bits} {words : List Word} (stacked : Stacked codec first pointer words)
    (again : Stacked codec second pointer words) {index : Nat} (inside : index < width * words.length) :
    second (pointer + BitVec.ofNat bits index) = first (pointer + BitVec.ofNat bits index) := by
  induction words generalizing pointer index with
  | nil => simp at inside
  | cons word rest ih =>
    obtain ⟨top, below⟩ := stacked
    obtain ⟨top', below'⟩ := again
    by_cases near : index < width
    · have bytes := load_of_loadWord codec (top'.trans top.symm)
      have listed : index < (load second pointer width).length := by simpa using near
      have listed' : index < (load first pointer width).length := by simpa using near
      rw [← getElem_load second pointer listed, ← getElem_load first pointer listed']
      simp only [bytes]
    · rw [List.length_cons, Nat.mul_succ] at inside
      have far : index - width < width * rest.length := by omega
      have place : pointer + BitVec.ofNat bits width + BitVec.ofNat bits (index - width) =
          pointer + BitVec.ofNat bits index := by
        rw [BitVec.add_assoc, ← BitVec.ofNat_add, Nat.add_sub_cancel' (Nat.le_of_not_lt near)]
      rw [← place]
      exact ih below below' far

/-- Memories with the same stack around all addresses differ in the gap below it at most. -/
theorem sameOutside_of_stacked (codec : Codec Word width) {first second : Image bits}
    {pointer : BitVec bits} {words : List Word} {gap : Nat}
    (stacked : Stacked codec first pointer words) (again : Stacked codec second pointer words)
    (around : width * words.length + gap = 2 ^ bits) :
    SameOutside ⟨pointer - BitVec.ofNat bits gap, gap⟩ first second := by
  intro place outside
  have distance : place - (pointer - BitVec.ofNat bits gap) =
      place - pointer + BitVec.ofNat bits gap := by grind
  have far : gap ≤ ((place - pointer).toNat + gap) % 2 ^ bits := by
    rw [Region.Holds, distance, BitVec.toNat_add, BitVec.toNat_ofNat, Nat.add_mod_mod] at outside
    exact Nat.le_of_not_lt outside
  have above : (place - pointer).toNat < width * words.length := by
    have bound := (place - pointer).isLt
    by_cases wraps : (place - pointer).toNat + gap < 2 ^ bits
    · omega
    · rw [Nat.mod_eq_sub_mod (Nat.le_of_not_lt wraps), Nat.mod_eq_of_lt (by omega)] at far
      omega
  have back : pointer + BitVec.ofNat bits (place - pointer).toNat = place := by
    rw [BitVec.ofNat_toNat, BitVec.setWidth_eq]
    grind
  rw [← back]
  exact agree_of_stacked codec stacked again above

end ByteMemory
