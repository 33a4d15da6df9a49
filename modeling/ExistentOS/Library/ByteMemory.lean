import Mathlib.Logic.Function.Basic
import ExistentOS.Library.Codecs

/-!
# Byte memory and the words stacked in it

A memory holds a byte at every address of a fixed number of bits, and addresses wrap
around. Values of a codec are stored as their bytes and read back from them. A stack that
grows downwards is a list of words from its pointer upwards; a push adds a word below and
keeps the others, as long as the memory is large enough to hold all of them.
-/

namespace ByteMemory

open Codecs

/-- A byte at every address. Addresses have a fixed number of bits and wrap around. -/
abbrev Image (bits : Nat) := BitVec bits → UInt8

variable {bits width : Nat} {Word : Type}

/-- The bytes at consecutive addresses, from the lowest one on. -/
def load (memory : Image bits) (address : BitVec bits) (count : Nat) : List UInt8 :=
  (List.range count).map fun index => memory (address + BitVec.ofNat bits index)

/-- The memory with bytes put at consecutive addresses. All other addresses keep theirs. -/
def store (memory : Image bits) (address : BitVec bits) (bytes : List UInt8) : Image bits :=
  fun place => bytes[(place - address).toNat]?.getD (memory place)

/-- As many bytes are loaded as were asked for. -/
@[simp] theorem load_length (memory : Image bits) (address : BitVec bits) (count : Nat) :
    (load memory address count).length = count := by simp [load]

/-- What is read depends on nothing but the bytes read. -/
theorem load_congr {first second : Image bits} (address : BitVec bits) (count : Nat)
    (agree : ∀ index < count, second (address + BitVec.ofNat bits index) =
      first (address + BitVec.ofNat bits index)) :
    load second address count = load first address count :=
  List.map_congr_left fun index member => agree index (List.mem_range.mp member)

/-- A slice of what is read is what is read at its place. -/
theorem load_slice (memory : Image bits) (address : BitVec bits) {total start count : Nat}
    (inside : start + count ≤ total) :
    ((load memory address total).drop start).take count =
      load memory (address + BitVec.ofNat bits start) count := by
  apply List.ext_getElem
  · simp only [List.length_take, List.length_drop, load_length]
    omega
  · intro index before after
    simp only [load, List.getElem_take, List.getElem_drop, List.getElem_map, List.getElem_range,
      BitVec.ofNat_add, BitVec.add_assoc]

/-- Bytes that fit the memory are read back where they were stored. -/
theorem load_store (memory : Image bits) (address : BitVec bits) (bytes : List UInt8)
    (fits : bytes.length ≤ 2 ^ bits) :
    load (store memory address bytes) address bytes.length = bytes := by
  apply List.ext_getElem
  · rw [load_length]
  · intro index before after
    have place : (address + BitVec.ofNat bits index - address).toNat = index := by
      rw [BitVec.add_comm, BitVec.add_sub_cancel, BitVec.toNat_ofNat]
      exact Nat.mod_eq_of_lt (Nat.lt_of_lt_of_le after fits)
    simp only [load, store, List.getElem_map, List.getElem_range, place]
    rw [List.getElem?_eq_getElem after, Option.getD_some]

/-- Every byte outside of those stored stays as it was. -/
theorem store_outside (memory : Image bits) (address place : BitVec bits) (bytes : List UInt8)
    (outside : bytes.length ≤ (place - address).toNat) :
    store memory address bytes place = memory place := by
  rw [store, List.getElem?_eq_none outside, Option.getD_none]

/-! ## Words -/

variable (codec : Codec Word width)

/-- The word whose bytes begin at an address. -/
def loadWord (memory : Image bits) (address : BitVec bits) : Word :=
  codec.decode (load memory address width)

/-- The memory with a word's bytes put at an address. -/
def storeWord (memory : Image bits) (address : BitVec bits) (word : Word) : Image bits :=
  store memory address (codec.encode word)

/-- The bytes of a stored word are those of the word. -/
theorem load_storeWord (memory : Image bits) (address : BitVec bits) (word : Word)
    (fits : width ≤ 2 ^ bits) :
    load (storeWord codec memory address word) address width = codec.encode word := by
  have length : (codec.encode word).length = width := codec.encode_length word
  have bytes := load_store memory address (codec.encode word) (length.trans_le fits)
  rwa [length] at bytes

/-- A word is read back where it was stored. -/
theorem loadWord_storeWord (memory : Image bits) (address : BitVec bits) (word : Word)
    (fits : width ≤ 2 ^ bits) :
    loadWord codec (storeWord codec memory address word) address = word := by
  rw [loadWord, load_storeWord codec memory address word fits, codec.decode_encode]

/-- The words at consecutive places from an address on, the top of the stack first. -/
def Stacked (memory : Image bits) : BitVec bits → List Word → Prop
  | _, [] => True
  | pointer, word :: rest =>
    loadWord codec memory pointer = word ∧
      Stacked memory (pointer + BitVec.ofNat bits width) rest

/-- A stack is a matter of its own bytes. -/
theorem stacked_congr {first second : Image bits} {pointer : BitVec bits} {words : List Word}
    (stacked : Stacked codec first pointer words)
    (agree : ∀ index < width * words.length, second (pointer + BitVec.ofNat bits index) =
      first (pointer + BitVec.ofNat bits index)) :
    Stacked codec second pointer words := by
  induction words generalizing pointer with
  | nil => trivial
  | cons word rest ih =>
    obtain ⟨top, below⟩ := stacked
    rw [List.length_cons, Nat.mul_succ] at agree
    have same : load second pointer width = load first pointer width :=
      load_congr pointer width fun index inside => agree index (by omega)
    have shifted : ∀ index < width * rest.length,
        second (pointer + BitVec.ofNat bits width + BitVec.ofNat bits index) =
          first (pointer + BitVec.ofNat bits width + BitVec.ofNat bits index) := by
      intro index inside
      rw [BitVec.add_assoc, ← BitVec.ofNat_add]
      exact agree (width + index) (by omega)
    exact ⟨by rw [loadWord, same]; exact top, ih below shifted⟩

/-- A word of a stack is at its place. -/
theorem loadWord_of_stacked {memory : Image bits} {pointer : BitVec bits} {words : List Word}
    {index : Nat} {word : Word} (stacked : Stacked codec memory pointer words)
    (found : words[index]? = some word) :
    loadWord codec memory (pointer + BitVec.ofNat bits (width * index)) = word := by
  induction index generalizing pointer words with
  | zero =>
    cases words with
    | nil => cases found
    | cons first rest =>
      have same : first = word := Option.some.inj found
      rw [Nat.mul_zero, ← same]
      exact (BitVec.add_zero pointer).symm ▸ stacked.1
  | succ index ih =>
    cases words with
    | nil => cases found
    | cons first rest =>
      rw [Nat.mul_succ, Nat.add_comm, BitVec.ofNat_add, ← BitVec.add_assoc]
      exact ih stacked.2 found

/-- What is above the first words is a stack of its own. -/
theorem stacked_append {memory : Image bits} {pointer : BitVec bits} {first second : List Word} :
    Stacked codec memory pointer (first ++ second) ↔
      Stacked codec memory pointer first ∧
        Stacked codec memory (pointer + BitVec.ofNat bits (width * first.length)) second := by
  induction first generalizing pointer with
  | nil =>
    have same : pointer + BitVec.ofNat bits (width * 0) = pointer := by
      rw [Nat.mul_zero]
      exact BitVec.add_zero pointer
    rw [List.nil_append, List.length_nil, same]
    exact (and_iff_right trivial).symm
  | cons word rest ih =>
    have place : pointer + BitVec.ofNat bits (width * (word :: rest).length) =
        pointer + BitVec.ofNat bits width + BitVec.ofNat bits (width * rest.length) := by
      rw [List.length_cons, Nat.mul_succ, Nat.add_comm, BitVec.ofNat_add, ← BitVec.add_assoc]
    rw [List.cons_append, Stacked, Stacked, ih, place, and_assoc]

/-- A push puts a word below the others and keeps them. -/
theorem stacked_push {memory : Image bits} {pointer : BitVec bits} {words : List Word}
    (stacked : Stacked codec memory pointer words) (word : Word)
    (room : width * (words.length + 1) ≤ 2 ^ bits) :
    Stacked codec (storeWord codec memory (pointer - BitVec.ofNat bits width) word)
      (pointer - BitVec.ofNat bits width) (word :: words) := by
  rw [Nat.mul_succ] at room
  have top := loadWord_storeWord codec memory (pointer - BitVec.ofNat bits width) word (by omega)
  have agree : ∀ index < width * words.length,
      storeWord codec memory (pointer - BitVec.ofNat bits width) word
        (pointer + BitVec.ofNat bits index) = memory (pointer + BitVec.ofNat bits index) := by
    intro index inside
    have distance : pointer + BitVec.ofNat bits index - (pointer - BitVec.ofNat bits width) =
        BitVec.ofNat bits (width + index) := by
      rw [BitVec.ofNat_add]
      grind
    apply store_outside
    rw [codec.encode_length, distance, BitVec.toNat_ofNat, Nat.mod_eq_of_lt (by omega)]
    exact Nat.le_add_right width index
  have kept := stacked_congr codec stacked agree
  rw [Stacked, BitVec.sub_add_cancel]
  exact ⟨top, kept⟩

end ByteMemory
