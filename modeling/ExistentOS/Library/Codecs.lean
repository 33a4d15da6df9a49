import Mathlib.Algebra.Group.Nat.Defs
import Mathlib.Logic.Equiv.Defs
import Mathlib.Data.List.FinRange

/-!
# Fixed-width byte codecs

A codec of a type is a bijection between its values and the byte lists of one
length, carried with both of its inversion laws. Little-endian words are the
base; pairs and vectors of codecs are laid out one after the other without
padding. Whatever record is assembled from these pieces therefore round-trips in
both directions, and its width is the sum of the widths.
-/

namespace Codecs

/-- Values of a type as byte lists of one length, with both inversion laws. So every list of that
length is the encoding of some value, and no decoding fails. -/
structure Codec (α : Type) (width : Nat) where
  encode : α → List UInt8
  decode : List UInt8 → α
  encode_length : ∀ value, (encode value).length = width
  decode_encode : ∀ value, decode (encode value) = value
  encode_decode : ∀ bytes, bytes.length = width → encode (decode bytes) = bytes

variable {α β : Type} {width left right : Nat}

/-- Equal encodings come from equal values, since decoding takes them back. -/
theorem encode_injective (codec : Codec α width) (first second : α)
    (same : codec.encode first = codec.encode second) : first = second := by
  rw [← codec.decode_encode first, same, codec.decode_encode]

/-! ## Little-endian words -/

/-- The low bytes of a number, least significant first. -/
def littleEndian : Nat → Nat → List UInt8
  | 0, _ => []
  | width + 1, number => UInt8.ofNat number :: littleEndian width (number / 256)

/-- The number whose bytes are listed least significant first. Every list of bytes is the number
of something. -/
def value : List UInt8 → Nat
  | [] => 0
  | byte :: rest => byte.toNat + 256 * value rest

/-- A number takes as many bytes as its width says, however small it is. -/
@[simp] theorem littleEndian_length (width number : Nat) :
    (littleEndian width number).length = width := by
  induction width generalizing number with
  | zero => rfl
  | succ width ih => simp [littleEndian, ih]

/-- Reading the low bytes back loses exactly the higher ones. -/
theorem value_littleEndian (width number : Nat) :
    value (littleEndian width number) = number % 256 ^ width := by
  induction width generalizing number with
  | zero => simp [littleEndian, value, Nat.mod_one]
  | succ width ih =>
    have byte : (UInt8.ofNat number).toNat = number % 256 := UInt8.toNat_ofNat'
    rw [littleEndian, value, ih, byte, Nat.pow_succ, Nat.mul_comm (256 ^ width) 256]
    exact Nat.mod_mul.symm

/-- Every byte list is the little-endian form of its own value. -/
theorem littleEndian_value (bytes : List UInt8) :
    littleEndian bytes.length (value bytes) = bytes := by
  induction bytes with
  | nil => rfl
  | cons byte rest ih =>
    have bound : byte.toNat < 256 := UInt8.toNat_lt byte
    have head : UInt8.ofNat (byte.toNat + 256 * value rest) = byte := by
      apply UInt8.toNat_inj.mp
      rw [UInt8.toNat_ofNat']
      omega
    have tail : (byte.toNat + 256 * value rest) / 256 = value rest := by omega
    rw [List.length_cons, value, littleEndian, head, tail, ih]

/-- The higher part of a number does not reach its low bytes. -/
theorem littleEndian_mod (width number : Nat) :
    littleEndian width (number % 256 ^ width) = littleEndian width number := by
  have exact := littleEndian_value (littleEndian width number)
  rwa [littleEndian_length, value_littleEndian] at exact

/-- A byte list's value is below the size of its width. -/
theorem value_bound (bytes : List UInt8) : value bytes < 256 ^ bytes.length := by
  have exact : value bytes % 256 ^ bytes.length = value bytes := by
    rw [← value_littleEndian bytes.length (value bytes), littleEndian_value]
  rw [← exact]
  exact Nat.mod_lt _ (Nat.pow_pos (by decide))

/-- Unsigned 16-bit words, little-endian. -/
def uint16 : Codec UInt16 2 where
  encode word := littleEndian 2 word.toNat
  decode bytes := UInt16.ofNat (value bytes)
  encode_length _ := littleEndian_length 2 _
  decode_encode word := by
    have exact : word.toNat % 256 ^ 2 = word.toNat := Nat.mod_eq_of_lt (UInt16.toNat_lt word)
    rw [value_littleEndian, exact, UInt16.ofNat_toNat]
  encode_decode bytes length := by
    have bound : value bytes < 2 ^ 16 := by simpa [length] using value_bound bytes
    rw [UInt16.toNat_ofNat_of_lt' bound, ← length, littleEndian_value]

/-- Unsigned 32-bit words, little-endian. -/
def uint32 : Codec UInt32 4 where
  encode word := littleEndian 4 word.toNat
  decode bytes := UInt32.ofNat (value bytes)
  encode_length _ := littleEndian_length 4 _
  decode_encode word := by
    have exact : word.toNat % 256 ^ 4 = word.toNat := Nat.mod_eq_of_lt (UInt32.toNat_lt word)
    rw [value_littleEndian, exact, UInt32.ofNat_toNat]
  encode_decode bytes length := by
    have bound : value bytes < 2 ^ 32 := by simpa [length] using value_bound bytes
    rw [UInt32.toNat_ofNat_of_lt' bound, ← length, littleEndian_value]

/-- Words of whole bytes, little-endian. -/
def words (width : Nat) : Codec (BitVec (8 * width)) width where
  encode word := littleEndian width word.toNat
  decode bytes := BitVec.ofNat (8 * width) (value bytes)
  encode_length _ := littleEndian_length width _
  decode_encode word := by
    have size : 2 ^ (8 * width) = 256 ^ width := Nat.pow_mul 2 8 width
    have exact : word.toNat % 256 ^ width = word.toNat := Nat.mod_eq_of_lt (size ▸ word.isLt)
    rw [value_littleEndian, exact, BitVec.ofNat_toNat, BitVec.setWidth_eq]
  encode_decode bytes length := by
    have size : 2 ^ (8 * width) = 256 ^ width := Nat.pow_mul 2 8 width
    have bound : value bytes < 2 ^ (8 * width) := by
      rw [size, ← length]
      exact value_bound bytes
    rw [BitVec.toNat_ofNat, Nat.mod_eq_of_lt bound, ← length, littleEndian_value]

/-! ## Records -/

/-- A codec carried along a bijection of the values. This is how a structure gets the codec of
its fields. -/
def transport (codec : Codec α width) (relabel : β ≃ α) : Codec β width where
  encode value := codec.encode (relabel value)
  decode bytes := relabel.symm (codec.decode bytes)
  encode_length _ := codec.encode_length _
  decode_encode value := by rw [codec.decode_encode, Equiv.symm_apply_apply]
  encode_decode bytes length := by rw [Equiv.apply_symm_apply, codec.encode_decode bytes length]

/-- Two fields, the second immediately after the first, as in a packed structure. -/
def pair (first : Codec α left) (second : Codec β right) : Codec (α × β) (left + right) where
  encode value := first.encode value.1 ++ second.encode value.2
  decode bytes := (first.decode (bytes.take left), second.decode (bytes.drop left))
  encode_length value := by rw [List.length_append, first.encode_length, second.encode_length]
  decode_encode value := by
    have exact : (first.encode value.1).length = left := first.encode_length value.1
    rw [List.take_left' exact, List.drop_left' exact, first.decode_encode, second.decode_encode]
  encode_decode bytes length := by
    have head : (bytes.take left).length = left := by simp [length]
    have tail : (bytes.drop left).length = right := by simp [length]
    rw [first.encode_decode _ head, second.encode_decode _ tail, List.take_append_drop]

/-- Consecutive encodings of a list of values, without anything in between. -/
def encodeAll (codec : Codec α width) (values : List α) : List UInt8 :=
  values.flatMap codec.encode

/-- Each value takes the same number of bytes. -/
@[simp] theorem encodeAll_length (codec : Codec α width) (values : List α) :
    (encodeAll codec values).length = values.length * width := by
  induction values with
  | nil => simp [encodeAll]
  | cons first rest ih =>
    have step : (encodeAll codec (first :: rest)).length =
        (codec.encode first).length + (encodeAll codec rest).length := by
      simp [encodeAll]
    rw [step, ih, codec.encode_length, List.length_cons, Nat.succ_mul, Nat.add_comm]

/-- The bytes of one value among consecutive encodings. -/
theorem encodeAll_slice (codec : Codec α width) (values : List α) (index : Nat)
    (inside : index < values.length) :
    ((encodeAll codec values).drop (index * width)).take width = codec.encode values[index] := by
  induction values generalizing index with
  | nil => simp at inside
  | cons first rest ih =>
    have length : (codec.encode first).length = width := codec.encode_length first
    have split : encodeAll codec (first :: rest) = codec.encode first ++ encodeAll codec rest := rfl
    cases index with
    | zero =>
      rw [Nat.zero_mul, List.drop_zero, split, List.take_left' length]
      rfl
    | succ index =>
      have skipped : (index + 1) * width = (codec.encode first).length + index * width := by
        rw [length, Nat.succ_mul, Nat.add_comm]
      rw [skipped, split, List.drop_append, List.drop_eq_nil_of_le (by omega), List.nil_append,
        Nat.add_sub_cancel_left]
      exact ih index (Nat.lt_of_succ_lt_succ inside)

/-- Cutting a byte list into consecutive slices loses nothing. -/
theorem flatMap_slices (count width : Nat) (bytes : List UInt8)
    (length : bytes.length = count * width) :
    (List.range count).flatMap (fun index => (bytes.drop (index * width)).take width) = bytes := by
  induction count generalizing bytes with
  | zero =>
    have empty : bytes = [] := by simpa using length
    simp [empty]
  | succ count ih =>
    have tail : (bytes.drop width).length = count * width := by
      rw [List.length_drop, length, Nat.succ_mul, Nat.add_sub_cancel]
    have shifted : (List.range count).flatMap
        (fun index => (bytes.drop ((index + 1) * width)).take width) = bytes.drop width := by
      rw [← ih (bytes.drop width) tail]
      congr 1
      funext index
      rw [List.drop_drop, Nat.succ_mul, Nat.add_comm]
    rw [List.range_succ_eq_map, List.flatMap_cons, List.flatMap_map, shifted, Nat.zero_mul,
      List.drop_zero, List.take_append_drop]

/-- A fixed number of consecutive values of one codec, as in an array. -/
def vector (codec : Codec α width) (count : Nat) : Codec (Vector α count) (count * width) where
  encode values := encodeAll codec values.toList
  decode bytes := Vector.ofFn fun index : Fin count =>
    codec.decode ((bytes.drop (index * width)).take width)
  encode_length values := by rw [encodeAll_length, Vector.length_toList]
  decode_encode values := by
    apply Vector.ext
    intro index inside
    have stored : index < values.toList.length := by rwa [Vector.length_toList]
    rw [Vector.getElem_ofFn, encodeAll_slice codec values.toList index stored,
      codec.decode_encode, Vector.getElem_toList]
  encode_decode bytes length := by
    rw [Vector.toList_ofFn, encodeAll, List.ofFn_eq_map, List.flatMap_map]
    have slices : ∀ index ∈ List.finRange count,
        codec.encode (codec.decode ((bytes.drop (index * width)).take width)) =
          (bytes.drop (index * width)).take width := by
      intro index _
      apply codec.encode_decode
      have room : (index.val + 1) * width ≤ count * width :=
        Nat.mul_le_mul_right width index.isLt
      rw [Nat.succ_mul] at room
      rw [List.length_take, List.length_drop, length]
      omega
    rw [List.flatMap_congr slices]
    rw [← List.flatMap_map (fun index : Fin count => index.val)
      (fun index => (bytes.drop (index * width)).take width), List.map_coe_finRange_eq_range]
    exact flatMap_slices count width bytes length

/-- The bytes of one of a fixed number of values. -/
theorem vector_slice (codec : Codec α width) {count : Nat} (values : Vector α count)
    (index : Fin count) :
    (((vector codec count).encode values).drop (index * width)).take width =
      codec.encode (values.get index) := by
  have inside : index.val < values.toList.length := by
    rw [Vector.length_toList]
    exact index.isLt
  exact encodeAll_slice codec values.toList index inside

/-! ## Slices

A slice of two byte lists that agree there is the same in every list that starts like one
of them and goes on like the other. -/

/-- The bytes of a list that changes from one list to another at some place. -/
theorem getElem?_cut (first second : List UInt8) (count index : Nat)
    (length : first.length = second.length) :
    (first.take count ++ second.drop count)[index]? =
      if index < count then first[index]? else second[index]? := by
  by_cases short : index < (first.take count).length
  · rw [List.getElem?_append_left short]
    rw [List.length_take] at short
    have before : index < count := by omega
    rw [List.getElem?_take_of_lt before, if_pos before]
  · rw [List.getElem?_append_right (Nat.le_of_not_lt short), List.getElem?_drop]
    rw [List.length_take] at short ⊢
    by_cases before : index < count
    · have outside : second.length ≤ index := by omega
      have beyond : second.length ≤ count + (index - min count first.length) := by omega
      rw [if_pos before, List.getElem?_eq_none beyond, List.getElem?_eq_none (length ▸ outside)]
    · by_cases inside : index < second.length
      · have place : count + (index - min count first.length) = index := by omega
        rw [if_neg before, place]
      · have beyond : second.length ≤ count + (index - min count first.length) := by omega
        rw [if_neg before, List.getElem?_eq_none beyond,
          List.getElem?_eq_none (Nat.le_of_not_lt inside)]

/-- Agreement on a slice survives the change from one list to the other. -/
theorem slice_cut (first second : List UInt8) (count offset size : Nat)
    (length : first.length = second.length)
    (agree : (first.drop offset).take size = (second.drop offset).take size) :
    ((first.take count ++ second.drop count).drop offset).take size =
      (second.drop offset).take size := by
  apply List.ext_getElem?
  intro index
  have same := congrArg (·[index]?) agree
  simp only [List.getElem?_take, List.getElem?_drop] at same ⊢
  rw [getElem?_cut first second count _ length]
  by_cases inside : index < size
  · rw [if_pos inside, if_pos inside] at same
    rw [if_pos inside, if_pos inside, same, ite_self]
  · rw [if_neg inside, if_neg inside]

/-- A value that both lists hold at an offset is held there by every mixture. -/
theorem decode_cut (codec : Codec α width) (first second : List UInt8) (count offset : Nat)
    (length : first.length = second.length) (inside : offset + width ≤ second.length)
    (same : codec.decode ((first.drop offset).take width) =
      codec.decode ((second.drop offset).take width)) :
    codec.decode (((first.take count ++ second.drop count).drop offset).take width) =
      codec.decode ((second.drop offset).take width) := by
  have whole : ∀ bytes : List UInt8, bytes.length = second.length →
      ((bytes.drop offset).take width).length = width := by
    intro bytes size
    rw [List.length_take, List.length_drop, size]
    omega
  have agree := congrArg codec.encode same
  rw [codec.encode_decode _ (whole first length), codec.encode_decode _ (whole second rfl)] at agree
  rw [slice_cut first second count offset width length agree]

end Codecs
