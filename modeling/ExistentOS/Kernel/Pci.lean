import Mathlib.Order.Bounds.Basic
import Mathlib.Order.Fin.Basic
import ExistentOS.Library.Searches

/-!
# The PCI search

`drivers/pci.c`: the configuration of a function is read a double word at a time, through the ports
`0xCF8` and `0xCFC`, and the functions of all buses and devices are tried in order. The first one
of a class is found, whoever made it.
-/

namespace ExistentOS.Kernel

open Searches

/-- What the data port hands back behind each double word that is written to the address port. -/
abbrev ConfigSpace := BitVec 32 → BitVec 32

/-- `PCI_VENDOR_INTEL`. -/
def pciVendorIntel : BitVec 16 := 0x8086

/-- `PCI_CLASS_DISPLAY`. -/
def pciClassDisplay : BitVec 8 := 0x03

/-- `PCI_SUBCLASS_VGA`. -/
def pciSubclassVga : BitVec 8 := 0x00

/-- `PCI_PROGIF_VGA`. -/
def pciProgifVga : BitVec 8 := 0x00

/-- `pci_device_t`, which is written as a whole where a device is found and left alone otherwise. -/
structure PciDevice where
  bus : BitVec 8
  device : BitVec 8
  function : BitVec 8
  vendorId : BitVec 16
  deviceId : BitVec 16
  classCode : BitVec 8
  subclass : BitVec 8
  progIf : BitVec 8
  headerType : BitVec 8
  deriving DecidableEq, Repr

/-- `pci_config_address`. The lower two bits of the offset are cleared. -/
def pciConfigAddress (bus device function offset : BitVec 8) : BitVec 32 :=
  0x80000000 ||| (bus.setWidth 32 <<< 16) ||| (device.setWidth 32 <<< 11) |||
    (function.setWidth 32 <<< 8) ||| (offset.setWidth 32 &&& 0xFC)

/-- `pci_read_config32`: the address is written to one port and the double word read from the
next. -/
def pciReadConfig32 (space : ConfigSpace) (bus device function offset : BitVec 8) : BitVec 32 :=
  space (pciConfigAddress bus device function offset)

/-- `pci_read_config16`: the upper or the lower half of the double word. -/
def pciReadConfig16 (space : ConfigSpace) (bus device function offset : BitVec 8) : BitVec 16 :=
  (pciReadConfig32 space bus device function offset >>>
    ((offset.setWidth 32 &&& 2) * 8)).setWidth 16

/-- `pci_read_config8`: one byte of the double word. -/
def pciReadConfig8 (space : ConfigSpace) (bus device function offset : BitVec 8) : BitVec 8 :=
  (pciReadConfig32 space bus device function offset >>> ((offset.setWidth 32 &&& 3) * 8)).setWidth 8

/-- The innermost body of `pci_find_device`: what is stored for a function of the class. The
counter of the buses is wider than a bus number. -/
def pciProbe (space : ConfigSpace) (classCode subclass progIf : BitVec 8) (bus : BitVec 16)
    (device function : BitVec 8) : Option PciDevice :=
  let number := bus.setWidth 8
  let vendorId := pciReadConfig16 space number device function 0x00
  if vendorId = 0xFFFF then none
  else
    let headerType := pciReadConfig8 space number device function 0x0E
    let classDevice := pciReadConfig8 space number device function 0x0B
    let classSubclass := pciReadConfig8 space number device function 0x0A
    let classProgIf := pciReadConfig8 space number device function 0x09
    if classDevice = classCode ∧ classSubclass = subclass ∧ classProgIf = progIf then
      some {
        bus := number
        device := device
        function := function
        vendorId := vendorId
        deviceId := pciReadConfig16 space number device function 0x02
        classCode := classDevice
        subclass := classSubclass
        progIf := classProgIf
        headerType := headerType }
    else none

/-- The three loops of `pci_find_device`. The first match leaves all of them at once. -/
def pciSearch (space : ConfigSpace) (classCode subclass progIf : BitVec 8) : Option PciDevice :=
  countUp 256 (by decide) (fun bus : BitVec 16 =>
    countUp 32 (by decide) (fun device : BitVec 8 =>
      countUp 8 (by decide) (fun function : BitVec 8 =>
        pciProbe space classCode subclass progIf bus device function) 0) 0) 0

/-- `pci_find_device`: the returned value and what is at the pointer afterwards. -/
def pciFindDevice (space : ConfigSpace) (classCode subclass progIf : BitVec 8) :
    Option PciDevice → Bool × Option PciDevice
  | none => (false, none)
  | some out =>
    match pciSearch space classCode subclass progIf with
    | some found => (true, some found)
    | none => (false, some out)

/-- `pci_is_intel_gpu_present`, given what its unset local variable holds. Where no display is
found the variable is not read. -/
def pciIsIntelGpuPresent (space : ConfigSpace) (device : PciDevice) : Bool :=
  match pciFindDevice space pciClassDisplay pciSubclassVga pciProgifVga (some device) with
  | (true, some found) => found.vendorId = pciVendorIntel
  | _ => false

/-! ## Configuration headers -/

/-- A function of a device on a bus, in the lexicographic order. -/
abbrev Place := Fin 256 ×ₗ Fin 32 ×ₗ Fin 8

/-- The bus, which comes first in the order. -/
def Place.bus (place : Place) : Fin 256 := (ofLex place).1

/-- The device on the bus. -/
def Place.device (place : Place) : Fin 32 := (ofLex (ofLex place).2).1

/-- The function of the device, which comes last in the order. -/
def Place.function (place : Place) : Fin 8 := (ofLex (ofLex place).2).2

/-- The address of a double word of the configuration of a function. -/
def headerAddress (place : Place) (dword : Fin 64) : BitVec 32 :=
  BitVec.ofNat 32
    (2 ^ 31 + place.bus * 2 ^ 16 + place.device * 2 ^ 11 + place.function * 2 ^ 8 + dword * 4)

/-- A double word of the configuration of a function, as the configuration space has it. -/
def headerDword (space : ConfigSpace) (place : Place) (dword : Fin 64) : BitVec 32 :=
  space (headerAddress place dword)

/-- A byte of the configuration of a function, taken from its double word. -/
def headerByte (space : ConfigSpace) (place : Place) (offset : BitVec 8) : BitVec 8 :=
  (headerDword space place ⟨offset.toNat / 4, by omega⟩).extractLsb' (8 * (offset.toNat % 4)) 8

/-- The vendor is in the low half of the first double word, and the device in the high half. -/
def vendorOf (space : ConfigSpace) (place : Place) : BitVec 16 :=
  (headerDword space place 0).extractLsb' 0 16
def deviceOf (space : ConfigSpace) (place : Place) : BitVec 16 :=
  (headerDword space place 0).extractLsb' 16 16

/-- A present function of a class. One whose vendor reads as all ones is not there. -/
def Carries (space : ConfigSpace) (classCode subclass progIf : BitVec 8) (place : Place) : Prop :=
  vendorOf space place ≠ 0xFFFF ∧ headerByte space place 0x0B = classCode ∧
    headerByte space place 0x0A = subclass ∧ headerByte space place 0x09 = progIf

instance (space : ConfigSpace) (classCode subclass progIf : BitVec 8) (place : Place) :
    Decidable (Carries space classCode subclass progIf place) :=
  inferInstanceAs (Decidable (_ ∧ _))

/-- What there is to say about a function of a class. -/
def describe (space : ConfigSpace) (place : Place) : PciDevice where
  bus := BitVec.ofNat 8 place.bus
  device := BitVec.ofNat 8 place.device
  function := BitVec.ofNat 8 place.function
  vendorId := vendorOf space place
  deviceId := deviceOf space place
  classCode := headerByte space place 0x0B
  subclass := headerByte space place 0x0A
  progIf := headerByte space place 0x09
  headerType := headerByte space place 0x0E

/-! ## Reading a header -/

/-- The fields of an address do not overlap. -/
theorem fields_disjoint {bus device function low : Nat} (buses : bus < 2 ^ 8)
    (devices : device < 2 ^ 5) (functions : function < 2 ^ 3) (lows : low < 2 ^ 8) :
    2 ^ 31 ||| bus * 2 ^ 16 ||| device * 2 ^ 11 ||| function * 2 ^ 8 ||| low =
      2 ^ 31 + bus * 2 ^ 16 + device * 2 ^ 11 + function * 2 ^ 8 + low := by
  have onBus : 2 ^ 31 ||| bus * 2 ^ 16 = 2 ^ 16 * (2 ^ 15 + bus) := by
    have disjoint := Nat.two_pow_add_eq_or_of_lt (i := 31) (b := bus * 2 ^ 16) (by omega) 1
    rw [Nat.mul_one] at disjoint
    omega
  have onDevice : 2 ^ 16 * (2 ^ 15 + bus) ||| device * 2 ^ 11 =
      2 ^ 11 * (2 ^ 20 + bus * 2 ^ 5 + device) := by
    rw [← Nat.two_pow_add_eq_or_of_lt (by omega)]
    omega
  have onFunction : 2 ^ 11 * (2 ^ 20 + bus * 2 ^ 5 + device) ||| function * 2 ^ 8 =
      2 ^ 8 * (2 ^ 23 + bus * 2 ^ 8 + device * 2 ^ 3 + function) := by
    rw [← Nat.two_pow_add_eq_or_of_lt (by omega)]
    omega
  rw [onBus, onDevice, onFunction, ← Nat.two_pow_add_eq_or_of_lt lows]
  omega

/-- A field of an address keeps its number. -/
theorem field_toNat {number shift : Nat} (small : number < 2 ^ 8) (inside : shift ≤ 24) :
    ((BitVec.ofNat 8 number).setWidth 32 <<< shift).toNat = number * 2 ^ shift := by
  have fits : number * 2 ^ shift < 2 ^ 32 := by
    calc number * 2 ^ shift < 2 ^ 8 * 2 ^ shift :=
          Nat.mul_lt_mul_of_pos_right small (Nat.two_pow_pos shift)
      _ ≤ 2 ^ 8 * 2 ^ 24 := Nat.mul_le_mul_left _ (Nat.pow_le_pow_right (by decide) inside)
      _ = 2 ^ 32 := by decide
  rw [BitVec.toNat_shiftLeft, BitVec.toNat_setWidth, BitVec.toNat_ofNat, Nat.mod_eq_of_lt small,
    Nat.mod_eq_of_lt (small.trans (by decide)), Nat.shiftLeft_eq, Nat.mod_eq_of_lt fits]

/-- The upper bits of an offset select a double word, and the lower two a lane of eight bits. -/
theorem offset_dword : ∀ offset < 2 ^ 8, offset &&& 0xFC = offset / 4 * 4 := by decide +kernel

/-- The lower two bits of an offset are shifted to a multiple of eight. -/
theorem offset_lane : ∀ offset < 2 ^ 8, (offset &&& 3) * 8 = 8 * (offset % 4) := by decide +kernel

/-- The source forms the address of the double word that an offset is in. -/
theorem pciConfigAddress_eq (place : Place) (offset : BitVec 8) :
    pciConfigAddress (BitVec.ofNat 8 place.bus) (BitVec.ofNat 8 place.device)
      (BitVec.ofNat 8 place.function) offset =
        headerAddress place ⟨offset.toNat / 4, by omega⟩ := by
  have buses : place.bus.val < 2 ^ 8 := place.bus.isLt
  have devices : place.device.val < 2 ^ 5 := place.device.isLt
  have functions : place.function.val < 2 ^ 3 := place.function.isLt
  have inside : offset.toNat < 2 ^ 8 := offset.isLt
  have low : (offset.setWidth 32 &&& 0xFC).toNat = offset.toNat / 4 * 4 := by
    rw [BitVec.toNat_and, BitVec.toNat_setWidth, Nat.mod_eq_of_lt (inside.trans (by decide))]
    exact offset_dword offset.toNat inside
  apply BitVec.eq_of_toNat_eq
  rw [pciConfigAddress, BitVec.toNat_or, BitVec.toNat_or, BitVec.toNat_or, BitVec.toNat_or, low,
    field_toNat buses (by decide), field_toNat (devices.trans (by decide)) (by decide),
    field_toNat (functions.trans (by decide)) (by decide), headerAddress, BitVec.toNat_ofNat,
    Nat.mod_eq_of_lt (by omega)]
  exact fields_disjoint buses devices functions (by omega)

/-- Different double words are at different addresses. So no function can be taken for another
one. -/
theorem headerAddress_injective {first second : Place} {dword other : Fin 64}
    (same : headerAddress first dword = headerAddress second other) :
    first = second ∧ dword = other := by
  have numbers := congrArg BitVec.toNat same
  have buses := first.bus.isLt
  have devices := first.device.isLt
  have functions := first.function.isLt
  have buses' := second.bus.isLt
  have devices' := second.device.isLt
  have functions' := second.function.isLt
  rw [headerAddress, headerAddress, BitVec.toNat_ofNat, BitVec.toNat_ofNat,
    Nat.mod_eq_of_lt (by omega), Nat.mod_eq_of_lt (by omega)] at numbers
  have bus : first.bus = second.bus := by omega
  have device : first.device = second.device := by omega
  have function : first.function = second.function := by omega
  refine ⟨?_, by omega⟩
  exact congrArg toLex (Prod.ext bus (congrArg toLex (Prod.ext device function)))

/-- Part of a double word is shifted down from its lane. -/
theorem lane_eq (dword shift : BitVec 32) {lane : Nat} (starts : shift.toNat = lane) (width : Nat) :
    (dword >>> shift).setWidth width = dword.extractLsb' lane width := by
  apply BitVec.eq_of_toNat_eq
  rw [BitVec.toNat_setWidth, BitVec.ushiftRight_eq', BitVec.toNat_ushiftRight,
    BitVec.extractLsb'_toNat, starts]

/-- A byte of a header is read, from the double word it lies in. -/
theorem pciReadConfig8_eq (space : ConfigSpace) (place : Place) (offset : BitVec 8) :
    pciReadConfig8 space (BitVec.ofNat 8 place.bus) (BitVec.ofNat 8 place.device)
      (BitVec.ofNat 8 place.function) offset = headerByte space place offset := by
  have inside : offset.toNat < 2 ^ 8 := offset.isLt
  rw [pciReadConfig8, pciReadConfig32, pciConfigAddress_eq]
  apply lane_eq
  rw [BitVec.toNat_mul, BitVec.toNat_and, BitVec.toNat_setWidth,
    Nat.mod_eq_of_lt (inside.trans (by decide)), ← offset_lane offset.toNat inside]
  exact Nat.mod_eq_of_lt (Nat.lt_of_le_of_lt (Nat.mul_le_mul_right 8 Nat.and_le_right) (by decide))

/-- The vendor of a function is read. -/
theorem pciReadConfig16_vendor (space : ConfigSpace) (place : Place) :
    pciReadConfig16 space (BitVec.ofNat 8 place.bus) (BitVec.ofNat 8 place.device)
      (BitVec.ofNat 8 place.function) 0x00 = vendorOf space place := by
  rw [pciReadConfig16, pciReadConfig32, pciConfigAddress_eq]
  exact lane_eq _ _ rfl 16

/-- The device number of a function is read. -/
theorem pciReadConfig16_device (space : ConfigSpace) (place : Place) :
    pciReadConfig16 space (BitVec.ofNat 8 place.bus) (BitVec.ofNat 8 place.device)
      (BitVec.ofNat 8 place.function) 0x02 = deviceOf space place := by
  rw [pciReadConfig16, pciReadConfig32, pciConfigAddress_eq]
  exact lane_eq _ _ rfl 16

/-- A function is tried by its header, and found if it is present and of the class. -/
theorem pciProbe_eq (space : ConfigSpace) (classCode subclass progIf : BitVec 8) (place : Place) :
    pciProbe space classCode subclass progIf (BitVec.ofNat 16 place.bus)
      (BitVec.ofNat 8 place.device) (BitVec.ofNat 8 place.function) =
        if Carries space classCode subclass progIf place then some (describe space place)
        else none := by
  have number : (BitVec.ofNat 16 place.bus).setWidth 8 = BitVec.ofNat 8 place.bus := by
    apply BitVec.eq_of_toNat_eq
    rw [BitVec.toNat_setWidth, BitVec.toNat_ofNat, BitVec.toNat_ofNat]
    omega
  rw [pciProbe, number, pciReadConfig16_vendor, pciReadConfig16_device]
  simp only [pciReadConfig8_eq]
  by_cases absent : vendorOf space place = 0xFFFF
  · rw [if_pos absent, if_neg fun carries => carries.1 absent]
  · rw [if_neg absent]
    exact if_congr (and_iff_right absent).symm rfl rfl

/-! ## The search -/

section Search

variable (space : ConfigSpace) (classCode subclass progIf : BitVec 8)

/-- The functions of a class, in the order of their places. -/
def carriers : Set Place := {place | Carries space classCode subclass progIf place}

variable {space classCode subclass progIf}

/-- A function is tried without a result if it is not of the class. -/
theorem pciProbe_eq_none_iff (place : Place) :
    pciProbe space classCode subclass progIf (BitVec.ofNat 16 place.bus)
      (BitVec.ofNat 8 place.device) (BitVec.ofNat 8 place.function) = none ↔
        place ∉ carriers space classCode subclass progIf := by
  rw [pciProbe_eq]
  exact ite_eq_right_iff.trans (by simp [carriers])

/-- Nothing is found if there is no function of the class. -/
theorem pciSearch_eq_none_iff :
    pciSearch space classCode subclass progIf = none ↔
      ∀ place, place ∉ carriers space classCode subclass progIf := by
  rw [pciSearch, count_eq_none_iff]
  constructor
  · intro nothing place
    have onBus := count_eq_none_iff.mp (nothing place.bus)
    have onDevice := count_eq_none_iff.mp (onBus place.device)
    exact (pciProbe_eq_none_iff place).mp (onDevice place.function)
  · intro none bus
    refine count_eq_none_iff.mpr fun device => count_eq_none_iff.mpr fun function => ?_
    exact (pciProbe_eq_none_iff (toLex (bus, toLex (device, function)))).mpr (none _)

/-- What is found describes the first function of the class. -/
theorem pciSearch_eq_some {found : PciDevice}
    (searched : pciSearch space classCode subclass progIf = some found) :
    ∃ place, IsLeast (carriers space classCode subclass progIf) place ∧
      found = describe space place := by
  rw [pciSearch, count_eq_some_iff] at searched
  obtain ⟨bus, onBus, earlierBus⟩ := searched
  obtain ⟨device, onDevice, earlierDevice⟩ := (count_eq_some_iff found).mp onBus
  obtain ⟨function, probed, earlierFunction⟩ := (count_eq_some_iff found).mp onDevice
  let place : Place := toLex (bus, toLex (device, function))
  have here : pciProbe space classCode subclass progIf (BitVec.ofNat 16 place.bus)
      (BitVec.ofNat 8 place.device) (BitVec.ofNat 8 place.function) = some found := probed
  rw [pciProbe_eq, Option.ite_none_right_eq_some] at here
  obtain ⟨carries, described⟩ := here
  refine ⟨place, ?_, (Option.some.inj described).symm⟩
  apply isLeast_toLex carries
  · intro earlier less other
    have onDevice := count_eq_none_iff.mp (earlierBus earlier less) (ofLex other).1
    have onFunction := count_eq_none_iff.mp onDevice (ofLex other).2
    exact (pciProbe_eq_none_iff (toLex (earlier, other))).mp onFunction
  · intro earlier less
    rcases Prod.Lex.lt_iff.mp less with before | ⟨same, before⟩
    · have onFunction := count_eq_none_iff.mp (earlierDevice _ before) (ofLex earlier).2
      exact (pciProbe_eq_none_iff (toLex (bus, earlier))).mp onFunction
    · have sameDevice : (ofLex earlier).1 = device := same
      have probed := earlierFunction _ before
      rw [← sameDevice] at probed
      exact (pciProbe_eq_none_iff (toLex (bus, earlier))).mp probed

/-- Where there is a function of the class, there is a first one. -/
theorem exists_first (carried : ∃ place, Carries space classCode subclass progIf place) :
    ∃ place, IsLeast {place | Carries space classCode subclass progIf place} place := by
  cases searched : pciSearch space classCode subclass progIf with
  | none =>
    obtain ⟨place, carries⟩ := carried
    exact absurd carries (pciSearch_eq_none_iff.mp searched place)
  | some found =>
    obtain ⟨place, least, _⟩ := pciSearch_eq_some searched
    exact ⟨place, least⟩

variable (space classCode subclass progIf) in
/-- `pci_find_device` stores what describes the first function of the class, or leaves its pointer
alone because there is none. -/
theorem pciFindDevice_cases (out : PciDevice) :
    (∃ place, IsLeast {place | Carries space classCode subclass progIf place} place ∧
      pciFindDevice space classCode subclass progIf (some out) =
        (true, some (describe space place))) ∨
    ((∀ place, ¬ Carries space classCode subclass progIf place) ∧
      pciFindDevice space classCode subclass progIf (some out) = (false, some out)) := by
  rw [pciFindDevice]
  cases searched : pciSearch space classCode subclass progIf with
  | none => exact Or.inr ⟨pciSearch_eq_none_iff.mp searched, rfl⟩
  | some found =>
    obtain ⟨place, least, rfl⟩ := pciSearch_eq_some searched
    exact Or.inl ⟨place, least, rfl⟩

end Search

/-- `pci_find_device` is complete and finds the first function of a class, in the order of bus,
device and function. What it reports is read from the headers of that function, and without one
the caller's variable is left alone. -/
theorem pciFindDevice_first (space : ConfigSpace) (classCode subclass progIf : BitVec 8)
    (out : PciDevice) :
    ((pciFindDevice space classCode subclass progIf (some out)).1 = true ↔
      ∃ place, Carries space classCode subclass progIf place) ∧
    ((pciFindDevice space classCode subclass progIf (some out)).1 = true →
      ∃ place, IsLeast {place | Carries space classCode subclass progIf place} place ∧
        (pciFindDevice space classCode subclass progIf (some out)).2 = some (describe space place)) ∧
    ((pciFindDevice space classCode subclass progIf (some out)).1 = false →
      (pciFindDevice space classCode subclass progIf (some out)).2 = some out) ∧
    ∀ (first second : Place) (offset other : BitVec 8),
      pciConfigAddress (BitVec.ofNat 8 first.bus) (BitVec.ofNat 8 first.device)
          (BitVec.ofNat 8 first.function) offset =
        pciConfigAddress (BitVec.ofNat 8 second.bus) (BitVec.ofNat 8 second.device)
          (BitVec.ofNat 8 second.function) other →
      first = second ∧ offset.toNat / 4 = other.toNat / 4 := by
  refine ⟨?_, ?_, ?_, fun first second offset other same => ?_⟩
  · rcases pciFindDevice_cases space classCode subclass progIf out with
      ⟨place, least, found⟩ | ⟨nothing, unfound⟩
    · exact iff_of_true (congrArg Prod.fst found) ⟨place, least.1⟩
    · rw [unfound]
      exact iff_of_false Bool.noConfusion (not_exists.mpr nothing)
  · intro returned
    rcases pciFindDevice_cases space classCode subclass progIf out with
      ⟨place, least, found⟩ | ⟨_, unfound⟩
    · exact ⟨place, least, congrArg Prod.snd found⟩
    · rw [unfound] at returned
      cases returned
  · intro returned
    rcases pciFindDevice_cases space classCode subclass progIf out with
      ⟨_, _, found⟩ | ⟨_, unfound⟩
    · rw [found] at returned
      cases returned
    · exact congrArg Prod.snd unfound
  · rw [pciConfigAddress_eq, pciConfigAddress_eq] at same
    obtain ⟨place, dword⟩ := headerAddress_injective same
    exact ⟨place, congrArg Fin.val dword⟩

/-! ## Intel displays -/

/-- A VGA display controller, of whatever vendor. -/
def Vga (space : ConfigSpace) (place : Place) : Prop :=
  Carries space pciClassDisplay pciSubclassVga pciProgifVga place

/-- A VGA display controller made by Intel. -/
def IntelVga (space : ConfigSpace) (place : Place) : Prop :=
  Vga space place ∧ vendorOf space place = pciVendorIntel

instance (space : ConfigSpace) (place : Place) : Decidable (Vga space place) :=
  inferInstanceAs (Decidable (Carries space _ _ _ place))

/-- The first display decides, whatever comes behind it. -/
theorem pciIsIntelGpuPresent_first {space : ConfigSpace} {place : Place}
    (least : IsLeast {place | Vga space place} place) (device : PciDevice) :
    pciIsIntelGpuPresent space device = true ↔ vendorOf space place = pciVendorIntel := by
  rw [pciIsIntelGpuPresent]
  rcases pciFindDevice_cases space pciClassDisplay pciSubclassVga pciProgifVga device with
    ⟨first, firstLeast, found⟩ | ⟨nothing, _⟩
  · have same : first = place := firstLeast.unique least
    rw [found, same]
    exact decide_eq_true_iff
  · exact absurd least.1 (nothing place)

/-- Without a display no Intel display is reported. -/
theorem pciIsIntelGpuPresent_none {space : ConfigSpace} (none : ∀ place, ¬ Vga space place)
    (device : PciDevice) : pciIsIntelGpuPresent space device = false := by
  rw [pciIsIntelGpuPresent]
  rcases pciFindDevice_cases space pciClassDisplay pciSubclassVga pciProgifVga device with
    ⟨place, least, _⟩ | ⟨_, unfound⟩
  · exact absurd least.1 (none place)
  · rw [unfound]

/-- `pci_is_intel_gpu_present` tells whether there is an Intel display, if and only if no display
of another vendor comes before all of them. The search ends with the first display, and its
vendor is tested behind it. -/
theorem pciIsIntelGpuPresent_iff (space : ConfigSpace) (device : PciDevice) :
    (pciIsIntelGpuPresent space device = true ↔ ∃ place, IntelVga space place) ↔
      ((∃ place, IntelVga space place) →
        ∃ place, IntelVga space place ∧ ∀ earlier < place, ¬ Vga space earlier) := by
  by_cases displays : ∃ place, Vga space place
  · obtain ⟨place, least⟩ := exists_first displays
    rw [pciIsIntelGpuPresent_first least device]
    constructor
    · intro complete intel
      refine ⟨place, ⟨least.1, complete.mpr intel⟩, fun earlier less vga => ?_⟩
      exact absurd less (not_lt.mpr (least.2 vga))
    · intro comesFirst
      refine ⟨fun intel => ⟨place, least.1, intel⟩, fun intel => ?_⟩
      obtain ⟨first, ⟨vga, vendor⟩, before⟩ := comesFirst intel
      have same : place = first := by
        refine le_antisymm (least.2 vga) (not_lt.mp fun less => ?_)
        exact before place less least.1
      rw [same, vendor]
  · have none : ∀ place, ¬ Vga space place := not_exists.mp displays
    have noIntel : ¬ ∃ place, IntelVga space place := fun ⟨place, intel⟩ => none place intel.1
    rw [pciIsIntelGpuPresent_none none device]
    exact iff_of_true (iff_of_false Bool.noConfusion noIntel) fun intel => absurd intel noIntel

/-- Two displays, in the slots 1 and 2 of the first bus. Only the second one is made by Intel. -/
def twoDisplays : ConfigSpace := fun address =>
  if address = 0x80000800 then 0x11111234
  else if address = 0x80001000 then 0x56A08086
  else if address = 0x80000808 ∨ address = 0x80001008 then 0x03000000
  else 0xFFFFFFFF

/-- The display of another vendor hides the one made by Intel. -/
theorem twoDisplays_hidden :
    ¬ ∀ device, (pciIsIntelGpuPresent twoDisplays device = true ↔
      ∃ place, IntelVga twoDisplays place) := by
  intro complete
  let other : Place := toLex (0, toLex (1, 0))
  let intel : Place := toLex (0, toLex (2, 0))
  have here : Vga twoDisplays other := by decide
  have firstDevice : ∀ function : Fin 8, ¬ Vga twoDisplays (toLex (0, toLex (0, function))) := by
    decide
  have least : IsLeast {place | Vga twoDisplays place} other := by
    apply isLeast_toLex here
    · exact fun earlier less => absurd less (Fin.not_lt_zero earlier)
    · intro earlier less
      rcases Prod.Lex.lt_iff.mp less with before | ⟨_, before⟩
      · have device : (ofLex earlier).1 = 0 := Fin.ext (Nat.lt_one_iff.mp before)
        have split : earlier = toLex (0, (ofLex earlier).2) := congrArg toLex (Prod.ext device rfl)
        rw [split]
        exact firstDevice _
      · exact absurd before (Fin.not_lt_zero _)
  have found : IntelVga twoDisplays intel := ⟨by decide, by decide⟩
  have reported := (complete (describe twoDisplays intel)).mpr ⟨intel, found⟩
  have vendor := (pciIsIntelGpuPresent_first least _).mp reported
  revert vendor
  decide

end ExistentOS.Kernel
