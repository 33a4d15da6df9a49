import ExistentOS.Library.LongMode

/-!
# The interrupt descriptor table

`drivers/system/idt.c`: the packed entries of the table, the gates that `idt_init` sets for
the sixteen stubs and the pointer it loads. The processor reads both from their bytes, in
its own layout; a gate set for a handler is read back as a gate to that handler, and
`idt_init` leaves such a gate for each of its vectors.
-/

namespace ExistentOS.Kernel

open Codecs ByteMemory LongMode

/-- `struct idt_entry64`. The address of the handler is split over three fields. -/
structure IdtEntry64 where
  offsetLow : BitVec 16
  selector : BitVec 16
  ist : BitVec 8
  typeAttr : BitVec 8
  offsetMid : BitVec 16
  offsetHigh : BitVec 32
  zero : BitVec 32
  deriving DecidableEq, Repr

/-- The packed bytes of an entry, field by field and without padding. -/
def idtEntry64 : Codec IdtEntry64 16 :=
  transport
    (pair (words 2) (pair (words 2) (pair (words 1) (pair (words 1) (pair (words 2)
      (pair (words 4) (words 4)))))))
    ⟨fun entry => (entry.offsetLow, entry.selector, entry.ist, entry.typeAttr, entry.offsetMid,
        entry.offsetHigh, entry.zero),
      fun ⟨offsetLow, selector, ist, typeAttr, offsetMid, offsetHigh, zero⟩ =>
        ⟨offsetLow, selector, ist, typeAttr, offsetMid, offsetHigh, zero⟩,
      fun _ => rfl, fun _ => rfl⟩

/-- `struct idt_ptr64`. The limit is the last byte of the table and not its size. -/
structure IdtPtr64 where
  limit : BitVec 16
  base : BitVec 64
  deriving DecidableEq, Repr

/-- The packed bytes of the pointer: two for the limit and eight for the base. -/
def idtPtr64 : Codec IdtPtr64 10 :=
  transport (pair (words 2) (words 8))
    ⟨fun pointer => (pointer.limit, pointer.base), fun ⟨limit, base⟩ => ⟨limit, base⟩,
      fun _ => rfl, fun _ => rfl⟩

/-- `IDT_ENTRIES`. Only the first sixteen of them are set. -/
def idtEntries : Nat := 256

/-- The variables `idt` and `idtp`. They are static, so they are there before `idt_init` with
what the image has in them. -/
structure Globals where
  idt : Vector IdtEntry64 idtEntries
  idtp : IdtPtr64

/-- The entry that `idt_set_gate` stores. The address of the handler is cut into three parts. -/
def gateEntry (handler : BitVec 64) (selector : BitVec 16) (flags : BitVec 8) : IdtEntry64 where
  offsetLow := (handler &&& 0xFFFF).setWidth 16
  offsetMid := ((handler >>> 16) &&& 0xFFFF).setWidth 16
  offsetHigh := ((handler >>> 32) &&& 0xFFFFFFFF).setWidth 32
  selector := selector
  ist := 0
  typeAttr := flags
  zero := 0

/-- `idt_set_gate`. The other entries of the table stay as they are. -/
def idtSetGate (vec : Fin idtEntries) (handler : BitVec 64) (selector : BitVec 16)
    (flags : BitVec 8) (idt : Vector IdtEntry64 idtEntries) : Vector IdtEntry64 idtEntries :=
  idt.set vec (gateEntry handler selector flags)

/-- `idt_load`: the processor loads its register from the bytes of the pointer. -/
def idtLoad (idtp : IdtPtr64) : TableRegister := TableRegister.decode (idtPtr64.encode idtp)

/-- The place of a vector in the table, which has an entry for every vector of a byte. -/
def entryOf (vec : Fin 16) : Fin idtEntries := vec.castLE (by decide)

/-- The gates of some vectors, set one after the other. -/
def setGates (irq : Fin 16 → BitVec 64) (vectors : List (Fin 16))
    (idt : Vector IdtEntry64 idtEntries) : Vector IdtEntry64 idtEntries :=
  vectors.foldl (fun idt vec => idtSetGate (entryOf vec) (irq vec) 0x08 0x8E idt) idt

/-- `idt_init` for a table at an address and stubs at theirs: a gate for each of the stubs, in
the order of the vectors, and then the register that is loaded. -/
def idtInit (address : BitVec 64) (irq : Fin 16 → BitVec 64) (globals : Globals) :
    Globals × TableRegister :=
  let idtp : IdtPtr64 := ⟨BitVec.ofNat 16 (16 * idtEntries - 1), address⟩
  (⟨setGates irq (List.finRange 16) globals.idt, idtp⟩, idtLoad idtp)

/-- A processor that has its table register and the bytes of the table as `idt_init` left them. -/
def Installed (address : BitVec 64) (irq : Fin 16 → BitVec 64) (cpu : Cpu) : Prop :=
  ∃ globals, cpu.idtr = (idtInit address irq globals).2 ∧
    load cpu.memory address (idtEntries * 16) =
      (vector idtEntry64 idtEntries).encode (idtInit address irq globals).1.idt

/-- A processor after `idt_init` with some earlier contents of the table. -/
def install (address : BitVec 64) (irq : Fin 16 → BitVec 64) (globals : Globals) (cpu : Cpu) : Cpu :=
  { cpu with
    idtr := (idtInit address irq globals).2
    memory := storeWord (vector idtEntry64 idtEntries) cpu.memory address
      (idtInit address irq globals).1.idt }

/-- The table that `idt_init` leaves is there to be read. -/
theorem installed_install (address : BitVec 64) (irq : Fin 16 → BitVec 64) (globals : Globals)
    (cpu : Cpu) : Installed address irq (install address irq globals cpu) := by
  have bytes : load (install address irq globals cpu).memory address (idtEntries * 16) =
      (vector idtEntry64 idtEntries).encode (idtInit address irq globals).1.idt := by
    unfold install
    generalize (idtInit address irq globals).1.idt = table
    exact load_storeWord (vector idtEntry64 idtEntries) cpu.memory address table (by decide)
  exact ⟨globals, rfl, bytes⟩

/-! ## What the processor reads -/

/-- The pointer is loaded as it was stored. -/
theorem idtLoad_eq (limit : BitVec 16) (base : BitVec 64) :
    idtLoad ⟨limit, base⟩ = ⟨limit, base⟩ := by
  have bytes : idtPtr64.encode ⟨limit, base⟩ =
      (words 2).encode limit ++ ((words 8).encode base ++ []) := by
    rw [List.append_nil]
    rfl
  have limitAt : field (idtPtr64.encode ⟨limit, base⟩) 0 2 = limit.toNat := by
    rw [bytes]
    exact field_word 2 limit _
  have baseAt : field (idtPtr64.encode ⟨limit, base⟩) 2 8 = base.toNat := by
    rw [bytes]
    exact (field_skip 2 0 8 limit _).trans (field_word 8 base [])
  rw [idtLoad, TableRegister.decode, limitAt, baseAt, BitVec.ofNat_toNat, BitVec.ofNat_toNat,
    BitVec.setWidth_eq, BitVec.setWidth_eq]

/-- The three parts of a handler's address, put together again. -/
theorem offset_parts (handler : BitVec 64) :
    ((handler &&& 0xFFFF).setWidth 16).toNat +
      2 ^ 16 * (((handler >>> 16) &&& 0xFFFF).setWidth 16).toNat +
      2 ^ 32 * (((handler >>> 32) &&& 0xFFFFFFFF).setWidth 32).toNat = handler.toNat := by
  have low : (handler &&& 0xFFFF).toNat = handler.toNat % 2 ^ 16 :=
    Nat.and_two_pow_sub_one_eq_mod handler.toNat 16
  have mid : ((handler >>> 16) &&& 0xFFFF).toNat = handler.toNat / 2 ^ 16 % 2 ^ 16 := by
    rw [← Nat.shiftRight_eq_div_pow]
    exact Nat.and_two_pow_sub_one_eq_mod (handler.toNat >>> 16) 16
  have high : ((handler >>> 32) &&& 0xFFFFFFFF).toNat = handler.toNat / 2 ^ 32 % 2 ^ 32 := by
    rw [← Nat.shiftRight_eq_div_pow]
    exact Nat.and_two_pow_sub_one_eq_mod (handler.toNat >>> 32) 32
  have bound := handler.isLt
  rw [BitVec.toNat_setWidth, BitVec.toNat_setWidth, BitVec.toNat_setWidth, low, mid, high]
  omega

/-- The fields of an entry are at the places of the processor's layout. -/
theorem field_entry (entry : IdtEntry64) :
    field (idtEntry64.encode entry) 0 2 = entry.offsetLow.toNat ∧
      field (idtEntry64.encode entry) 2 2 = entry.selector.toNat ∧
      field (idtEntry64.encode entry) 4 1 = entry.ist.toNat ∧
      field (idtEntry64.encode entry) 5 1 = entry.typeAttr.toNat ∧
      field (idtEntry64.encode entry) 6 2 = entry.offsetMid.toNat ∧
      field (idtEntry64.encode entry) 8 4 = entry.offsetHigh.toNat := by
  have bytes : idtEntry64.encode entry =
      (words 2).encode entry.offsetLow ++ ((words 2).encode entry.selector ++
        ((words 1).encode entry.ist ++ ((words 1).encode entry.typeAttr ++
          ((words 2).encode entry.offsetMid ++ ((words 4).encode entry.offsetHigh ++
            (words 4).encode entry.zero))))) := rfl
  rw [bytes]
  refine ⟨field_word 2 _ _, ?_, ?_, ?_, ?_, ?_⟩
  · exact (field_skip 2 0 2 _ _).trans (field_word 2 _ _)
  · exact (field_skip 2 2 1 _ _).trans <| (field_skip 2 0 1 _ _).trans (field_word 1 _ _)
  · exact (field_skip 2 3 1 _ _).trans <| (field_skip 2 1 1 _ _).trans <|
      (field_skip 1 0 1 _ _).trans (field_word 1 _ _)
  · exact (field_skip 2 4 2 _ _).trans <| (field_skip 2 2 2 _ _).trans <|
      (field_skip 1 1 2 _ _).trans <| (field_skip 1 0 2 _ _).trans (field_word 2 _ _)
  · exact (field_skip 2 6 4 _ _).trans <| (field_skip 2 4 4 _ _).trans <|
      (field_skip 1 3 4 _ _).trans <| (field_skip 1 2 4 _ _).trans <|
        (field_skip 2 0 4 _ _).trans (field_word 4 _ _)

/-- A gate set for a handler is read as a gate to that handler. -/
theorem decode_gateEntry (handler : BitVec 64) (selector : BitVec 16) (flags : BitVec 8) :
    Gate.decode (idtEntry64.encode (gateEntry handler selector flags)) =
      { offset := handler, selector := selector, stackTable := 0, kind := flags.setWidth 4,
        present := flags.getLsbD 7 } := by
  obtain ⟨offsetLow, selectorAt, istAt, typeAt, offsetMid, offsetHigh⟩ :=
    field_entry (gateEntry handler selector flags)
  have offset : (gateEntry handler selector flags).offsetLow.toNat +
      2 ^ 16 * (gateEntry handler selector flags).offsetMid.toNat +
      2 ^ 32 * (gateEntry handler selector flags).offsetHigh.toNat = handler.toNat :=
    offset_parts handler
  rw [Gate.decode, offsetLow, selectorAt, istAt, typeAt, offsetMid, offsetHigh, offset,
    BitVec.ofNat_toNat, BitVec.ofNat_toNat, BitVec.setWidth_eq, BitVec.setWidth_eq]
  simp [gateEntry, BitVec.getLsbD, BitVec.ofNat_toNat]

/-- Each of the vectors whose gates are set has its own. -/
theorem setGates_entry (irq : Fin 16 → BitVec 64) (vectors : List (Fin 16))
    (idt : Vector IdtEntry64 idtEntries) (vec : Fin 16) :
    (setGates irq vectors idt)[entryOf vec] =
      if vec ∈ vectors then gateEntry (irq vec) 0x08 0x8E else idt[entryOf vec] := by
  induction vectors generalizing idt with
  | nil => exact (if_neg List.not_mem_nil).symm
  | cons first rest ih =>
    have step : setGates irq (first :: rest) idt =
        setGates irq rest (idtSetGate (entryOf first) (irq first) 0x08 0x8E idt) := rfl
    rw [step, ih]
    by_cases later : vec ∈ rest
    · rw [if_pos later, if_pos (List.mem_cons_of_mem first later)]
    · by_cases same : vec = first
      · subst same
        rw [if_neg later, if_pos List.mem_cons_self]
        exact Vector.getElem_set_self (entryOf vec).isLt
      · have absent : vec ∉ first :: rest := by simp [same, later]
        have apart : (entryOf first).val ≠ (entryOf vec).val := fun equal =>
          same (Fin.ext equal.symm)
        rw [if_neg later, if_neg absent]
        exact Vector.getElem_set_ne (entryOf first).isLt (entryOf vec).isLt apart

/-- `idt_init` sets the gate of each stub, and each gate stays as it was set while the others
are. -/
theorem idtInit_entry (address : BitVec 64) (irq : Fin 16 → BitVec 64) (globals : Globals)
    (vec : Fin 16) :
    (idtInit address irq globals).1.idt[entryOf vec] = gateEntry (irq vec) 0x08 0x8E :=
  (setGates_entry irq (List.finRange 16) globals.idt vec).trans (if_pos (List.mem_finRange vec))

/-- The gate that leads to a stub: an interrupt gate of the kernel's code segment. -/
def stubGate (handler : BitVec 64) : Gate where
  offset := handler
  selector := 0x08
  stackTable := 0
  kind := interruptGate
  present := true

/-- After `idt_init` the gate of each of the vectors leads to its stub. -/
theorem fetchGate_installed {address : BitVec 64} {irq : Fin 16 → BitVec 64} {cpu : Cpu}
    (installed : Installed address irq cpu) (vec : Fin 16) :
    fetchGate cpu vec = some (stubGate (irq vec)) := by
  obtain ⟨globals, register, table⟩ := installed
  have limits : cpu.idtr = ⟨BitVec.ofNat 16 (16 * idtEntries - 1), address⟩ :=
    register.trans (idtLoad_eq _ _)
  have room : vec.val * 16 + 16 ≤ idtEntries * 16 := by
    have below := vec.isLt
    rw [idtEntries]
    omega
  have within : 16 * vec.val + 15 ≤ (BitVec.ofNat 16 (16 * idtEntries - 1)).toNat := by
    have below := vec.isLt
    have limit : (BitVec.ofNat 16 (16 * idtEntries - 1)).toNat = 4095 := rfl
    omega
  have bytes : load cpu.memory (address + BitVec.ofNat 64 (16 * vec.val)) 16 =
      idtEntry64.encode (gateEntry (irq vec) 0x08 0x8E) := by
    rw [Nat.mul_comm, ← load_slice cpu.memory address room, table,
      ← idtInit_entry address irq globals vec]
    exact vector_slice idtEntry64 _ (entryOf vec)
  rw [fetchGate, limits, if_pos within]
  simp only [bytes, decode_gateEntry]
  rfl

end ExistentOS.Kernel
