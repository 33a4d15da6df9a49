import ExistentOS.Library.LongMode

/-!
# Code over the stack, by views

A view tells what code that works over the stack can see: its address, the general
registers, the stack pointer and the words from the pointer upwards. Each instruction takes
one view to another. The rules for runs of pushes, runs of pops and chains of comparisons
follow by induction over the run, whatever the registers and the words are.
-/

namespace LongMode

open ByteMemory Codecs

/-- An address, the registers other than the stack pointer, the pointer and the stack. The stack
is a list here, so that pushing and popping compute. -/
structure View where
  address : BitVec 64
  registers : Register → BitVec 64
  pointer : BitVec 64
  words : List (BitVec 64)

/-- A processor in the state that a view shows. The words of the list lie in memory from the
stack pointer upwards. -/
structure View.Of (view : View) (cpu : Cpu) : Prop where
  address : cpu.rip = view.address
  registers : ∀ register ≠ .rsp, cpu.registers register = view.registers register
  pointer : cpu.registers .rsp = view.pointer
  stacked : Stacked quad cpu.memory view.pointer view.words

/-- The program takes every processor of one view to one of the other view. -/
def Goes (text : Listing) (first last : View) : Prop :=
  ∀ cpu, first.Of cpu → ∃ after, Reaches text cpu after ∧ last.Of after

variable {text : Listing} {first middle last : View}

/-- A view goes to itself, in no step. -/
theorem goes_refl (view : View) : Goes text view view :=
  fun cpu shown => ⟨cpu, .refl, shown⟩

/-- Steps follow steps. The proof of a stub is a chain of these. -/
theorem Goes.trans (early : Goes text first middle) (late : Goes text middle last) :
    Goes text first last := by
  intro cpu shown
  obtain ⟨between, reached, seen⟩ := early cpu shown
  obtain ⟨after, further, final⟩ := late between seen
  exact ⟨after, reached.trans further, final⟩

/-- One instruction is a step of the program. -/
theorem reaches_execute {cpu : Cpu} {instruction : Instruction (BitVec 64)} {next : BitVec 64}
    (here : text cpu.rip = some (instruction, next)) :
    Reaches text cpu (execute instruction next cpu) := by
  have stepped : step text cpu = some (execute instruction next cpu) := by rw [step, here]; rfl
  exact Relation.ReflTransGen.single stepped

/-- A view goes to another by the instruction at its address. -/
theorem goes_of_execute {instruction : Instruction (BitVec 64)} {next : BitVec 64}
    (here : text first.address = some (instruction, next))
    (does : ∀ cpu, first.Of cpu → last.Of (execute instruction next cpu)) :
    Goes text first last := by
  intro cpu shown
  exact ⟨execute instruction next cpu, reaches_execute (shown.address ▸ here), does cpu shown⟩

/-- The registers of a view count apart from the stack pointer. -/
theorem Goes.agree {registers : Register → BitVec 64} (goes : Goes text first last)
    (same : ∀ register ≠ .rsp, last.registers register = registers register) :
    Goes text first { last with registers := registers } := by
  intro cpu shown
  obtain ⟨after, reached, seen⟩ := goes cpu shown
  exact ⟨after, reached, seen.address, fun register other =>
    (seen.registers register other).trans (same register other), seen.pointer, seen.stacked⟩

/-! ## Single instructions -/

variable {registers : Register → BitVec 64} {address next pointer : BitVec 64}
  {words : List (BitVec 64)}

/-- The view after a push has one word more. The bytes of the others are untouched, as long as
there is room. -/
theorem view_push (word next : BitVec 64) {cpu : Cpu}
    (shown : View.Of ⟨address, registers, pointer, words⟩ cpu)
    (room : 8 * (words.length + 1) ≤ 2 ^ 64) :
    View.Of ⟨next, registers, pointer - 8, word :: words⟩ { cpu.push word with rip := next } := by
  have stacked : Stacked quad cpu.memory (cpu.registers .rsp) words := by
    rw [shown.pointer]
    exact shown.stacked
  have pushed := Cpu.push_stacked word stacked room
  rw [Cpu.push_pointer, shown.pointer] at pushed
  have pointer : (cpu.push word).registers .rsp = pointer - 8 := by
    rw [Cpu.push_pointer, shown.pointer]
  exact ⟨rfl, fun register other =>
    (Cpu.push_registers cpu word other).trans (shown.registers register other), pointer, pushed⟩

/-- Registers that agree apart from the stack pointer do so after the same update. -/
theorem update_agree {first second : Register → BitVec 64}
    (agree : ∀ register ≠ .rsp, first register = second register) (destination : Register)
    (word : BitVec 64) : ∀ register ≠ .rsp,
      Function.update first destination word register =
        Function.update second destination word register := by
  intro register other
  rw [Function.update_apply, Function.update_apply, agree register other]

/-- The view after a register other than the stack pointer is set. -/
theorem view_set {cpu : Cpu} {destination : Register} {word : BitVec 64} (other : destination ≠ .rsp)
    (shown : View.Of ⟨address, registers, pointer, words⟩ cpu) :
    View.Of ⟨next, Function.update registers destination word, pointer, words⟩
      { cpu.set destination word with rip := next } :=
  ⟨rfl, update_agree shown.registers destination word,
    (Function.update_of_ne other.symm ..).trans shown.pointer, shown.stacked⟩

variable (registers pointer words)

/-- Pushing a constant puts it on top of the stack. There must be room, because a stack pointer
that wraps would lose the words below. -/
theorem goes_pushImmediate {word : BitVec 64}
    (here : text address = some (.pushImmediate word, next))
    (room : 8 * (words.length + 1) ≤ 2 ^ 64) :
    Goes text ⟨address, registers, pointer, words⟩
      ⟨next, registers, pointer - 8, word :: words⟩ :=
  goes_of_execute here fun _ shown => view_push _ _ shown room

/-- Pushing a register puts it on top of the stack. The stack pointer itself is left out, since
its pushed value is that of before. -/
theorem goes_push {source : Register} (here : text address = some (.push source, next))
    (other : source ≠ .rsp) (room : 8 * (words.length + 1) ≤ 2 ^ 64) :
    Goes text ⟨address, registers, pointer, words⟩
      ⟨next, registers, pointer - 8, registers source :: words⟩ := by
  apply goes_of_execute here
  intro cpu shown
  have same : cpu.registers source = registers source := shown.registers source other
  rw [← same]
  exact view_push _ _ shown room

/-- Popping takes the top of the stack into a register other than the stack pointer. -/
theorem goes_pop {destination : Register} (word : BitVec 64)
    (here : text address = some (.pop destination, next)) (other : destination ≠ .rsp) :
    Goes text ⟨address, registers, pointer, word :: words⟩
      ⟨next, Function.update registers destination word, pointer + 8, words⟩ := by
  apply goes_of_execute here
  intro cpu shown
  have top : cpu.peek 0 = word := by
    rw [Cpu.peek, shown.pointer]
    exact (BitVec.add_zero pointer).symm ▸ shown.stacked.1
  have pointer : Function.update (Function.update cpu.registers .rsp (cpu.registers .rsp + 8))
      destination (cpu.peek 0) .rsp = pointer + 8 := by
    rw [Function.update_of_ne other.symm, Function.update_self, shown.pointer]
  have moved : ∀ register ≠ .rsp,
      Function.update cpu.registers .rsp (cpu.registers .rsp + 8) register = registers register :=
    fun register different =>
      (Function.update_of_ne different ..).trans (shown.registers register different)
  have others := update_agree moved destination word
  rw [← top] at others
  exact ⟨rfl, top ▸ others, pointer, shown.stacked.2⟩

/-- A word is read at its distance from the stack pointer. -/
theorem goes_load {destination : Register} {index : Nat} {word : BitVec 64}
    (here : text address = some (.load (BitVec.ofNat 64 (8 * index)) .rsp destination, next))
    (other : destination ≠ .rsp) (found : words[index]? = some word) :
    Goes text ⟨address, registers, pointer, words⟩
      ⟨next, Function.update registers destination word, pointer, words⟩ := by
  apply goes_of_execute here
  intro cpu shown
  have top : cpu.registers .rsp = pointer := shown.pointer
  have read : loadWord quad cpu.memory (cpu.registers .rsp + BitVec.ofNat 64 (8 * index)) = word := by
    rw [top]
    exact loadWord_of_stacked quad shown.stacked found
  rw [execute, read]
  exact view_set other shown

/-- The stack pointer is passed on in a register. -/
theorem goes_move {destination : Register}
    (here : text address = some (.move .rsp destination, next)) (other : destination ≠ .rsp) :
    Goes text ⟨address, registers, pointer, words⟩
      ⟨next, Function.update registers destination pointer, pointer, words⟩ := by
  apply goes_of_execute here
  intro cpu shown
  have top : cpu.registers .rsp = pointer := shown.pointer
  rw [execute, top]
  exact view_set other shown

/-- A jump changes the address alone. -/
theorem goes_jump {place : BitVec 64} (here : text address = some (.jump place, next)) :
    Goes text ⟨address, registers, pointer, words⟩ ⟨place, registers, pointer, words⟩ :=
  goes_of_execute here fun _ shown => ⟨rfl, shown.registers, shown.pointer, shown.stacked⟩

/-- A call leaves the address that follows it on top of the stack. -/
theorem goes_call {place : BitVec 64} (here : text address = some (.call place, next))
    (room : 8 * (words.length + 1) ≤ 2 ^ 64) :
    Goes text ⟨address, registers, pointer, words⟩
      ⟨place, registers, pointer - 8, next :: words⟩ :=
  goes_of_execute here fun _ shown => view_push _ _ shown room

/-- Words are dropped by moving the stack pointer over them. -/
theorem goes_drop (dropped : List (BitVec 64))
    (here : text address = some (.add (BitVec.ofNat 64 (8 * dropped.length)) .rsp, next)) :
    Goes text ⟨address, registers, pointer, dropped ++ words⟩
      ⟨next, registers, pointer + BitVec.ofNat 64 (8 * dropped.length), words⟩ := by
  apply goes_of_execute here
  intro cpu shown
  have moved : Function.update cpu.registers .rsp
      (cpu.registers .rsp + BitVec.ofNat 64 (8 * dropped.length)) .rsp =
        pointer + BitVec.ofNat 64 (8 * dropped.length) := by
    rw [Function.update_self, shown.pointer]
  exact ⟨rfl, fun register other =>
    (Function.update_of_ne other ..).trans (shown.registers register other), moved,
    ((stacked_append quad).mp shown.stacked).2⟩

/-- A comparison followed by a jump chooses by whether the words are the same. -/
theorem goes_compare {register : Register} {word place stop : BitVec 64} (other : register ≠ .rsp)
    (loaded : Loaded text [.compare word register, .jumpEqual place] address stop) :
    Goes text ⟨address, registers, pointer, words⟩
      ⟨if registers register = word then place else stop, registers, pointer, words⟩ := by
  obtain ⟨next, compares, after, jumps, rfl⟩ := loaded
  intro cpu shown
  have here : text cpu.rip = some (.compare word register, next) := by
    rw [shown.address]
    exact compares
  have compared := reaches_execute here
  have jumped : Reaches text (execute (.compare word register) next cpu)
      (execute (.jumpEqual place) after (execute (.compare word register) next cpu)) :=
    reaches_execute jumps
  refine ⟨_, compared.trans jumped, ?_, shown.registers, shown.pointer, shown.stacked⟩
  have same : cpu.registers register = registers register := shown.registers register other
  have equal : registers register - word = 0 ↔ registers register = word := by grind
  simp only [execute, statusFlags_zero, same, beq_iff_eq, equal]

/-! ## Runs of instructions -/

/-- Instructions loaded one run after the other are loaded as one run. -/
theorem loaded_append {first second : List (Instruction (BitVec 64))} {start stop : BitVec 64} :
    Loaded text (first ++ second) start stop ↔
      ∃ middle, Loaded text first start middle ∧ Loaded text second middle stop := by
  induction first generalizing start with
  | nil =>
    constructor
    · exact fun loaded => ⟨start, rfl, loaded⟩
    · rintro ⟨middle, rfl, loaded⟩
      exact loaded
  | cons instruction rest ih =>
    constructor
    · rintro ⟨next, here, loaded⟩
      obtain ⟨middle, early, late⟩ := ih.mp loaded
      exact ⟨middle, ⟨next, here, early⟩, late⟩
    · rintro ⟨middle, ⟨next, here, early⟩, late⟩
      exact ⟨next, here, ih.mpr ⟨middle, early, late⟩⟩

/-- Instructions of one byte each, at consecutive addresses, follow one another. -/
theorem loaded_of_bytes (instructions : List (Instruction (BitVec 64))) (start : BitVec 64)
    (each : ∀ index (inside : index < instructions.length),
      text (start + BitVec.ofNat 64 index) =
        some (instructions[index], start + BitVec.ofNat 64 index + 1)) :
    Loaded text instructions start (start + BitVec.ofNat 64 instructions.length) := by
  induction instructions generalizing start with
  | nil => exact (BitVec.add_zero start).symm
  | cons instruction rest ih =>
    have here : text start = some (instruction, start + 1) := by
      have first := each 0 (Nat.zero_lt_succ _)
      rwa [BitVec.ofNat_eq_ofNat, BitVec.add_zero] at first
    have next : ∀ index, start + 1 + BitVec.ofNat 64 index = start + BitVec.ofNat 64 (index + 1) := by
      intro index
      rw [BitVec.ofNat_add]
      grind
    refine ⟨start + 1, here, ?_⟩
    rw [List.length_cons, ← next]
    refine ih (start + 1) fun index inside => ?_
    rw [next]
    exact each (index + 1) (Nat.succ_lt_succ inside)

/-- A run of pushes leaves the registers on the stack, the last one on top. -/
theorem goes_pushes (sources : List Register) {start stop : BitVec 64}
    (loaded : Loaded text (sources.map .push) start stop) (others : .rsp ∉ sources)
    (room : 8 * (words.length + sources.length) ≤ 2 ^ 64) :
    Goes text ⟨start, registers, pointer, words⟩
      ⟨stop, registers, pointer - BitVec.ofNat 64 (8 * sources.length),
        (sources.map registers).reverse ++ words⟩ := by
  induction sources generalizing start pointer words with
  | nil =>
    obtain rfl := loaded
    have same : pointer - BitVec.ofNat 64 (8 * 0) = pointer := BitVec.sub_zero pointer
    rw [List.length_nil, same]
    exact goes_refl _
  | cons source rest ih =>
    obtain ⟨next, here, further⟩ := loaded
    rw [List.length_cons] at room
    have other : source ≠ .rsp := fun same => others (same ▸ List.mem_cons_self)
    have apart : .rsp ∉ rest := fun member => others (List.mem_cons_of_mem source member)
    have pushed := goes_push registers pointer words here other (by omega)
    have pushes := ih (pointer - 8) (registers source :: words) further apart
      (by rw [List.length_cons]; omega)
    have place : pointer - 8 - BitVec.ofNat 64 (8 * rest.length) =
        pointer - BitVec.ofNat 64 (8 * (source :: rest).length) := by
      rw [List.length_cons, Nat.mul_succ, BitVec.ofNat_add]
      grind
    rw [place] at pushes
    rw [List.map_cons, List.reverse_cons, List.append_assoc]
    exact pushed.trans pushes

/-- Restoring one register and then others restores all of them. -/
theorem restored_cons (saved registers : Register → BitVec 64) (destination : Register)
    (rest : List Register) (register : Register) :
    (if register ∈ rest then saved register
      else Function.update registers destination (saved destination) register) =
        if register ∈ destination :: rest then saved register else registers register := by
  by_cases later : register ∈ rest
  · have member : register ∈ destination :: rest := List.mem_cons_of_mem destination later
    rw [if_pos later, if_pos member]
  · by_cases same : register = destination
    · subst same
      rw [if_neg later, if_pos List.mem_cons_self, Function.update_self]
    · have absent : register ∉ destination :: rest := by simp [same, later]
      rw [if_neg later, if_neg absent, Function.update_of_ne same]

/-- A run of pops takes back the words that were saved for its registers. -/
theorem goes_pops (saved : Register → BitVec 64) (destinations : List Register)
    {start stop : BitVec 64} (loaded : Loaded text (destinations.map .pop) start stop)
    (others : .rsp ∉ destinations) :
    Goes text ⟨start, registers, pointer, destinations.map saved ++ words⟩
      ⟨stop, fun register => if register ∈ destinations then saved register else registers register,
        pointer + BitVec.ofNat 64 (8 * destinations.length), words⟩ := by
  induction destinations generalizing start pointer registers with
  | nil =>
    obtain rfl := loaded
    have same : pointer + BitVec.ofNat 64 (8 * 0) = pointer := BitVec.add_zero pointer
    rw [List.length_nil, same]
    exact (goes_refl _).agree fun register _ => (if_neg List.not_mem_nil).symm
  | cons destination rest ih =>
    obtain ⟨next, here, further⟩ := loaded
    have other : destination ≠ .rsp := fun same => others (same ▸ List.mem_cons_self)
    have apart : .rsp ∉ rest := fun member => others (List.mem_cons_of_mem destination member)
    have popped := goes_pop registers pointer (rest.map saved ++ words) (saved destination) here other
    have pops := ih (Function.update registers destination (saved destination)) (pointer + 8)
      further apart
    have place : pointer + 8 + BitVec.ofNat 64 (8 * rest.length) =
        pointer + BitVec.ofNat 64 (8 * (destination :: rest).length) := by
      rw [List.length_cons, Nat.mul_succ, BitVec.ofNat_add]
      grind
    rw [place] at pops
    exact (popped.trans pops).agree fun register _ =>
      restored_cons saved registers destination rest register

/-- The comparisons of a chain, each with the jump taken when it holds. -/
def chain {Place : Type} (register : Register) (cases : List (BitVec 64 × Place)) :
    List (Instruction Place) :=
  cases.flatMap fun (word, place) => [.compare word register, .jumpEqual place]

/-- A chain of resolved comparisons is the chain of the resolved places. -/
theorem chain_resolve {First Second : Type} (address : First → Second) (register : Register)
    (cases : List (BitVec 64 × First)) :
    (chain register cases).map (.resolve address) =
      chain register (cases.map fun (word, place) => (word, address place)) := by
  induction cases with
  | nil => rfl
  | cons row rest ih =>
    simp only [chain, List.flatMap_cons, List.map_append, List.map_cons] at ih ⊢
    rw [ih]
    rfl

/-- A chain of comparisons jumps to the place of the first word that is in the register. -/
theorem goes_chain {register : Register} {place stop : BitVec 64} (other : register ≠ .rsp)
    (before after : List (BitVec 64 × BitVec 64))
    (loaded : Loaded text (chain register (before ++ (registers register, place) :: after))
      address stop)
    (different : ∀ row ∈ before, registers register ≠ row.1) :
    Goes text ⟨address, registers, pointer, words⟩ ⟨place, registers, pointer, words⟩ := by
  induction before generalizing address with
  | nil =>
    obtain ⟨middle, first, _⟩ := loaded_append.mp loaded
    have chosen := goes_compare registers pointer words other first
    rwa [if_pos rfl] at chosen
  | cons row rest ih =>
    obtain ⟨middle, first, later⟩ := loaded_append.mp loaded
    have passed := goes_compare registers pointer words other first
    rw [if_neg (different row List.mem_cons_self)] at passed
    exact passed.trans (ih later fun row member => different row (List.mem_cons_of_mem _ member))

/-! ## Exceptions -/

/-- An aligned address is a multiple of sixteen. -/
theorem align_toNat (address : BitVec 64) : (address &&& ~~~15).toNat % 16 = 0 := by
  have low : (address &&& ~~~15) &&& 15 = 0 := by
    rw [BitVec.and_assoc, BitVec.and_comm (~~~15)]
    simp
  have parts : (address &&& ~~~15).toNat &&& 15 = 0 := congrArg BitVec.toNat low
  rwa [Nat.and_two_pow_sub_one_eq_mod _ 4] at parts

/-- The words that the delivery of an exception leaves on the stack, the last one on top. -/
def frameWords (vector : Nat) (code : BitVec 64) (cpu : Cpu) : List (BitVec 64) :=
  (if vector ∈ codedVectors then [code] else []) ++
    [cpu.rip, cpu.cs.setWidth 64, cpu.rflags, cpu.registers .rsp, cpu.ss.setWidth 64]

/-- The stack pointer at the start of a handler: below the frame on the aligned stack. -/
def framePointer (vector : Nat) (cpu : Cpu) : BitVec 64 :=
  (cpu.registers .rsp &&& ~~~15) - if vector ∈ codedVectors then 48 else 40

/-- Aligning the stack of an exception leaves the words that are there. -/
theorem view_aligned (cpu : Cpu)
    (stacked : Stacked quad cpu.memory (cpu.registers .rsp &&& ~~~15) words) :
    View.Of ⟨cpu.rip, cpu.registers, cpu.registers .rsp &&& ~~~15, words⟩
      (cpu.set .rsp (cpu.registers .rsp &&& ~~~15)) := by
  have pointer : (cpu.set .rsp (cpu.registers .rsp &&& ~~~15)).registers .rsp =
      cpu.registers .rsp &&& ~~~15 := by simp [Cpu.set]
  exact ⟨rfl, fun _ other => Function.update_of_ne other .., pointer, stacked⟩

/-- The frame of an exception as it is pushed. -/
theorem view_pushFrame (cpu : Cpu)
    (stacked : Stacked quad cpu.memory (cpu.registers .rsp &&& ~~~15) words)
    (room : 8 * (words.length + 5) ≤ 2 ^ 64) :
    View.Of ⟨cpu.rip, cpu.registers, (cpu.registers .rsp &&& ~~~15) - 40,
      cpu.rip :: cpu.cs.setWidth 64 :: cpu.rflags :: cpu.registers .rsp :: cpu.ss.setWidth 64 ::
        words⟩ (pushFrame cpu) := by
  have first := view_push (cpu.ss.setWidth 64) cpu.rip (view_aligned words cpu stacked) (by omega)
  have second := view_push (cpu.registers .rsp) cpu.rip first (by rw [List.length_cons]; omega)
  have third := view_push cpu.rflags cpu.rip second (by simp only [List.length_cons]; omega)
  have fourth := view_push (cpu.cs.setWidth 64) cpu.rip third (by simp only [List.length_cons]; omega)
  have fifth := view_push cpu.rip cpu.rip fourth (by simp only [List.length_cons]; omega)
  have place : (cpu.registers .rsp &&& ~~~15) - 8 - 8 - 8 - 8 - 8 =
      (cpu.registers .rsp &&& ~~~15) - 40 := by grind
  rw [place] at fifth
  exact fifth

/-- A delivered exception starts the handler over its frame, with every other register and the
words above the frame as they were. -/
theorem view_deliver_above {vector : Nat} {code : BitVec 64} {cpu entered : Cpu} {gate : Gate}
    (fetched : fetchGate cpu vector = some gate) (delivered : deliver vector code cpu = some entered)
    (stacked : Stacked quad cpu.memory (cpu.registers .rsp &&& ~~~15) words)
    (room : 8 * (words.length + 6) ≤ 2 ^ 64) :
    View.Of ⟨gate.offset, cpu.registers, framePointer vector cpu,
      frameWords vector code cpu ++ words⟩ entered := by
  have framed := view_pushFrame words cpu stacked (by omega)
  rw [deliver, fetched] at delivered
  obtain rfl := Option.some.inj delivered
  by_cases coded : vector ∈ codedVectors
  · have pushed := view_push code gate.offset framed (by simp only [List.length_cons]; omega)
    have place : (cpu.registers .rsp &&& ~~~15) - 40 - 8 = framePointer vector cpu := by
      rw [framePointer, if_pos coded]
      grind
    rw [place] at pushed
    simp only [frameWords, if_pos coded]
    exact ⟨rfl, pushed.registers, pushed.pointer, pushed.stacked⟩
  · simp only [framePointer, frameWords, if_neg coded]
    exact ⟨rfl, framed.registers, framed.pointer, framed.stacked⟩

/-- A delivered exception starts the handler over its frame, with every other register as it was. -/
theorem view_deliver {vector : Nat} {code : BitVec 64} {cpu entered : Cpu} {gate : Gate}
    (fetched : fetchGate cpu vector = some gate) (delivered : deliver vector code cpu = some entered) :
    View.Of ⟨gate.offset, cpu.registers, framePointer vector cpu, frameWords vector code cpu⟩
      entered := by
  have above := view_deliver_above [] fetched delivered trivial (by simp)
  rwa [List.append_nil] at above

/-- An interrupt return takes everything from the words of its frame. -/
theorem execute_interruptReturn {cpu : Cpu} {rip cs rflags rsp ss : BitVec 64}
    (shown : View.Of ⟨address, registers, pointer, rip :: cs :: rflags :: rsp :: ss :: words⟩ cpu) :
    execute .interruptReturn next cpu =
      { cpu with
        registers := Function.update registers .rsp rsp
        rip := rip
        cs := cs.setWidth 16
        rflags := rflags
        ss := ss.setWidth 16 } := by
  have top : cpu.registers .rsp = pointer := shown.pointer
  have stored : ∀ index word,
      (rip :: cs :: rflags :: rsp :: ss :: words)[index]? = some word →
        cpu.peek (BitVec.ofNat 64 (8 * index)) = word := by
    intro index word found
    rw [Cpu.peek, top]
    exact loadWord_of_stacked quad shown.stacked found
  have ripAt : cpu.peek 0 = rip := stored 0 rip rfl
  have csAt : cpu.peek 8 = cs := stored 1 cs rfl
  have rflagsAt : cpu.peek 16 = rflags := stored 2 rflags rfl
  have rspAt : cpu.peek 24 = rsp := stored 3 rsp rfl
  have ssAt : cpu.peek 32 = ss := stored 4 ss rfl
  have registers : Function.update cpu.registers .rsp rsp = Function.update registers .rsp rsp := by
    funext register
    by_cases same : register = .rsp
    · subst same
      rw [Function.update_self, Function.update_self]
    · rw [Function.update_of_ne same, Function.update_of_ne same, shown.registers register same]
  simp only [execute, Cpu.set]
  rw [ripAt, csAt, rflagsAt, rspAt, ssAt, registers]

end LongMode
