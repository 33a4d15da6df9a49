import ExistentOS.Eosfs

/-!
# Listings in the caller's array

`eosfs_list_path` stores its entries in an array of its caller. The array holds other
contents before, so that a listing is laid over its first slots and leaves the further
ones alone. What is laid there is the listing of `eosfsListPath`, which is then determined
by the answers of the firmware: it consists of the entries that its answers yield, up to
the first one that yields none, or else of the entry table.
-/

namespace ExistentOS.Eosfs

open Programs Terminated Codecs

variable {σ : Type}

/-! ## The array -/

/-- One round of the loop over the directory: the buffer, the index and the array. -/
def storeEntryRound (fw : Firmware σ) (root : Handle) (maxEntries : Nat)
    (current : List UInt8 × Nat × List EosfsEntry) :
    Routine σ ((List UInt8 × Nat × List EosfsEntry) ⊕ Nat × List EosfsEntry) := do
  if current.2.1 < maxEntries then
    let answer ← readFile fw root recordBufferSize
    if efiError answer.status ∨ answer.size = 0 then return .inr current.2
    let buffer := answer.bytes ++ current.1.drop answer.bytes.length
    let first ← orStop .unset (unitAt buffer 0)
    if first = 0 then return .inr current.2
    let name ← orStop .unset (nameFrom buffer eosfsNameMax 0)
    let entry ← orOverrun current.2.2[current.2.1]?
    let copied ← orOverrun (copy entry.name (name ++ [0]))
    let flags ← orStop .unset (attributeWord buffer)
    return .inl (buffer, current.2.1 + 1,
      current.2.2.set current.2.1 ⟨copied, entryType flags⟩)
  else return .inr current.2

/-- `eosfs_read_disk_entries`: the count and the array, unless it returns 0. The array may have
been written to even then. -/
def storeDiskEntries (fw : Firmware σ) (entries : List EosfsEntry) (maxEntries : Nat) :
    Routine σ (Option (Nat × List EosfsEntry)) := do
  let machine ← get
  match machine.gBS with
  | none => return none
  | some services =>
    if maxEntries = 0 then return none
    if services.locateProtocol then
      let located ← locateProtocol fw
      if efiError located.1 ∨ located.2 = 0 then return none
      let volume ← openVolume fw located.2
      if efiError volume.1 ∨ volume.2 = 0 then return none
      let stored ← iterate .outOfFuel (storeEntryRound fw volume.2 maxEntries) (maxEntries + 1)
        ([], 0, entries)
      let _ ← closeFile fw volume.2
      return if stored.1 = 0 then none else some stored
    else throw .null

/-- `entries[i] = g_entries[i]` for the entries of the table, from an index on. -/
def storeTable (index : Nat) : List EosfsEntry → List EosfsEntry → Option (List EosfsEntry)
  | [], entries => some entries
  | entry :: table, entries =>
    if index < entries.length then storeTable (index + 1) table (entries.set index entry) else none

/-- `eosfs_list_path`: the count and the array, unless it returns 0. -/
def storeListing (fw : Firmware σ) (entries : List EosfsEntry) (maxEntries : Nat) :
    Routine σ (Option (Nat × List EosfsEntry)) := do
  if maxEntries = 0 then return none
  match ← storeDiskEntries fw entries maxEntries with
  | some stored => return some stored
  | none =>
    let machine ← get
    let table := (machine.eosfs.entries.toList.take machine.eosfs.entryCount).take maxEntries
    return some (table.length, ← orOverrun (storeTable 0 table entries))

/-- An entry of the table or of the array as an entry of a listing. -/
def listedEntry (entry : EosfsEntry) : ListedEntry := (entry.name.toList, entry.type)

/-- The name and the type that an entry of a listing shows. -/
def shown (listed : ListedEntry) : Option (Text × EosfsEntryType) :=
  (scan listed.1).map fun name => (name, listed.2)

/-- An entry of a listing in a slot of the array. Only the units of its name are written. -/
def lay (listed : ListedEntry) (slot : EosfsEntry) : EosfsEntry where
  name := Vector.ofFn fun unit => listed.1.getD unit slot.name[unit]
  type := listed.2

/-- A listing laid over the first slots of the array. The slots behind it keep what they had. -/
def overlay : List ListedEntry → List EosfsEntry → List EosfsEntry
  | listed :: rest, slot :: slots => lay listed slot :: overlay rest slots
  | _, slots => slots

@[simp] theorem overlay_nil (slots : List EosfsEntry) : overlay [] slots = slots := rfl

/-- Storing a listing does not change the number of slots. -/
@[simp] theorem overlay_length (listed : List ListedEntry) (slots : List EosfsEntry) :
    (overlay listed slots).length = slots.length := by
  induction listed generalizing slots with
  | nil => rfl
  | cons first rest ih =>
    cases slots with
    | nil => rfl
    | cons slot slots => rw [overlay, List.length_cons, List.length_cons, ih]

/-- Further slots are left as they were, which the caller may rely on. -/
theorem overlay_drop (listed : List ListedEntry) (slots : List EosfsEntry) :
    (overlay listed slots).drop listed.length = slots.drop listed.length := by
  induction listed generalizing slots with
  | nil => rfl
  | cons first rest ih =>
    cases slots with
    | nil => rfl
    | cons slot slots => exact ih slots

/-- One more entry goes into the next slot. -/
theorem overlay_append (listed : List ListedEntry) (next : ListedEntry) {slots : List EosfsEntry}
    {slot : EosfsEntry} (there : slots[listed.length]? = some slot) :
    overlay (listed ++ [next]) slots =
      (overlay listed slots).set listed.length (lay next slot) := by
  induction listed generalizing slots with
  | nil =>
    cases slots with
    | nil => cases there
    | cons first slots =>
      cases there
      rfl
  | cons first rest ih =>
    cases slots with
    | nil => cases there
    | cons _ slots =>
      have deeper : slots[rest.length]? = some slot := there
      exact congrArg (lay first _ :: ·) (ih deeper)

/-- The slot behind a listing still has its contents. -/
theorem overlay_next (listed : List ListedEntry) (slots : List EosfsEntry) :
    (overlay listed slots)[listed.length]? = slots[listed.length]? := by
  have same := congrArg (·[0]?) (overlay_drop listed slots)
  simpa only [List.getElem?_drop, Nat.add_zero] using same

/-! ## The array holds the listing -/

/-- The name of a record fits the field of an entry. -/
theorem nameFrom_fits {buffer : List UInt8} {room index : Nat} {name : Text}
    (found : nameFrom buffer room index = some name) :
    name.length ≤ room ∧ (0 : CHAR16) ∉ name := by
  induction room generalizing index name with
  | zero =>
    obtain ⟨_, _, same⟩ := Option.bind_eq_some_iff.mp found
    cases same
    exact ⟨Nat.le_refl 0, List.not_mem_nil⟩
  | succ room ih =>
    obtain ⟨unit, _, rest⟩ := Option.bind_eq_some_iff.mp found
    by_cases zero : unit = 0
    · rw [if_pos zero] at rest
      cases rest
      exact ⟨Nat.zero_le _, List.not_mem_nil⟩
    · rw [if_neg zero] at rest
      obtain ⟨tail, foundTail, same⟩ := Option.bind_eq_some_iff.mp rest
      cases same
      obtain ⟨fits, free⟩ := ih foundTail
      exact ⟨Nat.succ_le_succ fits, List.not_mem_cons_of_ne_of_not_mem (Ne.symm zero) free⟩

/-- The units of a slot with an entry laid into it. -/
theorem lay_name {listed : ListedEntry} (fits : listed.1.length ≤ eosfsNameMax + 1)
    (slot : EosfsEntry) :
    (lay listed slot).name.toList = listed.1 ++ slot.name.toList.drop listed.1.length := by
  apply List.ext_getElem?
  intro unit
  by_cases inside : unit < eosfsNameMax + 1
  · have stored : (lay listed slot).name[unit] = listed.1.getD unit slot.name[unit] := by
      simp only [lay, Vector.getElem_ofFn, Fin.getElem_fin]
    rw [Vector.getElem?_toList, Vector.getElem?_eq_getElem inside, stored,
      List.getD_eq_getElem?_getD]
    by_cases written : unit < listed.1.length
    · rw [List.getElem?_append_left written, List.getElem?_eq_getElem written, Option.getD_some]
    · have behind : listed.1.length ≤ unit := Nat.le_of_not_lt written
      rw [List.getElem?_append_right behind, List.getElem?_drop, Nat.add_sub_cancel' behind,
        List.getElem?_eq_none behind, Option.getD_none, Vector.getElem?_toList,
        Vector.getElem?_eq_getElem inside]
  · have outside : (listed.1 ++ slot.name.toList.drop listed.1.length).length ≤ unit := by
      rw [List.length_append, List.length_drop, Vector.length_toList]
      omega
    rw [List.getElem?_eq_none outside, List.getElem?_eq_none]
    rw [Vector.length_toList]
    exact Nat.le_of_not_lt inside

/-- The copy loop writes the units of the name and its terminator into the slot. -/
theorem copy_lay {name : Text} (fits : name.length ≤ eosfsNameMax) (free : (0 : CHAR16) ∉ name)
    (type : EosfsEntryType) (slot : EosfsEntry) :
    ∃ copied, copy slot.name (name ++ [0]) = some copied ∧
      lay (name ++ [0], type) slot = ⟨copied, type⟩ := by
  obtain ⟨copied, ran, exact⟩ := copy_exact slot.name name [] free
  refine ⟨copied, ran, ?_⟩
  rw [List.take_of_length_le fits, Nat.min_eq_left fits] at exact
  have room : (name ++ [0]).length ≤ eosfsNameMax + 1 := by
    rw [List.length_append, List.length_singleton]
    omega
  have same : (lay (name ++ [0], type) slot).name = copied := by
    apply Vector.toList_inj.mp
    rw [lay_name room slot, exact, List.length_append, List.length_singleton, List.append_assoc,
      List.singleton_append]
  rw [← same]
  rfl

/-- A round stores the entry that it lists. -/
theorem storeEntryRound_eq (fw : Firmware σ) (root : Handle) {maxEntries : Nat}
    {entries : List EosfsEntry} (room : maxEntries ≤ entries.length)
    (current : List UInt8 × List ListedEntry) :
    storeEntryRound fw root maxEntries
        (current.1, current.2.length, overlay current.2 entries) =
      Sum.map (fun next => (next.1, next.2.length, overlay next.2 entries))
          (fun listed => (listed.length, overlay listed entries)) <$>
        readEntryRound fw root maxEntries current := by
  unfold storeEntryRound readEntryRound
  by_cases more : current.2.length < maxEntries
  · rw [if_pos more, if_pos more, map_bind]
    refine bind_congr fun answer => ?_
    by_cases ended : efiError answer.status ∨ answer.size = 0
    · rw [if_pos ended, if_pos ended]
      rfl
    rw [if_neg ended, if_neg ended, map_bind]
    refine bind_congr fun first => ?_
    by_cases empty : first = 0
    · rw [if_pos empty, if_pos empty]
      rfl
    rw [if_neg empty, if_neg empty, map_bind]
    cases named : nameFrom (answer.bytes ++ current.1.drop answer.bytes.length) eosfsNameMax 0 with
    | none => rfl
    | some name =>
      obtain ⟨fits, free⟩ := nameFrom_fits named
      have inside : current.2.length < entries.length := Nat.lt_of_lt_of_le more room
      have there : entries[current.2.length]? = some entries[current.2.length] :=
        List.getElem?_eq_getElem inside
      cases flagged : attributeWord (answer.bytes ++ current.1.drop answer.bytes.length) with
      | none =>
        obtain ⟨copied, ran, _⟩ := copy_lay fits free .file entries[current.2.length]
        rw [overlay_next, there]
        simp only [orOverrun, orStop, pure_bind, ran]
        rfl
      | some flags =>
        obtain ⟨copied, ran, laid⟩ := copy_lay fits free (entryType flags) entries[current.2.length]
        rw [overlay_next, there]
        simp only [orOverrun, orStop, pure_bind, ran, map_pure, Sum.map_inl, List.length_append,
          List.length_singleton, overlay_append _ _ there, laid]
  · rw [if_neg more, if_neg more]
    rfl

/-- The directory is stored as it is listed. -/
theorem storeDiskEntries_eq (fw : Firmware σ) {entries : List EosfsEntry} {maxEntries : Nat}
    (room : maxEntries ≤ entries.length) :
    storeDiskEntries fw entries maxEntries =
      Option.map (fun listed => (listed.length, overlay listed entries)) <$>
        eosfsReadDiskEntries fw maxEntries := by
  unfold storeDiskEntries eosfsReadDiskEntries
  rw [map_bind]
  refine bind_congr fun machine => ?_
  cases machine.gBS with
  | none => rfl
  | some services =>
    dsimp only
    by_cases empty : maxEntries = 0
    · rw [if_pos empty, if_pos empty]
      rfl
    rw [if_neg empty, if_neg empty]
    by_cases service : services.locateProtocol = true
    · rw [if_pos service, if_pos service, map_bind]
      refine bind_congr fun located => ?_
      by_cases lost : efiError located.1 ∨ located.2 = 0
      · rw [if_pos lost, if_pos lost]
        rfl
      rw [if_neg lost, if_neg lost, map_bind]
      refine bind_congr fun volume => ?_
      by_cases closed : efiError volume.1 ∨ volume.2 = 0
      · rw [if_pos closed, if_pos closed]
        rfl
      rw [if_neg closed, if_neg closed]
      have loop := iterate_map .outOfFuel _ _ (storeEntryRound_eq fw volume.2 room)
        (maxEntries + 1) ([], [])
      simp only [List.length_nil, overlay_nil] at loop
      rw [loop, bind_map_left, map_bind]
      refine bind_congr fun listed => ?_
      rw [map_bind]
      refine bind_congr fun _ => ?_
      cases listed with
      | nil => rfl
      | cons first rest => rfl
    · rw [if_neg service, if_neg service]
      rfl

/-- The table goes over the slots from an index on. -/
theorem storeTable_exact (written table : List EosfsEntry) {slots : List EosfsEntry}
    (room : table.length ≤ slots.length) :
    storeTable written.length table (written ++ slots) =
      some (written ++ table ++ slots.drop table.length) := by
  induction table generalizing written slots with
  | nil => simp [storeTable]
  | cons entry table ih =>
    cases slots with
    | nil => exact absurd room (Nat.not_succ_le_zero _)
    | cons slot slots =>
      have inside : written.length < (written ++ slot :: slots).length := by simp
      have further := ih (written ++ [entry]) (Nat.le_of_succ_le_succ room)
      rw [List.length_append, List.length_singleton] at further
      rw [storeTable, if_pos inside, set_after_prefix, List.append_cons written entry slots,
        further]
      simp

/-- An entry of the table overwrites a slot altogether. -/
theorem lay_listedEntry (entry slot : EosfsEntry) : lay (listedEntry entry) slot = entry := by
  have width : entry.name.toList.length = eosfsNameMax + 1 := Vector.length_toList
  have same : (lay (listedEntry entry) slot).name = entry.name := by
    apply Vector.toList_inj.mp
    rw [lay_name (Nat.le_of_eq width), listedEntry, List.drop_of_length_le, List.append_nil]
    rw [Vector.length_toList, width]
  calc lay (listedEntry entry) slot = ⟨(lay (listedEntry entry) slot).name, entry.type⟩ := rfl
    _ = entry := by rw [same]

/-- The table laid over the first slots is what the loop of the source copies. -/
theorem overlay_table (table slots : List EosfsEntry) (room : table.length ≤ slots.length) :
    overlay (table.map listedEntry) slots =
      table ++ slots.drop table.length := by
  induction table generalizing slots with
  | nil => rfl
  | cons entry table ih =>
    cases slots with
    | nil => exact absurd room (Nat.not_succ_le_zero _)
    | cons slot slots =>
      rw [List.map_cons, overlay, lay_listedEntry, ih slots (Nat.le_of_succ_le_succ room)]
      rfl

/-- `eosfs_list_path` stores the listing over the first slots of the array. -/
theorem storeListing_eq (fw : Firmware σ) {entries : List EosfsEntry} {maxEntries : Nat}
    (room : maxEntries ≤ entries.length) :
    storeListing fw entries maxEntries =
      Option.map (fun listed => (listed.length, overlay listed entries)) <$>
        eosfsListPath fw maxEntries := by
  unfold storeListing eosfsListPath
  by_cases empty : maxEntries = 0
  · rw [if_pos empty, if_pos empty]
    rfl
  rw [if_neg empty, if_neg empty, storeDiskEntries_eq fw room, map_bind, bind_map_left]
  refine bind_congr fun listed => ?_
  cases listed with
  | some listed => rfl
  | none =>
    rw [Option.map_none, map_bind]
    refine bind_congr fun machine => ?_
    have few : ((machine.eosfs.entries.toList.take machine.eosfs.entryCount).take
        maxEntries).length ≤ entries.length :=
      Nat.le_trans (List.length_take_le _ _) room
    have stored := storeTable_exact [] _ few
    simp only [List.length_nil, List.nil_append] at stored
    have entryOfTable : (fun entry : EosfsEntry => (entry.name.toList, entry.type)) =
        listedEntry := rfl
    dsimp only
    rw [stored, map_pure, Option.map_some, entryOfTable, overlay_table _ _ few, List.length_map]
    rfl

/-! ## Entries from the answers of the firmware -/

/-- The entry that the bytes of a record make, as far as they are known. -/
def recordEntry (bytes : List UInt8) : Option ListedEntry := do
  let name ← nameFrom bytes eosfsNameMax 0
  let flags ← attributeWord bytes
  return (name ++ [0], entryType flags)

/-- The entry that an answer yields. Without one the listing ends. -/
def entryOf (answer : ReadAnswer) : Option ListedEntry :=
  if efiError answer.status ∨ answer.size = 0 then none
  else (recordEntry answer.bytes).filter fun entry => entry.1 ≠ [0]

/-- A record yields its entry, if it has a name. -/
theorem entryOf_record {answer : ReadAnswer}
    (goes : ¬ (efiError answer.status ∨ answer.size = 0)) {name : Text} {type : EosfsEntryType}
    (made : recordEntry answer.bytes = some (name ++ [0], type)) :
    entryOf answer = if name = [] then none else some (name ++ [0], type) := by
  have unnamed : name ++ [0] = [0] ↔ name = [] := List.append_left_eq_self
  rw [entryOf, if_neg goes, made, Option.filter_some]
  by_cases empty : name = []
  · rw [if_pos empty, if_neg (by simpa using unnamed.mpr empty)]
  · rw [if_neg empty, if_pos (by simpa using mt unnamed.mp empty)]

/-- The entries of the answers up to the first that yields none. -/
def entriesOf : List ReadAnswer → List ListedEntry
  | [] => []
  | answer :: rest => (entryOf answer).elim [] fun entry => entry :: entriesOf rest

/-- An answer with an entry is followed by the entries of the rest. -/
theorem entriesOf_cons {answer : ReadAnswer} {entry : ListedEntry} {rest : List ReadAnswer}
    (made : entryOf answer = some entry) :
    entriesOf (answer :: rest) = entry :: entriesOf rest := by
  rw [entriesOf, made, Option.elim_some]

/-- An answer without an entry ends the listing, whatever follows. -/
theorem entriesOf_end {answer : ReadAnswer} {rest : List ReadAnswer}
    (ended : entryOf answer = none) : entriesOf (answer :: rest) = [] := by
  rw [entriesOf, ended, Option.elim_none]

/-- The answer fits the buffer, and a record that it reports can be read. Without the latter the
code would read behind what the firmware has stored. -/
structure Complete (answer : ReadAnswer) : Prop where
  fits : answer.bytes.length ≤ recordBufferSize
  whole : ¬ (efiError answer.status ∨ answer.size = 0) → (recordEntry answer.bytes).isSome

/-- Successive reads of the directory are answered in turn, from a given state of the firmware. -/
def Answers (fw : Firmware σ) (root : Handle) : List ReadAnswer → σ → Prop
  | [], _ => True
  | answer :: rest, state => (fw.read root recordBufferSize state).1 = answer ∧
      Answers fw root rest (fw.read root recordBufferSize state).2

/-- A unit that is there is there in a longer buffer. -/
theorem unitAt_append {bytes : List UInt8} {index : Nat} {unit : CHAR16}
    (found : unitAt bytes index = some unit) (rest : List UInt8) :
    unitAt (bytes ++ rest) index = some unit := by
  obtain ⟨low, lowThere, behind⟩ := Option.bind_eq_some_iff.mp found
  obtain ⟨high, highThere, same⟩ := Option.bind_eq_some_iff.mp behind
  have longer : ∀ {place : Nat} {byte : UInt8}, bytes[place]? = some byte →
      (bytes ++ rest)[place]? = some byte := by
    intro place byte there
    rw [List.getElem?_append_left (List.getElem?_eq_some_iff.mp there).1]
    exact there
  rw [unitAt, longer lowThere, longer highThere]
  exact same

/-- A name that is there is there in a longer buffer. -/
theorem nameFrom_append {bytes : List UInt8} {room index : Nat} {name : Text}
    (found : nameFrom bytes room index = some name) (rest : List UInt8) :
    nameFrom (bytes ++ rest) room index = some name := by
  induction room generalizing index name with
  | zero =>
    obtain ⟨unit, there, same⟩ := Option.bind_eq_some_iff.mp found
    rw [nameFrom, unitAt_append there]
    exact same
  | succ room ih =>
    obtain ⟨unit, there, behind⟩ := Option.bind_eq_some_iff.mp found
    rw [nameFrom, unitAt_append there]
    by_cases zero : unit = 0
    · rw [if_pos zero] at behind
      rw [Option.bind_eq_bind, Option.bind_some, if_pos zero]
      exact behind
    · rw [if_neg zero] at behind
      obtain ⟨tail, foundTail, same⟩ := Option.bind_eq_some_iff.mp behind
      rw [Option.bind_eq_bind, Option.bind_some, if_neg zero, ih foundTail]
      exact same

/-- An attribute word that is there is there in a longer buffer. -/
theorem attributeWord_append {bytes : List UInt8} {flags : UInt32}
    (found : attributeWord bytes = some flags) (rest : List UInt8) :
    attributeWord (bytes ++ rest) = some flags := by
  unfold attributeWord at found ⊢
  by_cases stored : attributeOffset + 4 ≤ bytes.length
  · rw [if_pos stored] at found
    have longer : attributeOffset + 4 ≤ (bytes ++ rest).length := by
      rw [List.length_append]
      omega
    rw [if_pos longer, List.drop_append_of_le_length (by omega), List.take_append_of_le_length]
    · exact found
    · rw [List.length_drop]
      omega
  · rw [if_neg stored] at found
    cases found

/-- A name without room for it to be empty begins with its first unit. -/
theorem nameFrom_first {bytes : List UInt8} {room : Nat} {name : Text}
    (found : nameFrom bytes (room + 1) 0 = some name) :
    ∃ first, unitAt bytes 0 = some first ∧ (first = 0 ↔ name = []) := by
  obtain ⟨unit, there, behind⟩ := Option.bind_eq_some_iff.mp found
  refine ⟨unit, there, ?_⟩
  by_cases zero : unit = 0
  · rw [if_pos zero] at behind
    cases behind
    exact iff_of_true zero rfl
  · rw [if_neg zero] at behind
    obtain ⟨tail, _, same⟩ := Option.bind_eq_some_iff.mp behind
    cases same
    exact iff_of_false zero (List.cons_ne_nil _ _)

/-- A round of the loop adds the entry of the answer, if it yields one. -/
theorem wp_readEntryRound_answer (fw : Firmware σ) {root : Handle} {maxEntries : Nat}
    {current : List UInt8 × List ListedEntry} (more : current.2.length < maxEntries)
    (machine : Machine σ)
    (complete : Complete (fw.read root recordBufferSize machine.firmware).1) :
    wp (readEntryRound fw root maxEntries current)
      (fun outcome after => OnlyFirmware machine after ∧
        after.firmware = (fw.read root recordBufferSize machine.firmware).2 ∧
        outcome.elim
          (fun next => ∃ entry,
            entryOf (fw.read root recordBufferSize machine.firmware).1 = some entry ∧
              next.2 = current.2 ++ [entry])
          (fun listed => entryOf (fw.read root recordBufferSize machine.firmware).1 = none ∧
            listed = current.2))
      (fun _ => False) machine := by
  have frame := called_onlyFirmware machine (fw.read root recordBufferSize machine.firmware).2
    (.read root .buffer recordBufferSize (fw.read root recordBufferSize machine.firmware).1)
  rw [readEntryRound, if_pos more, wp_bind, readFile, wp_bind, wp_call]
  generalize fw.read root recordBufferSize machine.firmware = answered at *
  rw [if_pos complete.fits, wp_pure]
  by_cases ended : efiError answered.1.status ∨ answered.1.size = 0
  · rw [if_pos ended]
    exact ⟨frame, rfl, if_pos ended, rfl⟩
  obtain ⟨entry, made⟩ := Option.isSome_iff_exists.mp (complete.whole ended)
  obtain ⟨name, named, behind⟩ := Option.bind_eq_some_iff.mp made
  obtain ⟨flags, flagged, same⟩ := Option.bind_eq_some_iff.mp behind
  obtain ⟨first, there, empty⟩ := nameFrom_first named
  cases same
  have yields := entryOf_record ended made
  rw [if_neg ended]
  dsimp only
  rw [unitAt_append there, nameFrom_append named, attributeWord_append flagged]
  by_cases zero : first = 0
  · rw [if_pos (empty.mp zero)] at yields
    rw [wp_bind]
    simp only [orStop, wp_pure, if_pos zero]
    exact ⟨frame, rfl, yields, rfl⟩
  · rw [if_neg (mt empty.mpr zero)] at yields
    rw [wp_bind]
    simp only [orStop, wp_pure, if_neg zero, wp_bind]
    exact ⟨frame, rfl, _, yields, rfl⟩

variable (fw : Firmware σ) in
/-- The loop lists the entries of the answers, up to the limit.

Induct over the rounds. A round that is not the last consumes one answer. -/
theorem wp_readEntries {root : Handle} {maxEntries : Nat} {rounds : Nat}
    {current : List UInt8 × List ListedEntry} {answers : List ReadAnswer} {machine : Machine σ}
    (enough : maxEntries < rounds + current.2.length)
    (within : current.2.length ≤ maxEntries)
    (answered : Answers fw root answers machine.firmware)
    (complete : ∀ answer ∈ answers, Complete answer)
    (decided : maxEntries ≤ current.2.length + answers.length ∨
      ∃ answer ∈ answers, entryOf answer = none) :
    wp (iterate .outOfFuel (readEntryRound fw root maxEntries) rounds current)
      (fun listed after => OnlyFirmware machine after ∧
        listed = current.2 ++ (entriesOf answers).take (maxEntries - current.2.length))
      (fun _ => False) machine := by
  induction rounds generalizing current answers machine with
  | zero => omega
  | succ rounds ih =>
    rw [iterate, wp_bind]
    by_cases more : current.2.length < maxEntries
    · cases answers with
      | nil =>
        rcases decided with few | ⟨_, member, _⟩
        · exact absurd more (Nat.not_lt.mpr few)
        · exact absurd member List.not_mem_nil
      | cons answer rest =>
        obtain ⟨rfl, later⟩ := answered
        refine wp_mono (wp_readEntryRound_answer fw more machine
          (complete _ List.mem_cons_self)) ?_ fun _ stop => stop
        rintro (next | listed) after ⟨frame, moved, outcome⟩
        · obtain ⟨entry, made, added⟩ := outcome
          have longer : next.2.length = current.2.length + 1 := by
            rw [added, List.length_append, List.length_singleton]
          refine wp_mono (ih (by omega) (by omega) (by rwa [moved])
            (fun other member => complete other (List.mem_cons_of_mem _ member)) ?_) ?_
            fun _ stop => stop
          · rcases decided with few | ⟨other, member, ended⟩
            · rw [List.length_cons] at few
              exact Or.inl (by omega)
            · rcases List.mem_cons.mp member with rfl | deeper
              · rw [made] at ended
                cases ended
              · exact Or.inr ⟨other, deeper, ended⟩
          · rintro value final ⟨further, rfl⟩
            have left : maxEntries - current.2.length = maxEntries - next.2.length + 1 := by omega
            refine ⟨frame.then further, ?_⟩
            rw [entriesOf_cons made, left, List.take_succ_cons, added, List.append_assoc,
              List.singleton_append]
        · obtain ⟨ended, rfl⟩ := outcome
          rw [wp_pure, entriesOf_end ended]
          exact ⟨frame, by simp⟩
    · rw [readEntryRound, if_neg more]
      have full : maxEntries - current.2.length = 0 := by omega
      rw [full, List.take_zero, List.append_nil]
      exact ⟨Std.Refl.refl machine, rfl⟩

/-! ## The listing -/

/-- The root directory of the volume and the firmware behind its mounting, if it can be mounted. -/
def mounted (fw : Firmware σ) (machine : Machine σ) : Option (Handle × σ) :=
  machine.gBS.bind fun _ =>
    let located := fw.locateProtocol machine.firmware
    let volume := fw.openVolume located.1.2 located.2
    if efiError located.1.1 ∨ located.1.2 = 0 then none
    else if efiError volume.1.1 ∨ volume.1.2 = 0 then none
    else some (volume.1.2, volume.2)

/-- What the entry table lists, up to a limit. -/
def tableEntries (eosfs : EosfsStorage) (maxEntries : Nat) : List EosfsEntry :=
  (eosfs.entries.toList.take eosfs.entryCount).take maxEntries

/-- The boot services have a function where the source calls one. The source tests the table and
not the function. -/
def Callable (machine : Machine σ) : Prop :=
  ∀ services ∈ machine.gBS, services.locateProtocol = true

/-- What a volume lists: the entries of its answers, up to the limit. -/
def volumeEntries (fw : Firmware σ) (machine : Machine σ) (answers : List ReadAnswer)
    (maxEntries : Nat) : List ListedEntry :=
  (mounted fw machine).elim [] fun _ => (entriesOf answers).take maxEntries

/-- The directory is listed as far as its answers yield entries. -/
theorem wp_eosfsReadDiskEntries (fw : Firmware σ) {machine : Machine σ}
    (callable : Callable machine) {maxEntries : Nat} (limit : 1 ≤ maxEntries)
    {answers : List ReadAnswer}
    (answered : ∀ root state, mounted fw machine = some (root, state) →
      Answers fw root answers state)
    (complete : ∀ answer ∈ answers, Complete answer)
    (decided : maxEntries ≤ answers.length ∨ ∃ answer ∈ answers, entryOf answer = none) :
    wp (eosfsReadDiskEntries fw maxEntries)
      (fun listed after => OnlyFirmware machine after ∧
        listed = if (volumeEntries fw machine answers maxEntries).isEmpty then none
          else some (volumeEntries fw machine answers maxEntries))
      (fun _ => False) machine := by
  have nothing : mounted fw machine = none →
      (if (volumeEntries fw machine answers maxEntries).isEmpty then none
        else some (volumeEntries fw machine answers maxEntries)) = none := by
    intro unmounted
    rw [volumeEntries, unmounted]
    rfl
  rw [eosfsReadDiskEntries, wp_bind, wp_get]
  cases table : machine.gBS with
  | none =>
    refine ⟨Std.Refl.refl machine, (nothing ?_).symm⟩
    rw [mounted, table]
    rfl
  | some services =>
    have service := callable services table
    have mounting : mounted fw machine =
        if efiError (fw.locateProtocol machine.firmware).1.1 ∨
          (fw.locateProtocol machine.firmware).1.2 = 0 then none
        else if efiError (fw.openVolume (fw.locateProtocol machine.firmware).1.2
            (fw.locateProtocol machine.firmware).2).1.1 ∨
          (fw.openVolume (fw.locateProtocol machine.firmware).1.2
            (fw.locateProtocol machine.firmware).2).1.2 = 0 then none
        else some ((fw.openVolume (fw.locateProtocol machine.firmware).1.2
            (fw.locateProtocol machine.firmware).2).1.2,
          (fw.openVolume (fw.locateProtocol machine.firmware).1.2
            (fw.locateProtocol machine.firmware).2).2) := by
      rw [mounted, table]
      rfl
    dsimp only
    rw [if_neg (Nat.ne_of_gt limit), if_pos service, wp_bind, locateProtocol, wp_call]
    generalize fw.locateProtocol machine.firmware = located at *
    have reached := called_onlyFirmware machine located.2 (.locateProtocol located.1)
    by_cases lost : efiError located.1.1 ∨ located.1.2 = 0
    · rw [if_pos lost] at mounting ⊢
      exact ⟨reached, (nothing mounting).symm⟩
    rw [if_neg lost] at mounting ⊢
    rw [wp_bind, openVolume, wp_call, called_firmware]
    generalize fw.openVolume located.1.2 located.2 = volume at *
    have opened := reached.then (called_onlyFirmware _ volume.2 (.openVolume located.1.2 volume.1))
    by_cases closed : efiError volume.1.1 ∨ volume.1.2 = 0
    · rw [if_pos closed] at mounting ⊢
      exact ⟨opened, (nothing mounting).symm⟩
    rw [if_neg closed] at mounting ⊢
    have found : volumeEntries fw machine answers maxEntries =
        (entriesOf answers).take maxEntries := by
      rw [volumeEntries, mounting, Option.elim_some]
    rw [wp_bind, found]
    refine wp_mono (wp_readEntries fw (by simp) (Nat.zero_le _) (answered _ _ mounting) complete
      (by simpa using decided)) ?_ fun _ stop => stop
    rintro listed after ⟨frame, rfl⟩
    rw [wp_bind, closeFile, wp_call, wp_pure, List.nil_append, List.length_nil, Nat.sub_zero]
    exact ⟨(opened.then frame).then (called_onlyFirmware _ _ _), rfl⟩

/-- `eosfs_list_path` lists the entries of the volume, or those of the entry table if there are
none. -/
theorem wp_eosfsListPath (fw : Firmware σ) {machine : Machine σ} (callable : Callable machine)
    {maxEntries : Nat} (limit : 1 ≤ maxEntries) {answers : List ReadAnswer}
    (answered : ∀ root state, mounted fw machine = some (root, state) →
      Answers fw root answers state)
    (complete : ∀ answer ∈ answers, Complete answer)
    (decided : maxEntries ≤ answers.length ∨ ∃ answer ∈ answers, entryOf answer = none) :
    wp (eosfsListPath fw maxEntries)
      (fun listed after => OnlyFirmware machine after ∧
        listed = some (if (volumeEntries fw machine answers maxEntries).isEmpty then
            (tableEntries machine.eosfs maxEntries).map listedEntry
          else volumeEntries fw machine answers maxEntries))
      (fun _ => False) machine := by
  rw [eosfsListPath, if_neg (Nat.ne_of_gt limit), wp_bind]
  refine wp_mono (wp_eosfsReadDiskEntries fw callable limit answered complete decided) ?_
    fun _ stop => stop
  rintro _ after ⟨frame, rfl⟩
  by_cases empty : (volumeEntries fw machine answers maxEntries).isEmpty = true
  · rw [if_pos empty, if_pos empty]
    obtain ⟨_, _, rfl⟩ := frame
    exact ⟨⟨_, _, rfl⟩, rfl⟩
  · rw [if_neg empty, if_neg empty]
    exact ⟨frame, rfl⟩

/-- What is listed of a volume that is mounted and whose answers end the listing. -/
theorem run_eosfsListPath {fw : Firmware σ} {machine : Machine σ} (callable : Callable machine)
    {maxEntries : Nat} (limit : 1 ≤ maxEntries) {root : Handle} {state : σ}
    (mounts : mounted fw machine = some (root, state)) {answers : List ReadAnswer}
    (answered : Answers fw root answers state) (complete : ∀ answer ∈ answers, Complete answer)
    (ended : ∃ answer ∈ answers, entryOf answer = none) :
    ∃ after, (eosfsListPath fw maxEntries).run machine =
      .ok (some (if ((entriesOf answers).take maxEntries).isEmpty then
          (tableEntries machine.eosfs maxEntries).map listedEntry
        else (entriesOf answers).take maxEntries), after) := by
  have reads : ∀ root' state', mounted fw machine = some (root', state') →
      Answers fw root' answers state' := by
    intro root' state' found
    rw [mounts] at found
    cases found
    exact answered
  obtain ⟨_, after, ran, _, rfl⟩ := (wp_total_iff _ _ _).mp
    (wp_eosfsListPath fw callable limit reads complete (Or.inr ended))
  refine ⟨after, ?_⟩
  rw [ran, volumeEntries, mounts, Option.elim_some]

/-! ## The entry table -/

/-- The entries that `eosfs_init` adds, in its order. -/
def initialRows : List (Memory × EosfsEntryType) :=
  [(constant "boot", .dir), (constant "drivers", .dir), (constant "kernel", .dir),
    (constant "mnt", .dir), (constant "existentos.txt", .file)]

/-- What the entry table of `eosfs_init` shows. -/
def initialListing : List (Text × EosfsEntryType) :=
  [(text "boot", .dir), (text "drivers", .dir), (text "kernel", .dir), (text "mnt", .dir),
    (text "existentos.txt", .file)]

/-- What the entries of a table show, each by its string. -/
def tableShown (storage : EosfsStorage) : List (Option (Text × EosfsEntryType)) :=
  (storage.entries.toList.take storage.entryCount).map (shown ∘ listedEntry)

/-- What an added entry shows: its name is cut to what an entry has room for. -/
def rowShown (row : Memory × EosfsEntryType) : Option (Text × EosfsEntryType) :=
  (scan row.1).map fun name => (name.take eosfsNameMax, row.2)

/-- An added entry comes last, with its name cut. -/
theorem eosfsAddEntry_shown {row : Memory × EosfsEntryType} (ends : (0 : CHAR16) ∈ row.1)
    {storage after : EosfsStorage} (room : storage.entryCount < eosfsMaxEntries)
    (added : eosfsAddEntry row.1 row.2 storage = some after) :
    after.entryCount = storage.entryCount + 1 ∧
      tableShown after = tableShown storage ++ [rowShown row] := by
  obtain ⟨units, readable⟩ := Option.ne_none_iff_exists'.mp (scan_ends ends)
  rw [eosfsAddEntry, dif_pos room] at added
  obtain ⟨copied, ran, same⟩ := Option.bind_eq_some_iff.mp added
  cases same
  refine ⟨rfl, ?_⟩
  have last : shown (listedEntry ⟨copied, row.2⟩) = rowShown row := by
    rw [shown, rowShown, listedEntry, scan_copy _ copied row.1 units readable ran, readable]
    rfl
  have inside : storage.entryCount < storage.entries.toList.length := by
    rwa [Vector.length_toList]
  rw [tableShown, tableShown, Vector.toList_set, List.take_add_one,
    List.take_set_of_le (Nat.le_refl _), List.getElem?_set_self inside, List.map_append,
    Option.toList_some, List.map_singleton, Function.comp_apply, last]

/-- Added entries come behind those that are there. -/
theorem addEntries_shown {rows : List (Memory × EosfsEntryType)}
    (ends : ∀ row ∈ rows, (0 : CHAR16) ∈ row.1) {storage after : EosfsStorage}
    (room : storage.entryCount + rows.length ≤ eosfsMaxEntries)
    (added : rows.foldlM (fun storage row => eosfsAddEntry row.1 row.2 storage) storage =
      some after) :
    after.entryCount = storage.entryCount + rows.length ∧
      tableShown after = tableShown storage ++ rows.map rowShown := by
  induction rows generalizing storage with
  | nil =>
    cases added
    exact ⟨rfl, (List.append_nil _).symm⟩
  | cons row rest ih =>
    obtain ⟨middle, first, behind⟩ := Option.bind_eq_some_iff.mp added
    rw [List.length_cons] at room ⊢
    obtain ⟨one, shownOne⟩ := eosfsAddEntry_shown (ends row List.mem_cons_self) (by omega) first
    obtain ⟨others, shownOthers⟩ := ih (fun other member => ends other
      (List.mem_cons_of_mem row member)) (by omega) behind
    refine ⟨by omega, ?_⟩
    rw [shownOthers, shownOne, List.append_assoc, List.singleton_append, List.map_cons]

/-- Entries with a terminated name can always be added, or are left out of a full table. -/
theorem addEntries_succeeds {rows : List (Memory × EosfsEntryType)}
    (ends : ∀ row ∈ rows, (0 : CHAR16) ∈ row.1) (storage : EosfsStorage) :
    ∃ after, rows.foldlM (fun storage row => eosfsAddEntry row.1 row.2 storage) storage =
      some after := by
  induction rows generalizing storage with
  | nil => exact ⟨storage, rfl⟩
  | cons row rest ih =>
    have further := ih fun other member => ends other (List.mem_cons_of_mem row member)
    rw [List.foldlM_cons, eosfsAddEntry]
    by_cases room : storage.entryCount < eosfsMaxEntries
    · obtain ⟨units, readable⟩ :=
        Option.ne_none_iff_exists'.mp (scan_ends (ends row List.mem_cons_self))
      obtain ⟨copied, ran⟩ := copy_succeeds storage.entries[storage.entryCount].name row.1 units
        readable
      rw [dif_pos room, ran]
      exact further _
    · rw [dif_neg room]
      exact further storage

/-- The table is made by adding its rows in turn. The source writes the additions out. -/
theorem initialTable_rows (storage : EosfsStorage) :
    initialTable storage =
      initialRows.foldlM (fun storage row => eosfsAddEntry row.1 row.2 storage)
        { storage with entryCount := 0 } := by
  simp only [initialTable, initialRows, List.foldlM_cons, List.foldlM_nil, bind_pure]

/-- The names of the rows end. -/
theorem initialRows_end : ∀ row ∈ initialRows, (0 : CHAR16) ∈ row.1 := by decide

/-- `eosfs_init` returns, and the entry table is set up behind it. -/
theorem run_eosfsInit (machine : Machine σ) :
    ∃ table, initialTable machine.eosfs = some table ∧
      eosfsInit.run machine = .ok ((), { machine with eosfs := table }) := by
  obtain ⟨table, set⟩ := addEntries_succeeds initialRows_end { machine.eosfs with entryCount := 0 }
  rw [← initialTable_rows] at set
  have entered : (get : Routine σ (Machine σ)).run machine = .ok (machine, machine) := rfl
  refine ⟨table, set, ?_⟩
  rw [eosfsInit, run_bind_of_ok entered, set]
  rfl

/-- `eosfs_init` sets up five entries, whatever the table held before. -/
theorem initialTable_shown {storage table : EosfsStorage}
    (set : initialTable storage = some table) :
    table.entryCount = 5 ∧ tableShown table = initialListing.map some := by
  rw [initialTable_rows] at set
  have room : 0 + initialRows.length ≤ eosfsMaxEntries := by simp [initialRows, eosfsMaxEntries]
  obtain ⟨five, all⟩ := addEntries_shown initialRows_end room set
  refine ⟨by simpa [initialRows] using five, ?_⟩
  rw [all]
  rfl

/-- What the entry table of `eosfs_init` shows, up to a limit. -/
theorem tableEntries_shown {storage table : EosfsStorage} (set : initialTable storage = some table)
    (maxEntries : Nat) :
    ((tableEntries table maxEntries).map listedEntry).map shown =
      (initialListing.take maxEntries).map some := by
  obtain ⟨_, all⟩ := initialTable_shown set
  rw [List.map_take, ← all, tableShown, ← List.map_take, tableEntries, List.map_map]

/-- What is shown of an entry begins with its name. -/
theorem shown_name (entry : ListedEntry) : scan entry.1 = (shown entry).map Prod.fst := by
  rw [shown, Option.map_map]
  exact Option.map_id.symm ▸ rfl

end ExistentOS.Eosfs
