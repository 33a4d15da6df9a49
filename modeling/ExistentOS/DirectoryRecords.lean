import ExistentOS.Listings
import Mathlib.Data.List.TakeWhile

/-!
# Directory records

The records that a read of a directory stores, as `EFI_FILE_INFO` is declared in `efi.h`: a
32-bit attribute right behind the three sizes and the name at byte 28. Records of this
layout are listed as they are, whatever follows them in the buffer. A record that does not
fit the buffer ends the listing, and hides every file behind it.
-/

namespace ExistentOS.Eosfs

open Programs Terminated Codecs

variable {σ : Type}

/-! ## Units in bytes -/

/-- The 16-bit units that bytes hold, two bytes each. -/
def unitsOf : List UInt8 → List CHAR16
  | [] => []
  | [_] => []
  | low :: high :: rest => uint16.decode [low, high] :: unitsOf rest

/-- A unit is there once both of its bytes are. -/
theorem unitsOf_getElem? (bytes : List UInt8) (index : Nat) :
    (unitsOf bytes)[index]? = (do
      let low ← bytes[2 * index]?
      let high ← bytes[2 * index + 1]?
      return uint16.decode [low, high]) := by
  induction bytes using unitsOf.induct generalizing index with
  | case1 => rfl
  | case2 byte =>
    have behind : [byte][2 * index + 1]? = none := List.getElem?_eq_none (by simp)
    rw [behind]
    cases [byte][2 * index]? <;> rfl
  | case3 low high rest ih =>
    cases index with
    | zero => rfl
    | succ index => exact ih index

/-- Two bytes make a unit, and a last byte without a partner makes none. -/
@[simp] theorem unitsOf_length (bytes : List UInt8) :
    (unitsOf bytes).length = bytes.length / 2 := by
  induction bytes using unitsOf.induct with
  | case1 => rfl
  | case2 byte => simp [unitsOf]
  | case3 low high rest ih =>
    rw [unitsOf, List.length_cons, List.length_cons, List.length_cons, ih]
    omega

/-- Bytes in pairs are followed by further units. -/
theorem unitsOf_append (bytes rest : List UInt8) (even : bytes.length % 2 = 0) :
    unitsOf (bytes ++ rest) = unitsOf bytes ++ unitsOf rest := by
  induction bytes using unitsOf.induct with
  | case1 => rfl
  | case2 byte => simp at even
  | case3 low high bytes ih =>
    have shorter : bytes.length % 2 = 0 := by
      rw [List.length_cons, List.length_cons] at even
      omega
    exact congrArg (uint16.decode [low, high] :: ·) (ih shorter)

/-- The units of encoded units are these units, so a name that was stored is read back. -/
theorem unitsOf_encodeAll (units : List CHAR16) : unitsOf (encodeAll uint16 units) = units := by
  induction units with
  | nil => rfl
  | cons unit units ih =>
    have pair : uint16.encode unit = [UInt8.ofNat unit.toNat, UInt8.ofNat (unit.toNat / 256)] := rfl
    have split : encodeAll uint16 (unit :: units) =
        uint16.encode unit ++ encodeAll uint16 units := rfl
    rw [split, pair, List.cons_append, List.singleton_append, unitsOf, ih, ← pair,
      uint16.decode_encode]

/-- The units of the name that a record has, as far as the answer goes. -/
def nameUnits (bytes : List UInt8) : List CHAR16 := unitsOf (bytes.drop fileNameOffset)

/-- The code computes the place of a unit in the record. That is the unit of the name at that
index. -/
theorem unitAt_eq (bytes : List UInt8) (index : Nat) :
    unitAt bytes index = (nameUnits bytes)[index]? := by
  rw [nameUnits, unitsOf_getElem?, List.getElem?_drop, List.getElem?_drop]
  rfl

/-- A name is read up to its terminator, or as far as an entry has room. -/
theorem nameFrom_exact {bytes : List UInt8} {units : List CHAR16} {room index : Nat}
    (stored : (nameUnits bytes).drop index = units)
    (decided : (0 : CHAR16) ∈ units ∨ room < units.length) :
    nameFrom bytes room index = some ((units.take room).takeWhile (· ≠ 0)) := by
  induction room generalizing index units with
  | zero =>
    cases units with
    | nil => simp at decided
    | cons unit rest =>
      have there : unitAt bytes index = some unit := by
        rw [unitAt_eq, ← List.head?_drop, stored, List.head?_cons]
      rw [nameFrom, there]
      rfl
  | succ room ih =>
    cases units with
    | nil => simp at decided
    | cons unit rest =>
      have there : unitAt bytes index = some unit := by
        rw [unitAt_eq, ← List.head?_drop, stored, List.head?_cons]
      have behind : (nameUnits bytes).drop (index + 1) = rest := by
        rw [← List.drop_drop, stored]
        rfl
      rw [nameFrom, there, Option.bind_eq_bind, Option.bind_some, List.take_succ_cons]
      by_cases zero : unit = 0
      · rw [if_pos zero, List.takeWhile_cons_of_neg (by simpa using zero)]
        rfl
      · have further : (0 : CHAR16) ∈ rest ∨ room < rest.length := by
          simpa [Ne.symm zero] using decided
        rw [if_neg zero, ih behind further, List.takeWhile_cons_of_pos (by simpa using zero)]
        rfl

/-- What a record makes of its units and its attribute word. -/
theorem recordEntry_exact {bytes : List UInt8} {flags : UInt32}
    (decided : (0 : CHAR16) ∈ nameUnits bytes ∨ eosfsNameMax < (nameUnits bytes).length)
    (flagged : attributeWord bytes = some flags) :
    recordEntry bytes =
      some (((nameUnits bytes).take eosfsNameMax).takeWhile (· ≠ 0) ++ [0], entryType flags) := by
  rw [recordEntry, nameFrom_exact (List.drop_zero) decided, flagged]
  rfl

/-! ## Records as declared -/

/-- `EFI_FILE_INFO` of `efi.h`, with a name that its terminator ends. The times of the
specification are missing from it, which is what the code expects. -/
structure FileInfo where
  size : UInt64
  fileSize : UInt64
  physicalSize : UInt64
  attributes : UInt32
  fileName : Text
  free : (0 : CHAR16) ∉ fileName

/-- The bytes in front of the attribute: three words of eight bytes. -/
def FileInfo.sizes (info : FileInfo) : List UInt8 :=
  littleEndian 8 info.size.toNat ++ littleEndian 8 info.fileSize.toNat ++
    littleEndian 8 info.physicalSize.toNat

/-- The layout of the structure, with the terminator of its name. -/
def FileInfo.encode (info : FileInfo) : List UInt8 :=
  info.sizes ++ uint32.encode info.attributes ++ encodeAll uint16 (info.fileName ++ [0])

/-- What a listing shows of a file: its name as far as an entry has room, and its type. -/
def summary (name : Text) (directory : Bool) : Text × EosfsEntryType :=
  (name.take eosfsNameMax, if directory then .dir else .file)

/-- What a listing shows of a record: its name as far as there is room, and its type. -/
def FileInfo.summary (info : FileInfo) : Text × EosfsEntryType :=
  Eosfs.summary info.fileName (info.attributes &&& efiFileDirectory ≠ 0)

/-- The attributes stand behind the sizes and the times. -/
@[simp] theorem sizes_length (info : FileInfo) : info.sizes.length = attributeOffset := by
  simp [FileInfo.sizes, attributeOffset]

/-- A record is as long as its fixed part, its name and the terminator. -/
theorem encode_length (info : FileInfo) :
    info.encode.length = fileNameOffset + 2 * (info.fileName.length + 1) := by
  rw [FileInfo.encode, List.length_append, List.length_append, sizes_length, uint32.encode_length,
    encodeAll_length, List.length_append, List.length_singleton, attributeOffset, fileNameOffset]
  omega

/-- The name of a record and what follows it. -/
theorem nameUnits_encode (info : FileInfo) (rest : List UInt8) :
    nameUnits (info.encode ++ rest) = info.fileName ++ 0 :: unitsOf rest := by
  have front : (info.sizes ++ uint32.encode info.attributes).length = fileNameOffset := by
    rw [List.length_append, sizes_length, uint32.encode_length]
    rfl
  have even : (encodeAll uint16 (info.fileName ++ [0])).length % 2 = 0 := by
    rw [encodeAll_length]
    omega
  rw [nameUnits, FileInfo.encode, List.append_assoc, List.drop_left' front,
    unitsOf_append _ _ even, unitsOf_encodeAll, List.append_assoc, List.singleton_append]

/-- The attribute of a record is read where the record has it. -/
theorem attributeWord_encode (info : FileInfo) (rest : List UInt8) :
    attributeWord (info.encode ++ rest) = some info.attributes := by
  have whole : attributeOffset + 4 ≤ (info.encode ++ rest).length := by
    rw [List.length_append, encode_length, attributeOffset, fileNameOffset]
    omega
  have word : ((info.encode ++ rest).drop attributeOffset).take 4 =
      uint32.encode info.attributes := by
    rw [FileInfo.encode, List.append_assoc, List.append_assoc, List.drop_left' (sizes_length info),
      List.take_left' (uint32.encode_length _)]
  rw [attributeWord, if_pos whole, word]
  exact congrArg some (uint32.decode_encode info.attributes)

/-- The part of a text without zeros that fits in front of a zero. -/
theorem takeWhile_take_append {name : Text} (free : (0 : CHAR16) ∉ name) (room : Nat)
    (rest : List CHAR16) :
    ((name ++ 0 :: rest).take room).takeWhile (· ≠ 0) = name.take room := by
  have solid : ∀ unit ∈ name.take room, decide (unit ≠ 0) = true := by
    intro unit member
    exact decide_eq_true fun zero => free (zero ▸ List.mem_of_mem_take member)
  rw [List.take_append, List.takeWhile_append_of_pos solid]
  cases room - name.length with
  | zero => simp
  | succ left => simp

/-- A record is read back, whatever follows it. -/
theorem recordEntry_encode (info : FileInfo) (rest : List UInt8) :
    recordEntry (info.encode ++ rest) =
      some (info.fileName.take eosfsNameMax ++ [0], entryType info.attributes) := by
  have decided : (0 : CHAR16) ∈ nameUnits (info.encode ++ rest) := by
    rw [nameUnits_encode]
    exact List.mem_append_right _ List.mem_cons_self
  rw [recordEntry_exact (Or.inl decided) (attributeWord_encode info rest), nameUnits_encode,
    takeWhile_take_append info.free]

/-- The entry that a record makes, with a terminator behind its name. -/
def FileInfo.listed (info : FileInfo) : ListedEntry :=
  (info.fileName.take eosfsNameMax ++ [0], entryType info.attributes)

/-- An entry shows what a listing is to show of its record. -/
theorem shown_listed (info : FileInfo) : shown info.listed = some info.summary := by
  have free : (0 : CHAR16) ∉ info.fileName.take eosfsNameMax :=
    fun member => info.free (List.mem_of_mem_take member)
  rw [shown, FileInfo.listed, scan_append _ [] free, Option.map_some, FileInfo.summary, summary,
    entryType]
  by_cases directory : info.attributes &&& efiFileDirectory ≠ 0
  · rw [if_pos directory, if_pos (decide_eq_true directory)]
  · rw [if_neg directory, if_neg (by simpa using directory)]

/-! ## A directory to list -/

/-- A firmware with a volume whose root directory is read in a given way. -/
def mounting (read : Nat → σ → ReadAnswer × σ) : Firmware σ :=
  { Firmware.inert with
    locateProtocol := fun state => ((efiSuccess, 1), state)
    openVolume := fun _ state => ((efiSuccess, 1), state)
    read := fun _ => read }

/-- The entry table at the start, behind `eosfs_init`. -/
def initialisedTable : EosfsStorage := (initialTable initialEosfs).get (by decide +kernel)

/-- `eosfs_init` finds room for its five entries. -/
theorem initialTable_initialised : initialTable initialEosfs = some initialisedTable :=
  (Option.some_get _).symm

/-- The machine behind `eosfs_init`. -/
def initialised (state : σ) : Machine σ := { Machine.entered state with eosfs := initialisedTable }

/-- The boot services of that machine have the function that the source calls. -/
theorem callable_initialised (state : σ) : Callable (initialised state) := by
  intro services there
  cases there
  rfl

/-- The volume of a mounting firmware can be opened, and its root is the handle `1`. -/
theorem mounted_mounting (read : Nat → σ → ReadAnswer × σ) (state : σ) :
    mounted (mounting read) (initialised state) = some (1, state) := rfl

/-- A firmware whose reads hand back the answers of its state in turn, and nothing further. -/
def serving : Firmware (List ReadAnswer) :=
  mounting fun _ answers => (answers.headD ⟨efiSuccess, 0, []⟩, answers.tail)

/-- A serving firmware answers as it was told, in the order of its state. -/
theorem answers_serving (root : Handle) (answers rest : List ReadAnswer) :
    Answers serving root answers (answers ++ rest) := by
  induction answers with
  | nil => trivial
  | cons answer answers ih => exact ⟨rfl, ih⟩

/-! ## Listing any results -/

/-- A result of `Read`: its status, the size and a record with what follows it in the buffer. -/
structure ReadResult where
  status : EfiStatus
  size : Nat
  info : FileInfo
  rest : List UInt8
  fits : (info.encode ++ rest).length ≤ recordBufferSize

/-- The result as an answer of the firmware. What follows the record is whatever the buffer held. -/
def ReadResult.answer (result : ReadResult) : ReadAnswer :=
  ⟨result.status, result.size, result.info.encode ++ result.rest⟩

/-- The result succeeds with a size and a name. -/
def ReadResult.succeeds (result : ReadResult) : Bool :=
  ¬ efiError result.status ∧ result.size ≠ 0 ∧ result.info.fileName ≠ []

/-- A name that is cut is empty only if it was. -/
theorem take_name_eq_nil (name : Text) : name.take eosfsNameMax = [] ↔ name = [] := by
  rw [List.take_eq_nil_iff]
  exact or_iff_right (by decide)

/-- A result is a complete answer: it fits the buffer, and an entry can be read from it. -/
theorem complete_answer (result : ReadResult) : Complete result.answer where
  fits := result.fits
  whole _ := by
    rw [ReadResult.answer, recordEntry_encode]
    rfl

/-- A record yields its entry, if it has a name. -/
theorem entryOf_info {answer : ReadAnswer} (goes : ¬ (efiError answer.status ∨ answer.size = 0))
    {info : FileInfo} {rest : List UInt8} (stored : answer.bytes = info.encode ++ rest) :
    entryOf answer = if info.fileName = [] then none else some info.listed := by
  rw [entryOf_record goes (stored ▸ recordEntry_encode info rest), FileInfo.listed]
  simp only [take_name_eq_nil]

/-- A result yields an entry exactly if it succeeds. The three reasons for which it may not are
the tests of the source. -/
theorem entryOf_answer (result : ReadResult) :
    entryOf result.answer = if result.succeeds then some result.info.listed else none := by
  by_cases ended : efiError result.status ∨ result.size = 0
  · have fails : ¬ result.succeeds = true := by
      rw [ReadResult.succeeds, decide_eq_true_iff]
      rintro ⟨calm, sized, _⟩
      exact ended.elim calm sized
    rw [if_neg fails]
    exact if_pos ended
  · have goes : result.succeeds = true ↔ result.info.fileName ≠ [] := by
      rw [ReadResult.succeeds, decide_eq_true_iff]
      exact ⟨fun good => good.2.2, fun named => ⟨mt Or.inl ended, mt Or.inr ended, named⟩⟩
    rw [entryOf_info (show ¬ (efiError result.answer.status ∨ result.answer.size = 0) from ended)
      (show result.answer.bytes = result.info.encode ++ result.rest from rfl)]
    by_cases empty : result.info.fileName = []
    · rw [if_pos empty, if_neg fun good => goes.mp good empty]
    · rw [if_neg empty, if_pos (goes.mpr empty)]

/-- The results yield entries up to the first one that does not succeed. -/
theorem entriesOf_answers (results : List ReadResult) :
    entriesOf (results.map ReadResult.answer) =
      (results.takeWhile ReadResult.succeeds).map fun result => result.info.listed := by
  induction results with
  | nil => rfl
  | cons result rest ih =>
    rw [List.map_cons, List.takeWhile_cons]
    by_cases good : result.succeeds = true
    · rw [entriesOf_cons (by rw [entryOf_answer, if_pos good]), ih, if_pos good, List.map_cons]
    · rw [entriesOf_end (by rw [entryOf_answer, if_neg good]), if_neg good, List.map_nil]

/-- The results whose records are listed: the longest prefix that succeeds, up to the limit, of a
volume that can be opened. -/
def listable (fw : Firmware σ) (machine : Machine σ) (results : List ReadResult)
    (maxEntries : Nat) : List ReadResult :=
  if (mounted fw machine).isSome then (results.takeWhile ReadResult.succeeds).take maxEntries
  else []

/-- The entries of the volume are those of the listable results, in the order in which they were
read. -/
theorem volumeEntries_answers (fw : Firmware σ) (machine : Machine σ) (results : List ReadResult)
    (maxEntries : Nat) :
    volumeEntries fw machine (results.map ReadResult.answer) maxEntries =
      (listable fw machine results maxEntries).map fun result => result.info.listed := by
  rw [volumeEntries, listable]
  cases mounted fw machine with
  | none => rfl
  | some _ =>
    rw [Option.elim_some, Option.isSome_some, if_pos rfl, entriesOf_answers, List.map_take]

/-- What follows a terminator is not read, so the rest of a buffer does not matter. -/
theorem scan_longer {memory : Memory} (ends : (0 : CHAR16) ∈ memory) (rest : Memory) :
    scan (memory ++ rest) = scan memory := by
  obtain ⟨units, readable⟩ := Option.ne_none_iff_exists'.mp (scan_ends ends)
  obtain ⟨free, behind, rfl⟩ := scan_split memory units readable
  rw [List.append_assoc, List.cons_append, scan_append _ _ free, scan_append _ _ free]

/-- Entries with a terminated name show in the array what they show in the listing. -/
theorem overlay_shown {listed : List ListedEntry} {slots : List EosfsEntry}
    (room : listed.length ≤ slots.length)
    (fits : ∀ entry ∈ listed, entry.1.length ≤ eosfsNameMax + 1 ∧ (0 : CHAR16) ∈ entry.1) :
    ((overlay listed slots).take listed.length).map (shown ∘ listedEntry) = listed.map shown := by
  induction listed generalizing slots with
  | nil => rfl
  | cons entry rest ih =>
    cases slots with
    | nil => exact absurd room (Nat.not_succ_le_zero _)
    | cons slot slots =>
      obtain ⟨short, ends⟩ := fits entry List.mem_cons_self
      have first : shown (listedEntry (lay entry slot)) = shown entry := by
        rw [shown, listedEntry, lay_name short slot, scan_longer ends]
        rfl
      have others := ih (Nat.le_of_succ_le_succ room)
        (fun other member => fits other (List.mem_cons_of_mem entry member))
      rw [overlay, List.length_cons, List.take_succ_cons, List.map_cons, List.map_cons, others,
        Function.comp_apply, first]

/-- The entry of a record fits a slot and is terminated. -/
theorem listed_fits (info : FileInfo) :
    info.listed.1.length ≤ eosfsNameMax + 1 ∧ (0 : CHAR16) ∈ info.listed.1 := by
  rw [FileInfo.listed, List.length_append, List.length_singleton]
  exact ⟨Nat.succ_le_succ (List.length_take_le _ _), List.mem_append_right _ List.mem_cons_self⟩

/-- `eosfs_list_path` lists the records of the results that succeed, or the entry table if there
is none, and leaves the further entries of the array alone. The count never exceeds what the
caller has room for. -/
theorem storeListing_exact (fw : Firmware σ) {machine : Machine σ} (callable : Callable machine)
    {storage : EosfsStorage} (set : initialTable storage = some machine.eosfs) {maxEntries : Nat}
    (limit : 1 ≤ maxEntries) {entries : List EosfsEntry} (room : maxEntries ≤ entries.length)
    {results : List ReadResult} (enough : maxEntries ≤ results.length)
    (answered : ∀ root state, mounted fw machine = some (root, state) →
      Answers fw root (results.map ReadResult.answer) state) :
    ∃ count listing after,
      (storeListing fw entries maxEntries).run machine = .ok (some (count, listing), after) ∧
        count ≤ maxEntries ∧ listing.length = entries.length ∧
        listing.drop count = entries.drop count ∧
        (listable fw machine results maxEntries ≠ [] →
          (listing.take count).map (shown ∘ listedEntry) =
            (listable fw machine results maxEntries).map fun result => some result.info.summary) ∧
        (listable fw machine results maxEntries = [] →
          listing.take count = machine.eosfs.entries.toList.take (min maxEntries 5)) := by
  have complete : ∀ answer ∈ results.map ReadResult.answer, Complete answer := by
    intro answer member
    obtain ⟨result, _, rfl⟩ := List.mem_map.mp member
    exact complete_answer result
  have decided : maxEntries ≤ (results.map ReadResult.answer).length ∨
      ∃ answer ∈ results.map ReadResult.answer, entryOf answer = none := by
    rw [List.length_map]
    exact Or.inl enough
  obtain ⟨_, after, ran, frame, rfl⟩ := (wp_total_iff _ _ _).mp
    (wp_eosfsListPath fw callable limit answered complete decided)
  rw [volumeEntries_answers, List.isEmpty_map] at ran
  have few : (listable fw machine results maxEntries).length ≤ maxEntries := by
    rw [listable]
    split
    · exact List.length_take_le _ _
    · exact Nat.zero_le _
  generalize listable fw machine results maxEntries = records at *
  rw [storeListing_eq fw room, StateT.run_map, ran]
  by_cases empty : records = []
  · obtain ⟨five, _⟩ := initialTable_shown set
    have table : tableEntries machine.eosfs maxEntries =
        machine.eosfs.entries.toList.take (min maxEntries 5) := by
      rw [tableEntries, five, List.take_take]
    have short : (tableEntries machine.eosfs maxEntries).length ≤ maxEntries :=
      List.length_take_le _ _
    have laid := overlay_table _ _ (Nat.le_trans short room)
    rw [empty, List.isEmpty_nil, if_pos rfl]
    refine ⟨_, _, after, rfl, ?_, overlay_length _ _, overlay_drop _ _, absurd rfl, fun _ => ?_⟩
    · rwa [List.length_map]
    · rw [laid, List.length_map, List.take_left, table]
  · have stored : (records.map fun result => result.info.listed).length ≤ entries.length := by
      rw [List.length_map]
      exact Nat.le_trans few room
    have fits : ∀ entry ∈ records.map (fun result => result.info.listed),
        entry.1.length ≤ eosfsNameMax + 1 ∧ (0 : CHAR16) ∈ entry.1 := by
      intro entry member
      obtain ⟨result, _, rfl⟩ := List.mem_map.mp member
      exact listed_fits result.info
    rw [if_neg (mt List.isEmpty_iff.mp empty)]
    refine ⟨_, _, after, rfl, ?_, overlay_length _ _, overlay_drop _ _, fun _ => ?_,
      fun none => absurd none empty⟩
    · rwa [List.length_map]
    · rw [overlay_shown stored fits, List.map_map]
      exact List.map_congr_left fun result _ => shown_listed result.info

/-- The name of the sample contains no terminator. -/
theorem boot_free : (0 : CHAR16) ∉ text "boot" := by decide

/-- A directory that is read and a read that fails, by the record of an ordinary file. -/
def sampleResults : List ReadResult :=
  [⟨efiSuccess, 38, ⟨38, 0, 0, efiFileDirectory, text "boot", boot_free⟩, [], by decide⟩,
    ⟨efiDeviceError, 0, ⟨38, 7, 7, 0, text "note", by decide⟩, [], by decide⟩]

/-- One entry is listed, and the second slot keeps its contents. -/
theorem storeListing_exact_one :
    ∃ count listing after,
      (storeListing serving [blankEntry, blankEntry] 2).run
          (initialised (sampleResults.map ReadResult.answer)) =
        .ok (some (count, listing), after) ∧
        count ≤ 2 ∧ listing.length = 2 ∧ listing.drop count = [blankEntry, blankEntry].drop count ∧
        (listing.take count).map (shown ∘ listedEntry) = [some (text "boot", .dir)] := by
  have answered : ∀ root state,
      mounted serving (initialised (sampleResults.map ReadResult.answer)) = some (root, state) →
        Answers serving root (sampleResults.map ReadResult.answer) state := by
    intro root state found
    cases found
    exact answers_serving 1 _ []
  have one : listable serving (initialised (sampleResults.map ReadResult.answer)) sampleResults 2 =
      sampleResults.take 1 := rfl
  obtain ⟨count, listing, after, ran, within, same, kept, listed, _⟩ :=
    storeListing_exact serving (callable_initialised _) initialTable_initialised
      (show 1 ≤ 2 by decide) (show 2 ≤ [blankEntry, blankEntry].length by decide)
      (show 2 ≤ sampleResults.length by decide) answered
  rw [one] at listed
  exact ⟨count, listing, after, ran, within, same, kept, listed (List.cons_ne_nil _ _)⟩

/-! ## Records that do not fit -/

/-- `EFI_BUFFER_TOO_SMALL`, the answer to a buffer that a record does not fit. -/
def efiBufferTooSmall : EfiStatus := 5

/-- Reads of the directory hand back the records of the files that are left, one by one. A record
that does not fit is not handed back, and stays the next one. -/
def Serves (fw : Firmware σ) (root : Handle) (left : σ → List FileInfo) : Prop :=
  ∀ size state, match left state with
    | [] => (fw.read root size state).1 = ⟨efiSuccess, 0, []⟩
    | file :: rest =>
      if file.encode.length ≤ size then
        (fw.read root size state).1 = ⟨efiSuccess, file.encode.length, file.encode⟩ ∧
          left (fw.read root size state).2 = rest
      else (∃ bytes, bytes.length ≤ size ∧
          (fw.read root size state).1 = ⟨efiBufferTooSmall, file.encode.length, bytes⟩) ∧
        left (fw.read root size state).2 = file :: rest

/-- The record of the file fits the buffer. -/
def FileInfo.fits (info : FileInfo) : Bool := info.encode.length ≤ recordBufferSize

/-- A record fits the buffer exactly if its name has at most 113 characters. The fixed part takes
28 of the 256 bytes, and the terminator two. -/
theorem fits_iff (info : FileInfo) : info.fits = true ↔ info.fileName.length ≤ 113 := by
  rw [FileInfo.fits, decide_eq_true_iff, encode_length, fileNameOffset, recordBufferSize]
  omega

/-- An answer that ends the listing is complete, whatever bytes it has left. -/
theorem ends_of_error {answer : ReadAnswer} (short : answer.bytes.length ≤ recordBufferSize)
    (ended : efiError answer.status ∨ answer.size = 0) :
    Complete answer ∧ entryOf answer = none :=
  ⟨⟨short, absurd ended⟩, if_pos ended⟩

/-- An answer with a record that fits makes an entry of it. -/
theorem delivers_record {info : FileInfo} (fits : info.fits = true) (named : info.fileName ≠ []) :
    Complete ⟨efiSuccess, info.encode.length, info.encode⟩ ∧
      entryOf ⟨efiSuccess, info.encode.length, info.encode⟩ = some info.listed := by
  have calm : ¬ efiError efiSuccess = true := by decide
  have sized : info.encode.length ≠ 0 := by
    rw [encode_length]
    omega
  have stored : info.encode = info.encode ++ [] := (List.append_nil _).symm
  refine ⟨⟨of_decide_eq_true fits, fun _ => ?_⟩, ?_⟩
  · rw [stored, recordEntry_encode]
    rfl
  · rw [entryOf_info (not_or_intro calm sized) stored, if_neg named]

/-- The answers of a directory: the records up to the first that does not fit. -/
theorem answers_directory {fw : Firmware σ} {root : Handle} {left : σ → List FileInfo}
    (serves : Serves fw root left) {files : List FileInfo}
    (named : ∀ file ∈ files, file.fileName ≠ []) {state : σ} (here : left state = files) :
    ∃ answers, Answers fw root answers state ∧ (∀ answer ∈ answers, Complete answer) ∧
      (∃ answer ∈ answers, entryOf answer = none) ∧
      entriesOf answers = (files.takeWhile FileInfo.fits).map FileInfo.listed := by
  induction files generalizing state with
  | nil =>
    have read := serves recordBufferSize state
    rw [here] at read
    have short : (⟨efiSuccess, 0, []⟩ : ReadAnswer).bytes.length ≤ recordBufferSize := Nat.zero_le _
    obtain ⟨complete, ended⟩ := ends_of_error short (Or.inr rfl)
    exact ⟨[⟨efiSuccess, 0, []⟩], ⟨read, trivial⟩, List.forall_mem_singleton.mpr complete,
      ⟨_, List.mem_singleton_self _, ended⟩, entriesOf_end ended⟩
  | cons file rest ih =>
    have read := serves recordBufferSize state
    rw [here] at read
    dsimp only at read
    by_cases fits : file.encode.length ≤ recordBufferSize
    · rw [if_pos fits] at read
      obtain ⟨answer, advanced⟩ := read
      obtain ⟨answers, later, complete, ⟨last, member, ended⟩, entries⟩ := ih
        (fun other member => named other (List.mem_cons_of_mem file member)) advanced
      have stored : file.fits = true := decide_eq_true fits
      obtain ⟨first, made⟩ := delivers_record stored (named file List.mem_cons_self)
      refine ⟨_ :: answers, ⟨answer, later⟩, List.forall_mem_cons.mpr ⟨first, complete⟩,
        ⟨last, List.mem_cons_of_mem _ member, ended⟩, ?_⟩
      rw [entriesOf_cons made, entries, List.takeWhile_cons_of_pos stored, List.map_cons]
    · rw [if_neg fits] at read
      obtain ⟨⟨bytes, short, answer⟩, _⟩ := read
      have within : (⟨efiBufferTooSmall, file.encode.length, bytes⟩ : ReadAnswer).bytes.length ≤
          recordBufferSize := short
      obtain ⟨complete, ended⟩ := ends_of_error within (Or.inl rfl)
      refine ⟨[⟨efiBufferTooSmall, file.encode.length, bytes⟩], ⟨answer, trivial⟩,
        List.forall_mem_singleton.mpr complete, ⟨_, List.mem_singleton_self _, ended⟩, ?_⟩
      rw [entriesOf_end ended, List.takeWhile_cons_of_neg (by simpa [FileInfo.fits] using fits)]
      rfl

/-- The listing shows the names of the first files, as many as it was asked for. -/
def ReportsNames (fw : Firmware σ) (machine : Machine σ) (maxEntries : Nat)
    (files : List FileInfo) : Prop :=
  ∃ listed after, (eosfsListPath fw maxEntries).run machine = .ok (some listed, after) ∧
    listed.map (fun entry => scan entry.1) =
      (files.take maxEntries).map fun file => some (file.fileName.take eosfsNameMax)

section Directory

variable {fw : Firmware σ} {machine : Machine σ} {storage : EosfsStorage} {root : Handle}
  {state : σ} {left : σ → List FileInfo}

/-- What is listed of a directory: the first records up to one that does not fit, or the entry
table. -/
theorem run_eosfsListPath_directory (callable : Callable machine) {maxEntries : Nat}
    (limit : 1 ≤ maxEntries) (mounts : mounted fw machine = some (root, state))
    (serves : Serves fw root left) (named : ∀ file ∈ left state, file.fileName ≠ []) :
    ∃ after, (eosfsListPath fw maxEntries).run machine =
      .ok (some (if (((left state).take maxEntries).takeWhile FileInfo.fits).isEmpty then
          (tableEntries machine.eosfs maxEntries).map listedEntry
        else (((left state).take maxEntries).takeWhile FileInfo.fits).map FileInfo.listed),
        after) := by
  obtain ⟨answers, answered, complete, ended, entries⟩ := answers_directory serves named rfl
  obtain ⟨after, ran⟩ := run_eosfsListPath callable limit mounts answered complete ended
  refine ⟨after, ?_⟩
  rw [ran, entries, ← List.map_take, List.take_takeWhile, List.isEmpty_map]

/-- The names of the entry table are not those of a file whose record does not fit. -/
theorem table_names_fit (set : initialTable storage = some machine.eosfs) {maxEntries : Nat}
    (limit : 1 ≤ maxEntries) {file : FileInfo} {rest : List FileInfo}
    (names : ((tableEntries machine.eosfs maxEntries).map listedEntry).map
        (fun entry => scan entry.1) =
      (file :: rest).map fun file => some (file.fileName.take eosfsNameMax)) :
    file.fits = true := by
  obtain ⟨fewer, rfl⟩ := Nat.exists_eq_add_of_le' limit
  have first : some (text "boot") = some (file.fileName.take eosfsNameMax) := by
    have shownNames : (fun entry : ListedEntry => scan entry.1) =
        Option.map Prod.fst ∘ shown := funext shown_name
    rw [shownNames, ← List.map_map, tableEntries_shown set] at names
    exact (List.cons.inj names).1
  have length := congrArg List.length (Option.some.inj first)
  have four : (text "boot").length = 4 := rfl
  rw [four, List.length_take, eosfsNameMax] at length
  rw [fits_iff]
  omega

/-- Where the first names are reported, their records fit. -/
theorem fits_of_reportsNames (callable : Callable machine)
    (set : initialTable storage = some machine.eosfs) {maxEntries : Nat} (limit : 1 ≤ maxEntries)
    (mounts : mounted fw machine = some (root, state)) (serves : Serves fw root left)
    (present : left state ≠ []) (named : ∀ file ∈ left state, file.fileName ≠ [])
    (reports : ReportsNames fw machine maxEntries (left state)) :
    ∀ file ∈ (left state).take maxEntries, file.fits = true := by
  obtain ⟨after, ran⟩ := run_eosfsListPath_directory callable limit mounts serves named
  obtain ⟨listed, _, ran', names⟩ := reports
  rw [ran] at ran'
  cases ran'
  have some : (left state).take maxEntries ≠ [] := by
    rw [Ne, List.take_eq_nil_iff]
    exact not_or_intro (Nat.ne_of_gt limit) present
  generalize (left state).take maxEntries = files at *
  by_cases empty : (files.takeWhile FileInfo.fits).isEmpty = true
  · rw [if_pos empty] at names
    obtain ⟨file, rest, rfl⟩ := List.exists_cons_of_ne_nil some
    have fits := table_names_fit set limit names
    rw [List.takeWhile_cons_of_pos fits] at empty
    cases empty
  · rw [if_neg empty, List.map_map] at names
    have length := congrArg List.length names
    rw [List.length_map, List.length_map] at length
    exact List.takeWhile_eq_self_iff.mp ((List.takeWhile_prefix _).eq_of_length length)

/-- `eosfs_list_path` reports the names of the first files of a directory if and only if none of
their records is too long for its buffer. A record that is too long ends the listing, and the
files behind it are not reported either. -/
theorem eosfsListPath_names_iff (callable : Callable machine)
    (set : initialTable storage = some machine.eosfs) {maxEntries : Nat} (limit : 1 ≤ maxEntries)
    (mounts : mounted fw machine = some (root, state)) (serves : Serves fw root left)
    (present : left state ≠ []) (named : ∀ file ∈ left state, file.fileName ≠ []) :
    ReportsNames fw machine maxEntries (left state) ↔
      ∀ file ∈ (left state).take maxEntries, file.fileName.length ≤ 113 := by
  constructor
  · intro reports file member
    exact (fits_iff file).mp
      (fits_of_reportsNames callable set limit mounts serves present named reports file member)
  · intro short
    have all : ((left state).take maxEntries).takeWhile FileInfo.fits =
        (left state).take maxEntries :=
      List.takeWhile_eq_self_iff.mpr fun file member => (fits_iff file).mpr (short file member)
    have some : ((left state).take maxEntries).isEmpty = false := by
      rw [List.isEmpty_eq_false_iff, Ne, List.take_eq_nil_iff]
      exact not_or_intro (Nat.ne_of_gt limit) present
    obtain ⟨after, ran⟩ := run_eosfsListPath_directory callable limit mounts serves named
    rw [all, some, if_neg Bool.false_ne_true] at ran
    refine ⟨_, after, ran, ?_⟩
    rw [List.map_map]
    refine List.map_congr_left fun file _ => ?_
    rw [Function.comp_apply, shown_name, shown_listed]
    rfl

end Directory

/-- A firmware whose state is the files that are left of the directory. -/
def directory : Firmware (List FileInfo) :=
  mounting fun size files => match files with
    | [] => (⟨efiSuccess, 0, []⟩, [])
    | file :: rest =>
      if file.encode.length ≤ size then
        (⟨efiSuccess, file.encode.length, file.encode⟩, rest)
      else (⟨efiBufferTooSmall, file.encode.length, []⟩, file :: rest)

/-- The sample directory hands its files back one by one. -/
theorem directory_serves (root : Handle) : Serves directory root id := by
  intro size files
  cases files with
  | nil => rfl
  | cons file rest =>
    dsimp only [id, directory, mounting]
    by_cases fits : file.encode.length ≤ size
    · rw [if_pos fits, if_pos fits]
      exact ⟨rfl, rfl⟩
    · rw [if_neg fits, if_neg fits]
      exact ⟨⟨[], Nat.zero_le _, rfl⟩, rfl⟩

/-- An ordinary file of a given name. -/
def fileNamed (name : Text) (free : (0 : CHAR16) ∉ name) : FileInfo :=
  ⟨UInt64.ofNat (fileNameOffset + 2 * (name.length + 1)), 0, 0, 0, name, free⟩

/-- The longest name whose record still fits. -/
theorem eosfsListPath_names_longest :
    ReportsNames directory (initialised [fileNamed (List.replicate 113 0x61) (by decide)]) 1
      [fileNamed (List.replicate 113 0x61) (by decide)] :=
  (eosfsListPath_names_iff (callable_initialised _) initialTable_initialised (Nat.le_refl 1)
    (mounted_mounting _ _) (directory_serves 1) (List.cons_ne_nil _ _)
    (List.forall_mem_singleton.mpr (List.cons_ne_nil _ _))).mpr
      (List.forall_mem_singleton.mpr (Nat.le_of_eq List.length_replicate))

/-- A file with a name of 114 letters, between two others. -/
def longBetween : List FileInfo :=
  [fileNamed (text "a") (by decide), fileNamed (List.replicate 114 0x61) (by decide),
    fileNamed (text "b") (by decide)]

/-- The file with the long name is hidden, and so is the one behind it. -/
theorem longName_hides : ¬ ReportsNames directory (initialised longBetween) 3 longBetween := by
  intro reports
  have named : ∀ file ∈ longBetween, file.fileName ≠ [] := by decide
  have fits := fits_of_reportsNames (callable_initialised longBetween) initialTable_initialised
    (show 1 ≤ 3 by decide) (mounted_mounting _ _) (directory_serves 1) (List.cons_ne_nil _ _) named
    reports _ (List.mem_cons_of_mem _ List.mem_cons_self)
  rw [fits_iff] at fits
  exact absurd fits (by decide)

end ExistentOS.Eosfs
