import ExistentOS.DirectoryRecords

/-!
# Directory records of the specification

The UEFI specification has three time stamps in `EFI_FILE_INFO` where `efi.h` has none: its
64-bit attribute is at byte 72 and the name at byte 80. The listing reads such a record in
the layout of `efi.h`, so that the date of the creation is taken for the attribute, and the
time of the day and the further time stamps for the name. A creation at midnight reads as
an empty name and ends the listing.
-/

namespace ExistentOS.Eosfs

open Programs Terminated Codecs

variable {σ : Type}

/-! ## The layout -/

/-- `EFI_FILE_INFO` of the UEFI specification: time stamps stand in front of a wider attribute. A
name has at most 80 characters, so that every record fits the buffer of the source. -/
structure SpecifiedInfo where
  size : UInt64
  fileSize : UInt64
  physicalSize : UInt64
  createTime : Vector UInt8 16
  lastAccessTime : Vector UInt8 16
  modificationTime : Vector UInt8 16
  attributes : UInt64
  fileName : Text
  named : fileName ≠ []
  short : fileName.length ≤ 80
  free : (0 : CHAR16) ∉ fileName

namespace SpecifiedInfo

/-- The bytes in front of the time stamps. They are where the source expects them. -/
def sizes (info : SpecifiedInfo) : List UInt8 :=
  littleEndian 8 info.size.toNat ++ littleEndian 8 info.fileSize.toNat ++
    littleEndian 8 info.physicalSize.toNat

/-- The three time stamps, of creation, access and modification. -/
def stamps (info : SpecifiedInfo) : List UInt8 :=
  info.createTime.toList ++ info.lastAccessTime.toList ++ info.modificationTime.toList

/-- The layout of the specification, with the name behind the attributes. -/
def encode (info : SpecifiedInfo) : List UInt8 :=
  info.sizes ++ info.stamps ++ littleEndian 8 info.attributes.toNat ++
    encodeAll uint16 (info.fileName ++ [0])

/-- What a listing is to show of a file: its own name and type. -/
def summary (info : SpecifiedInfo) : Text × EosfsEntryType :=
  Eosfs.summary info.fileName (info.attributes &&& 0x10 ≠ 0)

/-- The name that the time stamps spell from the hour of the creation on. -/
def stampName (info : SpecifiedInfo) : Text :=
  ((unitsOf (info.stamps.drop 4)).take eosfsNameMax).takeWhile (· ≠ 0)

/-- The type that the date of the creation has as an attribute. -/
def stampType (info : SpecifiedInfo) : EosfsEntryType :=
  entryType (UInt32.ofNat (value (info.stamps.take 4)))

/-- The entry that the time stamps make, which is the one that the source reports. -/
def listed (info : SpecifiedInfo) : ListedEntry := (info.stampName ++ [0], info.stampType)

/-- The answer with the record of the file. -/
def answer (info : SpecifiedInfo) : ReadAnswer := ⟨efiSuccess, info.encode.length, info.encode⟩

/-- The time stamps spell a name, so that the listing goes on. -/
def stamped (info : SpecifiedInfo) : Bool := info.stampName ≠ []

variable (info : SpecifiedInfo)

/-- The sizes and the size on disk come before the stamps. -/
@[simp] theorem sizes_length : info.sizes.length = attributeOffset := by
  simp [sizes, attributeOffset]

/-- Three stamps of sixteen bytes. -/
@[simp] theorem stamps_length : info.stamps.length = 48 := by
  simp [stamps]

/-- The record fits the buffer, and the time stamps cover what is read of it. -/
theorem encode_length : info.encode.length = 80 + 2 * (info.fileName.length + 1) := by
  simp only [encode, List.length_append, sizes_length, stamps_length, littleEndian_length,
    encodeAll_length, List.length_singleton, attributeOffset]
  omega

/-- The units of the name begin with those of the time stamps. -/
theorem nameUnits_encode :
    ∃ rest, nameUnits info.encode = unitsOf (info.stamps.drop 4) ++ rest := by
  have front : (info.sizes ++ info.stamps.take 4).length = fileNameOffset := by
    rw [List.length_append, sizes_length, List.length_take, stamps_length]
    rfl
  have split : info.encode = (info.sizes ++ info.stamps.take 4) ++ (info.stamps.drop 4 ++
      (littleEndian 8 info.attributes.toNat ++ encodeAll uint16 (info.fileName ++ [0]))) := by
    have whole : info.stamps = info.stamps.take 4 ++ info.stamps.drop 4 :=
      (List.take_append_drop 4 info.stamps).symm
    rw [encode, List.append_assoc, List.append_assoc, List.append_assoc, ← List.append_assoc
      (info.stamps.take 4), ← whole]
  have even : (info.stamps.drop 4).length % 2 = 0 := by
    rw [List.length_drop, stamps_length]
  rw [nameUnits, split, List.drop_left' front, unitsOf_append _ _ even]
  exact ⟨_, rfl⟩

/-- The attribute word is the date of the creation. -/
theorem attributeWord_encode :
    attributeWord info.encode = some (UInt32.ofNat (value (info.stamps.take 4))) := by
  have whole : attributeOffset + 4 ≤ info.encode.length := by
    rw [encode_length, attributeOffset]
    omega
  have word : (info.encode.drop attributeOffset).take 4 = info.stamps.take 4 := by
    rw [encode, List.append_assoc, List.append_assoc, List.drop_left' info.sizes_length,
      List.take_append_of_le_length (by rw [stamps_length]; decide)]
  rw [attributeWord, if_pos whole, word]

/-- The record makes the entry of its time stamps. -/
theorem recordEntry_encode : recordEntry info.encode = some info.listed := by
  obtain ⟨rest, units⟩ := info.nameUnits_encode
  have enough : eosfsNameMax ≤ (unitsOf (info.stamps.drop 4)).length := by
    rw [unitsOf_length, List.length_drop, stamps_length]
    decide
  have longer : eosfsNameMax < (nameUnits info.encode).length := by
    rw [units, List.length_append, unitsOf_length, List.length_drop, stamps_length, eosfsNameMax]
    omega
  rw [recordEntry_exact (Or.inr longer) info.attributeWord_encode, units,
    List.take_append_of_le_length enough]
  rfl

/-- The name that is read from the stamps is cut before their first zero. -/
theorem stampName_free : (0 : CHAR16) ∉ info.stampName := by
  intro member
  rw [stampName] at member
  simpa using List.mem_takeWhile_imp member

/-- What is shown of the record comes from its stamps. -/
theorem shown_listed : shown info.listed = some (info.stampName, info.stampType) := by
  rw [shown, listed, scan_append _ [] info.stampName_free, Option.map_some]

/-- The record of a file is a complete answer: it fits the buffer, and an entry can be read from
it. -/
theorem complete_answer : Complete info.answer where
  fits := by
    have short := info.short
    rw [answer, encode_length, recordBufferSize]
    omega
  whole _ := info.recordEntry_encode ▸ rfl

/-- A record makes an entry exactly if its stamps read as a name. -/
theorem entryOf_answer : entryOf info.answer = if info.stamped then some info.listed else none := by
  have calm : ¬ efiError efiSuccess = true := by decide
  have sized : info.encode.length ≠ 0 := by
    rw [encode_length]
    omega
  have goes : ¬ (efiError info.answer.status ∨ info.answer.size = 0) := not_or_intro calm sized
  rw [entryOf_record goes info.recordEntry_encode, stamped]
  by_cases empty : info.stampName = []
  · rw [if_pos empty, if_neg (by simpa using empty)]
  · rw [if_neg empty, if_pos (by simpa using empty)]
    rfl

end SpecifiedInfo

/-! ## Listing the records -/

/-- The answers of a directory whose records are those of the specification. -/
def specifiedAnswers (files : List SpecifiedInfo) : List ReadAnswer :=
  files.map SpecifiedInfo.answer ++ [⟨efiSuccess, 0, []⟩]

/-- The listing shows the files, with their names and types. -/
def ReportsFiles (fw : Firmware σ) (machine : Machine σ) (maxEntries : Nat)
    (files : List SpecifiedInfo) : Prop :=
  ∃ listed after, (eosfsListPath fw maxEntries).run machine = .ok (some listed, after) ∧
    listed.map shown = files.map fun file => some file.summary

/-- The time stamps of every file spell its name and its type. -/
def SpellsNames (files : List SpecifiedInfo) : Prop :=
  ∀ file ∈ files, (file.stampName, file.stampType) = file.summary

/-- The first file was created in the first minute of a day, and the files are those of the entry
table. -/
def ResemblesTable (files : List SpecifiedInfo) (maxEntries : Nat) : Prop :=
  (∀ file ∈ files.head?, file.stampName = []) ∧
    files.map SpecifiedInfo.summary = initialListing.take maxEntries

/-- The answers of a directory are complete, and the one behind the last file ends the listing. -/
theorem complete_specifiedAnswers (files : List SpecifiedInfo) :
    (∀ answer ∈ specifiedAnswers files, Complete answer) ∧
      ∃ answer ∈ specifiedAnswers files, entryOf answer = none := by
  have short : (⟨efiSuccess, 0, []⟩ : ReadAnswer).bytes.length ≤ recordBufferSize := Nat.zero_le _
  obtain ⟨last, ended⟩ := ends_of_error short (Or.inr rfl)
  constructor
  · intro answer member
    rcases List.mem_append.mp member with record | final
    · obtain ⟨info, _, rfl⟩ := List.mem_map.mp record
      exact info.complete_answer
    · rw [List.mem_singleton.mp final]
      exact last
  · exact ⟨_, List.mem_append_right _ List.mem_cons_self, ended⟩

/-- The files are listed up to the first one whose stamps read as no name. -/
theorem entriesOf_specifiedAnswers (files : List SpecifiedInfo) :
    entriesOf (specifiedAnswers files) =
      (files.takeWhile SpecifiedInfo.stamped).map SpecifiedInfo.listed := by
  induction files with
  | nil => rfl
  | cons file rest ih =>
    have split : specifiedAnswers (file :: rest) = file.answer :: specifiedAnswers rest := rfl
    rw [split, List.takeWhile_cons]
    by_cases spelled : file.stamped = true
    · have made : entryOf file.answer = some file.listed := by
        rw [file.entryOf_answer, if_pos spelled]
      rw [entriesOf_cons made, ih, if_pos spelled, List.map_cons]
    · have ended : entryOf file.answer = none := by
        rw [file.entryOf_answer, if_neg spelled]
      rw [entriesOf_end ended, if_neg spelled, List.map_nil]

section Specified

variable {fw : Firmware σ} {machine : Machine σ} {storage : EosfsStorage} {root : Handle}
  {state : σ} {maxEntries : Nat} {files : List SpecifiedInfo}

/-- What is listed of a directory with records of the specification. -/
theorem run_eosfsListPath_specified (callable : Callable machine) (limit : 1 ≤ maxEntries)
    (room : files.length ≤ maxEntries) (mounts : mounted fw machine = some (root, state))
    (answered : Answers fw root (specifiedAnswers files) state) :
    ∃ after, (eosfsListPath fw maxEntries).run machine =
      .ok (some (if (files.takeWhile SpecifiedInfo.stamped).isEmpty then
          (tableEntries machine.eosfs maxEntries).map listedEntry
        else (files.takeWhile SpecifiedInfo.stamped).map SpecifiedInfo.listed), after) := by
  obtain ⟨complete, ended⟩ := complete_specifiedAnswers files
  obtain ⟨after, ran⟩ := run_eosfsListPath callable limit mounts answered complete ended
  have whole : (files.takeWhile SpecifiedInfo.stamped).take maxEntries =
      files.takeWhile SpecifiedInfo.stamped :=
    List.take_of_length_le (Nat.le_trans (List.takeWhile_prefix _).length_le room)
  refine ⟨after, ?_⟩
  rw [ran, entriesOf_specifiedAnswers, ← List.map_take, whole, List.isEmpty_map]

/-- Where the files are reported, their time stamps spell them, or nothing is read. -/
theorem spells_of_reportsFiles (callable : Callable machine)
    (set : initialTable storage = some machine.eosfs) (limit : 1 ≤ maxEntries)
    (room : files.length ≤ maxEntries) (mounts : mounted fw machine = some (root, state))
    (answered : Answers fw root (specifiedAnswers files) state)
    (reports : ReportsFiles fw machine maxEntries files) :
    SpellsNames files ∨ ResemblesTable files maxEntries := by
  obtain ⟨after, ran⟩ := run_eosfsListPath_specified callable limit room mounts answered
  obtain ⟨listed, _, ran', same⟩ := reports
  rw [ran] at ran'
  cases ran'
  by_cases empty : (files.takeWhile SpecifiedInfo.stamped).isEmpty = true
  · right
    have summaries : files.map (fun file => some file.summary) =
        (files.map SpecifiedInfo.summary).map some := (List.map_map).symm
    rw [if_pos empty, tableEntries_shown set, summaries] at same
    refine ⟨fun file first => ?_, (List.map_injective_iff.mpr (Option.some_injective _) same).symm⟩
    by_contra spelled
    obtain ⟨rest, rfl⟩ := List.head?_eq_some_iff.mp first
    rw [List.takeWhile_cons_of_pos (by simpa [SpecifiedInfo.stamped] using spelled)] at empty
    cases empty
  · left
    rw [if_neg empty, List.map_map] at same
    have length := congrArg List.length same
    rw [List.length_map, List.length_map] at length
    rw [(List.takeWhile_prefix _).eq_of_length length] at same
    intro file member
    have equal := List.map_inj_left.mp same file member
    rw [Function.comp_apply, file.shown_listed] at equal
    exact Option.some.inj equal

/-- `eosfs_list_path` reports the files of a directory, whose records are those of the
specification, if and only if their time stamps happen to spell them, or nothing is read and the
directory happens to hold what the entry table lists. The structure of the source has no time
stamps, so it finds them where it expects the attributes and the name. -/
theorem eosfsListPath_specified_iff (callable : Callable machine)
    (set : initialTable storage = some machine.eosfs) (limit : 1 ≤ maxEntries)
    (present : files ≠ []) (room : files.length ≤ maxEntries)
    (mounts : mounted fw machine = some (root, state))
    (answered : Answers fw root (specifiedAnswers files) state) :
    ReportsFiles fw machine maxEntries files ↔
      SpellsNames files ∨ ResemblesTable files maxEntries := by
  refine ⟨spells_of_reportsFiles callable set limit room mounts answered, ?_⟩
  obtain ⟨after, ran⟩ := run_eosfsListPath_specified callable limit room mounts answered
  rintro (spelled | ⟨unread, resembling⟩)
  · have all : files.takeWhile SpecifiedInfo.stamped = files := by
      apply List.takeWhile_eq_self_iff.mpr
      intro file member
      have name : file.stampName = file.fileName.take eosfsNameMax :=
        congrArg Prod.fst (spelled file member)
      rw [SpecifiedInfo.stamped, decide_eq_true_iff, name, Ne, take_name_eq_nil]
      exact file.named
    rw [all, if_neg (mt List.isEmpty_iff.mp present)] at ran
    refine ⟨_, after, ran, ?_⟩
    rw [List.map_map]
    refine List.map_congr_left fun file member => ?_
    rw [Function.comp_apply, file.shown_listed, spelled file member]
  · obtain ⟨file, rest, rfl⟩ := List.exists_cons_of_ne_nil present
    have unspelled : ¬ file.stamped = true := by
      rw [SpecifiedInfo.stamped, decide_eq_true_iff, not_not]
      exact unread file rfl
    rw [List.takeWhile_cons_of_neg unspelled, List.isEmpty_nil, if_pos rfl] at ran
    refine ⟨_, after, ran, ?_⟩
    rw [tableEntries_shown set, ← resembling, List.map_map]
    rfl

end Specified

/-! ## Three files -/

/-- A time stamp to the minute. Seconds and what follows are zero. -/
def timeStamp (year month day hour minute : Nat) : Vector UInt8 16 :=
  #v[UInt8.ofNat year, UInt8.ofNat (year / 256), UInt8.ofNat month, UInt8.ofNat day,
    UInt8.ofNat hour, UInt8.ofNat minute, 0, 0, 0, 0, 0, 0, 0, 0, 0, 0]

/-- A directory whose name is in the entry table, made at midnight. -/
def midnightFile : SpecifiedInfo where
  size := 90
  fileSize := 0
  physicalSize := 0
  createTime := timeStamp 2024 5 17 0 0
  lastAccessTime := timeStamp 2024 5 17 0 0
  modificationTime := timeStamp 2024 5 17 0 0
  attributes := 0x10
  fileName := text "boot"
  named := by decide
  short := by decide
  free := boot_free

/-- A text file that was written in the morning. -/
def morningFile : SpecifiedInfo where
  size := 102
  fileSize := 5
  physicalSize := 512
  createTime := timeStamp 2024 5 17 10 30
  lastAccessTime := timeStamp 2024 5 17 10 30
  modificationTime := timeStamp 2024 5 17 10 30
  attributes := 0x20
  fileName := text "readme.txt"
  named := by decide
  short := by decide
  free := by decide

/-- A file whose name is the one character that the hour and the minute of its creation spell. -/
def afternoonFile : SpecifiedInfo where
  size := 84
  fileSize := 7
  physicalSize := 512
  createTime := timeStamp 2024 5 17 16 48
  lastAccessTime := timeStamp 2024 5 18 9 15
  modificationTime := timeStamp 2024 5 18 9 15
  attributes := 0x20
  fileName := [0x3010]
  named := by decide
  short := by decide
  free := by decide

/-- A directory that was made at midnight is listed, as the first entry of the table, and a file
that was made in the afternoon is listed because its time stamp spells it. -/
theorem eosfsListPath_specified_stamps :
    ReportsFiles serving (initialised (specifiedAnswers [midnightFile])) 1 [midnightFile] ∧
      ReportsFiles serving (initialised (specifiedAnswers [afternoonFile])) 32 [afternoonFile] := by
  have spelled : SpellsNames [afternoonFile] := by
    intro file member
    obtain rfl := List.mem_singleton.mp member
    decide
  have resembling : ResemblesTable [midnightFile] 1 := by
    refine ⟨fun file first => ?_, by decide⟩
    cases first
    decide
  constructor
  · exact (eosfsListPath_specified_iff (callable_initialised _) initialTable_initialised
      (Nat.le_refl 1) (List.cons_ne_nil _ _) (show [midnightFile].length ≤ 1 from Nat.le_refl 1)
      (mounted_mounting _ _) (answers_serving 1 (specifiedAnswers [midnightFile]) [])).mpr
        (Or.inr resembling)
  · exact (eosfsListPath_specified_iff (callable_initialised _) initialTable_initialised
      (show 1 ≤ 32 by decide) (List.cons_ne_nil _ _) (show [afternoonFile].length ≤ 32 by decide)
      (mounted_mounting _ _) (answers_serving 1 (specifiedAnswers [afternoonFile]) [])).mpr
        (Or.inl spelled)

/-- A file that was written in the morning is listed under another name. -/
theorem morningFile_misread :
    ¬ ReportsFiles serving (initialised (specifiedAnswers [morningFile])) 32 [morningFile] := by
  intro reports
  rcases spells_of_reportsFiles (callable_initialised _) initialTable_initialised
      (show 1 ≤ 32 by decide) (show [morningFile].length ≤ 32 by decide) (mounted_mounting _ _)
      (answers_serving 1 (specifiedAnswers [morningFile]) []) reports with spelled | ⟨unread, _⟩
  · exact absurd (spelled morningFile List.mem_cons_self) (by decide)
  · exact absurd (unread morningFile rfl) (by decide)

end ExistentOS.Eosfs
