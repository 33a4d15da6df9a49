import ExistentOS.Accounts.Persistence

/-!
# The store file

How the bytes of the store file and the account table determine each other. The
record is adopted as a whole or not at all, on the strength of its length, its
magic and its count; nothing else about the entries is examined.
-/

namespace ExistentOS.Accounts

open Programs Terminated Codecs

variable {File τ : Type} [DecidableEq File]

/-- The header conditions on the bytes of the file. Nothing is asked of the entries behind it. -/
def Accepted (bytes : List UInt8) : Prop :=
  storeWidth ≤ bytes.length ∧ value (bytes.take 4) = accountStoreMagic.toNat ∧
    1 ≤ value ((bytes.drop 4).take 4) ∧ value ((bytes.drop 4).take 4) ≤ fisixMaxUsers

instance (bytes : List UInt8) : Decidable (Accepted bytes) := by
  unfold Accepted
  infer_instance

/-- A four-byte slice is the number it is decoded to. -/
theorem word_toNat (bytes : List UInt8) (short : bytes.length ≤ 4) :
    (UInt32.ofNat (value bytes)).toNat = value bytes := by
  apply UInt32.toNat_ofNat_of_lt'
  calc value bytes < 256 ^ bytes.length := value_bound bytes
    _ ≤ 256 ^ 4 := Nat.pow_le_pow_right (by decide) short
    _ = UInt32.size := by decide

/-- The header test of the decoded record is a test of its first eight bytes. -/
theorem admissible_iff (bytes : List UInt8) :
    Admissible (store.decode bytes) ↔ value (bytes.take 4) = accountStoreMagic.toNat ∧
      1 ≤ value ((bytes.drop 4).take 4) ∧ value ((bytes.drop 4).take 4) ≤ fisixMaxUsers := by
  have magic := word_toNat (bytes.take 4) (List.length_take_le 4 bytes)
  have count := word_toNat ((bytes.drop 4).take 4) (List.length_take_le 4 _)
  rw [Admissible, decode_magic, decode_count, UInt32.lt_iff_toNat_lt, UInt32.le_iff_toNat_le,
    ← UInt32.toNat_inj, magic, count]
  exact Iff.rfl

/-- The start of a file is a whole admissible record exactly if its header is
accepted. -/
theorem accepted_iff (bytes : List UInt8) :
    ((bytes.take storeWidth).length = storeWidth ∧
      Admissible (store.decode (bytes.take storeWidth))) ↔ Accepted bytes := by
  have whole : (bytes.take storeWidth).length = storeWidth ↔ storeWidth ≤ bytes.length := by
    rw [List.length_take]
    omega
  have head : (bytes.take storeWidth).take 4 = bytes.take 4 := by
    rw [List.take_take]
    rfl
  have next : ((bytes.take storeWidth).drop 4).take 4 = (bytes.drop 4).take 4 := by
    rw [List.drop_take, List.take_take]
    rfl
  rw [admissible_iff, whole, head, next]
  exact Iff.rfl

/-- A load adopts exactly the files whose header is accepted. -/
theorem adoptedBytes_take (storage : AccountStorage) (bytes : List UInt8) :
    adoptedBytes storage (bytes.take storeWidth) =
      if Accepted bytes then adopted storage (store.decode (bytes.take storeWidth)) else storage := by
  simp only [adoptedBytes, accepted_iff]

/-! ## Round trips -/

/-- The units of a field, each as two bytes, the lower one first. -/
def units (field : Vector CHAR16 (accountTextMax + 1)) : List UInt8 :=
  field.toList.flatMap (littleEndian 2 ·.toNat)

/-- The bytes that describe a table: the magic, the count and for each entry 32
name units, 32 password units and the admin word. -/
def layout (storage : AccountStorage) : List UInt8 :=
  littleEndian 4 0x46555352 ++ (littleEndian 4 storage.accountCount ++
    storage.accounts.toList.flatMap fun account =>
      units account.name ++ (units account.password ++ littleEndian 4 account.admin.toUInt32.toNat))

/-- A save writes the layout of the table. -/
theorem record_layout (storage : AccountStorage) :
    store.encode (record storage) = layout storage := by
  have count : littleEndian 4 (UInt32.ofNat storage.accountCount).toNat =
      littleEndian 4 storage.accountCount := by
    rw [UInt32.toNat_ofNat']
    exact littleEndian_mod 4 storage.accountCount
  rw [store_layout, layout, ← count]
  rfl

/-- The layout has the size of the record. -/
theorem layout_length (storage : AccountStorage) : (layout storage).length = storeWidth := by
  rw [← record_layout]
  exact store.encode_length _

/-- Adopting a saved table restores its count and entries. -/
theorem adoptedBytes_layout (before storage : AccountStorage) (rest : List UInt8)
    (positive : 1 ≤ storage.accountCount) (bounded : storage.accountCount ≤ fisixMaxUsers) :
    adoptedBytes before ((layout storage ++ rest).take storeWidth) =
      { storage with currentAccount := before.currentAccount } := by
  have admissible := record_admissible storage positive bounded
  rw [List.take_left' (layout_length storage), adoptedBytes, ← record_layout, store.decode_encode,
    if_pos ⟨store.encode_length _, admissible⟩, adopted_record before storage bounded]

/-- The layout of an adopted table is the start of the file it came from. -/
theorem layout_adopted (storage : AccountStorage) (bytes : List UInt8) (accepted : Accepted bytes) :
    layout (adopted storage (store.decode (bytes.take storeWidth))) = bytes.take storeWidth := by
  obtain ⟨width, admissible⟩ := (accepted_iff bytes).mpr accepted
  rw [← record_layout, record_adopted _ _ admissible, store.encode_decode _ width]

/-- A file that starts with the layout of a table with a count in range is
accepted. -/
theorem accepted_of_layout (storage : AccountStorage) (bytes : List UInt8)
    (positive : 1 ≤ storage.accountCount) (bounded : storage.accountCount ≤ fisixMaxUsers)
    (starts : layout storage = bytes.take storeWidth) : Accepted bytes := by
  apply (accepted_iff bytes).mp
  rw [← starts, ← record_layout, store.decode_encode]
  exact ⟨store.encode_length _, record_admissible storage positive bounded⟩

/-- On a working volume, saving and initialising are inverse to each other as far
as the first `storeWidth` bytes and the adopted tables go. A table that is saved
comes back with nobody logged in; a file is adopted exactly if its header is
accepted, and is then what the next save writes. -/
theorem storeFormat_roundTrip (resolve : Text → File) (device : Firmware τ)
    (machine : Machine (Volume File × τ)) (working : Working machine) :
    (1 ≤ machine.accounts.accountCount → machine.accounts.accountCount ≤ fisixMaxUsers →
      ∃ saved, (accountsSave (Volume.firmware resolve device)).run machine = .ok (true, saved) ∧
        ((saved.firmware.1.contents (resolve storeName)).getD []).take storeWidth =
          layout machine.accounts ∧
        ∀ image, ∃ loaded, (accountsInit (Volume.firmware resolve device)).run
            (saved.withAccounts image) = .ok ((), loaded) ∧
          loaded.accounts = { machine.accounts with currentAccount := -1 }) ∧
    ∀ bytes, machine.firmware.1.contents (resolve storeName) = some bytes →
      ∃ loaded, (accountsInit (Volume.firmware resolve device)).run machine = .ok ((), loaded) ∧
        loaded.accounts.currentAccount = -1 ∧
        (layout loaded.accounts = bytes.take storeWidth ↔ Accepted bytes) ∧
        (Accepted bytes → ∃ saved, (accountsSave (Volume.firmware resolve device)).run loaded =
            .ok (true, saved) ∧
          saved.firmware.1.contents (resolve storeName) = some bytes) ∧
        (¬ Accepted bytes → loaded.accounts.accountCount = 1 ∧
          IsBuiltIn loaded.accounts.accounts[0]) := by
  constructor
  · intro positive bounded
    obtain ⟨result, saved, ran, frame, faults, stored⟩ := run_accountsSave resolve device machine
    obtain ⟨rfl, contents⟩ := working.saved stored (store.encode_length _)
    rw [record_layout] at contents
    have file : contentOf saved.firmware.1 (resolve storeName) = layout machine.accounts ++
        (contentOf machine.firmware.1 (resolve storeName)).drop storeWidth := by
      rw [contentOf, contents, Function.update_self, Option.getD_some]
    refine ⟨saved, ran, ?_, ?_⟩
    · rw [← contentOf, file, List.take_left' (layout_length _)]
    · intro image
      have again : Working (saved.withAccounts image) := (working.after frame faults).withAccounts image
      obtain ⟨loaded, account, reran, _, table, _, _⟩ := again.init resolve device
      refine ⟨loaded, reran, ?_⟩
      rw [table, withAccounts_firmware, file, adoptedBytes_layout _ _ _ positive bounded]
      rfl
  · intro bytes present
    obtain ⟨loaded, account, ran, isBuiltIn, table, contents, again⟩ := working.init resolve device
    have file : contentOf machine.firmware.1 (resolve storeName) = bytes := by
      rw [contentOf, present, Option.getD_some]
    rw [file, adoptedBytes_take] at table
    by_cases accepted : Accepted bytes
    · rw [if_pos accepted] at table
      have written : layout loaded.accounts = bytes.take storeWidth := by
        rw [table, layout_adopted _ _ accepted]
      refine ⟨loaded, ran, by rw [table]; rfl, iff_of_true written accepted, fun _ => ?_,
        fun rejected => absurd accepted rejected⟩
      obtain ⟨result, saved, resaved, _, _, stored⟩ := run_accountsSave resolve device loaded
      obtain ⟨rfl, final⟩ := again.saved stored (store.encode_length _)
      refine ⟨saved, resaved, ?_⟩
      have before : contentOf loaded.firmware.1 (resolve storeName) = bytes := by
        rw [contentOf, contents, present, Option.getD_some]
      rw [final, Function.update_self, record_layout, written, before, List.take_append_drop]
    · rw [if_neg accepted] at table
      have first : loaded.accounts.accounts[0] = account := by
        rw [table]
        exact fallback_first machine.accounts account
      refine ⟨loaded, ran, by rw [table]; rfl, iff_of_false ?_ accepted,
        fun adopted => absurd adopted accepted, fun _ => ⟨by rw [table]; rfl, first ▸ isBuiltIn⟩⟩
      intro starts
      apply accepted
      apply accepted_of_layout loaded.accounts bytes _ _ starts
      · rw [table]
        exact Nat.le_refl 1
      · rw [table]
        exact (by decide : 1 ≤ fisixMaxUsers)

/-- A table whose fields are filled with units of their own, up to the last one, without regard to
terminators. -/
def numberedTable (first : CHAR16) (count : Nat) : AccountStorage where
  accounts := Vector.ofFn fun index =>
    { name := Vector.ofFn fun unit => first + UInt16.ofNat (64 * index + unit)
      password := Vector.ofFn fun unit => first + UInt16.ofNat (64 * index + 32 + unit)
      admin := Int32.ofNat index }
  accountCount := count
  currentAccount := 2

/-- A volume whose store holds such a table and some bytes more. -/
def numberedFile : List UInt8 := layout (numberedTable 7 3) ++ [1, 2, 3]

/-- Another table comes back from its save; the one of the file is adopted, and the next save
writes the very bytes of the file. -/
theorem storeFormat_roundTrip_numbered :
    (∃ saved, (accountsSave (Volume.firmware id Volume.quiet)).run
        ((Volume.started (fun _ => some numberedFile) []).withAccounts (numberedTable 1000 8)) =
          .ok (true, saved) ∧
      ((saved.firmware.1.contents storeName).getD []).take storeWidth =
        layout (numberedTable 1000 8) ∧
      ∀ image, ∃ loaded, (accountsInit (Volume.firmware id Volume.quiet)).run
          (saved.withAccounts image) = .ok ((), loaded) ∧
        loaded.accounts = { numberedTable 1000 8 with currentAccount := -1 }) ∧
    ∃ loaded, (accountsInit (Volume.firmware id Volume.quiet)).run
        ((Volume.started (fun _ => some numberedFile) []).withAccounts (numberedTable 1000 8)) =
          .ok ((), loaded) ∧
      layout loaded.accounts = layout (numberedTable 7 3) ∧
      ∃ saved, (accountsSave (Volume.firmware id Volume.quiet)).run loaded = .ok (true, saved) ∧
        saved.firmware.1.contents storeName = some numberedFile := by
  obtain ⟨saving, loading⟩ := storeFormat_roundTrip id Volume.quiet
    ((Volume.started (fun _ => some numberedFile) []).withAccounts (numberedTable 1000 8)) ⟨rfl, rfl⟩
  have start : numberedFile.take storeWidth = layout (numberedTable 7 3) :=
    List.take_left' (layout_length _)
  have accepted : Accepted numberedFile :=
    accepted_of_layout (numberedTable 7 3) _ (by decide) (by decide) start.symm
  obtain ⟨loaded, ran, _, adopts, saves, _⟩ := loading numberedFile rfl
  refine ⟨saving (by decide) (by decide), loaded, ran, ?_, saves accepted⟩
  rw [adopts.mpr accepted, start]

/-! ## What the entries may contain -/

/-- A table whose strings end inside their fields. On such a table no string loop of the module
leaves the field it is given. -/
structure Readable (storage : AccountStorage) : Prop where
  inside : storage.accountCount ≤ fisixMaxUsers
  terminated : ∀ index : Fin fisixMaxUsers, index.val < storage.accountCount →
    0 ∈ (storage.accounts.get index).name.toList ∧ 0 ∈ (storage.accounts.get index).password.toList

/-- A readable table whose names differ, so that every account of it can be reached by its name. -/
structure Robust (storage : AccountStorage) : Prop extends Readable storage where
  distinct : ∀ first second : Fin fisixMaxUsers, first < second →
    second.val < storage.accountCount →
    scan (storage.accounts.get first).name.toList ≠ scan (storage.accounts.get second).name.toList

/-- The 32 units at an offset of the file, terminated or not. -/
def fieldAt (bytes : List UInt8) (offset : Nat) : List CHAR16 :=
  (List.range 32).map fun unit => UInt16.ofNat (value ((bytes.drop (offset + 2 * unit)).take 2))

/-- The name and the password of an entry of the file. -/
def nameAt (bytes : List UInt8) (index : Nat) : List CHAR16 := fieldAt bytes (8 + 132 * index)
def passwordAt (bytes : List UInt8) (index : Nat) : List CHAR16 :=
  fieldAt bytes (8 + 132 * index + 64)

/-- The entries in use end their strings inside the fields and differ in their
names. -/
def WellFormed (bytes : List UInt8) : Prop :=
  (∀ index < value ((bytes.drop 4).take 4), 0 ∈ nameAt bytes index ∧ 0 ∈ passwordAt bytes index) ∧
    ∀ second < value ((bytes.drop 4).take 4), ∀ first < second,
      scan (nameAt bytes first) ≠ scan (nameAt bytes second)

instance (bytes : List UInt8) : Decidable (WellFormed bytes) := by
  unfold WellFormed
  infer_instance

/-- A slice of a slice is a slice of the whole. -/
theorem slice_slice (bytes : List UInt8) (outer width inner size : Nat)
    (inside : inner + size ≤ width) :
    ((((bytes.drop outer).take width).drop inner).take size) =
      (bytes.drop (outer + inner)).take size := by
  rw [List.drop_take, List.take_take, List.drop_drop, Nat.min_eq_left (by omega)]

/-- A decoded field has the units at its offset. -/
theorem field_slice (bytes : List UInt8) (offset : Nat) :
    (field.decode ((bytes.drop offset).take 64)).toList = fieldAt bytes offset := by
  apply List.ext_getElem
  · rw [Vector.length_toList, fieldAt, List.length_map, List.length_range]
    rfl
  · intro unit _ inRange
    rw [fieldAt, List.length_map, List.length_range] at inRange
    have inside : unit * 2 + 2 ≤ 64 := by omega
    simp only [Vector.getElem_toList, fieldAt, List.getElem_map, List.getElem_range]
    simp only [field, vector, Vector.getElem_ofFn, uint16]
    rw [slice_slice bytes offset 64 (unit * 2) 2 inside, Nat.mul_comm unit 2]

/-- An entry of a decoded record is decoded field by field. -/
theorem decode_entry (bytes : List UInt8) (index : Fin fisixMaxUsers) :
    (store.decode bytes).entries.get index =
      ⟨field.decode ((bytes.drop (8 + 132 * index)).take 64),
        field.decode ((bytes.drop (8 + 132 * index + 64)).take 64),
        int32.decode ((bytes.drop (8 + 132 * index + 128)).take 4)⟩ := by
  have decoded : (store.decode bytes).entries.get index =
      entry.decode ((bytes.drop (8 + 132 * index)).take 132) := by
    have offset : 4 + (4 + index.val * (32 * 2 + (32 * 2 + 4))) = 8 + 132 * index := by omega
    simp only [store, transport, pair, vector, get_ofFn, Equiv.coe_fn_symm_mk, List.drop_drop,
      offset]
  have parts : entry.decode ((bytes.drop (8 + 132 * index)).take 132) =
      ⟨field.decode (((bytes.drop (8 + 132 * index)).take 132).drop 0 |>.take 64),
        field.decode ((((bytes.drop (8 + 132 * index)).take 132).drop 64).take 64),
        int32.decode ((((bytes.drop (8 + 132 * index)).take 132).drop 64).drop 64)⟩ := rfl
  have word : ((bytes.drop (8 + 132 * index)).take 132).drop 128 =
      (bytes.drop (8 + 132 * index + 128)).take 4 := by
    rw [List.drop_take, List.drop_drop]
  rw [decoded, parts, slice_slice _ _ _ 0 64 (by decide), slice_slice _ _ _ 64 64 (by decide),
    List.drop_drop, word, Nat.add_zero (8 + 132 * index.val)]

/-- The entries of a decoded record are those of the file. -/
theorem decode_fields (bytes : List UInt8) (index : Fin fisixMaxUsers) :
    ((store.decode bytes).entries.get index).name.toList = nameAt bytes index ∧
      ((store.decode bytes).entries.get index).password.toList = passwordAt bytes index := by
  rw [decode_entry, field_slice, field_slice]
  exact ⟨rfl, rfl⟩

/-- The built-in table is robust, whatever was in the memory before. -/
theorem fallback_robust (storage : AccountStorage) (account : Account)
    (isBuiltIn : IsBuiltIn account) : Robust (fallback storage account) := by
  obtain ⟨name, password, _⟩ := isBuiltIn
  have first := fallback_first storage account
  refine ⟨⟨(by decide : 1 ≤ fisixMaxUsers), ?_⟩, ?_⟩
  · intro index below
    obtain rfl : index = ⟨0, by decide⟩ := Fin.ext (Nat.lt_one_iff.mp below)
    change 0 ∈ (fallback storage account).accounts[0].name.toList ∧
      0 ∈ (fallback storage account).accounts[0].password.toList
    rw [first, ← scan_isSome, ← scan_isSome, name, password]
    exact ⟨rfl, rfl⟩
  · intro earlier later before below
    have last : later.val < 1 := below
    omega

/-- An adopted table is robust exactly if its file was well-formed. -/
theorem adopted_robust_iff (storage : AccountStorage) (bytes : List UInt8)
    (admissible : Admissible (store.decode bytes)) :
    Robust (adopted storage (store.decode bytes)) ↔ WellFormed bytes := by
  have count : (adopted storage (store.decode bytes)).accountCount =
      value ((bytes.drop 4).take 4) := by
    rw [adopted, decode_count, word_toNat _ (List.length_take_le 4 _)]
  have bounded := (adopted_count storage _ admissible).2
  have fields := decode_fields bytes
  constructor
  · rintro ⟨⟨_, terminated⟩, distinct⟩
    rw [count] at terminated distinct bounded
    constructor
    · intro index below
      have found := terminated ⟨index, by omega⟩ below
      rwa [adopted, (fields _).1, (fields _).2] at found
    · intro second below first before
      have different := distinct ⟨first, by omega⟩ ⟨second, by omega⟩ before below
      rwa [adopted, (fields _).1, (fields _).1] at different
  · rintro ⟨terminated, distinct⟩
    refine ⟨⟨bounded, ?_⟩, ?_⟩
    · intro index below
      rw [adopted, (fields _).1, (fields _).2]
      exact terminated index (count ▸ below)
    · intro first second before below
      rw [adopted, (fields _).1, (fields _).1]
      exact distinct second (count ▸ below) first before

/-- A record whose only entry has a name of 32 units without a terminator. -/
def overlongStore : AccountStore :=
  ⟨accountStoreMagic, 1, Vector.replicate _ ⟨Vector.replicate _ 0x61, blankField _, 0⟩⟩

/-- Initialisation adopts a name without a terminator, and a login that compares
with it leaves the field. -/
theorem accountsInit_overlong_name :
    ∃ after, (accountsInit (Volume.firmware id Volume.quiet)).run
        (Volume.started (fun _ => some (store.encode overlongStore)) []) = .ok ((), after) ∧
      ¬ Robust after.accounts ∧
      (accountsLogin (List.replicate 33 0x61 ++ [0]) [0]).run after = .error .fault := by
  have working : Working (Volume.started (fun _ => some (store.encode overlongStore)) []) :=
    ⟨rfl, rfl⟩
  obtain ⟨after, account, ran, _, table, _, _⟩ := working.init id Volume.quiet
  have width := store.encode_length overlongStore
  have admissible : Admissible overlongStore := by decide
  have content : contentOf (Volume.started (fun _ => some (store.encode overlongStore)) []).firmware.1
      (id storeName) = store.encode overlongStore := rfl
  rw [content, List.take_of_length_le (Nat.le_of_eq width), adoptedBytes, store.decode_encode,
    if_pos ⟨width, admissible⟩] at table
  have entries : after.accounts.accounts = overlongStore.entries := by rw [table]; rfl
  have count : after.accounts.accountCount = 1 := by rw [table]; rfl
  refine ⟨after, ran, ?_, ?_⟩
  · intro robust
    have ended := (robust.terminated ⟨0, by decide⟩ (by rw [count]; decide)).1
    have endless : (0 : CHAR16) ∉ overlongStore.entries[0].name.toList := by decide
    rw [entries] at ended
    exact endless ended
  · have lost : searchFrom ⟨overlongStore.entries, 1, after.accounts.currentAccount⟩
        (credentialsMatch (List.replicate 33 0x61 ++ [0]) [0]) 1 0 = none := by
      simp only [searchFrom]
      decide
    have same : after.accounts = ⟨overlongStore.entries, 1, after.accounts.currentAccount⟩ := by
      rw [← entries, ← count]
    rw [run_accountsLogin, search, count, same, lost]
    exact congrArg Except.error (by decide)

/-- After initialisation the table is robust exactly if the bytes received from the store were
rejected by their header or well-formed. Only the header is tested, so that a file with a good
header and unterminated names is adopted. -/
theorem accountsInit_robust_iff (resolve : Text → File) (device : Firmware τ)
    (machine : Machine (Volume File × τ)) :
    ∃ after, (accountsInit (Volume.firmware resolve device)).run machine = .ok ((), after) ∧
      (Robust after.accounts ↔ ¬ Accepted (readBack (resolve storeName) machine) ∨
        WellFormed (readBack (resolve storeName) machine)) := by
  obtain ⟨after, account, ran, isBuiltIn, frame, _, _⟩ := run_accountsInit resolve device machine
  refine ⟨after, ran, ?_⟩
  have whole : (readBack (resolve storeName) machine).take storeWidth =
      readBack (resolve storeName) machine := List.take_of_length_le (readBack_length _ machine)
  have table := adoptedBytes_take (fallback machine.accounts account)
    (readBack (resolve storeName) machine)
  rw [whole] at table
  rw [frame.accounts, withAccounts_accounts, table]
  by_cases accepted : Accepted (readBack (resolve storeName) machine)
  · have admissible := ((accepted_iff _).mpr accepted).2
    rw [whole] at admissible
    rw [if_pos accepted, adopted_robust_iff _ _ admissible]
    simp [accepted]
  · rw [if_neg accepted]
    exact iff_of_true (fallback_robust machine.accounts account isBuiltIn) (Or.inl accepted)

end ExistentOS.Accounts
