import ExistentOS.Accounts.Updates

/-!
# Torn saves

A save overwrites the stored record in place. When the write stops after some
bytes, the file starts with those bytes of the new record and goes on with the
old one. The loader examines only the magic and the count, which survive every
cut, so it adopts the mixture whatever it is.
-/

namespace ExistentOS.Accounts

open Programs Terminated Codecs

/-- The first bytes of a new record over an old one, which is what a write leaves that stops on
its way. -/
def torn (new old : AccountStorage) (count : Nat) : List UInt8 :=
  (layout new).take count ++ (layout old).drop count

/-- A torn record has the size of a record. -/
theorem torn_length (new old : AccountStorage) (count : Nat) :
    (torn new old count).length = storeWidth := by
  rw [torn, List.length_append, List.length_take, List.length_drop, layout_length, layout_length]
  omega

/-- A torn record is the old one exactly if the records agree before the cut. -/
theorem torn_eq_old (new old : AccountStorage) (count : Nat) :
    torn new old count = layout old ↔ (layout new).take count = (layout old).take count := by
  have split := List.take_append_drop count (layout old)
  constructor
  · intro same
    exact List.append_cancel_right (same.trans split.symm)
  · intro agree
    rw [torn, agree, split]

/-- A torn record is the new one exactly if the records agree behind the cut. -/
theorem torn_eq_new (new old : AccountStorage) (count : Nat) :
    torn new old count = layout new ↔ (layout new).drop count = (layout old).drop count := by
  have split := List.take_append_drop count (layout new)
  constructor
  · intro same
    exact (List.append_cancel_left (same.trans split.symm)).symm
  · intro agree
    rw [torn, ← agree, split]

/-- The header of a table with a small count: the magic and one byte of count. -/
theorem layout_header (storage : AccountStorage) (bounded : storage.accountCount ≤ fisixMaxUsers) :
    ∃ rest, layout storage = 0x52 :: 0x53 :: 0x55 :: 0x46 ::
      UInt8.ofNat storage.accountCount :: 0 :: 0 :: 0 :: rest := by
  have small : storage.accountCount < 256 := Nat.lt_of_le_of_lt bounded (by decide)
  have magic : littleEndian 4 0x46555352 = [0x52, 0x53, 0x55, 0x46] := by decide
  have count : littleEndian 4 storage.accountCount =
      [UInt8.ofNat storage.accountCount, 0, 0, 0] := by
    simp only [littleEndian, Nat.div_eq_of_lt small]
    rfl
  refine ⟨storage.accounts.toList.flatMap fun account => units account.name ++
    (units account.password ++ littleEndian 4 account.admin.toUInt32.toNat), ?_⟩
  rw [layout, magic, count]
  rfl

/-- Cutting between two records keeps the magic and one of the two counts. -/
theorem torn_header (new old : AccountStorage) (count : Nat)
    (newBounded : new.accountCount ≤ fisixMaxUsers)
    (oldBounded : old.accountCount ≤ fisixMaxUsers) :
    ∃ users rest, (users = new.accountCount ∨ users = old.accountCount) ∧
      torn new old count = 0x52 :: 0x53 :: 0x55 :: 0x46 ::
        UInt8.ofNat users :: 0 :: 0 :: 0 :: rest := by
  obtain ⟨newRest, newLayout⟩ := layout_header new newBounded
  obtain ⟨oldRest, oldLayout⟩ := layout_header old oldBounded
  rw [torn, newLayout, oldLayout]
  match count with
  | 0 | 1 | 2 | 3 | 4 => exact ⟨old.accountCount, oldRest, Or.inr rfl, rfl⟩
  | 5 | 6 | 7 => exact ⟨new.accountCount, oldRest, Or.inl rfl, rfl⟩
  | count + 8 => exact ⟨new.accountCount, newRest.take count ++ oldRest.drop count, Or.inl rfl, rfl⟩

/-- The loader accepts every torn record, as both headers are good and the count lies within one
word. -/
theorem torn_accepted (new old : AccountStorage) (count : Nat)
    (newRange : 1 ≤ new.accountCount ∧ new.accountCount ≤ fisixMaxUsers)
    (oldRange : 1 ≤ old.accountCount ∧ old.accountCount ≤ fisixMaxUsers) :
    Accepted (torn new old count) := by
  obtain ⟨users, rest, either, header⟩ := torn_header new old count newRange.2 oldRange.2
  have range : 1 ≤ users ∧ users ≤ fisixMaxUsers := by
    rcases either with rfl | rfl
    · exact newRange
    · exact oldRange
  have small : users < 256 := Nat.lt_of_le_of_lt range.2 (by decide)
  have word : value (((torn new old count).drop 4).take 4) = users := by
    rw [header]
    simp only [List.drop_succ_cons, List.drop_zero, List.take_succ_cons, List.take_zero, value,
      UInt8.toNat_ofNat']
    simpa using small
  refine ⟨Nat.le_of_eq (torn_length new old count).symm, ?_, ?_, ?_⟩
  · have magic : value [0x52, 0x53, 0x55, 0x46] = accountStoreMagic.toNat := by decide
    rw [header]
    exact magic
  · rw [word]
    exact range.1
  · rw [word]
    exact range.2

/-- Tables in range with the same layout have the same count and entries. -/
theorem layout_injective (first second : AccountStorage)
    (firstBounded : first.accountCount ≤ fisixMaxUsers)
    (secondBounded : second.accountCount ≤ fisixMaxUsers)
    (same : layout first = layout second) :
    first.accountCount = second.accountCount ∧ first.accounts = second.accounts := by
  rw [← record_layout, ← record_layout] at same
  have records := encode_injective store _ _ same
  have counts := congrArg (fun found => found.count.toNat) records
  simp only [record, count_word _ firstBounded, count_word _ secondBounded] at counts
  exact ⟨counts, congrArg AccountStore.entries records⟩

/-- A file that held a whole record holds a torn one after a cut write. -/
theorem torn_file (new old : AccountStorage) (count : Nat) (content : List UInt8)
    (whole : content.take storeWidth = layout old) :
    (overlay content 0 ((layout new).take count)).take storeWidth = torn new old count := by
  have moved : ((layout new).take count).length = min count storeWidth := by
    rw [List.length_take, layout_length]
  have cut : (layout old).drop (min count storeWidth) = (layout old).drop count := by
    rcases Nat.le_total count storeWidth with below | above
    · rw [Nat.min_eq_left below]
    · have oldEnd : (layout old).length ≤ count := by rw [layout_length]; exact above
      rw [Nat.min_eq_right above, List.drop_eq_nil_of_le oldEnd,
        List.drop_eq_nil_of_le (Nat.le_of_eq (layout_length old))]
  have short : ((layout new).take count).take storeWidth = (layout new).take count := by
    apply List.take_of_length_le
    rw [moved]
    exact Nat.min_le_right count storeWidth
  rw [overlay_start, List.take_append, short, moved, torn, ← cut, ← whole, List.drop_take]

section Reboot

variable {File τ : Type} [DecidableEq File]

/-- A schedule that lets a save reach its write and then moves only some bytes. -/
def cutWrite (status : EfiStatus) (count : Nat) : List Fault :=
  List.replicate 5 Fault.absent ++ [⟨status, none, some count⟩]

/-- A save whose write is cut leaves the start of the record in the file. -/
theorem run_cut_save (resolve : Text → File) (device : Firmware τ)
    (machine : Machine (Volume File × τ)) (available : machine.canLocate = true)
    (status : EfiStatus) (count : Nat)
    (schedule : machine.firmware.1.faults = cutWrite status count) :
    ∃ result after, (accountsSave (Volume.firmware resolve device)).run machine =
        .ok (result, after) ∧
      after.firmware.1.contents (resolve storeName) = some (overlay
        (contentOf machine.firmware.1 (resolve storeName)) 0
        ((layout machine.accounts).take count)) := by
  obtain ⟨result, after, ran, _, _, saved⟩ := run_accountsSave resolve device machine
  refine ⟨result, after, ran, ?_⟩
  have calm : ∀ calls < 5, efiError (machine.firmware.1.faultAt calls).status = false := by
    intro calls early
    rw [Volume.faultAt, schedule]
    obtain rfl | rfl | rfl | rfl | rfl :
        calls = 0 ∨ calls = 1 ∨ calls = 2 ∨ calls = 3 ∨ calls = 4 := by omega
    all_goals rfl
  cases saved with
  | refused reason _ =>
    exfalso
    rcases reason with unavailable | ⟨calls, early, failed⟩ | ⟨_, keeping⟩
    · rw [available] at unavailable
      cases unavailable
    · rw [calm calls (by omega)] at failed
      cases failed
    · rw [save_creates] at keeping
      cases keeping
  | unpositioned failed _ =>
    rw [calm 4 (by decide)] at failed
    cases failed
  | written moved transferred contents =>
    have cap : (machine.firmware.1.faultAt 5).writeAtMost = some count := by
      rw [Volume.faultAt, schedule]
      rfl
    rw [contents, Function.update_self, transferred, cap, record_layout]
    rfl

/-- After a torn save, the next initialisation adopts the torn record. -/
theorem init_torn (resolve : Text → File) (device : Firmware τ) (new old : AccountStorage)
    (count : Nat) (newRange : 1 ≤ new.accountCount ∧ new.accountCount ≤ fisixMaxUsers)
    (oldRange : 1 ≤ old.accountCount ∧ old.accountCount ≤ fisixMaxUsers)
    {restarted : Machine (Volume File × τ)} (working : Working restarted) (content : List UInt8)
    (whole : content.take storeWidth = layout old)
    (left : restarted.firmware.1.contents (resolve storeName) =
      some (overlay content 0 ((layout new).take count))) :
    ∃ loaded, (accountsInit (Volume.firmware resolve device)).run restarted = .ok ((), loaded) ∧
      layout loaded.accounts = torn new old count ∧ loaded.accounts.currentAccount = -1 ∧
      loaded.accounts.accountCount ≤ fisixMaxUsers := by
  obtain ⟨loaded, account, ran, _, table, _, _⟩ := working.init resolve device
  have accepted := torn_accepted new old count newRange oldRange
  have full : (torn new old count).take storeWidth = torn new old count :=
    List.take_of_length_le (Nat.le_of_eq (torn_length new old count))
  have adopt := adoptedBytes_take (fallback restarted.accounts account) (torn new old count)
  rw [full, if_pos accepted] at adopt
  rw [contentOf, left, Option.getD_some, torn_file new old count content whole, adopt] at table
  have admissible := ((accepted_iff _).mpr accepted).2
  have same := layout_adopted (fallback restarted.accounts account) _ accepted
  rw [full] at admissible same
  refine ⟨loaded, ran, table ▸ same, ?_, ?_⟩
  · rw [table]
    rfl
  · rw [table]
    exact (adopted_count _ _ admissible).2

/-- An update whose write is cut leaves a torn record, which the next
initialisation adopts. -/
theorem run_torn_update (resolve : Text → File) (device : Firmware τ) (request : Request)
    {machine : Machine (Volume File × τ)} {stored updated : AccountStorage} {status : EfiStatus}
    {count : Nat} (available : machine.canLocate = true)
    (memoryRange : 1 ≤ machine.accounts.accountCount ∧
      machine.accounts.accountCount ≤ fisixMaxUsers)
    (storedRange : 1 ≤ stored.accountCount ∧ stored.accountCount ≤ fisixMaxUsers)
    (whole : (contentOf machine.firmware.1 (resolve storeName)).take storeWidth = layout stored)
    (passed : request.guard machine.accounts = some true)
    (computed : request.table machine.accounts = some updated)
    (schedule : machine.firmware.1.faults = cutWrite status count) :
    ∃ result after, (request.perform (Volume.firmware resolve device)).run machine =
        .ok (result, after) ∧
      ∀ restarted, Working restarted →
        restarted.firmware.1.contents = after.firmware.1.contents →
        ∃ loaded, (accountsInit (Volume.firmware resolve device)).run restarted =
            .ok ((), loaded) ∧
          layout loaded.accounts = torn updated stored count ∧
          loaded.accounts.currentAccount = -1 ∧ loaded.accounts.accountCount ≤ fisixMaxUsers := by
  have updatedRange := request.table_range passed computed memoryRange
  obtain ⟨result, after, ran, left⟩ := run_cut_save resolve device
    (machine.withAccounts updated) available status count schedule
  refine ⟨result, after, ?_, ?_⟩
  · rw [request.run_perform, passed, computed]
    exact ran
  · intro restarted working contents
    exact init_torn resolve device updated stored count updatedRange storedRange working _ whole
      (by rw [contents, left]; rfl)

/-- Cutting the write of an update after any number of bytes leaves a record that
the next initialisation adopts with nobody logged in: the new bytes up to the cut
and the old bytes behind it. It is the old table exactly if the records agree
before the cut, and the new one exactly if they agree behind it. -/
theorem tornUpdate_exact (resolve : Text → File) (device : Firmware τ) (request : Request)
    (machine : Machine (Volume File × τ)) (stored updated : AccountStorage) (status : EfiStatus)
    (count : Nat) (available : machine.canLocate = true)
    (memoryRange : 1 ≤ machine.accounts.accountCount ∧
      machine.accounts.accountCount ≤ fisixMaxUsers)
    (storedRange : 1 ≤ stored.accountCount ∧ stored.accountCount ≤ fisixMaxUsers)
    (whole : (contentOf machine.firmware.1 (resolve storeName)).take storeWidth = layout stored)
    (passed : request.guard machine.accounts = some true)
    (computed : request.table machine.accounts = some updated)
    (schedule : machine.firmware.1.faults = cutWrite status count) :
    ∃ result after, (request.perform (Volume.firmware resolve device)).run machine =
        .ok (result, after) ∧
      ∀ restarted, Working restarted →
        restarted.firmware.1.contents = after.firmware.1.contents →
        ∃ loaded, (accountsInit (Volume.firmware resolve device)).run restarted =
            .ok ((), loaded) ∧
          layout loaded.accounts =
            (layout updated).take count ++ (layout stored).drop count ∧
          loaded.accounts.currentAccount = -1 ∧ loaded.accounts.accountCount ≤ fisixMaxUsers ∧
          (loaded.accounts = { stored with currentAccount := -1 } ↔
            (layout updated).take count = (layout stored).take count) ∧
          (loaded.accounts = { updated with currentAccount := -1 } ↔
            (layout updated).drop count = (layout stored).drop count) := by
  obtain ⟨result, after, ran, reboot⟩ := run_torn_update resolve device request available
    memoryRange storedRange whole passed computed schedule
  have updatedRange := request.table_range passed computed memoryRange
  refine ⟨result, after, ran, fun restarted working contents => ?_⟩
  obtain ⟨loaded, reran, mixture, nobody, bounded⟩ := reboot restarted working contents
  have identified : ∀ table : AccountStorage, table.accountCount ≤ fisixMaxUsers →
      (loaded.accounts = { table with currentAccount := -1 } ↔
        torn updated stored count = layout table) := by
    intro table tableBounded
    rw [← mixture]
    constructor
    · intro same
      rw [same]
      rfl
    · intro same
      obtain ⟨counts, entries⟩ := layout_injective _ _ bounded tableBounded same
      cases storage : loaded.accounts
      simp_all
  refine ⟨loaded, reran, mixture, nobody, bounded, ?_, ?_⟩
  · rw [identified stored storedRange.2, torn_eq_old]
  · rw [identified updated updatedRange.2, torn_eq_new]

end Reboot

/-! ## A mixture -/

/-- The administrator's table with a second user. -/
def twoUsers : AccountStorage :=
  (added adminTable (constant "bob") (constant "secret")).getD adminTable

/-- A machine whose store holds the administrator's table and whose next write
stops after five bytes. -/
def tearing : Machine (Volume Text × Unit) :=
  (Volume.started (fun _ => some (layout adminTable)) (cutWrite efiDeviceError 5)).withAccounts
    adminTable

/-- The schedule and contents of this machine meet the conditions under which
torn saves are described. -/
theorem tearing_ready :
    tearing.canLocate = true ∧
      (contentOf tearing.firmware.1 (id storeName)).take storeWidth = layout adminTable ∧
      Request.guard adminTable (.add (constant "bob") (constant "secret")) = some true ∧
      Request.table adminTable (.add (constant "bob") (constant "secret")) = some twoUsers ∧
      tearing.firmware.1.faults = cutWrite efiDeviceError 5 := by
  refine ⟨rfl, ?_, by decide, by decide, rfl⟩
  exact List.take_of_length_le (Nat.le_of_eq (layout_length adminTable))

/-- After a write that stops behind the count, the next initialisation has two
accounts of which one is blank: neither the old table nor the new one. -/
theorem tornUpdate_mixture :
    ∃ result after, (accountsAdd (Volume.firmware id Volume.quiet) (constant "bob")
        (constant "secret")).run tearing = .ok (result, after) ∧
      ∃ loaded, (accountsInit (Volume.firmware id Volume.quiet)).run
          (Volume.started after.firmware.1.contents []) = .ok ((), loaded) ∧
        loaded.accounts ≠ { adminTable with currentAccount := -1 } ∧
        loaded.accounts ≠ { twoUsers with currentAccount := -1 } := by
  obtain ⟨available, whole, passed, computed, schedule⟩ := tearing_ready
  obtain ⟨result, after, ran, reboot⟩ := run_torn_update id Volume.quiet
    (.add (constant "bob") (constant "secret")) available (by decide)
    (by decide) whole passed computed schedule
  obtain ⟨loaded, reran, mixture, _, _⟩ :=
    reboot (Volume.started after.firmware.1.contents []) ⟨rfl, rfl⟩ rfl
  refine ⟨result, after, ran, loaded, reran, ?_, ?_⟩
  · intro same
    rw [same] at mixture
    have agree := (torn_eq_old twoUsers adminTable 5).mp mixture.symm
    exact absurd agree (by decide)
  · intro same
    rw [same] at mixture
    have agree := (torn_eq_new twoUsers adminTable 5).mp mixture.symm
    exact absurd agree (by decide)

/-- The machine whose write stops after five bytes adopts the mixture. -/
theorem tornUpdate_exact_tearing :
    ∃ result after, (Request.perform (Volume.firmware id Volume.quiet)
        (.add (constant "bob") (constant "secret"))).run tearing = .ok (result, after) ∧
      ∀ restarted, Working restarted →
        restarted.firmware.1.contents = after.firmware.1.contents →
        ∃ loaded, (accountsInit (Volume.firmware id Volume.quiet)).run restarted =
            .ok ((), loaded) ∧
          layout loaded.accounts = (layout twoUsers).take 5 ++ (layout adminTable).drop 5 ∧
          loaded.accounts.currentAccount = -1 := by
  obtain ⟨available, whole, passed, computed, schedule⟩ := tearing_ready
  obtain ⟨result, after, ran, reboot⟩ := tornUpdate_exact id Volume.quiet
    (.add (constant "bob") (constant "secret")) tearing adminTable twoUsers efiDeviceError 5
    available (by decide) (by decide) whole passed computed schedule
  refine ⟨result, after, ran, fun restarted working contents => ?_⟩
  obtain ⟨loaded, reran, mixture, nobody, _⟩ := reboot restarted working contents
  exact ⟨loaded, reran, mixture, nobody⟩

end ExistentOS.Accounts
