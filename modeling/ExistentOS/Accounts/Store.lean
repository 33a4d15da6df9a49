import ExistentOS.Library.Codecs
import ExistentOS.Storage

/-!
# The account record

`account_store_t` as bytes: a 32-bit magic, a 32-bit count and eight entries of
32 name units, 32 password units and a 32-bit admin word, all little-endian and
without padding. The layout is assembled from fixed-width codecs, so the record
is a bijection between its values and the byte lists of its width.
-/

namespace ExistentOS.Accounts

open Codecs

/-- `account_store_t`, as it is written to the store and read back. The current account is not a
part of it. -/
structure AccountStore where
  magic : UInt32
  count : UInt32
  entries : Vector Account fisixMaxUsers
  deriving DecidableEq

/-- `ACCOUNT_STORE_MAGIC`, by which `accounts_load` knows its own record. -/
def accountStoreMagic : UInt32 := 0x46555352

/-- A signed word is stored as its two's complement. -/
def int32 : Codec Int32 4 :=
  transport uint32 ⟨Int32.toUInt32, UInt32.toInt32, fun _ => rfl, fun _ => rfl⟩

/-- One text field: 32 units of two bytes, with whatever is behind the terminator. -/
def field : Codec (Vector CHAR16 (accountTextMax + 1)) (32 * 2) :=
  vector uint16 (accountTextMax + 1)

/-- One entry: name, password and admin word, 132 bytes together. -/
def entry : Codec Account (32 * 2 + (32 * 2 + 4)) :=
  transport (pair field (pair field int32))
    ⟨fun account => (account.name, account.password, account.admin),
      fun parts => ⟨parts.1, parts.2.1, parts.2.2⟩, fun _ => rfl, fun _ => rfl⟩

/-- `sizeof(account_store_t)`: two words and eight entries. -/
def storeWidth : Nat := 1064

/-- The whole record. The structure has no padding, since every part is a multiple of four bytes. -/
def store : Codec AccountStore storeWidth :=
  transport (pair uint32 (pair uint32 (vector entry fisixMaxUsers)))
    ⟨fun record => (record.magic, record.count, record.entries),
      fun parts => ⟨parts.1, parts.2.1, parts.2.2⟩, fun _ => rfl, fun _ => rfl⟩

/-- The record that describes the account storage. All eight entries are written, also those that
are not in use. -/
def record (storage : AccountStorage) : AccountStore :=
  ⟨accountStoreMagic, UInt32.ofNat storage.accountCount, storage.accounts⟩

/-- The header test of `accounts_load`: the magic and a count that the table has room for. The
entries are not tested. -/
def Admissible (found : AccountStore) : Prop :=
  found.magic = accountStoreMagic ∧ 0 < found.count ∧ found.count ≤ 8

instance (found : AccountStore) : Decidable (Admissible found) := by
  unfold Admissible
  infer_instance

/-- What `accounts_load` keeps of a record. Who is logged in is not taken from it. -/
def adopted (storage : AccountStorage) (found : AccountStore) : AccountStorage :=
  { storage with accountCount := found.count.toNat, accounts := found.entries }

/-- The bytes of a record: header words, then the entries one after the other. -/
theorem store_layout (found : AccountStore) :
    store.encode found = littleEndian 4 found.magic.toNat ++ (littleEndian 4 found.count.toNat ++
      found.entries.toList.flatMap fun account =>
        account.name.toList.flatMap (littleEndian 2 ·.toNat) ++
          (account.password.toList.flatMap (littleEndian 2 ·.toNat) ++
            littleEndian 4 account.admin.toUInt32.toNat)) := rfl

/-- The magic is the first word of the bytes. -/
theorem decode_magic (bytes : List UInt8) :
    (store.decode bytes).magic = UInt32.ofNat (value (bytes.take 4)) := rfl

/-- The count is the second word of the bytes. -/
theorem decode_count (bytes : List UInt8) :
    (store.decode bytes).count = UInt32.ofNat (value ((bytes.drop 4).take 4)) := rfl

/-- A count in range survives the conversion to the 32-bit word of the record. -/
theorem count_word (count : Nat) (bounded : count ≤ fisixMaxUsers) :
    (UInt32.ofNat count).toNat = count :=
  UInt32.toNat_ofNat_of_lt' (Nat.lt_of_le_of_lt bounded (by decide))

/-- A storage with a count in range is described by an admissible record. -/
theorem record_admissible (storage : AccountStorage) (positive : 1 ≤ storage.accountCount)
    (bounded : storage.accountCount ≤ fisixMaxUsers) : Admissible (record storage) := by
  have count := count_word storage.accountCount bounded
  refine ⟨rfl, ?_, ?_⟩
  · rw [UInt32.lt_iff_toNat_lt]
    simp only [record, count]
    exact positive
  · rw [UInt32.le_iff_toNat_le]
    simp only [record, count]
    exact bounded

/-- Adopting the record of a storage restores its count and entries. -/
theorem adopted_record (before storage : AccountStorage)
    (bounded : storage.accountCount ≤ fisixMaxUsers) :
    adopted before (record storage) =
      { storage with currentAccount := before.currentAccount } := by
  simp only [adopted, record, count_word storage.accountCount bounded]

/-- An adopted admissible record is described by itself again. -/
theorem record_adopted (storage : AccountStorage) (found : AccountStore)
    (admissible : Admissible found) : record (adopted storage found) = found := by
  obtain ⟨magic, _, _⟩ := admissible
  cases found
  simp only [record, adopted, UInt32.ofNat_toNat, AccountStore.mk.injEq, and_true]
  exact magic.symm

/-- Adopting puts the count in range, since the header test has bounded it. -/
theorem adopted_count (storage : AccountStorage) (found : AccountStore)
    (admissible : Admissible found) :
    1 ≤ (adopted storage found).accountCount ∧
      (adopted storage found).accountCount ≤ fisixMaxUsers := by
  obtain ⟨_, positive, bounded⟩ := admissible
  rw [UInt32.lt_iff_toNat_lt] at positive
  rw [UInt32.le_iff_toNat_le] at bounded
  exact ⟨positive, bounded⟩

end ExistentOS.Accounts
