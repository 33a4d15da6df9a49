import ExistentOS.Accounts.TornSaves

/-!
# What one user may change

Tables that differ in one user's password only, and the operations that lead from one
such table to another: a password change, and a save that is torn anywhere between two
of them.
-/

namespace ExistentOS.Accounts

open Programs Terminated Codecs

/-- A user without administrator rights is logged in. Nobody being logged in is not enough,
because then there is no account whose password could change. -/
structure Restricted (storage : AccountStorage) : Prop where
  loggedIn : 0 ≤ storage.currentAccount
  ordinary : accountsIsAdmin storage = some false

/-- Nothing but one user's password has changed in the table. Who is logged in is left open, so
that the tables of two different starts can be compared. -/
structure OthersKept (user : Int) (before after : AccountStorage) : Prop where
  count : after.accountCount = before.accountCount
  names : ∀ index : Fin fisixMaxUsers,
    (after.accounts.get index).name = (before.accounts.get index).name
  admins : ∀ index : Fin fisixMaxUsers,
    (after.accounts.get index).admin = (before.accounts.get index).admin
  passwords : ∀ index : Fin fisixMaxUsers, (index.val : Int) ≠ user →
    (after.accounts.get index).password = (before.accounts.get index).password

/-- Nothing but the password of the user logged in has changed. That user is still the one logged
in, which is what lets steps be chained. -/
structure OwnPasswordOnly (before after : AccountStorage) : Prop where
  current : after.currentAccount = before.currentAccount
  others : OthersKept before.currentAccount before after

section Relations

variable {user : Int} {first second third : AccountStorage}

/-- A table keeps the others of itself. -/
theorem OthersKept.refl (storage : AccountStorage) : OthersKept user storage storage :=
  ⟨rfl, fun _ => rfl, fun _ => rfl, fun _ _ => rfl⟩

/-- Keeping the others does not depend on the order of the tables. -/
theorem OthersKept.symm (kept : OthersKept user first second) : OthersKept user second first where
  count := kept.count.symm
  names index := (kept.names index).symm
  admins index := (kept.admins index).symm
  passwords index other := (kept.passwords index other).symm

/-- Two steps that keep the others keep them together. -/
theorem OthersKept.trans (early : OthersKept user first second)
    (late : OthersKept user second third) : OthersKept user first third where
  count := late.count.trans early.count
  names index := (late.names index).trans (early.names index)
  admins index := (late.admins index).trans (early.admins index)
  passwords index other := (late.passwords index other).trans (early.passwords index other)

/-- Tables with the same entries differ in nothing. -/
theorem OthersKept.of_eq (count : second.accountCount = first.accountCount)
    (entries : second.accounts = first.accounts) : OthersKept user first second := by
  refine ⟨count, ?_, ?_, ?_⟩
  · intro index
    rw [entries]
  · intro index
    rw [entries]
  · intro index _
    rw [entries]

/-- A table differs from itself in no password. -/
theorem OwnPasswordOnly.refl (storage : AccountStorage) : OwnPasswordOnly storage storage :=
  ⟨rfl, OthersKept.refl storage⟩

/-- Two changes of the own password are one. The user who is logged in stays the same in between. -/
theorem OwnPasswordOnly.trans (early : OwnPasswordOnly first second)
    (late : OwnPasswordOnly second third) : OwnPasswordOnly first third where
  current := late.current.trans early.current
  others := early.others.trans (early.current ▸ late.others)

end Relations

/-- The rights of the user logged in do not change with the own password. -/
theorem OwnPasswordOnly.restricted {before after : AccountStorage}
    (own : OwnPasswordOnly before after) (restricted : Restricted before) : Restricted after := by
  obtain ⟨loggedIn, ordinary⟩ := restricted
  refine ⟨by rw [own.current]; exact loggedIn, ?_⟩
  have inside : before.currentAccount.toNat < fisixMaxUsers := by
    by_contra outside
    have absent : before.accounts[before.currentAccount.toNat]? = none :=
      Vector.getElem?_eq_none (Nat.le_of_not_lt outside)
    simp [accountsIsAdmin, absent, Int.not_lt.mpr loggedIn] at ordinary
  have same := own.others.admins ⟨before.currentAccount.toNat, inside⟩
  have found : before.accounts[before.currentAccount.toNat]? =
      some before.accounts[before.currentAccount.toNat] := Vector.getElem?_eq_getElem inside
  have found' : after.accounts[before.currentAccount.toNat]? =
      some after.accounts[before.currentAccount.toNat] := Vector.getElem?_eq_getElem inside
  simp only [get_eq_getElem] at same
  simp only [accountsIsAdmin, own.current, Int.not_lt.mpr loggedIn, found, found', if_false,
    Option.bind_eq_bind, Option.bind_some, same] at ordinary ⊢
  exact ordinary

/-! ## Changing a password -/

/-- A changed account differs in its password only. -/
theorem repassword_own {account changed : Account} {new : Memory}
    (ran : repassword new account = some changed) :
    changed.name = account.name ∧ changed.admin = account.admin := by
  simp only [repassword, Option.bind_eq_bind, Option.bind_eq_some_iff] at ran
  obtain ⟨field, _, stored⟩ := ran
  rw [← Option.some.inj stored]
  exact ⟨rfl, rfl⟩

/-- Changing the password of the current account changes nothing else. -/
theorem changed_own {storage updated : AccountStorage} {new : Memory}
    (ran : changed storage new = some updated) (loggedIn : 0 ≤ storage.currentAccount) :
    OwnPasswordOnly storage updated := by
  unfold changed withAccount at ran
  split at ran
  · rename_i inside
    obtain ⟨account, repassworded, rfl⟩ := Option.map_eq_some_iff.mp ran
    obtain ⟨name, admin⟩ := repassword_own repassworded
    have slot : ∀ index : Fin fisixMaxUsers,
        (storage.accounts.set storage.currentAccount.toNat account).get index =
          if index.val = storage.currentAccount.toNat then account
          else storage.accounts.get index :=
      get_set storage.accounts storage.currentAccount.toNat inside account
    have kept : ∀ index : Fin fisixMaxUsers,
        ((storage.accounts.set storage.currentAccount.toNat account).get index).name =
            (storage.accounts.get index).name ∧
          ((storage.accounts.set storage.currentAccount.toNat account).get index).admin =
            (storage.accounts.get index).admin := by
      intro index
      rw [slot]
      by_cases own : index.val = storage.currentAccount.toNat
      · obtain rfl : index = ⟨storage.currentAccount.toNat, inside⟩ := Fin.ext own
        rw [if_pos rfl]
        exact ⟨name, admin⟩
      · rw [if_neg own]
        exact ⟨rfl, rfl⟩
    refine ⟨rfl, rfl, fun index => (kept index).1, fun index => (kept index).2, ?_⟩
    intro index other
    have foreign : index.val ≠ storage.currentAccount.toNat := by omega
    rw [slot, if_neg foreign]
  · cases ran

/-! ## Torn saves of one user's table -/

/-- The count of a saved table stands behind the magic. -/
theorem layout_count (storage : AccountStorage) :
    uint32.decode (((layout storage).drop 4).take 4) = UInt32.ofNat storage.accountCount := by
  have decoded : (store.decode (layout storage)).count = UInt32.ofNat storage.accountCount := by
    rw [← record_layout, store.decode_encode]
    rfl
  exact decoded

/-- The entries of a saved table stand where the loader reads them. -/
theorem layout_entry (storage : AccountStorage) (index : Fin fisixMaxUsers) :
    Account.mk (field.decode (((layout storage).drop (8 + 132 * index)).take 64))
        (field.decode (((layout storage).drop (8 + 132 * index + 64)).take 64))
        (int32.decode (((layout storage).drop (8 + 132 * index + 128)).take 4)) =
      storage.accounts.get index := by
  rw [← decode_entry, ← record_layout, store.decode_encode]
  rfl

/-- What both tables store at an offset is stored there by every mixture of them. -/
theorem decode_torn {α : Type} {width : Nat} (codec : Codec α width) {new old : AccountStorage}
    (count : Nat) {offset : Nat} (inside : offset + width ≤ storeWidth)
    (same : codec.decode (((layout new).drop offset).take width) =
      codec.decode (((layout old).drop offset).take width)) :
    codec.decode (((torn new old count).drop offset).take width) =
      codec.decode (((layout old).drop offset).take width) :=
  decode_cut codec (layout new) (layout old) count offset
    ((layout_length new).trans (layout_length old).symm) (by rw [layout_length]; exact inside) same

/-- The fields that two tables share are those of every mixture. -/
theorem torn_entry {new old : AccountStorage} (count : Nat) (index : Fin fisixMaxUsers) :
    ((new.accounts.get index).name = (old.accounts.get index).name →
      ((store.decode (torn new old count)).entries.get index).name =
        (old.accounts.get index).name) ∧
    ((new.accounts.get index).password = (old.accounts.get index).password →
      ((store.decode (torn new old count)).entries.get index).password =
        (old.accounts.get index).password) ∧
    ((new.accounts.get index).admin = (old.accounts.get index).admin →
      ((store.decode (torn new old count)).entries.get index).admin =
        (old.accounts.get index).admin) := by
  have last : index.val ≤ 7 := Nat.le_of_lt_succ index.isLt
  have width : storeWidth = 1064 := rfl
  rw [decode_entry, ← layout_entry new, ← layout_entry old]
  refine ⟨fun same => ?_, fun same => ?_, fun same => ?_⟩
  · exact decode_torn field count (by omega) same
  · exact decode_torn field count (by omega) same
  · exact decode_torn int32 count (by omega) same

/-- A mixture of two tables that differ from a third one in one user's password only is a
table that differs from it in that password only. -/
theorem torn_own {reference new old : AccountStorage} (count : Nat)
    (range : 1 ≤ reference.accountCount ∧ reference.accountCount ≤ fisixMaxUsers)
    (ownNew : OwnPasswordOnly reference new) (ownOld : OwnPasswordOnly reference old) :
    ∃ mixed, layout mixed = torn new old count ∧ OwnPasswordOnly reference mixed := by
  have newRange : 1 ≤ new.accountCount ∧ new.accountCount ≤ fisixMaxUsers := by
    rw [ownNew.others.count]
    exact range
  have oldRange : 1 ≤ old.accountCount ∧ old.accountCount ≤ fisixMaxUsers := by
    rw [ownOld.others.count]
    exact range
  have accepted := torn_accepted new old count newRange oldRange
  have whole : (torn new old count).take storeWidth = torn new old count :=
    List.take_of_length_le (Nat.le_of_eq (torn_length new old count))
  have same := layout_adopted reference (torn new old count) accepted
  rw [whole] at same
  have agree := ownNew.others.symm.trans (ownOld.others)
  refine ⟨_, same, rfl, ?_, ?_, ?_, ?_⟩
  · have words : uint32.decode (((torn new old count).drop 4).take 4) =
        uint32.decode (((layout old).drop 4).take 4) := by
      apply decode_torn uint32 count (by decide)
      rw [layout_count, layout_count, agree.count]
    rw [layout_count, ownOld.others.count] at words
    have exact := congrArg UInt32.toNat words
    rw [count_word _ range.2] at exact
    exact exact
  · intro index
    exact ((torn_entry count index).1 (agree.names index).symm).trans (ownOld.others.names index)
  · intro index
    exact ((torn_entry count index).2.2 (agree.admins index).symm).trans
      (ownOld.others.admins index)
  · intro index other
    exact ((torn_entry count index).2.1 (agree.passwords index other).symm).trans
      (ownOld.others.passwords index other)

end ExistentOS.Accounts
