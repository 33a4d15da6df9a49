import ExistentOS.Accounts.Operations
import ExistentOS.Volume

/-!
# Saving and loading on a volume

What `accounts_save` does to the store file and what `accounts_load` does to the
account table, for every fault schedule. Opening the store takes four calls, so
the fifth and sixth entries of the schedule decide the positioning and the write
of a save, and the fifth decides the read of a load. Both routines return on
every volume; neither can leave a buffer.
-/

namespace ExistentOS.Accounts

open Programs Terminated Codecs

variable {File τ : Type} [DecidableEq File]

/-- The text of the store's path, by which a volume knows the file. -/
def storeName : Text := text "\\fisix_users.db"

/-- The path of the store is a string. -/
theorem scan_storePath : scan storePath = some storeName := by decide

/-- The modes of `accounts_save` and `accounts_load`. Only saving creates a file. -/
def saveMode : UInt64 := efiFileModeRead ||| efiFileModeWrite ||| efiFileModeCreate

/-- The store is opened for writing. -/
theorem save_writes : Volume.writes saveMode = true := by decide

/-- The store is created where it is missing, so the first save needs no file. -/
theorem save_creates : Volume.creates saveMode = true := by decide

/-- Loading creates no file. -/
theorem load_keeps : Volume.creates efiFileModeRead = false := by decide

/-- The content of a file, a missing one counting as empty. -/
def contentOf (volume : Volume File) (file : File) : List UInt8 := (volume.contents file).getD []

/-- The effect of a save on the contents and its result, for the store file and
the bytes of the record. -/
inductive Saved (file : File) (data : List UInt8) (machine : Machine (Volume File × τ))
    (after : Volume File) : Bool → Prop
  | refused (reason : Volume.Refused file saveMode machine)
      (contents : after.contents = machine.firmware.1.contents) : Saved file data machine after false
  | unpositioned (failed : efiError (machine.firmware.1.faultAt 4).status = true)
      (contents : after.contents = Function.update machine.firmware.1.contents file
        (some (contentOf machine.firmware.1 file))) : Saved file data machine after false
  | written (moved : List UInt8)
      (transferred : moved = capped (machine.firmware.1.faultAt 5).writeAtMost data)
      (contents : after.contents = Function.update machine.firmware.1.contents file
        (some (overlay (contentOf machine.firmware.1 file) 0 moved))) :
      Saved file data machine after
        (decide (efiError (machine.firmware.1.faultAt 5).status = false ∧ moved.length = storeWidth))

/-- Positioning a fresh handle at the start leaves it fresh, unless the call
fails and changes nothing. -/
theorem seek_start {file : File} {mode : UInt64} {calls : Nat} {before after : Volume File}
    {handle : Handle} (fresh : Volume.Fresh file mode calls before after handle) :
    (after.seek handle 0).1 = after.fault.status ∧
      Volume.Fresh file mode (calls + 1) before (after.seek handle 0).2 handle := by
  obtain ⟨opened, contents, existed, faults⟩ := fresh
  by_cases failed : efiError after.fault.status = true
  · have refused : after.seek handle 0 = (after.fault.status, after.spent) := by
      simp [Volume.seek, opened, failed]
    rw [refused]
    exact ⟨rfl, opened, contents, existed, by simp [faults]⟩
  · have status : after.fault.status = efiSuccess := by simpa [efiError] using failed
    have moved : after.seek handle 0 = (efiSuccess,
        after.spent.setOpened handle (some ⟨file, 0, Volume.writes mode⟩)) := by
      simp [Volume.seek, opened, failed]
    rw [moved]
    exact ⟨status.symm, by simp, contents, existed, by simp [faults]⟩

/-- Writing through a fresh writable handle overwrites the start of the file. -/
theorem write_fresh {file : File} {mode : UInt64} {calls : Nat} {before after : Volume File}
    {handle : Handle} (fresh : Volume.Fresh file mode calls before after handle)
    (writable : Volume.writes mode = true) (data : List UInt8) :
    (after.writePath handle data).1 = ((before.faultAt calls).status,
        (capped (before.faultAt calls).writeAtMost data).length) ∧
      (after.writePath handle data).2.contents = Function.update before.contents file
        (some (overlay (contentOf before file) 0 (capped (before.faultAt calls).writeAtMost data))) ∧
      (after.writePath handle data).2.faults = before.faults.drop (calls + 1) := by
  obtain ⟨opened, contents, existed, faults⟩ := fresh
  have fault : after.fault = before.faultAt calls := by
    rw [Volume.fault, Volume.faultAt_of_drop faults, Nat.add_zero]
  have stored : after.contents file = some (contentOf before file) := by
    rw [contents, Function.update_self, contentOf]
  have writtenPath : after.writePath handle data =
      ((after.fault.status, (capped after.fault.writeAtMost data).length),
        (after.spent.setContents file (some (overlay (contentOf before file) 0
          (capped after.fault.writeAtMost data)))).setOpened handle
          (some ⟨file, (capped after.fault.writeAtMost data).length, Volume.writes mode⟩)) := by
    simp [Volume.writePath, opened, stored, writable]
  rw [writtenPath, fault]
  exact ⟨rfl, by simp [contents], by simp [faults]⟩

/-- A save changes nothing but the store file, in one of three ways. -/
theorem wp_accountsSave (resolve : Text → File) (device : Firmware τ) {E : Stop → Prop}
    {machine : Machine (Volume File × τ)} (Q : Bool → Machine (Volume File × τ) → Prop)
    (next : ∀ after result, OnlyFirmware machine after →
      after.firmware.1.faults <:+ machine.firmware.1.faults →
      Saved (resolve storeName) (store.encode (record machine.accounts)) machine after.firmware.1
        result → Q result after) :
    wp (accountsSave (Volume.firmware resolve device)) Q E machine := by
  rw [accountsSave, wp_bind, accountsOpen]
  refine Volume.wp_openOnVolume resolve device storePath storeName saveMode 0 scan_storePath _
    ?_ ?_
  · intro after frame contents faults reason
    exact next after false frame faults (.refused reason contents)
  intro opened handle frame₁ fresh₁ reachable
  simp only [wp_bind, wp_get]
  refine Volume.wp_setPosition resolve device handle 0 _ (fun positioned frame₂ volume₂ => ?_)
  obtain ⟨status, fresh₂⟩ := seek_start fresh₁
  rw [← volume₂] at fresh₂
  have consumed : opened.firmware.1.fault = machine.firmware.1.faultAt 4 := by
    rw [Volume.fault, Volume.faultAt_of_drop fresh₁.faults]
  have sameAccounts : opened.accounts = machine.accounts := frame₁.accounts
  rw [status, consumed, wp_ite]
  refine ⟨fun failed => ?_, fun _ => ?_⟩
  · rw [wp_bind]
    refine Volume.wp_closeFile resolve device handle _ (fun closed frame₃ volume₃ => ?_)
    rw [wp_pure]
    refine next closed false ((frame₁.then frame₂).then frame₃) ?_ (.unpositioned failed ?_)
    · rw [volume₃]
      simp only [Volume.setOpened_faults, Volume.spent_faults, fresh₂.faults, List.drop_drop]
      exact List.drop_suffix _ _
    · simp [volume₃, fresh₂.contents, contentOf]
  rw [wp_bind]
  refine Volume.wp_writeFile resolve device handle _ _ (fun written frame₃ volume₃ => ?_)
  obtain ⟨answer, contents, faults⟩ := write_fresh fresh₂ save_writes
    (store.encode (record opened.accounts))
  rw [answer, wp_ite]
  rw [← volume₃] at contents faults
  rw [sameAccounts] at contents
  have frame := (frame₁.then frame₂).then frame₃
  have consumed₅ : written.firmware.1.faults <:+ machine.firmware.1.faults :=
    faults ▸ List.drop_suffix _ _
  have stored : ∀ closed : Machine (Volume File × τ),
      closed.firmware.1.contents = written.firmware.1.contents → ∀ result,
      result = decide (efiError (machine.firmware.1.faultAt 5).status = false ∧
        (capped (machine.firmware.1.faultAt 5).writeAtMost
          (store.encode (record machine.accounts))).length = storeWidth) →
      Saved (resolve storeName) (store.encode (record machine.accounts)) machine closed.firmware.1
        result := by
    rintro closed same result rfl
    exact .written _ rfl (same.trans contents)
  rw [sameAccounts]
  refine ⟨fun failed => ?_, fun worked => ?_⟩
  · rw [wp_bind]
    refine Volume.wp_closeFile resolve device handle _ (fun closed frame₄ volume₄ => ?_)
    rw [wp_pure]
    refine next closed false (frame.then frame₄) ?_ (stored closed (by simp [volume₄]) false ?_)
    · rw [volume₄, Volume.setOpened_faults, Volume.spent_faults]
      exact (List.drop_suffix _ _).trans consumed₅
    · apply Eq.symm
      rw [decide_eq_false_iff_not]
      rintro ⟨good, full⟩
      exact failed.elim (fun bad => by simp [good] at bad) (fun short => short full)
  · rw [wp_bind]
    refine Volume.wp_flushFile resolve device handle _ (fun flushed frame₄ volume₄ => ?_)
    rw [wp_bind]
    refine Volume.wp_closeFile resolve device handle _ (fun closed frame₅ volume₅ => ?_)
    rw [wp_pure]
    have kept : flushed.firmware.1.contents = written.firmware.1.contents ∧
        flushed.firmware.1.faults <:+ written.firmware.1.faults := by
      rcases volume₄ with same | spent
      · exact ⟨congrArg Volume.contents same, same ▸ List.suffix_refl _⟩
      · exact ⟨by rw [spent, Volume.spent_contents],
          by rw [spent, Volume.spent_faults]; exact List.drop_suffix _ _⟩
    refine next closed true ((frame.then frame₄).then frame₅) ?_
      (stored closed (by simp [volume₅, kept.1]) true ?_)
    · rw [volume₅, Volume.setOpened_faults, Volume.spent_faults]
      exact (List.drop_suffix _ _).trans (kept.2.trans consumed₅)
    · simpa using worked

/-! ## Loading -/

/-- The table after a load that read the given bytes: that of the record, if the header is
accepted, and otherwise the one before. -/
def adoptedBytes (storage : AccountStorage) (bytes : List UInt8) : AccountStorage :=
  if bytes.length = storeWidth ∧ Admissible (store.decode bytes) then
    adopted storage (store.decode bytes)
  else storage

/-- The bytes that a load receives: none when the file cannot be opened or read,
otherwise the start of the file as far as the schedule lets the read go. -/
def readBack (file : File) (machine : Machine (Volume File × τ)) : List UInt8 :=
  if Volume.Refused file efiFileModeRead machine ∨
      efiError (machine.firmware.1.faultAt 4).status = true then []
  else capped (machine.firmware.1.faultAt 4).readAtMost
    ((contentOf machine.firmware.1 file).take storeWidth)

omit [DecidableEq File] in
/-- A load receives no more than the record it asks for. -/
theorem readBack_length (file : File) (machine : Machine (Volume File × τ)) :
    (readBack file machine).length ≤ storeWidth := by
  unfold readBack
  split
  · exact Nat.zero_le storeWidth
  · exact Nat.le_trans (capped_length _ _) (List.length_take_le storeWidth _)

/-- Too few bytes are never adopted, so a missing store leaves the built-in table. -/
theorem adoptedBytes_nil (storage : AccountStorage) : adoptedBytes storage [] = storage := by
  have short : ([] : List UInt8).length ≠ storeWidth := by decide
  simp only [adoptedBytes, short, false_and, if_false]

/-- A fresh handle reads the start of its file. -/
theorem read_fresh {file : File} {mode : UInt64} {calls : Nat} {before after : Volume File}
    {handle : Handle} {bytes : List UInt8} (fresh : Volume.Fresh file mode calls before after handle)
    (stored : before.contents file = some bytes) :
    (after.readPath handle ⟨file, 0, Volume.writes mode⟩ storeWidth).1 =
        (if efiError (before.faultAt calls).status then ⟨(before.faultAt calls).status, 0, []⟩
        else ⟨efiSuccess, (capped (before.faultAt calls).readAtMost (bytes.take storeWidth)).length,
          capped (before.faultAt calls).readAtMost (bytes.take storeWidth)⟩) ∧
      (after.readPath handle ⟨file, 0, Volume.writes mode⟩ storeWidth).2.contents =
        before.contents ∧
      (after.readPath handle ⟨file, 0, Volume.writes mode⟩ storeWidth).2.faults =
        before.faults.drop (calls + 1) := by
  obtain ⟨opened, contents, existed, faults⟩ := fresh
  have fault : after.fault = before.faultAt calls := by
    rw [Volume.fault, Volume.faultAt_of_drop faults, Nat.add_zero]
  have unchanged : after.contents = before.contents := by
    rw [contents, stored, Option.getD_some, ← stored, Function.update_eq_self]
  have present : after.contents file = some bytes := by rw [unchanged, stored]
  by_cases failed : efiError (before.faultAt calls).status = true
  · have refused : after.readPath handle ⟨file, 0, Volume.writes mode⟩ storeWidth =
        (⟨(before.faultAt calls).status, 0, []⟩, after.spent) := by
      simp [Volume.readPath, fault, failed]
    rw [refused]
    exact ⟨by simp [failed], by simp [unchanged], by simp [faults]⟩
  · have answered : after.readPath handle ⟨file, 0, Volume.writes mode⟩ storeWidth =
        (⟨efiSuccess, (capped (before.faultAt calls).readAtMost (bytes.take storeWidth)).length,
          capped (before.faultAt calls).readAtMost (bytes.take storeWidth)⟩,
        after.spent.setOpened handle (some ⟨file,
          (capped (before.faultAt calls).readAtMost (bytes.take storeWidth)).length,
          Volume.writes mode⟩)) := by
      simp [Volume.readPath, fault, failed, present]
    rw [answered]
    exact ⟨by simp [failed], by simp [unchanged], by simp [faults]⟩

/-- The local record is complete whenever its header is examined. -/
theorem delivered_exact (bytes : List UInt8) :
    delivered ⟨efiSuccess, bytes.length, bytes⟩ = some
      (if bytes.length = storeWidth ∧ Admissible (store.decode bytes) then
        some (store.decode bytes) else none) := by
  by_cases whole : bytes.length = storeWidth
  · by_cases admissible : Admissible (store.decode bytes)
    · simp [delivered, Volume.error_success, whole, admissible]
    · simp [delivered, Volume.error_success, whole, admissible]
  · simp [delivered, whole]

/-- A load changes nothing but the account storage, and no file content. -/
theorem wp_accountsLoad (resolve : Text → File) (device : Firmware τ) {E : Stop → Prop}
    {machine : Machine (Volume File × τ)} (Q : Unit → Machine (Volume File × τ) → Prop)
    (next : ∀ after, OnlyFirmware (machine.withAccounts
        (adoptedBytes machine.accounts (readBack (resolve storeName) machine))) after →
      after.firmware.1.contents = machine.firmware.1.contents →
      after.firmware.1.faults <:+ machine.firmware.1.faults → Q () after) :
    wp (accountsLoad (Volume.firmware resolve device)) Q E machine := by
  rw [accountsLoad, wp_bind, accountsOpen]
  refine Volume.wp_openOnVolume resolve device storePath storeName efiFileModeRead 0
    scan_storePath _ ?_ ?_
  · intro after frame contents faults reason
    have nothing : readBack (resolve storeName) machine = [] := if_pos (Or.inl reason)
    rw [nothing, adoptedBytes_nil] at next
    exact next after frame contents faults
  intro opened handle frame₁ fresh₁ reachable
  obtain ⟨bytes, stored⟩ : ∃ bytes, machine.firmware.1.contents (resolve storeName) = some bytes := by
    rcases fresh₁.existed with present | creating
    · exact Option.isSome_iff_exists.mp present
    · rw [load_keeps] at creating
      cases creating
  simp only [wp_bind]
  refine Volume.wp_readFile resolve device handle storeWidth _ fresh₁.opened _
    (fun answered frame₂ volume₂ => ?_)
  obtain ⟨answer, contents, faults⟩ := read_fresh fresh₁ stored
  rw [answer]
  rw [← volume₂] at contents faults
  have frame := frame₁.then frame₂
  have finish : ∀ storage,
      storage = adoptedBytes machine.accounts (readBack (resolve storeName) machine) →
      wp (closeFile (Volume.firmware resolve device) handle) (fun _ => Q ()) E
        (answered.withAccounts storage) := by
    rintro storage rfl
    refine Volume.wp_closeFile resolve device handle _ (fun closed frame₃ volume₃ => ?_)
    refine next closed ?_ ?_ ?_
    · exact (frame.withAccounts _).then frame₃
    · simp [volume₃, contents]
    · rw [volume₃, Volume.setOpened_faults, Volume.spent_faults]
      exact (List.drop_suffix _ _).trans (faults ▸ List.drop_suffix _ _)
  have sameAccounts : answered.accounts = machine.accounts := frame.accounts
  by_cases failed : efiError (machine.firmware.1.faultAt 4).status = true
  · have nothing : readBack (resolve storeName) machine = [] := if_pos (Or.inr failed)
    have kept := finish answered.accounts (by rw [nothing, adoptedBytes_nil, sameAccounts])
    have rejected : delivered ⟨(machine.firmware.1.faultAt 4).status, 0, []⟩ = some none := by
      simp [delivered, failed]
    simpa [failed, rejected, orFault, orStop] using kept
  · have received : readBack (resolve storeName) machine =
        capped (machine.firmware.1.faultAt 4).readAtMost (bytes.take storeWidth) := by
      rw [readBack, if_neg (not_or.mpr ⟨reachable, failed⟩), contentOf, stored, Option.getD_some]
    have loaded := finish _ rfl
    rw [if_neg failed, delivered_exact, ← received]
    by_cases admitted : (readBack (resolve storeName) machine).length = storeWidth ∧
        Admissible (store.decode (readBack (resolve storeName) machine))
    · simpa [admitted, adoptedBytes, orFault, orStop, sameAccounts] using loaded
    · rw [adoptedBytes, if_neg admitted, ← sameAccounts] at loaded
      simpa [admitted, orFault, orStop] using loaded

/-! ## Initialisation -/

/-- The texts of the built-in account: its name, and below its password. -/
def adminName : Text := text "admin"

/-- The password of the account that `accounts_init` makes. -/
def adminPassword : Text := text "fisix"

/-- The account that initialisation sets up before it loads the store. What its fields hold
behind the terminators is left open. -/
def IsBuiltIn (account : Account) : Prop :=
  scan account.name.toList = some adminName ∧ scan account.password.toList = some adminPassword ∧
    account.admin = 1

/-- The built-in table: one account, nobody logged in, all other slots as they
were. -/
def fallback (storage : AccountStorage) (account : Account) : AccountStorage :=
  ⟨storage.accounts.set 0 account, 1, -1⟩

/-- The first account of the built-in table. -/
theorem fallback_first (storage : AccountStorage) (account : Account) :
    (fallback storage account).accounts[0] = account := Vector.getElem_set_self _

/-- The constants of the built-in account are stored completely. -/
theorem builtIn_exact (storage : AccountStorage) :
    ∃ account, builtIn storage = some (fallback storage account) ∧ IsBuiltIn account := by
  obtain ⟨name, copiedName, readName⟩ := copy_valid storage.accounts[0].name (constant "admin")
    adminName (by decide) (by decide)
  obtain ⟨password, copiedPassword, readPassword⟩ := copy_valid storage.accounts[0].password
    (constant "fisix") adminPassword (by decide) (by decide)
  refine ⟨⟨name, password, 1⟩, ?_, readName, readPassword, rfl⟩
  have inside : 0 < fisixMaxUsers := by decide
  simp [builtIn, withAccount, fill, inside, copiedName, copiedPassword, fallback]

/-- Initialisation installs the built-in table and then loads the store. -/
theorem wp_accountsInit (resolve : Text → File) (device : Firmware τ) {E : Stop → Prop}
    {machine : Machine (Volume File × τ)} (Q : Unit → Machine (Volume File × τ) → Prop)
    (next : ∀ after account, IsBuiltIn account → OnlyFirmware (machine.withAccounts
        (adoptedBytes (fallback machine.accounts account)
          (readBack (resolve storeName) machine))) after →
      after.firmware.1.contents = machine.firmware.1.contents →
      after.firmware.1.faults <:+ machine.firmware.1.faults → Q () after) :
    wp (accountsInit (Volume.firmware resolve device)) Q E machine := by
  obtain ⟨account, built, isBuiltIn⟩ := builtIn_exact machine.accounts
  simp only [accountsInit, wp_bind, wp_get, wp_orFault, built, Option.some.injEq, reduceCtorEq,
    false_implies, and_true]
  rintro fresh rfl
  rw [wp_modifyAccounts]
  refine wp_accountsLoad resolve device _ (fun after frame contents faults => ?_)
  exact next after account isBuiltIn frame contents faults

/-! ## Runs -/

/-- A save always returns, and tells whether everything was stored. -/
theorem run_accountsSave (resolve : Text → File) (device : Firmware τ)
    (machine : Machine (Volume File × τ)) :
    ∃ result after, (accountsSave (Volume.firmware resolve device)).run machine =
        .ok (result, after) ∧
      OnlyFirmware machine after ∧ after.firmware.1.faults <:+ machine.firmware.1.faults ∧
      Saved (resolve storeName) (store.encode (record machine.accounts)) machine after.firmware.1
        result :=
  (wp_total_iff _ (fun result after => OnlyFirmware machine after ∧
      after.firmware.1.faults <:+ machine.firmware.1.faults ∧
      Saved (resolve storeName) (store.encode (record machine.accounts)) machine after.firmware.1
        result) machine).mp
    (wp_accountsSave resolve device _ fun _ _ frame faults saved => ⟨frame, faults, saved⟩)

/-- Initialisation always returns, whatever is in the store and whichever calls fail. -/
theorem run_accountsInit (resolve : Text → File) (device : Firmware τ)
    (machine : Machine (Volume File × τ)) :
    ∃ after account, (accountsInit (Volume.firmware resolve device)).run machine =
        .ok ((), after) ∧
      IsBuiltIn account ∧ OnlyFirmware (machine.withAccounts
        (adoptedBytes (fallback machine.accounts account)
          (readBack (resolve storeName) machine))) after ∧
      after.firmware.1.contents = machine.firmware.1.contents ∧
      after.firmware.1.faults <:+ machine.firmware.1.faults := by
  obtain ⟨_, after, ran, account, isBuiltIn, frame, contents, faults⟩ :=
    (wp_total_iff _ (fun _ after => ∃ account, IsBuiltIn account ∧
      OnlyFirmware (machine.withAccounts (adoptedBytes (fallback machine.accounts account)
        (readBack (resolve storeName) machine))) after ∧
      after.firmware.1.contents = machine.firmware.1.contents ∧
      after.firmware.1.faults <:+ machine.firmware.1.faults) machine).mp
    (wp_accountsInit resolve device _ fun _ account isBuiltIn frame contents faults =>
      ⟨account, isBuiltIn, frame, contents, faults⟩)
  exact ⟨after, account, ran, isBuiltIn, frame, contents, faults⟩

/-! ## Working volumes -/

/-- Nothing stands between the loader and the store: the file system can be located, and no call
of the volume fails from here on. -/
structure Working (machine : Machine (Volume File × τ)) : Prop where
  available : machine.canLocate = true
  faultFree : machine.firmware.1.faults = []

omit [DecidableEq File] in
/-- A working volume stays working under firmware calls. -/
theorem Working.after {machine after : Machine (Volume File × τ)} (working : Working machine)
    (frame : OnlyFirmware machine after)
    (faults : after.firmware.1.faults <:+ machine.firmware.1.faults) : Working after := by
  obtain ⟨available, faultFree⟩ := working
  obtain ⟨_, _, rfl⟩ := frame
  rw [faultFree] at faults
  exact ⟨available, List.suffix_nil.mp faults⟩

omit [DecidableEq File] in
/-- Whether a volume works does not depend on the accounts. -/
theorem Working.withAccounts {machine : Machine (Volume File × τ)} (working : Working machine)
    (storage : AccountStorage) : Working (machine.withAccounts storage) :=
  ⟨working.available, working.faultFree⟩

omit [DecidableEq File] in
/-- On a working volume only a missing file is refused, and only if the mode does
not create it. -/
theorem Working.refused {machine : Machine (Volume File × τ)} (working : Working machine)
    {file : File} {mode : UInt64} (refused : Volume.Refused file mode machine) :
    machine.firmware.1.contents file = none ∧ Volume.creates mode = false := by
  rcases refused with unavailable | ⟨calls, _, failed⟩ | reason
  · rw [working.available] at unavailable
    cases unavailable
  · rw [Volume.faultAt_of_nil working.faultFree] at failed
    cases failed
  · exact reason

omit [DecidableEq File] in
/-- On a working volume a load receives the start of the file. -/
theorem Working.readBack {machine : Machine (Volume File × τ)} (working : Working machine)
    (file : File) :
    readBack file machine = (contentOf machine.firmware.1 file).take storeWidth := by
  have good : efiError (machine.firmware.1.faultAt 4).status = false := by
    rw [Volume.faultAt_of_nil working.faultFree]
    rfl
  have uncapped : (machine.firmware.1.faultAt 4).readAtMost = none := by
    rw [Volume.faultAt_of_nil working.faultFree]
    rfl
  by_cases refused : Volume.Refused file efiFileModeRead machine
  · obtain ⟨missing, _⟩ := working.refused refused
    rw [Accounts.readBack, if_pos (Or.inl refused), contentOf, missing]
    rfl
  · rw [Accounts.readBack, if_neg (by simp [refused, good]), uncapped]
    rfl

/-- On a working volume initialisation takes the start of the file. -/
theorem Working.init (resolve : Text → File) (device : Firmware τ)
    {machine : Machine (Volume File × τ)} (working : Working machine) :
    ∃ after account, (accountsInit (Volume.firmware resolve device)).run machine =
        .ok ((), after) ∧
      IsBuiltIn account ∧
      after.accounts = adoptedBytes (fallback machine.accounts account)
        ((contentOf machine.firmware.1 (resolve storeName)).take storeWidth) ∧
      after.firmware.1.contents = machine.firmware.1.contents ∧ Working after := by
  obtain ⟨after, account, ran, isBuiltIn, frame, contents, faults⟩ :=
    run_accountsInit resolve device machine
  rw [working.readBack] at frame
  exact ⟨after, account, ran, isBuiltIn, frame.accounts, contents,
    (working.withAccounts _).after frame faults⟩

/-- On a working volume a save stores the whole record and succeeds. -/
theorem Working.saved {machine : Machine (Volume File × τ)} (working : Working machine)
    {file : File} {data : List UInt8} {after : Volume File} {result : Bool}
    (saved : Saved file data machine after result) (width : data.length = storeWidth) :
    result = true ∧ after.contents = Function.update machine.firmware.1.contents file
      (some (data ++ (contentOf machine.firmware.1 file).drop storeWidth)) := by
  cases saved with
  | refused reason _ =>
    have keeping := (working.refused reason).2
    rw [save_creates] at keeping
    cases keeping
  | unpositioned failed _ =>
    rw [Volume.faultAt_of_nil working.faultFree] at failed
    cases failed
  | written moved transferred contents =>
    rw [Volume.faultAt_of_nil working.faultFree] at transferred ⊢
    obtain rfl : moved = data := transferred
    refine ⟨?_, ?_⟩
    · rw [decide_eq_true_iff]
      exact ⟨rfl, width⟩
    · rw [contents, overlay_start, width]

end ExistentOS.Accounts
