import ExistentOS.Accounts.Invariant

/-!
# Sessions

Sequences of logins, updates and reboots on a volume. A reboot keeps the file
contents and nothing else: the static memory, the boot services, the open handles
and the schedule of failures may all be different afterwards. Failures are
arbitrary except that a write moves all its bytes or none.
-/

namespace ExistentOS.Accounts

open Programs Terminated Codecs

/-- A pointer to a terminated string, with its text. What stands behind the terminator is left
open, as the caller of a C function may leave it. -/
structure CString where
  memory : Memory
  text : Text
  readable : scan memory = some text

/-- A write under this fault moves everything or nothing. Torn writes are the subject of another
module. -/
def AllOrNothing (fault : Fault) : Prop := fault.writeAtMost = none ∨ fault.writeAtMost = some 0

instance (fault : Fault) : Decidable (AllOrNothing fault) := by
  unfold AllOrNothing
  infer_instance

/-- What a machine comes up with after a reboot: any image of the account storage, any boot
services, and a schedule of faults of which each write stores all or nothing. -/
structure Restart where
  image : AccountStorage
  services : Option BootServices
  faults : List Fault
  atomic : ∀ fault ∈ faults, AllOrNothing fault

/-- A step of a session. A reboot is a step like the others, so that sessions go on behind it
with what the store has kept. -/
inductive Action where
  | login (name password : CString)
  | add (name password : CString)
  | changePassword (old new : CString)
  | reboot (restart : Restart)

section Steps

variable {File τ : Type} [DecidableEq File]

/-- The machine before `accounts_init` runs again. The files are those of before, and the memory
is that of the restart. -/
def restarted (restart : Restart) (machine : Machine (Volume File × τ)) :
    Machine (Volume File × τ) :=
  { machine with
    accounts := restart.image
    gBS := restart.services
    firmware := (⟨machine.firmware.1.contents, fun _ => none, 0, restart.faults⟩,
      machine.firmware.2) }

/-- Perform one step. A reboot always counts as successful, as `accounts_init` returns nothing. -/
def perform (resolve : Text → File) (device : Firmware τ) :
    Action → Routine (Volume File × τ) Bool
  | .login name password => accountsLogin name.memory password.memory
  | .add name password => accountsAdd (Volume.firmware resolve device) name.memory password.memory
  | .changePassword old new =>
    accountsChangePassword (Volume.firmware resolve device) old.memory new.memory
  | .reboot restart => do
    modify (restarted restart)
    accountsInit (Volume.firmware resolve device)
    return true

/-- The results of a sequence of steps, one for each. -/
def session (resolve : Text → File) (device : Firmware τ) (actions : List Action) :
    Routine (Volume File × τ) (List Bool) := actions.mapM (perform resolve device)

end Steps

/-! ## The store between the steps -/

/-- A store file that was only ever written by whole records of sound tables. -/
def StoreKept (content : Option (List UInt8)) : Prop :=
  content = none ∨ content = some [] ∨ ∃ storage, Sound storage ∧ content = some (layout storage)

/-- A capped transfer moves everything or less than everything. -/
theorem capped_cases (cap : Option Nat) (bytes : List UInt8) :
    capped cap bytes = bytes ∨ (capped cap bytes).length < bytes.length := by
  cases cap with
  | none => exact Or.inl rfl
  | some count =>
    rcases Nat.lt_or_ge count bytes.length with below | above
    · refine Or.inr ?_
      rw [capped, List.length_take, Nat.min_eq_left (Nat.le_of_lt below)]
      exact below
    · exact Or.inl (List.take_of_length_le above)

/-- Too few bytes are not adopted. -/
theorem adoptedBytes_short (storage : AccountStorage) (bytes : List UInt8)
    (short : bytes.length < storeWidth) : adoptedBytes storage bytes = storage := by
  have incomplete : bytes.length ≠ storeWidth := Nat.ne_of_lt short
  simp only [adoptedBytes, incomplete, false_and, if_false]

section Volume

variable {File τ : Type} [DecidableEq File]

/-- What holds between two steps of a session. The store is a part of it, because the next reboot
builds its table from there. -/
structure Steady (file : File) (machine : Machine (Volume File × τ)) : Prop where
  sound : Sound machine.accounts
  kept : StoreKept (machine.firmware.1.contents file)
  atomic : ∀ fault ∈ machine.firmware.1.faults, AllOrNothing fault

omit [DecidableEq File] in
/-- Every call meets a fault of the schedule or none. -/
theorem faultAt_allOrNothing (volume : Volume File)
    (atomic : ∀ fault ∈ volume.faults, AllOrNothing fault) (calls : Nat) :
    AllOrNothing (volume.faultAt calls) := by
  rw [Volume.faultAt, List.getD_eq_getElem?_getD]
  cases found : volume.faults[calls]? with
  | none => exact Or.inl rfl
  | some fault => exact atomic fault (List.mem_of_getElem? found)

/-- A save of a sound table keeps the store, whether or not it succeeds. -/
theorem Saved.kept {file : File} {machine : Machine (Volume File × τ)} {after : Volume File}
    {result : Bool}
    (saved : Saved file (store.encode (record machine.accounts)) machine after result)
    (steady : Steady file machine) : StoreKept (after.contents file) := by
  have stored := steady.kept
  have untouched : StoreKept (some (contentOf machine.firmware.1 file)) := by
    rw [contentOf]
    rcases stored with missing | empty | ⟨storage, sound, same⟩
    · rw [missing]
      exact Or.inr (Or.inl rfl)
    · rw [empty]
      exact Or.inr (Or.inl rfl)
    · rw [same, Option.getD_some]
      exact Or.inr (Or.inr ⟨storage, sound, rfl⟩)
  have small : (contentOf machine.firmware.1 file).length ≤ storeWidth := by
    rw [contentOf]
    rcases stored with missing | empty | ⟨storage, _, same⟩
    · rw [missing]
      exact Nat.zero_le storeWidth
    · rw [empty]
      exact Nat.zero_le storeWidth
    · rw [same, Option.getD_some]
      exact Nat.le_of_eq (layout_length storage)
  cases saved with
  | refused _ contents => rwa [contents]
  | unpositioned _ contents => rwa [contents, Function.update_self]
  | written moved transferred contents =>
    rw [contents, Function.update_self, overlay_start]
    rw [record_layout] at transferred
    rcases faultAt_allOrNothing machine.firmware.1 steady.atomic 5 with all | nothing
    · rw [all, capped_none] at transferred
      have behind : (contentOf machine.firmware.1 file).drop moved.length = [] := by
        apply List.drop_eq_nil_of_le
        rwa [transferred, layout_length]
      rw [behind, List.append_nil, transferred]
      exact Or.inr (Or.inr ⟨machine.accounts, steady.sound, rfl⟩)
    · rw [nothing, capped_zero] at transferred
      rw [transferred]
      exact untouched

omit [DecidableEq File] in
/-- A load from a kept store brings up the built-in table or a sound one that was
saved before. -/
theorem adopted_sound {file : File} {machine : Machine (Volume File × τ)} {account : Account}
    (isBuiltIn : IsBuiltIn account) (kept : StoreKept (machine.firmware.1.contents file)) :
    Sound (adoptedBytes (fallback machine.accounts account) (readBack file machine)) := by
  have builtIn := fallback_sound machine.accounts account isBuiltIn
  have positive : 0 < storeWidth := by decide
  have outcome : (readBack file machine).length < storeWidth ∨
      ∃ storage, Sound storage ∧ readBack file machine = layout storage := by
    unfold readBack
    split
    · exact Or.inl positive
    · rw [contentOf]
      rcases kept with missing | empty | ⟨storage, sound, same⟩
      · rw [missing, Option.getD_none, List.take_nil]
        exact Or.inl (Nat.lt_of_le_of_lt (capped_length _ _) positive)
      · rw [empty, Option.getD_some, List.take_nil]
        exact Or.inl (Nat.lt_of_le_of_lt (capped_length _ _) positive)
      · have whole := layout_length storage
        rw [same, Option.getD_some, List.take_of_length_le (Nat.le_of_eq whole)]
        rcases capped_cases (machine.firmware.1.faultAt 4).readAtMost (layout storage) with
          all | short
        · exact Or.inr ⟨storage, sound, all⟩
        · exact Or.inl (whole ▸ short)
  rcases outcome with short | ⟨storage, sound, received⟩
  · rw [adoptedBytes_short _ _ short]
    exact builtIn
  · have restored := adoptedBytes_layout (fallback machine.accounts account) storage []
      sound.positive sound.bounded
    rw [List.append_nil, List.take_of_length_le (Nat.le_of_eq (layout_length storage))] at restored
    rw [received, restored]
    exact sound.withCurrent _ (Or.inl rfl)

/-! ## Runs -/

variable (resolve : Text → File) (device : Firmware τ)

/-- Updates return and keep the steady state, however their save ends. -/
theorem update_steady (request : Request) {machine : Machine (Volume File × τ)}
    (steady : Steady (resolve storeName) machine) {passed : Bool}
    (decided : request.guard machine.accounts = some passed) :
    wp (request.perform (Volume.firmware resolve device))
      (fun _ after => Steady (resolve storeName) after) (fun _ => False) machine := by
  rw [wp_total_iff, request.run_perform, decided]
  cases passed with
  | false => exact ⟨false, machine, rfl, steady⟩
  | true =>
    obtain ⟨updated, computed⟩ := table_exists request steady.sound decided
    have sound := steady.sound.table request decided computed
    obtain ⟨result, after, ran, frame, faults, saved⟩ :=
      run_accountsSave resolve device (machine.withAccounts updated)
    have before : Steady (resolve storeName) (machine.withAccounts updated) :=
      ⟨sound, steady.kept, steady.atomic⟩
    refine ⟨result, after, by rw [computed]; exact ran, ?_, saved.kept before, ?_⟩
    · rw [frame.accounts]
      exact sound
    · intro fault member
      exact steady.atomic fault (faults.subset member)

/-- A reboot reaches the steady state from any store that was kept. -/
theorem reboot_steady (restart : Restart) (machine : Machine (Volume File × τ))
    (kept : StoreKept (machine.firmware.1.contents (resolve storeName))) :
    wp (perform resolve device (.reboot restart))
      (fun _ after => Steady (resolve storeName) after) (fun _ => False) machine := by
  simp only [perform, wp_bind, wp_modify]
  refine wp_accountsInit resolve device _ (fun after account isBuiltIn frame contents faults => ?_)
  refine ⟨?_, ?_, ?_⟩
  · rw [frame.accounts]
    exact adopted_sound isBuiltIn kept
  · rw [contents]
    exact kept
  · intro fault member
    exact restart.atomic fault (faults.subset member)

/-- Every step of a session returns and keeps the steady state. -/
theorem perform_steady (action : Action) {machine : Machine (Volume File × τ)}
    (steady : Steady (resolve storeName) machine) :
    wp (perform resolve device action) (fun _ after => Steady (resolve storeName) after)
      (fun _ => False) machine := by
  obtain ⟨sound, kept, atomic⟩ := steady
  cases action with
  | login name password =>
    rw [wp_total_iff]
    rcases login_exact sound name.readable password.readable with
      ⟨index, below, ran, _⟩ | ⟨ran, _⟩
    · refine ⟨true, machine.withAccounts { machine.accounts with currentAccount := index.val },
        ?_, sound.withCurrent _ (Or.inr ⟨by omega, by omega⟩), kept, atomic⟩
      rw [perform, run_accountsLogin, ran]
    · refine ⟨false, machine, ?_, sound, kept, atomic⟩
      rw [perform, run_accountsLogin, ran]
  | add name password =>
    exact update_steady resolve device (.add name.memory password.memory) ⟨sound, kept, atomic⟩
      (addGuard_exact sound name.readable password.readable)
  | changePassword old new =>
    have decided : ∃ passed, changeGuard machine.accounts old.memory new.memory = some passed := by
      rcases changeGuard_exact sound old.readable new.readable with ⟨_, ran⟩ | ⟨_, _, _, ran⟩
      · exact ⟨_, ran⟩
      · exact ⟨_, ran⟩
    obtain ⟨passed, decided⟩ := decided
    exact update_steady resolve device (.changePassword old.memory new.memory)
      ⟨sound, kept, atomic⟩ decided
  | reboot restart => exact reboot_steady resolve device restart machine kept

/-- On a volume without a store file, initialisation and any further steps return and leave a
sound table. Writes may fail, as long as each stores all or nothing: then the store holds the
table before the update or the one behind it, and both are sound. -/
theorem session_sound (machine : Machine (Volume File × τ))
    (absent : machine.firmware.1.contents (resolve storeName) = none) (first : Restart)
    (actions : List Action) :
    ∃ results after, (session resolve device (.reboot first :: actions)).run machine =
        .ok (results, after) ∧
      Sound after.accounts := by
  have started := reboot_steady resolve device first machine (Or.inl absent)
  have continued : ∀ state, Steady (resolve storeName) state →
      wp (actions.mapM (perform resolve device))
        (fun _ after => Steady (resolve storeName) after) (fun _ => False) state :=
    wp_mapM actions fun action _ state steady => perform_steady resolve device action steady
  have whole : wp (session resolve device (.reboot first :: actions))
      (fun _ after => Steady (resolve storeName) after) (fun _ => False) machine := by
    rw [session, List.mapM_cons, wp_bind]
    refine wp_mono started ?_ (fun _ stopped => stopped)
    intro _ middle steady
    rw [wp_bind]
    exact wp_mono (continued middle steady) (fun _ _ held => held) (fun _ stopped => stopped)
  obtain ⟨results, after, ran, steady⟩ := (wp_total_iff _ _ _).mp whole
  exact ⟨results, after, ran, steady.sound⟩

end Volume

/-- The string constants of the example sessions: the name of the administrator first. -/
def adminString : CString := ⟨constant "admin", adminName, by decide⟩

/-- The password of the first administrator. -/
def fisixString : CString := ⟨constant "fisix", adminPassword, by decide⟩

/-- The name of another user. -/
def bobString : CString := ⟨constant "bob", text "bob", by decide⟩

/-- A reboot after which the write of the first save is lost: nine calls set the table up and
open the store, the tenth fails and moves nothing. -/
def flakyBoot : Restart where
  image := initialAccounts
  services := some ⟨true, true, true, true⟩
  faults := List.replicate 9 Fault.absent ++ [⟨efiDeviceError, none, some 0⟩]
  atomic := by decide

/-- The administrator cannot store a user, and the table stays sound. -/
theorem session_sound_flaky :
    ∃ after, (session id Volume.quiet [.reboot flakyBoot, .login adminString fisixString,
        .add bobString bobString]).run (Volume.started (fun _ => none) []) =
          .ok ([true, true, false], after) ∧
      Sound after.accounts := by
  obtain ⟨results, after, ran, sound⟩ := session_sound id Volume.quiet
    (Volume.started (fun _ => none) []) rfl flakyBoot
    [.login adminString fisixString, .add bobString bobString]
  have answers : ((session id Volume.quiet [.reboot flakyBoot, .login adminString fisixString,
      .add bobString bobString]).run (Volume.started (fun _ => none) [])).toOption.map Prod.fst =
        some [true, true, false] := by decide +kernel
  rw [ran] at answers
  obtain rfl : results = [true, true, false] := by simpa [Except.toOption] using answers
  exact ⟨after, ran, sound⟩

end ExistentOS.Accounts
