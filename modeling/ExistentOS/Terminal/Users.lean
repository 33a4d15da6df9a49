import ExistentOS.Accounts.Refinement
import ExistentOS.Terminal.Arguments

/-!
# Account operations as the terminal sees them

Behind an answer of `accounts.c`, what else has changed is little: an accepted update has changed the
table and the file that stores it, a login the current account, and nothing has been shown. The names
in the table keep their order, and a new one comes last.
-/

namespace ExistentOS.Terminal

open Programs Terminated Accounts Traces

/-! ## Nothing is shown -/

section Silent

variable {σ α β : Type} {fw : Firmware σ}

/-- The routine shows nothing, whatever the firmware answers. -/
def Silent (routine : Routine σ α) : Prop :=
  Logs Machine.trace routine fun _ events => output events = []

/-- A value shows nothing. -/
theorem silent_pure (value : α) : Silent (pure value : Routine σ α) := logs_pure rfl

/-- A call whose event is not seen shows nothing. -/
theorem silent_call (operation : σ → α × σ) (event : α → Event)
    (unseen : ∀ answer, Unseen (event answer)) : Silent (call operation event) :=
  logs_call operation event fun _ => unseen _

/-- A sequence of silent routines is silent. -/
theorem Silent.then {first : Routine σ β} {next : β → Routine σ α} (silent : Silent first)
    (rest : ∀ value, Silent (next value)) : Silent (first >>= next) := by
  apply logs_bind
  apply Logs.mono silent
  intro value early nothing
  apply Logs.mono (rest value)
  intro result late nothingMore
  simp [nothing, nothingMore]

/-- A loop of silent rounds is silent. Where it runs out of fuel there is nothing to show. -/
theorem silent_iterate {exhausted : Stop} {body : β → Routine σ (β ⊕ α)}
    (round : ∀ current, Silent (body current)) (fuel : Nat) (start : β) :
    Silent (iterate exhausted body fuel start) := by
  induction fuel generalizing start with
  | zero => exact logs_throw exhausted
  | succ fuel ih =>
    apply (round start).then
    intro outcome
    cases outcome with
    | inl next => exact ih next
    | inr value => exact silent_pure value

/-- Reading a file shows nothing. -/
theorem silent_readFile (file : Handle) (size : Nat) : Silent (readFile fw file size) := by
  apply (silent_call (fw.read file size) (.read file .buffer size) fun _ => rfl).then
  intro answer
  exact logs_ite (fun _ => silent_pure answer) (fun _ => logs_throw _)

/-- Handing a value on shows nothing. -/
theorem silent_orStop (stop : Stop) (value : Option α) : Silent (orStop stop value : Routine σ α) :=
  logs_orStop stop fun _ _ => rfl

/-- A routine that shows and stores nothing shows nothing in particular. -/
theorem Unmarking.quiet {routine : Routine σ α} (unmarking : Unmarking routine) : Silent routine := by
  apply Logs.mono unmarking
  rintro value events ⟨silent, _⟩
  simp [output, silent]

/-- Closing a file shows nothing. -/
theorem silent_closing (file : Handle) (result : α) :
    Silent (do let _ ← closeFile fw file; return result) :=
  (silent_call (fw.close file) (.close file) fun _ => rfl).then fun _ => silent_pure result

/-- `accounts_save` shows nothing, also where it fails. -/
theorem silent_accountsSave : Silent (accountsSave fw) := by
  apply (unmarking_openOnVolume storePath _ 0).quiet.then
  intro opened
  cases opened with
  | none => exact silent_pure false
  | some file =>
    apply logs_view
    intro machine
    apply (silent_call (fw.setPosition file 0) (.setPosition file 0) fun _ => rfl).then
    intro positioned
    refine logs_ite (fun _ => silent_closing file false) (fun _ => ?_)
    have writes : Silent (writeFile fw file (store.encode (Accounts.record machine.accounts))) :=
      silent_call _ _ fun _ => rfl
    apply writes.then
    intro written
    refine logs_ite (fun _ => silent_closing file false) (fun _ => ?_)
    have flushes : Silent (flushFile fw file) := by
      refine logs_ite (fun _ => ?_) (fun _ => silent_pure ())
      exact (silent_call (fw.flush file) (.flush file) fun _ => rfl).then fun _ => silent_pure ()
    exact flushes.then fun _ => silent_closing file true

/-- Changing the table of accounts shows nothing. -/
theorem silent_modifyAccounts (update : AccountStorage → AccountStorage) :
    Silent (modifyAccounts update : Routine σ Unit) := by
  rintro machine _ _ ⟨rfl⟩
  exact ⟨[], (List.append_nil _).symm, rfl⟩

/-- `accounts_init` shows nothing, also where the store is rejected. -/
theorem silent_accountsInit : Silent (accountsInit fw) := by
  apply logs_view
  intro machine
  apply (silent_orStop .fault _).then
  intro fresh
  apply (silent_modifyAccounts _).then
  intro _
  apply (unmarking_openOnVolume storePath _ 0).quiet.then
  intro opened
  cases opened with
  | none => exact silent_pure ()
  | some file =>
    apply (silent_readFile file storeWidth).then
    intro answer
    apply (silent_orStop .unset _).then
    intro found
    cases found with
    | none => exact silent_closing file ()
    | some store => exact (silent_modifyAccounts _).then fun _ => silent_closing file ()

end Silent

/-! ## Names -/

/-- The names in the table, in its order, as `users` prints them. -/
def roster (storage : AccountStorage) : List (Option Text) :=
  (List.range (accountsCount storage)).map fun index => (accountsUserAt storage index).bind scan

/-- Who is logged in does not show in the names. -/
@[simp] theorem roster_current (storage : AccountStorage) (current : Int) :
    roster { storage with currentAccount := current } = roster storage := rfl

/-- A name in the table is the one in its slot. -/
theorem accountsUserAt_get {storage : AccountStorage} {index : Nat}
    (below : index < storage.accountCount) (inside : index < fisixMaxUsers) :
    accountsUserAt storage index = some (storage.accounts.get ⟨index, inside⟩).name.toList := by
  simp [accountsUserAt, below, inside, get_eq_getElem]

/-- A new name comes last, behind those that were there. -/
theorem roster_added {storage updated : AccountStorage} {name password : Memory}
    (passed : addGuard storage name password = some true)
    (computed : added storage name password = some updated) :
    roster updated = roster storage ++ [scan name] := by
  obtain ⟨newName, _, account, _, _, readName, _, _, _, room, rfl, storedName, _⟩ :=
    add_effect passed computed
  have slot := get_set storage.accounts storage.accountCount room account
  rw [roster, accountsCount, List.range_succ, List.map_append]
  congr 1
  · apply List.map_congr_left
    intro index member
    have below : index < storage.accountCount := List.mem_range.mp member
    have inside : index < fisixMaxUsers := below.trans room
    rw [accountsUserAt_get below inside, accountsUserAt_get (Nat.lt_succ_of_lt below) inside, slot,
      if_neg below.ne]
  · rw [List.map_singleton, accountsUserAt_get (Nat.lt_succ_self _) room, slot, if_pos rfl,
      Option.bind_some, storedName, readName]

/-- Another password leaves the names alone, and their order. -/
theorem roster_changed {storage updated : AccountStorage} {old new : Memory}
    (passed : changeGuard storage old new = some true)
    (computed : changed storage new = some updated)
    (range : storage.accountCount ≤ fisixMaxUsers) : roster updated = roster storage := by
  obtain ⟨index, _, _, field, _, _, _, _, _, rfl, _⟩ := changePassword_effect passed computed
  have slot := get_set storage.accounts index index.isLt
    ⟨(storage.accounts.get index).name, field, (storage.accounts.get index).admin⟩
  apply List.map_congr_left
  intro place member
  have below : place < storage.accountCount := List.mem_range.mp member
  have inside : place < fisixMaxUsers := below.trans_le range
  rw [accountsUserAt_get (by exact below) inside, accountsUserAt_get below inside, slot]
  split
  · rename_i here
    obtain rfl : ⟨place, inside⟩ = index := Fin.ext here
    rfl
  · rfl

/-! ## Effects -/

section Effects

variable {File τ : Type} [DecidableEq File]

/-- What else has changed behind an answer: the firmware, the accounts and the file that stores
them, and nothing has been shown. -/
structure Consulted (file : File) (machine after : Machine (Volume File × τ)) : Prop where
  frame : OnlyFirmware (machine.withAccounts after.accounts) after
  silent : ∃ events, after.trace = machine.trace ++ events ∧ output events = []
  elsewhere : ∀ other ≠ file, after.firmware.1.contents other = machine.firmware.1.contents other

omit [DecidableEq File] in
/-- Only the current account has changed. -/
theorem consulted_withAccounts (file : File) (machine : Machine (Volume File × τ))
    (storage : AccountStorage) : Consulted file machine (machine.withAccounts storage) :=
  ⟨Std.Refl.refl _, ⟨[], (List.append_nil _).symm, rfl⟩, fun _ _ => rfl⟩

/-- What a save has written is in one file. -/
theorem saved_elsewhere {file : File} {data : List UInt8} {machine : Machine (Volume File × τ)}
    {after : Volume File} {result : Bool} (saved : Saved file data machine after result)
    {other : File} (apart : other ≠ file) :
    after.contents other = machine.firmware.1.contents other := by
  cases saved with
  | refused _ contents => rw [contents]
  | unpositioned _ contents => rw [contents, Function.update_of_ne apart]
  | written _ _ contents => rw [contents, Function.update_of_ne apart]

/-- An update that has been answered has passed its test and saved its table, or it has changed
nothing. -/
theorem consulted_request (resolve : Text → File) (device : Firmware τ) (request : Request)
    {machine after : Machine (Volume File × τ)} (working : Working machine) {result : Bool}
    (ran : (request.perform (Volume.firmware resolve device)).run machine = .ok (result, after)) :
    Consulted (resolve storeName) machine after ∧
      (result = false ∧ after.accounts = machine.accounts ∨
        result = true ∧ request.guard machine.accounts = some true ∧
          request.table machine.accounts = some after.accounts) := by
  rw [request.run_perform] at ran
  cases guard : request.guard machine.accounts with
  | none =>
    rw [guard] at ran
    cases ran
  | some passed =>
    rw [guard] at ran
    cases passed with
    | false =>
      cases ran
      exact ⟨consulted_withAccounts _ machine machine.accounts, Or.inl ⟨rfl, rfl⟩⟩
    | true =>
      cases computed : request.table machine.accounts with
      | none =>
        rw [computed] at ran
        cases ran
      | some updated =>
        simp only [computed] at ran
        obtain ⟨answer, reached, saves, frame, _, saved⟩ :=
          run_accountsSave resolve device (machine.withAccounts updated)
        obtain ⟨rfl, rfl⟩ : answer = result ∧ reached = after := by
          simpa using saves.symm.trans ran
        obtain ⟨rfl, _⟩ :=
          (working.withAccounts updated).saved saved (store.encode_length _)
        have kept : reached.accounts = updated := frame.accounts
        have silent := silent_accountsSave (machine.withAccounts updated) true reached saves
        exact ⟨⟨kept ▸ frame, silent, fun _ => saved_elsewhere saved⟩,
          Or.inr ⟨rfl, rfl, congrArg some kept.symm⟩⟩

end Effects

end ExistentOS.Terminal
