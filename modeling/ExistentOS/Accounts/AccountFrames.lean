import ExistentOS.Accounts.Operations
import ExistentOS.Frames

/-!
# Composition of the account operations

Saving is composed of file calls; the operations change the account storage as well.
-/

namespace ExistentOS.Accounts

open Programs

variable {σ : Type} {fw : Firmware σ} {reasons : Stop → Prop}
  {further : (α : Type) → Routine σ α → Prop}

/-- The store has a path that ends, so opening it overruns nothing. -/
theorem storePath_ends : (0 : CHAR16) ∈ storePath := by decide

section Files

variable (files : ∀ (α : Type) (routine : Routine σ α), FileStep fw α routine → further α routine)
include files

/-- Saving only calls the firmware, and writes to one file. -/
theorem composed_accountsSave : Composed fw reasons further (accountsSave fw) := by
  apply Composed.bind (Composed.openOnVolume storePath _ 0 (Or.inl storePath_ends))
  intro opened
  cases opened with
  | none => exact Composed.pure false
  | some file =>
    apply Composed.view (fun _ _ => rfl)
    intro machine
    apply Composed.bind (Composed.setPosition file 0)
    intro positioned
    apply Composed.ite
    · intro _
      exact Composed.bind (Composed.closeFile file) (fun _ => Composed.pure false)
    · intro _
      apply Composed.bind (Composed.further (files _ _ (FileStep.writeFile file _)))
      intro written
      apply Composed.ite
      · intro _
        exact Composed.bind (Composed.closeFile file) (fun _ => Composed.pure false)
      · intro _
        apply Composed.bind (Composed.flushFile file)
        intro _
        exact Composed.bind (Composed.closeFile file) (fun _ => Composed.pure true)

end Files

section Storage

variable (steps : ∀ (α : Type) (routine : Routine σ α), StorageStep fw α routine →
  further α routine) (field : reasons .fault)
include steps field

omit field in
theorem composed_accountsLoad : Composed fw reasons further (accountsLoad fw) := by
  apply Composed.bind (Composed.openOnVolume storePath _ 0 (Or.inl storePath_ends))
  intro opened
  cases opened with
  | none => exact Composed.pure ()
  | some file =>
    apply Composed.bind (Composed.readFile file storeWidth)
    intro answer
    apply Composed.bind (Composed.orStop fun _ => Or.inl rfl)
    intro found
    have closed : Composed fw reasons further (do let _ ← closeFile fw file; return ()) :=
      Composed.bind (Composed.closeFile file) (fun _ => Composed.pure ())
    cases found with
    | none => exact closed
    | some store =>
      exact Composed.bind (Composed.further (steps _ _ (StorageStep.modifyAccounts _)))
        (fun _ => closed)

theorem composed_accountsInit : Composed fw reasons further (accountsInit fw) := by
  apply Composed.view (fun _ _ => rfl)
  intro machine
  apply Composed.bind (Composed.orStop fun _ => Or.inr field)
  intro fresh
  exact Composed.bind (Composed.further (steps _ _ (StorageStep.modifyAccounts _)))
    (fun _ => composed_accountsLoad steps)

/-- The stop of a string loop is allowed if its strings are terminated, or never written. -/
def Handed (reasons : Stop → Prop) (arguments : List Memory) : Prop :=
  (beyond arguments).incidental = true ∨ reasons (beyond arguments)

omit steps in
theorem handed {arguments : List Memory}
    (ends : ∀ argument ∈ arguments, argument = [] ∨ (0 : CHAR16) ∈ argument) :
    Handed reasons arguments := by
  rw [Handed, beyond]
  by_cases unset : [] ∈ arguments
  · rw [if_pos unset]
    exact Or.inl rfl
  · have terminated : ∀ argument ∈ arguments, (0 : CHAR16) ∈ argument := fun argument member =>
      (ends argument member).resolve_left (fun empty => unset (empty ▸ member))
    rw [if_neg unset, if_pos terminated]
    exact Or.inr field

omit field in
theorem composed_accountsLogin {name password : Memory} (given : Handed reasons [name, password]) :
    Composed fw reasons further (accountsLogin name password) := by
  apply Composed.view (fun _ _ => rfl)
  intro machine
  apply Composed.bind (Composed.orStop fun _ => given)
  intro found
  cases found with
  | none => exact Composed.pure false
  | some index =>
    exact Composed.bind (Composed.further (steps _ _ (StorageStep.modifyAccounts _)))
      (fun _ => Composed.pure true)

omit field in
/-- An update that passes its test changes the accounts and saves them. -/
theorem composed_update {stop : Stop} (allowed : stop.incidental = true ∨ reasons stop)
    (admitted : AccountStorage → Option Bool) (update : AccountStorage → Option AccountStorage) :
    Composed fw reasons further (do
      let machine ← get
      if ← orStop stop (admitted machine.accounts) then
        let changed ← orStop stop (update machine.accounts)
        modifyAccounts fun _ => changed
        accountsSave fw
      else return false) := by
  apply Composed.view (fun _ _ => rfl)
  intro machine
  apply Composed.bind (Composed.orStop fun _ => allowed)
  intro passed
  apply Composed.ite
  · intro _
    apply Composed.bind (Composed.orStop fun _ => allowed)
    intro changed
    apply Composed.bind (Composed.further (steps _ _ (StorageStep.modifyAccounts _)))
    intro _
    exact composed_accountsSave fun α routine named => steps α routine (StorageStep.file named)
  · intro _
    exact Composed.pure false

omit field in
theorem composed_accountsAdd {name password : Memory} (given : Handed reasons [name, password]) :
    Composed fw reasons further (accountsAdd fw name password) :=
  composed_update steps given (addGuard · name password) (added · name password)

omit field in
theorem composed_accountsChangePassword {old new : Memory} (given : Handed reasons [old, new]) :
    Composed fw reasons further (accountsChangePassword fw old new) :=
  composed_update steps given (changeGuard · old new) (changed · new)

end Storage

/-! ## Traces -/

section Traces

variable (fw : Firmware σ)

/-- A change of the accounts only extends the trace. -/
theorem traced_accountsAdd (name password : Memory) :
    Keeps (Emits fun _ => True) (accountsAdd fw name password) := by
  have frame : StorageFrame fw (Emits fun _ => True) := storageFrame_emits (fun _ _ => trivial) fw
  exact (composed_accountsAdd (fun _ _ named => named) (Or.inr trivial)).keepsStorage

theorem traced_accountsChangePassword (old new : Memory) :
    Keeps (Emits fun _ => True) (accountsChangePassword fw old new) := by
  have frame : StorageFrame fw (Emits fun _ => True) := storageFrame_emits (fun _ _ => trivial) fw
  exact (composed_accountsChangePassword (fun _ _ named => named) (Or.inr trivial)).keepsStorage

end Traces

/-! ## Saving leaves the accounts alone -/

/-- The account storage is the same: the table, its count and who is logged in. -/
def SameAccounts (before after : Machine σ) : Prop := after.accounts = before.accounts

instance : Std.Refl (SameAccounts (σ := σ)) := ⟨fun _ => rfl⟩

instance : IsTrans (Machine σ) SameAccounts := ⟨fun _ _ _ early late => late.trans early⟩

instance (fw : Firmware σ) : CallFrame fw (SameAccounts (σ := σ)) :=
  callFrame (fun _ _ _ _ => rfl) (fun _ _ => rfl) fw

theorem sameAccounts_save (fw : Firmware σ) : Keeps SameAccounts (accountsSave fw) :=
  (composed_accountsSave fun _ _ named => named).keepsFiles

/-- Saving does not change what it saves, whatever the firmware answers. -/
theorem accountsSave_same (fw : Firmware σ) (machine : Machine σ)
    {Q : Bool → Machine σ → Prop}
    (next : ∀ saved after, after.accounts = machine.accounts → Q saved after) :
    wp (accountsSave fw) Q (fun _ => True) machine := by
  rw [wp_iff]
  constructor
  · intro saved after ran
    exact next saved after ((sameAccounts_save fw).related machine saved after ran)
  · intro _ _
    trivial

end ExistentOS.Accounts
