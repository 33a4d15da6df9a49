import ExistentOS.Machine

/-!
# Opening a file on the volume

`accounts_open` and `terminal_open_file` have the same body: locate the file
system, open its volume, open the path in the root and close the root. They
differ in the path, the mode and the attributes.
-/

namespace ExistentOS

open Programs Terminated

variable {σ : Type}

/-- `gBS && gBS->LocateProtocol`. -/
def Machine.canLocate (machine : Machine σ) : Bool := machine.gBS.any (·.locateProtocol)

/-- The common body. A returned file is the non-null handle of a successful
`Open`; the root is closed on every path that opened it. The root itself is used
without a null test. -/
def openOnVolume (fw : Firmware σ) (path : Memory) (mode attributes : UInt64) :
    Routine σ (Option Handle) := do
  let machine ← get
  if machine.canLocate then
    let located ← locateProtocol fw
    if efiError located.1 ∨ located.2 = 0 then return none
    let volume ← openVolume fw located.2
    if efiError volume.1 then return none
    if volume.2 = 0 then throw .null
    let name ← orOverrun (scan path)
    let opened ← openFile fw volume.2 name mode attributes
    let _ ← closeFile fw volume.2
    if ¬ efiError opened.1 ∧ opened.2 ≠ 0 then return some opened.2
    return none
  else return none

/-- A path without a terminator leads to no file. -/
theorem openOnVolume_unreadable (fw : Firmware σ) (path : Memory) (mode attributes : UInt64)
    (unreadable : scan path = none) (machine : Machine σ) :
    wp (openOnVolume fw path mode attributes) (fun opened _ => opened = none) (fun _ => True)
      machine := by
  rw [openOnVolume, wp_bind, wp_get, wp_ite, wp_pure, wp_bind, locateProtocol, wp_call]
  refine ⟨fun _ => ?_, fun _ => rfl⟩
  rw [wp_ite, wp_pure, wp_bind, openVolume, wp_call]
  refine ⟨fun _ => rfl, fun _ => ?_⟩
  rw [wp_ite, wp_pure, wp_ite, unreadable]
  exact ⟨fun _ => rfl, fun _ => ⟨fun _ => trivial, fun _ => trivial⟩⟩

/-- Opening a file keeps what its calls keep. -/
theorem keeps_openOnVolume {R : Machine σ → Machine σ → Prop} [Std.Refl R] [IsTrans (Machine σ) R]
    (fw : Firmware σ) (path : Memory) (mode attributes : UInt64)
    (locates : Keeps R (locateProtocol fw)) (mounts : ∀ fs, Keeps R (openVolume fw fs))
    (opens : ∀ root name, Keeps R (openFile fw root name mode attributes))
    (closes : ∀ file, Keeps R (closeFile fw file)) :
    Keeps R (openOnVolume fw path mode attributes) := by
  have read : Keeps R (orOverrun (scan path) : Routine σ Text) := by
    cases scan path with
    | none => exact keeps_throw Stop.overrun
    | some name => exact keeps_pure name
  have root : ∀ volume : Handle, Keeps R (do
      let name ← orOverrun (scan path)
      let opened ← openFile fw volume name mode attributes
      let _ ← closeFile fw volume
      if ¬ efiError opened.1 ∧ opened.2 ≠ 0 then return some opened.2
      return none) := fun volume =>
    keeps_bind read fun name => keeps_bind (opens volume name) fun opened =>
      keeps_bind (closes volume) fun _ => keeps_ite (fun _ => keeps_pure _) fun _ => keeps_pure none
  refine keeps_bind keeps_get fun machine => keeps_ite (fun _ => ?_) fun _ => keeps_pure none
  refine keeps_bind locates fun located => keeps_ite (fun _ => keeps_pure none) fun _ => ?_
  refine keeps_bind (mounts _) fun volume => keeps_ite (fun _ => keeps_pure none) fun _ => ?_
  exact keeps_ite (fun _ => keeps_bind (keeps_throw Stop.null) fun _ => root volume.2)
    fun _ => root volume.2

/-- Opening a file changes only the firmware, and adds its calls to the trace. -/
theorem openOnVolume_onlyFirmware (fw : Firmware σ) (path : Memory) (mode attributes : UInt64) :
    Keeps OnlyFirmware (openOnVolume fw path mode attributes) := by
  have called : ∀ {α : Type} (operation : σ → α × σ) (event : α → Event),
      Keeps OnlyFirmware (call operation event) := fun operation event =>
    (keeps_iff_wp _).mpr fun machine => called_onlyFirmware machine _ _
  exact keeps_openOnVolume fw path mode attributes (called _ _) (fun _ => called _ _)
    (fun _ _ => called _ _) (fun _ => called _ _)

/-- The file that the answers of the firmware lead to, with the firmware state
they leave behind. There is none when the root is a null pointer. -/
def openAnswer (fw : Firmware σ) (name : Text) (mode attributes : UInt64) (available : Bool)
    (state : σ) : Option (Option Handle × σ) :=
  if available then
    let located := fw.locateProtocol state
    if efiError located.1.1 ∨ located.1.2 = 0 then some (none, located.2)
    else
      let volume := fw.openVolume located.1.2 located.2
      if efiError volume.1.1 then some (none, volume.2)
      else if volume.1.2 = 0 then none
      else
        let opened := fw.openFile volume.1.2 name mode attributes volume.2
        let closed := fw.close volume.1.2 opened.2
        if ¬ efiError opened.1.1 ∧ opened.1.2 ≠ 0 then some (some opened.1.2, closed.2)
        else some (none, closed.2)
  else some (none, state)

/-- Opening a file changes only the firmware and follows its answers. -/
theorem wp_openAnswer (fw : Firmware σ) (path : Memory) (name : Text) (mode attributes : UInt64)
    (readable : scan path = some name) {Q : Option Handle → Machine σ → Prop} {E : Stop → Prop}
    {machine : Machine σ}
    (next : ∀ file after, OnlyFirmware machine after →
      openAnswer fw name mode attributes machine.canLocate machine.firmware =
        some (file, after.firmware) → Q file after)
    (crash : openAnswer fw name mode attributes machine.canLocate machine.firmware = none →
      E .null) :
    wp (openOnVolume fw path mode attributes) Q E machine := by
  have step : ∀ (before : Machine σ) (firmware : σ) (event : Event), OnlyFirmware machine before →
      OnlyFirmware machine (before.called firmware event) :=
    fun before firmware event frame => frame.then (called_onlyFirmware before firmware event)
  have start : OnlyFirmware machine machine := Std.Refl.refl machine
  simp only [openOnVolume, wp_bind, wp_get, wp_ite, wp_pure]
  refine ⟨fun available => ?_, fun absent => next none machine start (by simp [openAnswer, absent])⟩
  simp only [available, openAnswer, if_true] at next crash
  rw [locateProtocol, wp_call]
  generalize fw.locateProtocol machine.firmware = located at next crash ⊢
  rw [wp_ite, wp_pure, wp_bind]
  refine ⟨fun noSystem => next none _ (step _ _ _ start) (by simp [noSystem]), fun system => ?_⟩
  simp only [system, if_false] at next crash
  rw [openVolume, wp_call, called_firmware]
  generalize fw.openVolume located.1.2 located.2 = volume at next crash ⊢
  rw [wp_ite, wp_pure]
  refine ⟨fun noVolume => next none _ (step _ _ _ (step _ _ _ start)) (by simp [noVolume]),
    fun haveVolume => ?_⟩
  simp only [haveVolume, Bool.false_eq_true, if_false] at next crash
  rw [wp_ite, wp_bind, wp_throw]
  refine ⟨fun null => crash (by simp [null]), fun root => ?_⟩
  simp only [root, if_false] at next
  simp only [wp_bind, wp_orOverrun, readable, Option.some.injEq, reduceCtorEq, false_implies, and_true]
  rintro _ rfl
  rw [openFile, wp_call, called_firmware, closeFile, wp_bind, wp_call, called_firmware]
  generalize fw.openFile volume.1.2 _ mode attributes volume.2 = opened at next ⊢
  generalize fw.close volume.1.2 opened.2 = closed at next ⊢
  have frame := fun first second third fourth =>
    step _ closed.2 fourth (step _ opened.2 third (step _ volume.2 second
      (step machine located.2 first start)))
  rw [wp_ite, wp_pure, wp_pure]
  refine ⟨fun good => next _ _ (frame _ _ _ _) (by simp [good]), fun bad => ?_⟩
  exact next none _ (frame _ _ _ _) (by rw [if_neg bad]; rfl)

end ExistentOS
