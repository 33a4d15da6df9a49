import ExistentOS.Boot.ExitProtocol
import ExistentOS.Boot.LoadKernel
import ExistentOS.Frames
import ExistentOS.Terminal.Console

/-!
# The hand-off

The end of `efi_main`: load the kernel, leave the boot services, jump. A jump is
safe when the kernel image has been read to the load address and an exit has been
accepted after that. Both steps report with the raw status of a call, so a call
that succeeds without an interface, a file, the right pages or a descriptor size
makes a step report success without having done its work.
-/

namespace ExistentOS.Boot

open Programs Terminated

variable {σ : Type}

/-- The report of `efi_main` on a failed step. Both steps are reported alike. -/
def failedToStart (fw : Firmware σ) : Routine σ EfiStatus := do
  Terminal.terminalWriteLine fw (constant "failed to start kernel")
  return efiLoadError

/-- The end of `efi_main`. The kernel does not return; the status behind the jump
is never seen. -/
def handoff (fw : Firmware σ) (fuel : Nat) : Routine σ EfiStatus := do
  let loaded ← efiLoadKernel fw
  if loaded = efiSuccess then
    let left ← efiLeaveBootServices fw fuel ⟨0, 0⟩
    if left.1 = efiSuccess then
      note (.enterKernel kernelLoadAddress left.2)
      return efiSuccess
    else failedToStart fw
  else failedToStart fw

/-! ## Safe jumps -/

/-- A read that stored some bytes from the load address on. -/
def IsKernelRead (kernel : Handle) (event : Event) : Prop :=
  ∃ size answer, event = .read kernel (.physical kernelLoadAddress) size answer ∧
    answer.status = efiSuccess ∧ answer.size ≠ 0

/-- The file was opened by the path of the kernel, so what is read from it is the kernel. -/
def KernelOpened (kernel : Handle) (events : List Event) : Prop :=
  ∃ root name mode attributes, scan kernelPath = some name ∧
    Event.openFile root name mode attributes (efiSuccess, kernel) ∈ events

/-- A file was opened by the path of the kernel and then read to its address. -/
def KernelRead (events : List Event) : Prop :=
  ∃ opening read reading kernel, events = opening ++ read :: reading ∧ IsKernelRead kernel read ∧
    KernelOpened kernel opening

/-- Every jump goes to the load address, after the kernel was read to it and, after
that, an exit was accepted. -/
def SafeJumps (events : List Event) : Prop :=
  ∀ before address info after, events = before ++ .enterKernel address info :: after →
    address = kernelLoadAddress ∧
      ∃ loading leaving, before = loading ++ leaving ∧ KernelRead loading ∧ Accepted leaving

/-- Events without a jump are safe, whatever else they are. -/
theorem safeJumps_calls {events : List Event} (calls : ∀ event ∈ events, event.isCall = true) :
    SafeJumps events := by
  intro before address info after split
  have member : Event.enterKernel address info ∈ events := by simp [split]
  exact absurd (calls _ member) (by simp [Event.isCall])

/-- A jump behind the calls of both steps is safe exactly when the kernel was read
and an exit accepted in this order. -/
theorem safeJumps_jump {events : List Event} (info : BootInfo)
    (calls : ∀ event ∈ events, event.isCall = true) :
    SafeJumps (events ++ [.enterKernel kernelLoadAddress info]) ↔
      ∃ loading leaving, events = loading ++ leaving ∧ KernelRead loading ∧ Accepted leaving := by
  constructor
  · intro safe
    exact (safe events kernelLoadAddress info [] rfl).2
  · intro done before address info' after split
    obtain rfl | ⟨later, last, rfl⟩ := List.eq_nil_or_concat after
    · have same := List.append_inj_left' split rfl
      have jump := List.append_inj_right' split rfl
      injection jump with jump
      injection jump with target
      exact ⟨target.symm, same ▸ done⟩
    · have parts : events ++ [Event.enterKernel kernelLoadAddress info] =
          (before ++ Event.enterKernel address info' :: later) ++ [last] := by
        rw [split]
        simp
      have member : Event.enterKernel address info' ∈ events := by
        simp [List.append_inj_left' parts rfl]
      exact absurd (calls _ member) (by simp [Event.isCall])

/-! ## What the firmware answers to the loading step -/

/-- How a step ends, by the answers alone: it reports a failure, it reports a
success without having done its work, or it has done its work. -/
inductive StepOutcome where
  | failed
  | leaked
  | done
  deriving DecidableEq

/-- The name of the kernel image, by which a volume knows the file. -/
def kernelName : Text := text "\\kernel.bin"

/-- A step that ends early hands on the status it has, which may be a success. -/
def unfinished (status : EfiStatus) : StepOutcome :=
  if status = efiSuccess then .leaked else .failed

/-- A read into the claimed memory does its work only at the load address. -/
def readAt (address : UInt64) (answer : ReadAnswer) : StepOutcome :=
  if answer.size = 0 ∨ answer.status ≠ efiSuccess then .failed
  else if address = kernelLoadAddress then .done
  else .leaked

/-- The outcome of claiming memory for an open kernel and reading it, and the
firmware state behind it. -/
def readOutcome (fw : Firmware σ) (kernel : Handle) (state : σ) : StepOutcome × σ :=
  let allocated := fw.allocatePages allocateAddress efiLoaderData (kernelMaxBytes / 4096)
    kernelLoadAddress state
  if allocated.1.1 ≠ efiSuccess then (.failed, allocated.2)
  else
    let answer := fw.read kernel kernelMaxBytes allocated.2
    (readAt allocated.1.2 answer.1, answer.2)

/-- The outcome of loading from an open volume and the firmware state behind it. -/
def rootOutcome (fw : Firmware σ) (root : Handle) (state : σ) : StepOutcome × σ :=
  let opened := fw.openFile root kernelName efiFileModeRead 0 state
  if opened.1.1 ≠ efiSuccess ∨ opened.1.2 = 0 then
    (unfinished opened.1.1, (fw.close root opened.2).2)
  else
    let read := readOutcome fw opened.1.2 opened.2
    (read.1, (fw.close root (fw.close opened.1.2 read.2).2).2)

/-- The outcome of the loading step and the firmware state behind it. -/
def loadOutcome (fw : Firmware σ) (available : Bool) (state : σ) : StepOutcome × σ :=
  if available then
    let located := fw.locateProtocol state
    if located.1.1 ≠ efiSuccess ∨ located.1.2 = 0 then (unfinished located.1.1, located.2)
    else
      let volume := fw.openVolume located.1.2 located.2
      if volume.1.1 ≠ efiSuccess ∨ volume.1.2 = 0 then (unfinished volume.1.1, volume.2)
      else rootOutcome fw volume.1.2 volume.2
  else (.failed, state)

/-- The outcome of the leaving step. There is none when the fuel is too small or
the source leaves its buffer. -/
def leaveOutcome (fw : Firmware σ) (image : Handle) :
    Nat → (Nat → UInt8) → σ → Option StepOutcome
  | 0, _, _ => none
  | fuel + 1, buffer, state =>
    let fetched := fw.getMemoryMap memoryMapBufferSize state
    let held := filled buffer fetched.1.map
    let exited := fw.exitBootServices image fetched.1.mapKey fetched.2
    if memoryMapBufferSize < fetched.1.map.length then none
    else if fetched.1.status ≠ efiSuccess then some .failed
    else if fetched.1.descriptorSize = 0 then some .leaked
    else if addDescriptors held fetched.1.descriptorSize
        (fetched.1.mapSize / fetched.1.descriptorSize) 0 0 = none then none
    else if exited.1 = efiSuccess then some .done
    else if exited.1 = efiInvalidParameter then leaveOutcome fw image fuel held exited.2
    else some .failed

/-! ## The loading step -/

/-- The event is a call, but not an exit. While the kernel is loaded the boot services stay. -/
def isLoading : Event → Bool
  | .exitBootServices _ _ _ => false
  | event => event.isCall

/-- No event reads the kernel to its address, so nothing is there that could be entered. -/
def Unread (events : List Event) : Prop :=
  ∀ event ∈ events, ∀ kernel, ¬ IsKernelRead kernel event

/-- A further event that is no such read. -/
theorem Unread.append {events : List Event} (unread : Unread events) (event : Event)
    (other : ∀ kernel, ¬ IsKernelRead kernel event) : Unread (events ++ [event]) := by
  intro found member kernel
  rcases List.mem_append.mp member with earlier | last
  · exact unread found earlier kernel
  · rw [List.mem_singleton.mp last]
    exact other kernel

/-- What an outcome of the loading step says about its status and its events. -/
def LoadExplains : StepOutcome → EfiStatus → List Event → Prop
  | .failed, status, _ => status ≠ efiSuccess
  | .leaked, status, events => status = efiSuccess ∧ Unread events
  | .done, status, events => status = efiSuccess ∧ KernelRead events

/-- An early end explains itself when nothing was read. -/
theorem unfinished_explains (status : EfiStatus) (events : List Event)
    (unread : Unread events) :
    LoadExplains (unfinished status) status events := by
  by_cases success : status = efiSuccess
  · rw [unfinished, if_pos success]
    exact ⟨success, unread⟩
  · rw [unfinished, if_neg success]
    exact success

/-- A read of an open kernel explains itself by the address and the answer. -/
theorem readAt_explains (kernel : Handle) (address : UInt64) (answer : ReadAnswer)
    (events : List Event) (unread : Unread events) (opened : KernelOpened kernel events) :
    LoadExplains (readAt address answer) (if answer.size = 0 then efiLoadError else answer.status)
      (events ++ [.read kernel (.physical address) kernelMaxBytes answer]) := by
  unfold readAt
  by_cases failed : answer.size = 0 ∨ answer.status ≠ efiSuccess
  · rw [if_pos failed]
    by_cases empty : answer.size = 0
    · rw [if_pos empty]
      exact (by decide : efiLoadError ≠ efiSuccess)
    · rw [if_neg empty]
      exact failed.resolve_left empty
  · obtain ⟨nonempty, success⟩ : answer.size ≠ 0 ∧ answer.status = efiSuccess := by
      simpa using failed
    rw [if_neg failed, if_neg nonempty]
    by_cases placed : address = kernelLoadAddress
    · rw [if_pos placed]
      refine ⟨success, events, _, [], kernel, rfl, ?_, opened⟩
      exact ⟨kernelMaxBytes, answer, by rw [placed], success, nonempty⟩
    · rw [if_neg placed]
      refine ⟨success, unread.append _ ?_⟩
      rintro reader ⟨size, other, same, _⟩
      injection same with _ destination
      injection destination with elsewhere
      exact placed elsewhere

/-- The machine behind the loading step or a part of it. Only calls of the loading have happened,
and the pointers that the next step tests are untouched. -/
structure LoadEnd (start after : Machine σ) (events : List Event) : Prop where
  trace : after.trace = start.trace ++ events
  services : after.gBS = start.gBS
  image : after.gImageHandle = start.gImageHandle
  buffer : after.memoryMapBuffer = start.memoryMapBuffer
  loading : ∀ event ∈ events, isLoading event = true

/-- Nothing has happened yet, which is where the loading starts. -/
theorem loadEnd_start (start : Machine σ) : LoadEnd start start [] :=
  ⟨(List.append_nil _).symm, rfl, rfl, rfl, by simp⟩

/-- A call of the loading step adds its event and leaves the firmware as answered. -/
theorem LoadEnd.wp_call {α : Type} {start machine : Machine σ} {events : List Event}
    (begun : LoadEnd start machine events) {operation : σ → α × σ} {event : α → Event}
    (loading : ∀ answer, isLoading (event answer) = true)
    {Q : α → Machine σ → Prop} {E : Stop → Prop}
    (next : ∀ after,
      LoadEnd start after (events ++ [event (operation machine.firmware).1]) →
      after.firmware = (operation machine.firmware).2 → Q (operation machine.firmware).1 after) :
    wp (call operation event) Q E machine := by
  rw [ExistentOS.wp_call]
  apply next
  · refine ⟨?_, begun.services, begun.image, begun.buffer, ?_⟩
    · rw [called_trace, begun.trace, List.append_assoc]
    · intro found member
      rcases List.mem_append.mp member with earlier | last
      · exact begun.loading found earlier
      · rw [List.mem_singleton.mp last]
        exact loading _
  · rfl

/-- Stores into physical memory do not concern the loading step. -/
theorem LoadEnd.wp_store {start machine : Machine σ} {events : List Event}
    (begun : LoadEnd start machine events) {store : Machine σ → UInt64 → UInt8}
    {Q : PUnit → Machine σ → Prop} {E : Stop → Prop}
    (next : ∀ after, LoadEnd start after events → after.firmware = machine.firmware → Q ⟨⟩ after) :
    wp (modify fun machine => { machine with memory := store machine }) Q E machine := by
  rw [wp_modify]
  apply next
  · exact ⟨begun.trace, begun.services, begun.image, begun.buffer, begun.loading⟩
  · rfl

/-- The path of the kernel is readable. -/
theorem scan_kernelPath : scan kernelPath = some kernelName :=
  scan_append kernelName [] (by decide)

/-- Reading an open kernel always returns, as its outcome says. -/
theorem wp_readKernel (fw : Firmware σ) (kernel : Handle) {start machine : Machine σ}
    {events : List Event} (begun : LoadEnd start machine events)
    (unread : Unread events)
    (opened : KernelOpened kernel events)
    {Q : EfiStatus → Machine σ → Prop} {E : Stop → Prop}
    (next : ∀ status after events, LoadEnd start after events →
      LoadExplains (readOutcome fw kernel machine.firmware).1 status events →
      after.firmware = (readOutcome fw kernel machine.firmware).2 → Q status after) :
    wp (readKernel fw kernel) Q E machine := by
  rw [readKernel, wp_bind]
  apply begun.wp_call (fun _ => rfl)
  intro claimed begun firmware
  unfold readOutcome at next
  generalize fw.allocatePages allocateAddress efiLoaderData (kernelMaxBytes / 4096)
    kernelLoadAddress machine.firmware = allocated at next begun firmware ⊢
  rw [wp_ite, wp_pure]
  constructor
  · intro failed
    have error : allocated.1.1 ≠ efiSuccess := by simpa [efiError] using failed
    apply next _ _ _ begun
    · rw [if_pos error]
      exact error
    · rw [if_pos error]
      exact firmware
  · intro good
    have success : ¬ allocated.1.1 ≠ efiSuccess := by simpa [efiError] using good
    rw [if_neg success, ← firmware] at next
    dsimp only at next
    rw [wp_bind]
    apply begun.wp_store
    intro cleared begun same
    rw [wp_bind]
    apply begun.wp_call (fun _ => rfl)
    intro filled begun firmware
    rw [same] at begun firmware ⊢
    generalize fw.read kernel kernelMaxBytes claimed.firmware = answer at next begun firmware ⊢
    rw [wp_bind]
    apply begun.wp_store
    intro after begun same
    rw [wp_pure]
    apply next _ _ _ begun
    · apply readAt_explains
      · exact unread.append _ (by simp [IsKernelRead])
      · obtain ⟨root, name, mode, attributes, readable, member⟩ := opened
        exact ⟨root, name, mode, attributes, readable, List.mem_append_left _ member⟩
    · rw [same, firmware]

/-- Later calls that read nothing leave an explanation as it is. -/
theorem LoadExplains.append {outcome : StepOutcome} {status : EfiStatus} {events : List Event}
    (explained : LoadExplains outcome status events) {event : Event}
    (other : ∀ kernel, ¬ IsKernelRead kernel event) :
    LoadExplains outcome status (events ++ [event]) := by
  cases outcome with
  | failed => exact explained
  | leaked => exact ⟨explained.1, explained.2.append event other⟩
  | done =>
    obtain ⟨success, opening, read, reading, kernel, rfl, isRead, opened⟩ := explained
    exact ⟨success, opening, read, reading ++ [event], kernel, by simp, isRead, opened⟩

/-- Loading from an open volume always returns, as its outcome says. -/
theorem wp_loadFromRoot (fw : Firmware σ) (root : Handle) {start machine : Machine σ}
    {events : List Event} (begun : LoadEnd start machine events) (unread : Unread events)
    {Q : EfiStatus → Machine σ → Prop} {E : Stop → Prop}
    (next : ∀ status after events, LoadEnd start after events →
      LoadExplains (rootOutcome fw root machine.firmware).1 status events →
      after.firmware = (rootOutcome fw root machine.firmware).2 → Q status after) :
    wp (loadFromRoot fw root) Q E machine := by
  unfold rootOutcome at next
  rw [loadFromRoot, wp_bind, scan_kernelPath]
  change wp (openFile fw root kernelName efiFileModeRead 0 >>= _) Q E machine
  rw [wp_bind]
  apply begun.wp_call (fun _ => rfl)
  intro opened begun firmware
  generalize fw.openFile root kernelName efiFileModeRead 0 machine.firmware = opening
    at next begun firmware ⊢
  replace unread := unread.append (.openFile root kernelName efiFileModeRead 0 opening.1)
    (by simp [IsKernelRead])
  rw [wp_ite]
  constructor
  · intro early
    have ended : opening.1.1 ≠ efiSuccess ∨ opening.1.2 = 0 := by simpa [efiError] using early
    rw [if_pos ended, ← firmware] at next
    rw [wp_bind]
    apply begun.wp_call (fun _ => rfl)
    intro after begun firmware
    apply next _ _ _ begun (unfinished_explains _ _ (unread.append _ (by simp [IsKernelRead])))
    exact firmware
  · intro good
    have found : ¬ (opening.1.1 ≠ efiSuccess ∨ opening.1.2 = 0) := by
      simpa [efiError] using good
    have success : opening.1.1 = efiSuccess := by
      simpa using (not_or.mp found).1
    have member : Event.openFile root kernelName efiFileModeRead 0 (efiSuccess, opening.1.2) ∈
        events ++ [.openFile root kernelName efiFileModeRead 0 opening.1] := by
      rw [← success]
      exact List.mem_append_right _ (List.mem_singleton_self _)
    rw [if_neg found, ← firmware] at next
    dsimp only at next
    rw [wp_bind]
    apply wp_readKernel fw opening.1.2 begun unread ⟨root, _, _, _, scan_kernelPath, member⟩
    intro status read events begun explained firmware
    rw [← firmware] at next
    rw [wp_bind]
    apply begun.wp_call (fun _ => rfl)
    intro closed begun firmware
    rw [← firmware] at next
    rw [wp_bind]
    apply begun.wp_call (fun _ => rfl)
    intro after begun firmware
    apply next _ _ _ begun _ firmware
    exact (explained.append (by simp [IsKernelRead])).append (by simp [IsKernelRead])

/-- The loading step always returns, as its outcome says. -/
theorem wp_efiLoadKernel (fw : Firmware σ) (machine : Machine σ)
    {Q : EfiStatus → Machine σ → Prop} {E : Stop → Prop}
    (next : ∀ status after events, LoadEnd machine after events →
      LoadExplains (loadOutcome fw (canLoad machine) machine.firmware).1 status events →
      after.firmware = (loadOutcome fw (canLoad machine) machine.firmware).2 → Q status after) :
    wp (efiLoadKernel fw) Q E machine := by
  have begun := loadEnd_start machine
  have unread : Unread [] := by simp [Unread]
  unfold loadOutcome at next
  rw [efiLoadKernel, wp_bind, wp_get, wp_ite, wp_pure]
  constructor
  · intro available
    rw [if_pos available] at next
    dsimp only at next
    rw [wp_bind]
    apply begun.wp_call (fun _ => rfl)
    intro located begun firmware
    generalize fw.locateProtocol machine.firmware = locating at next begun firmware ⊢
    replace unread := unread.append (.locateProtocol locating.1) (by simp [IsKernelRead])
    rw [wp_ite, wp_pure]
    constructor
    · intro early
      have ended : locating.1.1 ≠ efiSuccess ∨ locating.1.2 = 0 := by simpa [efiError] using early
      rw [if_pos ended] at next
      exact next _ _ _ begun (unfinished_explains _ _ unread) firmware
    · intro good
      have found : ¬ (locating.1.1 ≠ efiSuccess ∨ locating.1.2 = 0) := by
        simpa [efiError] using good
      rw [if_neg found, ← firmware] at next
      rw [wp_bind]
      apply begun.wp_call (fun _ => rfl)
      intro entered begun firmware
      generalize fw.openVolume locating.1.2 located.firmware = volume at next begun firmware ⊢
      replace unread := unread.append (.openVolume locating.1.2 volume.1)
        (by simp [IsKernelRead])
      rw [wp_ite, wp_pure]
      constructor
      · intro early
        have ended : volume.1.1 ≠ efiSuccess ∨ volume.1.2 = 0 := by simpa [efiError] using early
        rw [if_pos ended] at next
        exact next _ _ _ begun (unfinished_explains _ _ unread) firmware
      · intro good
        have found : ¬ (volume.1.1 ≠ efiSuccess ∨ volume.1.2 = 0) := by
          simpa [efiError] using good
        rw [if_neg found, ← firmware] at next
        exact wp_loadFromRoot fw volume.1.2 begun unread next
  · intro absent
    rw [if_neg absent] at next
    apply next _ _ _ begun
    · exact (by decide : efiLoadError ≠ efiSuccess)
    · rfl

/-! ## The leaving step -/

/-- What an outcome of the leaving step says about its status and its events. -/
def LeaveExplains : StepOutcome → EfiStatus → List Event → Prop
  | .failed, status, _ => status ≠ efiSuccess
  | .leaked, status, events => status = efiSuccess ∧ ¬ Accepted events
  | .done, status, events => status = efiSuccess ∧ Accepted events

/-- The machine behind the leaving step or some of its rounds. No kernel is read there, so what
was read before is still what is entered. -/
structure LeaveEnd (start after : Machine σ) (events : List Event) : Prop where
  trace : after.trace = start.trace ++ events
  calls : ∀ event ∈ events, event.isCall = true
  unread : Unread events

/-- Nothing has happened yet, which is where the leaving starts. -/
theorem leaveEnd_start (start : Machine σ) : LeaveEnd start start [] :=
  ⟨(List.append_nil _).symm, by simp, by simp [Unread]⟩

/-- A further call that is no read keeps the kernel unread or read as it was. -/
theorem LeaveEnd.append {start machine after : Machine σ} {events : List Event}
    (begun : LeaveEnd start machine events) (event : Event)
    (traced : after.trace = machine.trace ++ [event]) (called : event.isCall = true)
    (other : ∀ kernel, ¬ IsKernelRead kernel event) : LeaveEnd start after (events ++ [event]) where
  trace := by rw [traced, begun.trace, List.append_assoc]
  calls := by
    intro found member
    rcases List.mem_append.mp member with earlier | last
    · exact begun.calls found earlier
    · rw [List.mem_singleton.mp last]
      exact called
  unread := begun.unread.append event other

/-- The outcome of the rounds by the answers of the first one. -/
theorem leaveOutcome_succ (fw : Firmware σ) (fuel : Nat) (machine : Machine σ) :
    leaveOutcome fw machine.gImageHandle (fuel + 1) machine.memoryMapBuffer machine.firmware =
      if memoryMapBufferSize < (fetchAnswer fw machine).map.length then none
      else if (fetchAnswer fw machine).status ≠ efiSuccess then some .failed
      else if (fetchAnswer fw machine).descriptorSize = 0 then some .leaked
      else if fetchedBytes fw machine = none then none
      else if exitAnswer fw machine = efiSuccess then some .done
      else if exitAnswer fw machine = efiInvalidParameter then
        leaveOutcome fw (afterExit fw machine).gImageHandle fuel
          (afterExit fw machine).memoryMapBuffer (afterExit fw machine).firmware
      else some .failed := rfl

/-- The rounds end as their outcome says, and do not return without one.

Induct over the fuel; up to each round, no exit was accepted. -/
theorem wp_exitRounds (fw : Firmware σ) (bootInfo : BootInfo) (fuel : Nat)
    {start machine : Machine σ} {events : List Event} (begun : LeaveEnd start machine events)
    (unaccepted : ¬ Accepted events)
    {Q : EfiStatus × BootInfo → Machine σ → Prop} {E : Stop → Prop}
    (stops : leaveOutcome fw machine.gImageHandle fuel machine.memoryMapBuffer machine.firmware =
      none → ∀ stop, E stop)
    (next : ∀ outcome result after events,
      leaveOutcome fw machine.gImageHandle fuel machine.memoryMapBuffer machine.firmware =
        some outcome →
      LeaveEnd start after events → LeaveExplains outcome result.1 events → Q result after) :
    wp (iterate .outOfFuel (exitRound fw bootInfo) fuel ()) Q E machine := by
  induction fuel generalizing machine events with
  | zero => exact stops rfl .outOfFuel
  | succ fuel ih =>
    rw [iterate, wp_bind]
    have fetching : LeaveEnd start (afterFetch fw machine) _ := begun.append
      (.getMemoryMap memoryMapBufferSize (fetchAnswer fw machine)) rfl rfl (by simp [IsKernelRead])
    have exiting : LeaveEnd start (afterExit fw machine) _ := fetching.append
      (.exitBootServices machine.gImageHandle (fetchAnswer fw machine).mapKey
        (exitAnswer fw machine)) rfl rfl (by simp [IsKernelRead])
    have unfetched : ¬ Accepted (events ++
        [Event.getMemoryMap memoryMapBufferSize (fetchAnswer fw machine)]) := by
      rw [accepted_append]
      exact not_or.mpr ⟨unaccepted, fetch_unaccepted _ _⟩
    rw [leaveOutcome_succ] at stops next
    apply wp_exitRound
    · rintro (overrun | ⟨success, sized, unread⟩)
      · rw [if_pos overrun] at stops
        exact stops rfl _
      · by_cases overrun : memoryMapBufferSize < (fetchAnswer fw machine).map.length
        · rw [if_pos overrun] at stops
          exact stops rfl _
        · rw [if_neg overrun, if_neg (not_not.mpr success), if_neg sized, if_pos unread] at stops
          exact stops rfl _
    · intro within failed
      rw [if_neg within] at next
      by_cases error : (fetchAnswer fw machine).status = efiSuccess
      · rw [if_neg (not_not.mpr error), if_pos (failed.resolve_left (not_not.mpr error))] at next
        exact next _ _ _ _ rfl fetching ⟨error, unfetched⟩
      · rw [if_pos error] at next
        exact next _ _ _ _ rfl fetching error
    · intro within success sized total added
      have summed : ¬ fetchedBytes fw machine = none := by simp [added]
      rw [if_neg within, if_neg (not_not.mpr success), if_neg sized, if_neg summed] at stops next
      refine ⟨fun accepted => ?_, fun rejected => ?_, fun unaccepted refused => ?_⟩
      · rw [if_pos accepted] at next
        have closed : LeaveEnd start { afterExit fw machine with gBS := none } _ :=
          ⟨exiting.trace, exiting.calls, exiting.unread⟩
        apply next _ _ _ _ rfl closed
        refine ⟨rfl, ?_⟩
        rw [accepted_append, exit_accepted]
        exact Or.inr accepted
      · have other : ¬ exitAnswer fw machine = efiSuccess := by
          rw [rejected]
          decide
        rw [if_neg other, if_pos rejected] at stops next
        apply ih exiting _ stops next
        rw [accepted_append, exit_accepted]
        exact not_or.mpr ⟨unfetched, other⟩
      · rw [if_neg unaccepted, if_neg refused] at next
        exact next _ _ _ _ rfl exiting unaccepted

/-- The outcome of the leaving step behind a loading step that ended in a firmware
state. -/
def leftOutcome (fw : Firmware σ) (fuel : Nat) (start : Machine σ) (state : σ) :
    Option StepOutcome :=
  if canExit start then leaveOutcome fw start.gImageHandle fuel start.memoryMapBuffer state
  else some .failed

/-- The leaving step ends as its outcome says, and does not return without one. -/
theorem wp_leave (fw : Firmware σ) (fuel : Nat) (bootInfo : BootInfo) (machine : Machine σ)
    {Q : EfiStatus × BootInfo → Machine σ → Prop} {E : Stop → Prop}
    (stops : leftOutcome fw fuel machine machine.firmware = none → ∀ stop, E stop)
    (next : ∀ outcome result after events,
      leftOutcome fw fuel machine machine.firmware = some outcome →
      LeaveEnd machine after events → LeaveExplains outcome result.1 events → Q result after) :
    wp (efiLeaveBootServices fw fuel bootInfo) Q E machine := by
  unfold leftOutcome at stops next
  rw [efiLeaveBootServices, wp_bind, wp_get, wp_ite, wp_pure]
  constructor
  · intro available
    rw [if_pos available] at stops next
    exact wp_exitRounds fw bootInfo fuel (leaveEnd_start machine) (by simp [Accepted]) stops next
  · intro absent
    rw [if_neg absent] at next
    exact next _ _ _ _ rfl (leaveEnd_start machine) (by decide : efiLoadError ≠ efiSuccess)

/-! ## The condition for a safe hand-off -/

/-- No success is reported for work that was not done: one of the steps reports a
failure, the leaving step does not end, or both steps do their work. -/
def Honest (load : StepOutcome) (leave : Option StepOutcome) : Prop :=
  load = .failed ∨ leave = none ∨ leave = some .failed ∨ load = .done ∧ leave = some .done

/-- The answers of the firmware to the calls of both steps are honest. -/
def Faithful (fw : Firmware σ) (fuel : Nat) (machine : Machine σ) : Prop :=
  Honest (loadOutcome fw (canLoad machine) machine.firmware).1
    (leftOutcome fw fuel machine (loadOutcome fw (canLoad machine) machine.firmware).2)

/-- The loading step reports a success unless its outcome is a failure. -/
theorem LoadExplains.success_iff {outcome : StepOutcome} {status : EfiStatus}
    {events : List Event} (explained : LoadExplains outcome status events) :
    status = efiSuccess ↔ outcome ≠ .failed := by
  cases outcome with
  | failed => exact iff_of_false explained (by simp)
  | leaked => exact iff_of_true explained.1 (by simp)
  | done => exact iff_of_true explained.1 (by simp)

/-- The leaving step reports a success unless its outcome is a failure. -/
theorem LeaveExplains.success_iff {outcome : StepOutcome} {status : EfiStatus}
    {events : List Event} (explained : LeaveExplains outcome status events) :
    status = efiSuccess ↔ outcome ≠ .failed := by
  cases outcome with
  | failed => exact iff_of_false explained (by simp)
  | leaked => exact iff_of_true explained.1 (by simp)
  | done => exact iff_of_true explained.1 (by simp)

/-- Events that never read the kernel do not contain its read. -/
theorem Unread.not_read {loading leaving : List Event} (unread : Unread (loading ++ leaving)) :
    ¬ KernelRead loading := by
  rintro ⟨opening, read, reading, kernel, rfl, isRead, _⟩
  exact unread read (by simp) kernel isRead

/-- Events of the loading step contain no accepted exit. -/
theorem loading_unaccepted {events : List Event}
    (loading : ∀ event ∈ events, isLoading event = true) : ¬ Accepted events := by
  rintro ⟨image, mapKey, member⟩
  exact absurd (loading _ member) (by simp [isLoading])

/-- Events of the loading step are calls, so none of them is a jump. -/
theorem loading_calls {events : List Event}
    (loading : ∀ event ∈ events, isLoading event = true) :
    ∀ event ∈ events, event.isCall = true := by
  intro event member
  have isLoading := loading event member
  cases event <;> first | rfl | exact isLoading

/-- The report of a failure only calls the firmware. -/
theorem wp_failedToStart (fw : Firmware σ) (machine : Machine σ) :
    wp (failedToStart fw)
      (fun _ after => Emits (fun event => event.isCall = true) machine after) (fun _ => True)
      machine := by
  have frame : StorageFrame fw (Emits fun event => event.isCall = true) :=
    storageFrame_emits (fun _ isCall => isCall) fw
  have composed : Composed fw (fun _ => True) Nothing (failedToStart fw) :=
    Composed.bind (Terminal.composed_terminalWriteLine (Or.inr trivial))
      (fun _ => Composed.pure efiLoadError)
  exact (keeps_iff_wp _).mp composed.keepsQuiet machine

/-- The jump behind two reported successes is safe exactly when both steps have
done their work. -/
theorem jump_exact {load leave : StepOutcome} {loadStatus leaveStatus : EfiStatus}
    {loading leaving : List Event} (explainedLoad : LoadExplains load loadStatus loading)
    (explainedLeave : LeaveExplains leave leaveStatus leaving)
    (loads : ∀ event ∈ loading, isLoading event = true) (unread : Unread leaving)
    (loaded : loadStatus = efiSuccess) (left : leaveStatus = efiSuccess) :
    (∃ first second, loading ++ leaving = first ++ second ∧ KernelRead first ∧ Accepted second) ↔
      load = .done ∧ leave = .done := by
  constructor
  · rintro ⟨first, second, split, read, accepted⟩
    constructor
    · cases load with
      | failed => exact absurd loaded explainedLoad
      | done => rfl
      | leaked =>
        have none : Unread (first ++ second) := by
          rw [← split]
          intro event member
          rcases List.mem_append.mp member with early | late
          · exact explainedLoad.2 event early
          · exact unread event late
        exact absurd read none.not_read
    · cases leave with
      | failed => exact absurd left explainedLeave
      | done => rfl
      | leaked =>
        have all : Accepted (loading ++ leaving) := by
          rw [split, accepted_append]
          exact Or.inr accepted
        rcases (accepted_append loading leaving).mp all with early | late
        · exact absurd early (loading_unaccepted loads)
        · exact absurd late explainedLeave.2
  · rintro ⟨rfl, rfl⟩
    exact ⟨loading, leaving, rfl, explainedLoad.2, explainedLeave.2⟩

/-- A failed step prints its report and leaves the hand-off safe. -/
theorem wp_failed (fw : Firmware σ) {fuel : Nat} {start machine : Machine σ}
    {events : List Event} (traced : machine.trace = start.trace ++ events)
    (calls : ∀ event ∈ events, event.isCall = true) (faithful : Faithful fw fuel start) :
    wp (failedToStart fw)
      (fun _ after => ∃ events, after.trace = start.trace ++ events ∧
        (SafeJumps events ↔ Faithful fw fuel start))
      (fun _ => Faithful fw fuel start) machine := by
  apply wp_mono (wp_failedToStart fw machine)
  · rintro _ after ⟨shown, printed, shows⟩
    refine ⟨events ++ shown, by rw [printed, traced, List.append_assoc], ?_⟩
    apply iff_of_true _ faithful
    apply safeJumps_calls
    intro event member
    exact (List.mem_append.mp member).elim (calls event) (shows event)
  · intro _ _
    exact faithful

/-- Every run of the hand-off that returns is safe exactly if the answers were
faithful, and it stops early only if they were. -/
theorem wp_handoff (fw : Firmware σ) (fuel : Nat) (machine : Machine σ) :
    wp (handoff fw fuel)
      (fun _ after => ∃ events, after.trace = machine.trace ++ events ∧
        (SafeJumps events ↔ Faithful fw fuel machine))
      (fun _ => Faithful fw fuel machine) machine := by
  have meaning : Faithful fw fuel machine ↔ Honest _ _ := Iff.rfl
  rw [handoff, wp_bind]
  apply wp_efiLoadKernel
  intro status loaded loading ended explained firmware
  have same : leftOutcome fw fuel loaded loaded.firmware = leftOutcome fw fuel machine
      (loadOutcome fw (canLoad machine) machine.firmware).2 := by
    rw [firmware]
    unfold leftOutcome canExit
    rw [ended.services, ended.image, ended.buffer]
  generalize (loadOutcome fw (canLoad machine) machine.firmware).1 = load at meaning explained
  rw [wp_ite]
  constructor
  · intro success
    have worked : load ≠ .failed := explained.success_iff.mp success
    rw [wp_bind]
    apply wp_leave
    · intro none _
      exact meaning.mpr (Or.inr (Or.inl (same ▸ none)))
    · intro outcome result after leaving out left explainedLeave
      rw [← same, out] at meaning
      have calls : ∀ event ∈ loading ++ leaving, event.isCall = true := by
        intro event member
        exact (List.mem_append.mp member).elim (loading_calls ended.loading event)
          (left.calls event)
      have traced : after.trace = machine.trace ++ (loading ++ leaving) := by
        rw [left.trace, ended.trace, List.append_assoc]
      rw [wp_ite]
      constructor
      · intro leftSuccess
        have left_worked : outcome ≠ .failed := explainedLeave.success_iff.mp leftSuccess
        rw [wp_bind, wp_note, wp_pure]
        refine ⟨loading ++ leaving ++ [.enterKernel kernelLoadAddress result.2], ?_, ?_⟩
        · rw [traced, List.append_assoc]
        · rw [safeJumps_jump result.2 calls, jump_exact explained explainedLeave ended.loading
            left.unread success leftSuccess, meaning]
          simp [Honest, worked, left_worked]
      · intro leftFailure
        apply wp_failed fw traced calls
        have failed : outcome = .failed := by
          by_contra other
          exact leftFailure (explainedLeave.success_iff.mpr other)
        exact meaning.mpr (Or.inr (Or.inr (Or.inl (congrArg some failed))))
  · intro failure
    apply wp_failed fw ended.trace (loading_calls ended.loading)
    have failed : load = .failed := by
      by_contra other
      exact failure (explained.success_iff.mpr other)
    exact meaning.mpr (Or.inl failed)

end ExistentOS.Boot
