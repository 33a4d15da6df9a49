import ExistentOS.Boot.MemoryMap

/-!
# The exit protocol

The order of calls that the firmware sees from `efi_leave_boot_services`, for a
firmware that describes its maps truthfully but may reject any number of exits.
An exit carries the key of the map fetched by the call directly before it, and
the total handed to the kernel is that of the same map.
-/

namespace ExistentOS.Boot

open Programs

variable {σ : Type}

/-- Every successful fetch reports descriptors of at least the declared size and
a map that lies within the buffer. -/
def Conforming (fw : Firmware σ) : Prop :=
  ∀ state, (fw.getMemoryMap memoryMapBufferSize state).1.status = efiSuccess →
    memoryDescriptorSize ≤ (fw.getMemoryMap memoryMapBufferSize state).1.descriptorSize ∧
      (fw.getMemoryMap memoryMapBufferSize state).1.mapSize ≤ memoryMapBufferSize

/-- No fetch stores more bytes than it was given room for. Otherwise what lies behind the buffer
would be overwritten. -/
def WithinRoom (fw : Firmware σ) : Prop :=
  ∀ state, (fw.getMemoryMap memoryMapBufferSize state).1.map.length ≤ memoryMapBufferSize

/-- Every exit is the step directly after a successful fetch, with the key of the
fetched map. -/
def KeyedExits (image : Handle) (events : List Event) : Prop :=
  ∀ before caller mapKey status after,
    events = before ++ Event.exitBootServices caller mapKey status :: after →
    caller = image ∧ ∃ earlier size answer, before = earlier ++ [Event.getMemoryMap size answer] ∧
      answer.status = efiSuccess ∧ answer.mapKey = mapKey

/-- Some exit was accepted. From then on there are no boot services. -/
def Accepted (events : List Event) : Prop :=
  ∃ image mapKey, Event.exitBootServices image mapKey efiSuccess ∈ events

/-- A further fetch keeps all exits keyed. The next exit must take its key, and not an earlier
one. -/
theorem KeyedExits.fetch {image : Handle} {events : List Event} (keyed : KeyedExits image events)
    (size : Nat) (answer : MemoryMapAnswer) :
    KeyedExits image (events ++ [.getMemoryMap size answer]) := by
  intro before caller mapKey status after split
  obtain rfl | ⟨later, last, rfl⟩ := List.eq_nil_or_concat after
  · have ends := List.append_inj_right' split rfl
    cases ends
  · have parts : events ++ [Event.getMemoryMap size answer] =
        (before ++ Event.exitBootServices caller mapKey status :: later) ++ [last] := by
      rw [split]
      simp
    exact keyed before caller mapKey status later (List.append_inj_left' parts rfl)

/-- An exit directly after a successful fetch, with its key, keeps all exits
keyed. -/
theorem KeyedExits.exit {image : Handle} {events : List Event} {size : Nat}
    {answer : MemoryMapAnswer}
    (keyed : KeyedExits image (events ++ [.getMemoryMap size answer]))
    (fetched : answer.status = efiSuccess) (status : EfiStatus) :
    KeyedExits image (events ++ [.getMemoryMap size answer] ++
      [.exitBootServices image answer.mapKey status]) := by
  intro before caller mapKey final after split
  obtain rfl | ⟨later, last, rfl⟩ := List.eq_nil_or_concat after
  · have earlier := List.append_inj_left' split rfl
    have ends := List.append_inj_right' split rfl
    injection ends with same
    injection same with sameImage sameKey
    exact ⟨sameImage.symm, events, size, answer, earlier.symm, fetched, sameKey⟩
  · have parts : events ++ [Event.getMemoryMap size answer] ++
        [Event.exitBootServices image answer.mapKey status] =
        (before ++ Event.exitBootServices caller mapKey final :: later) ++ [last] := by
      rw [split]
      simp
    exact keyed before caller mapKey final later (List.append_inj_left' parts rfl)

/-! ## One round -/

section Round

variable (fw : Firmware σ) (machine : Machine σ)

/-- The answer to the fetch of a round, and the machine with the map in its
buffer. -/
def fetchAnswer : MemoryMapAnswer := (fw.getMemoryMap memoryMapBufferSize machine.firmware).1

/-- The machine with the fetched map in its buffer. What the firmware has not stored is still
there from the round before. -/
def afterFetch : Machine σ :=
  { machine.called (fw.getMemoryMap memoryMapBufferSize machine.firmware).2
      (.getMemoryMap memoryMapBufferSize (fetchAnswer fw machine)) with
    memoryMapBuffer := filled machine.memoryMapBuffer (fetchAnswer fw machine).map }

/-- The answer to the exit of a round, and the machine behind it. -/
def exitAnswer : EfiStatus :=
  (fw.exitBootServices machine.gImageHandle (fetchAnswer fw machine).mapKey
    (fw.getMemoryMap memoryMapBufferSize machine.firmware).2).1

/-- The machine behind the call of `ExitBootServices`. -/
def afterExit : Machine σ :=
  (afterFetch fw machine).called
    (fw.exitBootServices machine.gImageHandle (fetchAnswer fw machine).mapKey
      (fw.getMemoryMap memoryMapBufferSize machine.firmware).2).2
    (.exitBootServices machine.gImageHandle (fetchAnswer fw machine).mapKey (exitAnswer fw machine))

/-- The total that the source adds up for the map in the buffer. -/
def fetchedBytes : Option UInt64 :=
  addDescriptors (afterFetch fw machine).memoryMapBuffer (fetchAnswer fw machine).descriptorSize
    ((fetchAnswer fw machine).mapSize / (fetchAnswer fw machine).descriptorSize) 0 0

end Round

/-- What a round does: it stops at the edge of the buffer, or it ends with a
failed fetch or with an exit that is accepted, rejected for good, or rejected for
its key. -/
theorem wp_exitRound (fw : Firmware σ) (bootInfo : BootInfo) {machine : Machine σ}
    {Q : Unit ⊕ (EfiStatus × BootInfo) → Machine σ → Prop} {E : Stop → Prop}
    (crash : memoryMapBufferSize < (fetchAnswer fw machine).map.length ∨
      (fetchAnswer fw machine).status = efiSuccess ∧
        (fetchAnswer fw machine).descriptorSize ≠ 0 ∧ fetchedBytes fw machine = none → E .fault)
    (failed : ¬ memoryMapBufferSize < (fetchAnswer fw machine).map.length →
      (fetchAnswer fw machine).status ≠ efiSuccess ∨ (fetchAnswer fw machine).descriptorSize = 0 →
      Q (.inr ((fetchAnswer fw machine).status, bootInfo)) (afterFetch fw machine))
    (exited : ¬ memoryMapBufferSize < (fetchAnswer fw machine).map.length →
      (fetchAnswer fw machine).status = efiSuccess →
      (fetchAnswer fw machine).descriptorSize ≠ 0 →
      ∀ total, fetchedBytes fw machine = some total →
        (exitAnswer fw machine = efiSuccess →
          Q (.inr (efiSuccess, { bootInfo with memoryBytes := total }))
            { afterExit fw machine with gBS := none }) ∧
        (exitAnswer fw machine = efiInvalidParameter → Q (.inl ()) (afterExit fw machine)) ∧
        (exitAnswer fw machine ≠ efiSuccess → exitAnswer fw machine ≠ efiInvalidParameter →
          Q (.inr (exitAnswer fw machine, bootInfo)) (afterExit fw machine))) :
    wp (exitRound fw bootInfo ()) Q E machine := by
  rw [exitRound, wp_bind, getMemoryMap, wp_call, wp_ite, wp_bind, wp_throw]
  refine ⟨fun overrun => crash (Or.inl overrun), fun within => ?_⟩
  rw [wp_bind, wp_modify, wp_ite, wp_pure]
  refine ⟨fun bad => failed within (by simpa [efiError, fetchAnswer] using bad), fun good => ?_⟩
  obtain ⟨fetched, sized⟩ : (fetchAnswer fw machine).status = efiSuccess ∧
      (fetchAnswer fw machine).descriptorSize ≠ 0 := by
      simpa [efiError, fetchAnswer] using good
  rw [wp_bind, wp_get, wp_bind, wp_orFault]
  refine ⟨fun total added => ?_, fun none => crash (Or.inr ⟨fetched, sized, none⟩)⟩
  obtain ⟨accepted, rejected, refused⟩ := exited within fetched sized total added
  rw [wp_bind, exitBootServices, wp_call, wp_ite, wp_bind, wp_modify, wp_pure]
  refine ⟨accepted, fun unaccepted => ?_⟩
  rw [wp_ite, wp_pure, wp_pure]
  exact ⟨refused unaccepted, fun same => rejected (not_not.mp same)⟩

/-- A round whose fetch succeeds comes to its exit, whose answer decides. -/
theorem wp_exitRound_fetched (fw : Firmware σ) (bootInfo : BootInfo) {machine : Machine σ}
    {Q : Unit ⊕ (EfiStatus × BootInfo) → Machine σ → Prop} {E : Stop → Prop} {total : UInt64}
    (within : (fetchAnswer fw machine).map.length ≤ memoryMapBufferSize)
    (fetched : (fetchAnswer fw machine).status = efiSuccess)
    (sized : (fetchAnswer fw machine).descriptorSize ≠ 0)
    (added : fetchedBytes fw machine = some total)
    (accepted : exitAnswer fw machine = efiSuccess →
      Q (.inr (efiSuccess, { bootInfo with memoryBytes := total }))
        { afterExit fw machine with gBS := none })
    (rejected : exitAnswer fw machine = efiInvalidParameter → Q (.inl ()) (afterExit fw machine))
    (refused : exitAnswer fw machine ≠ efiSuccess → exitAnswer fw machine ≠ efiInvalidParameter →
      Q (.inr (exitAnswer fw machine, bootInfo)) (afterExit fw machine)) :
    wp (exitRound fw bootInfo ()) Q E machine := by
  apply wp_exitRound
  · rintro (overrun | ⟨_, _, unread⟩)
    · exact absurd within (Nat.not_le.mpr overrun)
    · rw [added] at unread
      cases unread
  · rintro _ (unfetched | zero)
    · exact absurd fetched unfetched
    · exact absurd zero sized
  · intro _ _ _ summed same
    cases added.symm.trans same
    exact ⟨accepted, rejected, refused⟩

/-- A conforming firmware makes the source add up exactly the map of the fetch. The buffer that the
descriptors are read from starts with the bytes that the fetch has stored. -/
theorem Conforming.fetchedBytes {fw : Firmware σ} (conforming : Conforming fw)
    {machine : Machine σ} (fetched : (fetchAnswer fw machine).status = efiSuccess) :
    (fetchAnswer fw machine).descriptorSize ≠ 0 ∧
      Boot.fetchedBytes fw machine = some (UInt64.ofNat (usableBytes
        (fetchedMap (fetchAnswer fw machine) (afterFetch fw machine).memoryMapBuffer)
        (fetchAnswer fw machine).descriptorSize)) := by
  obtain ⟨large, fits⟩ := conforming machine.firmware fetched
  have brought := reportedMap_filled (fetchAnswer fw machine) machine.memoryMapBuffer
  have added := addDescriptors_total (afterFetch fw machine).memoryMapBuffer
    (fetchAnswer fw machine).mapSize (fetchAnswer fw machine).descriptorSize fits large
  constructor
  · intro zero
    rw [fetchAnswer] at zero
    rw [zero] at large
    exact absurd large (by decide)
  · rw [Boot.fetchedBytes, added]
    exact congrArg (fun map => some (UInt64.ofNat (usableBytes map _))) brought

/-! ## All rounds -/

/-- The entry of a routine and a later machine before any exit was accepted. It is the invariant
of the rounds: a rejected round leaves it standing with more events. -/
structure Pending (start machine : Machine σ) (events : List Event) : Prop where
  trace : machine.trace = start.trace ++ events
  keyed : KeyedExits start.gImageHandle events
  unaccepted : ¬ Accepted events
  image : machine.gImageHandle = start.gImageHandle
  services : machine.gBS = start.gBS

/-- A machine at the end of the routine: the exits were keyed, and either the
last one was accepted with the total of the map fetched for it, or nothing of the
boot information and of the services has changed. -/
structure Finished (start after : Machine σ) (bootInfo info : BootInfo) (status : EfiStatus)
    (events : List Event) : Prop where
  trace : after.trace = start.trace ++ events
  keyed : KeyedExits start.gImageHandle events
  accepted : status = efiSuccess ↔ Accepted events
  counted : status = efiSuccess → after.gBS = none ∧ ∃ earlier answer,
    events = earlier ++ [.getMemoryMap memoryMapBufferSize answer,
      .exitBootServices start.gImageHandle answer.mapKey efiSuccess] ∧
    info = { bootInfo with memoryBytes := UInt64.ofNat (usableBytes
      (fetchedMap answer after.memoryMapBuffer) answer.descriptorSize) }
  untouched : status ≠ efiSuccess → info = bootInfo ∧ after.gBS = start.gBS

/-- Only an accepted exit turns a list of events into an accepting one. -/
theorem accepted_append (events later : List Event) :
    Accepted (events ++ later) ↔ Accepted events ∨ Accepted later := by
  simp only [Accepted, List.mem_append, exists_or]

/-- A fetch is not an exit. -/
theorem fetch_unaccepted (size : Nat) (answer : MemoryMapAnswer) :
    ¬ Accepted [Event.getMemoryMap size answer] := by
  simp [Accepted]

/-- An exit is accepted by its status, and by nothing else. -/
theorem exit_accepted (image : Handle) (mapKey : Nat) (status : EfiStatus) :
    Accepted [Event.exitBootServices image mapKey status] ↔ status = efiSuccess := by
  constructor
  · rintro ⟨image, mapKey, member⟩
    injection List.mem_singleton.mp member with _ _ same
    exact same.symm
  · rintro rfl
    exact ⟨image, mapKey, List.mem_singleton_self _⟩

section Rounds

variable {fw : Firmware σ} {start machine : Machine σ} {events : List Event}

/-- The events of a round, up to the fetch. A round that ends here has asked for no exit. -/
def fetchEvents (fw : Firmware σ) (machine : Machine σ) (events : List Event) : List Event :=
  events ++ [.getMemoryMap memoryMapBufferSize (fetchAnswer fw machine)]

/-- The events of a round that comes to its exit: a fetch and an exit. -/
def roundEvents (fw : Firmware σ) (machine : Machine σ) (events : List Event) : List Event :=
  fetchEvents fw machine events ++ [.exitBootServices machine.gImageHandle
    (fetchAnswer fw machine).mapKey (exitAnswer fw machine)]

/-- The fetch of a round leaves everything pending. -/
theorem Pending.fetch (pending : Pending start machine events) :
    Pending start (afterFetch fw machine) (fetchEvents fw machine events) where
  trace := by
    rw [fetchEvents, ← List.append_assoc, ← pending.trace]
    rfl
  keyed := pending.keyed.fetch _ _
  unaccepted := by
    rw [fetchEvents, accepted_append]
    exact not_or.mpr ⟨pending.unaccepted, fetch_unaccepted _ _⟩
  image := pending.image
  services := pending.services

/-- The trace behind a round that came to its exit. -/
theorem Pending.roundTrace (pending : Pending start machine events) :
    (afterExit fw machine).trace = start.trace ++ roundEvents fw machine events := by
  rw [roundEvents, ← List.append_assoc, ← pending.fetch.trace]
  rfl

/-- The exit of a round carries the key of its map. -/
theorem Pending.roundKeyed (pending : Pending start machine events)
    (fetched : (fetchAnswer fw machine).status = efiSuccess) :
    KeyedExits start.gImageHandle (roundEvents fw machine events) := by
  have waiting : Pending start (afterFetch fw machine) (fetchEvents fw machine events) :=
    pending.fetch
  have keyed := KeyedExits.exit waiting.keyed fetched (exitAnswer fw machine)
  rw [roundEvents, pending.image]
  exact keyed

/-- A round comes to an accepted exit by its answer alone. -/
theorem Pending.roundAccepted (pending : Pending start machine events) :
    Accepted (roundEvents fw machine events) ↔ exitAnswer fw machine = efiSuccess := by
  rw [roundEvents, accepted_append, exit_accepted]
  exact or_iff_right pending.fetch.unaccepted

/-- A round entered with everything pending leaves everything pending or ends the
routine. -/
theorem Pending.round (conforming : Conforming fw) (pending : Pending start machine events)
    (bootInfo : BootInfo) :
    wp (exitRound fw bootInfo ()) (fun outcome after => outcome.elim
        (fun _ => ∃ events, Pending start after events)
        (fun result => ∃ events, Finished start after bootInfo result.2 result.1 events))
      (fun _ => True) machine := by
  apply wp_exitRound
  · intro _
    trivial
  · intro _ bad
    have unfetched : (fetchAnswer fw machine).status ≠ efiSuccess := by
      intro fetched
      obtain unfetched | zero := bad
      · exact unfetched fetched
      · exact (conforming.fetchedBytes fetched).1 zero
    refine ⟨fetchEvents fw machine events, pending.fetch.trace, pending.fetch.keyed, ?_, ?_, ?_⟩
    · exact iff_of_false unfetched pending.fetch.unaccepted
    · intro fetched
      exact absurd fetched unfetched
    · intro _
      exact ⟨rfl, pending.services⟩
  · intro _ fetched _ total added
    have summed := (conforming.fetchedBytes fetched).2
    rw [added, Option.some.injEq] at summed
    refine ⟨fun accepted => ?_, fun rejected => ?_, fun unaccepted _ => ?_⟩
    · refine ⟨roundEvents fw machine events, pending.roundTrace, pending.roundKeyed fetched,
        iff_of_true rfl (pending.roundAccepted.mpr accepted), ?_, ?_⟩
      · intro _
        refine ⟨rfl, events, fetchAnswer fw machine, ?_, ?_⟩
        · rw [roundEvents, fetchEvents, List.append_assoc, pending.image, accepted]
          rfl
        · rw [summed]
          rfl
      · intro failed
        exact absurd rfl failed
    · have unaccepted : exitAnswer fw machine ≠ efiSuccess := by
        rw [rejected]
        decide
      exact ⟨roundEvents fw machine events, pending.roundTrace, pending.roundKeyed fetched,
        fun found => unaccepted (pending.roundAccepted.mp found), pending.image, pending.services⟩
    · refine ⟨roundEvents fw machine events, pending.roundTrace, pending.roundKeyed fetched,
        pending.roundAccepted.symm, ?_, ?_⟩
      · intro accepted
        exact absurd accepted unaccepted
      · intro _
        exact ⟨rfl, pending.services⟩

end Rounds

/-- Nothing has happened at the entry, so no exit was accepted. -/
theorem pending_entry (start : Machine σ) : Pending start start [] where
  trace := (List.append_nil _).symm
  keyed := by
    intro before caller mapKey status after split
    simp at split
  unaccepted := by simp [Accepted]
  image := rfl
  services := rfl

/-- The routine ends only as described.

The invariant of the loop is that everything is still pending. -/
theorem wp_efiLeaveBootServices (fw : Firmware σ) (conforming : Conforming fw) (fuel : Nat)
    (bootInfo : BootInfo) (machine : Machine σ) :
    wp (efiLeaveBootServices fw fuel bootInfo)
      (fun result after => ∃ events, Finished machine after bootInfo result.2 result.1 events)
      (fun _ => True) machine := by
  rw [efiLeaveBootServices, wp_bind, wp_get, wp_ite, wp_pure]
  constructor
  · intro _
    apply wp_iterate _ _ (fun _ reached => ∃ events, Pending machine reached events)
    · trivial
    · rintro _ reached ⟨events, pending⟩
      exact pending.round conforming bootInfo
    · exact ⟨[], pending_entry machine⟩
  · intro _
    have entry := pending_entry machine
    have failed : efiLoadError ≠ efiSuccess := by decide
    exact ⟨[], entry.trace, entry.keyed, iff_of_false failed entry.unaccepted,
      fun success => absurd success failed, fun _ => ⟨rfl, rfl⟩⟩

/-- The firmware rejects a number of exits for their key, with a successful fetch
before each, and then accepts one. -/
def AcceptsAfter (fw : Firmware σ) (image : Handle) : Nat → σ → Prop
  | 0, state =>
    let fetched := fw.getMemoryMap memoryMapBufferSize state
    fetched.1.status = efiSuccess ∧
      (fw.exitBootServices image fetched.1.mapKey fetched.2).1 = efiSuccess
  | rejections + 1, state =>
    let fetched := fw.getMemoryMap memoryMapBufferSize state
    let exited := fw.exitBootServices image fetched.1.mapKey fetched.2
    fetched.1.status = efiSuccess ∧ exited.1 = efiInvalidParameter ∧
      AcceptsAfter fw image rejections exited.2

/-- However many exits are rejected, the accepted one ends the loop.

Induct over the rejections that are left. -/
theorem wp_rounds (fw : Firmware σ) (conforming : Conforming fw) (within : WithinRoom fw)
    (bootInfo : BootInfo) (rejections fuel : Nat) (enough : rejections < fuel)
    (machine : Machine σ)
    (accepts : AcceptsAfter fw machine.gImageHandle rejections machine.firmware) :
    wp (iterate .outOfFuel (exitRound fw bootInfo) fuel ()) (fun result _ => result.1 = efiSuccess)
      (fun _ => False) machine := by
  induction rejections generalizing fuel machine with
  | zero =>
    obtain ⟨more, rfl⟩ : ∃ more, fuel = more + 1 := ⟨fuel - 1, by omega⟩
    obtain ⟨fetched, accepted⟩ := accepts
    rw [iterate, wp_bind]
    have succeeded : (fetchAnswer fw machine).status = efiSuccess := fetched
    obtain ⟨sized, added⟩ := conforming.fetchedBytes succeeded
    apply wp_exitRound_fetched fw bootInfo (within machine.firmware) succeeded sized added
    · exact fun _ => rfl
    · exact fun rejected => absurd (accepted.symm.trans rejected) (by decide)
    · exact fun unaccepted => absurd accepted unaccepted
  | succ rejections ih =>
    obtain ⟨more, rfl⟩ : ∃ more, fuel = more + 1 := ⟨fuel - 1, by omega⟩
    obtain ⟨fetched, rejected, later⟩ := accepts
    rw [iterate, wp_bind]
    have succeeded : (fetchAnswer fw machine).status = efiSuccess := fetched
    obtain ⟨sized, added⟩ := conforming.fetchedBytes succeeded
    apply wp_exitRound_fetched fw bootInfo (within machine.firmware) succeeded sized added
    · exact fun accepted => absurd (accepted.symm.trans rejected) (by decide)
    · exact fun _ => ih more (by omega) (afterExit fw machine) later
    · exact fun _ other => absurd rejected other

/-- The memory-map protocol. Every end of the routine is finished in the sense above, and every
number of rejections before an accepted exit comes to an end. The first part is an induction over
the rounds with what is pending as its invariant, and the second one counts the maps that are
needed. -/
theorem leaveBootServices_exact (fw : Firmware σ) (conforming : Conforming fw) (fuel : Nat)
    (bootInfo : BootInfo) (machine : Machine σ) :
    (∀ status info after,
      (efiLeaveBootServices fw fuel bootInfo).run machine = .ok ((status, info), after) →
      ∃ events, Finished machine after bootInfo info status events) ∧
    (∀ rejections < fuel, WithinRoom fw → canExit machine = true →
      AcceptsAfter fw machine.gImageHandle rejections machine.firmware →
      ∃ info after,
        (efiLeaveBootServices fw fuel bootInfo).run machine = .ok ((efiSuccess, info), after)) := by
  constructor
  · intro status info after ran
    exact wp_returns (wp_efiLeaveBootServices fw conforming fuel bootInfo machine) ran
  · intro rejections enough within available accepts
    have total := wp_rounds fw conforming within bootInfo rejections fuel enough machine accepts
    obtain ⟨⟨status, info⟩, after, ran, rfl⟩ := (wp_total_iff _ _ _).mp total
    refine ⟨info, after, ?_⟩
    have entered : (get : Routine σ (Machine σ)).run machine = .ok (machine, machine) := rfl
    rw [efiLeaveBootServices, run_bind_of_ok entered, if_pos available, ran]

/-- Three pages of conventional memory, in one descriptor. -/
def smallMap : List UInt8 :=
  [7] ++ List.replicate 23 0 ++ [3] ++ List.replicate 15 0

/-- A firmware with a fixed map whose key changes with every rejected exit. -/
def hesitant : Firmware Nat :=
  { Firmware.inert with
    getMemoryMap := fun _ left => (⟨efiSuccess, 40, smallMap, 7 + left, 40, 1⟩, left)
    exitBootServices := fun _ _ left =>
      if left = 0 then (efiSuccess, 0) else (efiInvalidParameter, left - 1) }

/-- The exit is rejected once and accepted then. The three pages are counted once. -/
theorem leaveBootServices_hesitant :
    ∃ after, (efiLeaveBootServices hesitant 2 ⟨0, 0⟩).run (Machine.entered 1) =
        .ok ((efiSuccess, ⟨0x3000, 0⟩), after) ∧
      ∃ events, Finished (Machine.entered 1) after ⟨0, 0⟩ ⟨0x3000, 0⟩ efiSuccess events := by
  have conforming : Conforming hesitant := by
    intro _ _
    exact ⟨Nat.le_refl 40, (by decide : 40 ≤ memoryMapBufferSize)⟩
  have within : WithinRoom hesitant := by
    intro _
    exact (by decide : smallMap.length ≤ memoryMapBufferSize)
  obtain ⟨finishes, returns⟩ := leaveBootServices_exact hesitant conforming 2 ⟨0, 0⟩
    (Machine.entered 1)
  obtain ⟨info, after, ran⟩ := returns 1 (by decide) within rfl ⟨rfl, rfl, rfl, rfl⟩
  have total : ((efiLeaveBootServices hesitant 2 ⟨0, 0⟩).run (Machine.entered 1)).toOption.map
      (·.1.2) = some ⟨0x3000, 0⟩ := by decide +kernel
  rw [ran] at total
  obtain rfl : info = ⟨0x3000, 0⟩ := by simpa [Except.toOption] using total
  exact ⟨after, ran, finishes efiSuccess _ after ran⟩

end ExistentOS.Boot
