import ExistentOS.Boot.ExitProtocol

/-!
# Stale map keys

`efi_leave_boot_services` against a firmware that encodes its errors as the UEFI
specification does, with the highest bit set. Such a firmware rejects a stale key with
`0x8000000000000002`, while the loop goes on only after `EFI_INVALID_PARAMETER` as
`efi.h` defines it, which is 2. So a single rejection ends the routine.
-/

namespace ExistentOS.Boot

open Programs

variable {σ : Type}

/-- The status of a rejected key in the encoding of the UEFI specification. -/
def staleKey : EfiStatus := 0x8000000000000002

/-- Every fetch succeeds and stores a map, of the size that it reports, within its room. -/
structure FetchesMaps (fw : Firmware σ) : Prop where
  succeeds (state : σ) : (fw.getMemoryMap memoryMapBufferSize state).1.status = efiSuccess
  sized (state : σ) :
    memoryDescriptorSize ≤ (fw.getMemoryMap memoryMapBufferSize state).1.descriptorSize
  fits (state : σ) : (fw.getMemoryMap memoryMapBufferSize state).1.mapSize ≤ memoryMapBufferSize
  stored (state : σ) : (fw.getMemoryMap memoryMapBufferSize state).1.map.length =
    (fw.getMemoryMap memoryMapBufferSize state).1.mapSize

section Rounds

variable (fw : Firmware σ) (image : Handle)

/-- The state of the firmware behind a number of rounds of a fetch and an exit. -/
def behindRounds : Nat → σ → σ
  | 0, state => state
  | rounds + 1, state =>
    let fetched := fw.getMemoryMap memoryMapBufferSize state
    behindRounds rounds (fw.exitBootServices image fetched.1.mapKey fetched.2).2

/-- The map of the round behind a number of rounds that were rejected. -/
def mapBehind (rounds : Nat) (state : σ) : MemoryMapAnswer :=
  (fw.getMemoryMap memoryMapBufferSize (behindRounds fw image rounds state)).1

/-- The answer to the exit of the round behind a number of rounds. -/
def exitBehind (rounds : Nat) (state : σ) : EfiStatus :=
  let fetched := fw.getMemoryMap memoryMapBufferSize (behindRounds fw image rounds state)
  (fw.exitBootServices image fetched.1.mapKey fetched.2).1

/-- The firmware rejects the keys of a number of maps as stale and accepts the next one. -/
structure AcceptsAfterStale (rejections : Nat) (state : σ) : Prop where
  rejects : ∀ earlier < rejections, exitBehind fw image earlier state = staleKey
  accepts : exitBehind fw image rejections state = efiSuccess

end Rounds

section Rounds

variable {fw : Firmware σ}

/-- A firmware that fetches maps conforms to the protocol. -/
theorem FetchesMaps.conforming (fetches : FetchesMaps fw) : Conforming fw :=
  fun state _ => ⟨fetches.sized state, fetches.fits state⟩

/-- The total added up for a fetched map is that of its bytes. -/
theorem FetchesMaps.fetchedBytes (fetches : FetchesMaps fw) (machine : Machine σ) :
    Boot.fetchedBytes fw machine = some (UInt64.ofNat (usableBytes (fetchAnswer fw machine).map
      (fetchAnswer fw machine).descriptorSize)) := by
  have added := (fetches.conforming.fetchedBytes (fetches.succeeds machine.firmware)).2
  have stored : (fetchAnswer fw machine).map.length = (fetchAnswer fw machine).mapSize :=
    fetches.stored machine.firmware
  rw [added, fetchedMap_whole stored]

/-- A round of such a firmware always comes to its exit, whose answer decides. -/
theorem FetchesMaps.wp_exitRound (fetches : FetchesMaps fw) (bootInfo : BootInfo)
    {machine : Machine σ} {Q : Unit ⊕ (EfiStatus × BootInfo) → Machine σ → Prop}
    {E : Stop → Prop}
    (accepted : exitAnswer fw machine = efiSuccess →
      Q (.inr (efiSuccess, { bootInfo with
        memoryBytes := UInt64.ofNat (usableBytes (fetchAnswer fw machine).map
          (fetchAnswer fw machine).descriptorSize) })) { afterExit fw machine with gBS := none })
    (rejected : exitAnswer fw machine = efiInvalidParameter → Q (.inl ()) (afterExit fw machine))
    (refused : exitAnswer fw machine ≠ efiSuccess → exitAnswer fw machine ≠ efiInvalidParameter →
      Q (.inr (exitAnswer fw machine, bootInfo)) (afterExit fw machine)) :
    wp (exitRound fw bootInfo ()) Q E machine := by
  have within : (fetchAnswer fw machine).map.length ≤ memoryMapBufferSize := by
    have stored : (fetchAnswer fw machine).map.length = (fetchAnswer fw machine).mapSize :=
      fetches.stored machine.firmware
    rw [stored]
    exact fetches.fits machine.firmware
  have fetched : (fetchAnswer fw machine).status = efiSuccess := fetches.succeeds machine.firmware
  exact wp_exitRound_fetched fw bootInfo within fetched
    (fetches.conforming.fetchedBytes fetched).1 (fetches.fetchedBytes machine)
    accepted rejected refused

/-- A first rejection ends the routine with its status: the answer is neither a success nor the
constant that the loop waits for. -/
theorem FetchesMaps.wp_rejected (fetches : FetchesMaps fw) (fuel : Nat) (bootInfo : BootInfo)
    {machine : Machine σ} (first : exitAnswer fw machine = staleKey) :
    wp (iterate .outOfFuel (exitRound fw bootInfo) fuel ()) (fun result _ => result.1 = staleKey)
      (fun _ => True) machine := by
  cases fuel with
  | zero => trivial
  | succ more =>
    rw [iterate, wp_bind]
    apply fetches.wp_exitRound
    · intro accepted
      exact absurd (first.symm.trans accepted) (by decide)
    · intro rejected
      exact absurd (first.symm.trans rejected) (by decide)
    · intro _ _
      exact first

/-- A first acceptance ends the routine with the total of the first map. -/
theorem FetchesMaps.wp_accepted (fetches : FetchesMaps fw) (more : Nat) (bootInfo : BootInfo)
    {machine : Machine σ} (first : exitAnswer fw machine = efiSuccess) :
    wp (iterate .outOfFuel (exitRound fw bootInfo) (more + 1) ())
      (fun result _ => result.1 = efiSuccess ∧ result.2.memoryBytes = UInt64.ofNat (usableBytes
        (fetchAnswer fw machine).map (fetchAnswer fw machine).descriptorSize))
      (fun _ => False) machine := by
  rw [iterate, wp_bind]
  apply fetches.wp_exitRound
  · intro _
    exact ⟨rfl, rfl⟩
  · intro rejected
    exact absurd (first.symm.trans rejected) (by decide)
  · intro unaccepted _
    exact absurd first unaccepted

end Rounds

/-- Recovery from stale keys. Against a firmware that rejects the keys of some maps as stale and
accepts the next one, the routine succeeds with the total of the last map exactly if no key was
rejected. The status of the specification has its error bit set, and the constant that it is
compared with has not. -/
theorem staleKeys_recovered_iff (fw : Firmware σ) (fetches : FetchesMaps fw)
    (rejections fuel : Nat) (enough : rejections < fuel) (bootInfo : BootInfo) (machine : Machine σ)
    (available : canExit machine = true)
    (stale : AcceptsAfterStale fw machine.gImageHandle rejections machine.firmware) :
    (∃ info after,
      (efiLeaveBootServices fw fuel bootInfo).run machine = .ok ((efiSuccess, info), after) ∧
      info.memoryBytes = UInt64.ofNat (usableBytes
        (mapBehind fw machine.gImageHandle rejections machine.firmware).map
        (mapBehind fw machine.gImageHandle rejections machine.firmware).descriptorSize)) ↔
    rejections = 0 := by
  have entered : (get : Routine σ (Machine σ)).run machine = .ok (machine, machine) := rfl
  rw [efiLeaveBootServices, run_bind_of_ok entered, if_pos available]
  constructor
  · rintro ⟨info, after, ran, _⟩
    by_contra some
    have first : exitAnswer fw machine = staleKey := stale.rejects 0 (Nat.pos_of_ne_zero some)
    have ends := ((wp_iff _ _ _ _).mp (fetches.wp_rejected fuel bootInfo first)).1 _ _ ran
    exact absurd (show efiSuccess = staleKey from ends) (by decide)
  · rintro rfl
    obtain ⟨more, rfl⟩ : ∃ more, fuel = more + 1 := ⟨fuel - 1, by omega⟩
    have first : exitAnswer fw machine = efiSuccess := stale.accepts
    obtain ⟨⟨status, info⟩, after, ran, rfl, total⟩ :=
      (wp_total_iff _ _ _).mp (fetches.wp_accepted more bootInfo first)
    exact ⟨info, after, ran, total⟩

/-- A firmware with a fixed map that rejects a number of keys as stale. -/
def renewing : Firmware Nat :=
  { hesitant with
    exitBootServices := fun _ _ left =>
      if left = 0 then (efiSuccess, 0) else (staleKey, left - 1) }

/-- The firmware fetches maps. -/
theorem renewing_fetches : FetchesMaps renewing where
  succeeds _ := rfl
  sized _ := Nat.le_refl 40
  fits _ := (by decide : 40 ≤ memoryMapBufferSize)
  stored _ := rfl

/-- One stale key ends the routine without a success, whatever the number of maps it may fetch. -/
theorem staleKeys_unrecovered :
    AcceptsAfterStale renewing (Machine.entered 1).gImageHandle 1 (Machine.entered 1).firmware ∧
      ∀ fuel info after, (efiLeaveBootServices renewing fuel ⟨0, 0⟩).run (Machine.entered 1) ≠
        .ok ((efiSuccess, info), after) := by
  have stale : AcceptsAfterStale renewing (Machine.entered 1).gImageHandle 1
      (Machine.entered 1).firmware := by
    refine ⟨fun earlier below => ?_, rfl⟩
    obtain rfl : earlier = 0 := Nat.lt_one_iff.mp below
    rfl
  refine ⟨stale, ?_⟩
  intro fuel info after ran
  have entered : (get : Routine Nat (Machine Nat)).run (Machine.entered 1) =
    .ok (Machine.entered 1, Machine.entered 1) := rfl
  have available : canExit (Machine.entered 1) = true := rfl
  rw [efiLeaveBootServices, run_bind_of_ok entered, if_pos available] at ran
  have ends := ((wp_iff _ _ _ _).mp (renewing_fetches.wp_rejected fuel ⟨0, 0⟩ rfl)).1 _ _ ran
  exact absurd (show efiSuccess = staleKey from ends) (by decide)

/-- Without a stale key the first exit succeeds. -/
theorem staleKeys_recovered_first :
    ∃ info after, (efiLeaveBootServices renewing 1 ⟨0, 0⟩).run (Machine.entered 0) =
      .ok ((efiSuccess, info), after) := by
  have accepts : AcceptsAfterStale renewing (Machine.entered 0).gImageHandle 0 0 :=
    ⟨fun earlier below => absurd below (Nat.not_lt_zero earlier), rfl⟩
  obtain ⟨info, after, ran, _⟩ := (staleKeys_recovered_iff renewing renewing_fetches 0 1
    (Nat.lt_succ_self 0) ⟨0, 0⟩ (Machine.entered 0) rfl accepts).mpr rfl
  exact ⟨info, after, ran⟩

end ExistentOS.Boot
