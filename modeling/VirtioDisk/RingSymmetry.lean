import VirtioDisk.QueueHistory

/-!
What a queue's exit unmaps, against what its activation has mapped. The exit
computes the size of a legacy ring anew, from a QUEUE_ALIGN that the guest may
have written in between.
-/

namespace VirtioDisk.RingSymmetry

open DescriptorChain GuestMapping MmioRegisters QueueHistory QueueReset Transition Virtqueue

/-- The first page and the number of pages of one map or unmap call. -/
abbrev PageRange := UInt64 × UInt32

def mappedRange (addr size : UInt64) : Option HostPages → List PageRange
  | none => []
  | some pages => [(pages.address, pageCount addr size)]

/-- The ranges that the map calls of an activation give. -/
def activationMaps (addr : VringAddr) (host : HostAnswers) : List PageRange :=
  if addr.legacy then
    mappedRange (addr.pfn.toUInt64 * addr.pgsize.toUInt64)
      (vringSize (UInt32.ofNat virtioBlkQueueSize) addr.align) host.ring
  else
    mappedRange (halves addr.descHi addr.descLo) pageSize host.desc ++
      mappedRange (halves addr.usedHi addr.usedLo) pageSize host.used ++
      mappedRange (halves addr.availHi addr.availLo) pageSize host.avail

/-- The ranges that the unmap calls of an exit name. -/
def exitUnmaps (vq : VirtQueue) : List PageRange :=
  (ringRanges vq).map fun range => (range.page, range.pages)

/-- `rings` and `align` are ghost state: what the latest activation has mapped, and
the alignment that it computed with. -/
structure Tracked where
  dev : MmioDevice
  rings : List PageRange
  align : UInt32

def ringsAfter (t : Tracked) : Event → List PageRange × UInt32
  | .served _ _ _ => (t.rings, t.align)
  | .write w host =>
      match asks t.dev (.write w host) with
      | .activate val =>
          (activationMaps (activationAddr t.dev val) host, (activationAddr t.dev val).align)
      | .ignored | .deviceFeaturesSel _ | .driverFeaturesSel _ | .queueSel _ | .guestPageSize _
      | .queueNum _ | .interruptAck _ | .driverFeatures _ | .address _ _ | .status _
      | .deactivate | .notify => (t.rings, t.align)

def trackedStep (t : Tracked) (event : Event) : Except Fault Tracked := do
  let next ← step t.dev event
  .ok ⟨next, (ringsAfter t event).1, (ringsAfter t event).2⟩

def trackedStart (legacy readonly : Bool) (useGnttab : Option Bool) : Tracked :=
  ⟨created legacy readonly useGnttab, [], 0⟩

/-- The event takes the queue down and joins its thread, so that it comes to the unmapping. -/
def Unmaps (dev : MmioDevice) (event : Event) : Prop :=
  exitsQueue dev event = true ∧ dev.ioThread ∈ dev.threads

def Symmetric (t : Tracked) (event : Event) : Prop :=
  Unmaps t.dev event → exitUnmaps t.dev.vq = t.rings

/-- QUEUE_ALIGN gives a legacy ring as many pages as it had when it was activated. -/
def SamePages (t : Tracked) (event : Event) : Prop :=
  Unmaps t.dev event → t.dev.vq.vringAddr.legacy = true →
    pageCount t.dev.vq.vring.desc
        (vringSize (UInt32.ofNat virtioBlkQueueSize) t.dev.vq.vringAddr.align) =
      pageCount t.dev.vq.vring.desc (vringSize (UInt32.ofNat virtioBlkQueueSize) t.align)

def withAlign (vq : VirtQueue) (align : UInt32) : VirtQueue :=
  { vq with vringAddr := { vq.vringAddr with descHi := align } }

/-- With the alignment of the activation, the exit would unmap what was mapped. -/
structure Inv (t : Tracked) : Prop where
  whole : t.dev.vq.enabled = true → t.dev.vq.vring.num = virtioBlkQueueSize
  rings : t.dev.vq.enabled = true → exitUnmaps (withAlign t.dev.vq t.align) = t.rings

theorem mapped_range {s after : DemuState} {addr size ptr : UInt64} {answer : Option HostPages}
    (mapped : demuMapGuestRange s addr size answer = some (ptr, after)) (valid : ptr ≠ 0) :
    [(Range.page ⟨ptr, size⟩, Range.pages ⟨ptr, size⟩)] = mappedRange addr size answer := by
  have pointer := map_range_pointer mapped
  cases answer with
  | none => exact absurd pointer valid
  | some pages =>
      subst pointer
      rw [mappedRange, Range.page, Range.pages, pointerAt, pointer_page, pointer_pages]

/-- What an activation maps is what the exit of the queue it leaves would unmap. -/
theorem map_rings_unmaps {vq : VirtQueue} {nrDescs : Nat} {demu after : DemuState}
    {host : HostAnswers} {vring : Vring} (entries : nrDescs = virtioBlkQueueSize)
    (mapped : mapRings vq nrDescs demu host = some (vring, after)) :
    vring.num = nrDescs ∧
      exitUnmaps { vq with vring := vring } = activationMaps vq.vringAddr host := by
  subst entries
  simp only [mapRings] at mapped
  rw [exitUnmaps, ringRanges, activationMaps]
  split at mapped
  · rename_i legacy
    simp only [Option.bind_eq_bind, Option.bind_eq_some_iff, Prod.exists] at mapped
    obtain ⟨p, first, ring, stored⟩ := mapped
    obtain ⟨valid, same⟩ := Option.ite_none_left_eq_some.mp stored
    cases same
    refine ⟨rfl, ?_⟩
    rw [if_pos legacy, if_pos legacy]
    exact mapped_range ring valid
  · rename_i modern
    simp only [Option.bind_eq_bind, Option.bind_eq_some_iff, Prod.exists] at mapped
    obtain ⟨desc, first, mapDesc, used, second, mapUsed, avail, third, mapAvail, stored⟩ :=
      mapped
    obtain ⟨valid, same⟩ := Option.ite_none_left_eq_some.mp stored
    cases same
    simp only [not_or] at valid
    refine ⟨rfl, ?_⟩
    rw [if_neg modern, if_neg modern, ← mapped_range mapDesc valid.1,
      ← mapped_range mapUsed valid.2.1, ← mapped_range mapAvail valid.2.2]
    rfl

/-- The alignment counts for a legacy ring only, and there for the number of pages. -/
theorem exit_unmaps_aligned (vq : VirtQueue) (align : UInt32) :
    exitUnmaps (withAlign vq align) =
      if vq.vringAddr.legacy then
        [(vq.vring.desc &&& targetPageMask,
          pageCount vq.vring.desc (vringSize (UInt32.ofNat vq.vring.num) align))]
      else exitUnmaps vq := by
  rw [exitUnmaps, ringRanges]
  cases legacy : vq.vringAddr.legacy with
  | true => simp [withAlign, legacy, VringAddr.align, Range.page, Range.pages]
  | false => simp [withAlign, legacy, exitUnmaps, ringRanges]

theorem symmetric_iff {t : Tracked} (inv : Inv t) (event : Event) :
    Symmetric t event ↔ SamePages t event := by
  have now : exitUnmaps t.dev.vq = exitUnmaps (withAlign t.dev.vq t.dev.vq.vringAddr.align) := rfl
  apply forall_congr'
  rintro ⟨exits, _⟩
  have enabled := exits_enabled exits
  rw [← inv.rings enabled, now, exit_unmaps_aligned, exit_unmaps_aligned, inv.whole enabled]
  cases legacy : t.dev.vq.vringAddr.legacy with
  | true => simp
  | false => simp

theorem rings_stay {t : Tracked} {event : Event}
    (other : ∀ val, asks t.dev event ≠ .activate val) :
    ringsAfter t event = (t.rings, t.align) := by
  cases event with
  | served => rfl
  | write w host =>
      rw [ringsAfter]
      cases asked : asks t.dev (.write w host) with
      | activate val => exact absurd asked (other val)
      | ignored | deviceFeaturesSel | driverFeaturesSel | queueSel | guestPageSize | queueNum
      | interruptAck | driverFeatures | address | status | deactivate | notify => rfl

/-- The exit looks at nothing but the ring, its kind and the alignment. -/
theorem Inv.same {t : Tracked} (inv : Inv t) {next : MmioDevice} {event : Event}
    (other : ∀ val, asks t.dev event ≠ .activate val)
    (enabled : next.vq.enabled = t.dev.vq.enabled) (vring : next.vq.vring = t.dev.vq.vring)
    (kind : next.vq.vringAddr.legacy = t.dev.vq.vringAddr.legacy) :
    Inv ⟨next, (ringsAfter t event).1, (ringsAfter t event).2⟩ := by
  rw [rings_stay other]
  constructor
  · intro on
    have before := inv.whole (enabled.symm.trans on)
    rwa [← vring] at before
  · intro on
    have before := inv.rings (enabled.symm.trans on)
    rw [exit_unmaps_aligned] at before ⊢
    have plain : exitUnmaps next.vq = exitUnmaps t.dev.vq ∨ t.dev.vq.vringAddr.legacy = true := by
      cases legacy : t.dev.vq.vringAddr.legacy with
      | true => exact Or.inr rfl
      | false =>
          apply Or.inl
          rw [exitUnmaps, ringRanges, kind, legacy, vring, exitUnmaps, ringRanges, legacy]
          rfl
    rcases plain with same | legacy
    · rw [kind, vring, same]
      exact before
    · rw [kind, vring, legacy]
      rw [legacy] at before
      exact before

theorem Inv.cleared {t : Tracked} {next : MmioDevice} {event : Event}
    (empty : next.vq = clearedQueue) :
    Inv ⟨next, (ringsAfter t event).1, (ringsAfter t event).2⟩ := by
  have disabled : next.vq.enabled = false := by
    rw [empty]
    rfl
  constructor
  · exact fun enabled => absurd (disabled.symm.trans enabled) Bool.false_ne_true
  · exact fun enabled => absurd (disabled.symm.trans enabled) Bool.false_ne_true

theorem tracked_inv {t next : Tracked} {event : Event} (inv : Inv t)
    (taken : trackedStep t event = .ok next) : Inv next := by
  obtain ⟨dev, stepped, same⟩ := bind_ok taken
  cases same
  cases step_effect stepped with
  | activated w host val same asked done =>
      subst same
      obtain ⟨_, vring, demu, mapped, activated⟩ := init_vq_ok done
      obtain ⟨_, _, queue, _⟩ := start_io_thread_frame
        { t.dev.withAddr (activationAddr t.dev val) with
          vq := { enabledQueue (t.dev.withAddr (activationAddr t.dev val)).vdev
            (t.dev.withAddr (activationAddr t.dev val)).vq with vring := vring }
          demu := demu } host
      rw [← activated] at queue
      obtain ⟨entries, unmaps⟩ := map_rings_unmaps rfl mapped
      have ghost : ringsAfter t (.write w host) =
          (activationMaps (activationAddr t.dev val) host, (activationAddr t.dev val).align) := by
        rw [ringsAfter, asked]
      rw [ghost]
      constructor
      · intro _
        rw [queue]
        exact entries
      · intro _
        rw [queue]
        exact unmaps
  | stopped _ _ empty _ _ => exact Inv.cleared empty
  | cleared _ _ _ empty _ _ => exact Inv.cleared empty
  | notified w host _ asked same _ =>
      apply inv.same _ same.enabled same.vring (congrArg VringAddr.legacy same.addr)
      rw [asked]
      exact fun val other => Command.noConfusion other
  | addressed word val asked queue _ _ =>
      apply inv.same
      · rw [asked]
        exact fun val other => Command.noConfusion other
      · rw [queue]
      · rw [queue]
      · rw [queue]
        cases word <;> rfl
  | kept idle _ same _ =>
      apply inv.same _ same.enabled same.vring (congrArg VringAddr.legacy same.addr)
      intro val asked
      rw [asked] at idle
      cases idle

theorem created_inv (legacy readonly : Bool) (useGnttab : Option Bool) :
    Inv (trackedStart legacy readonly useGnttab) :=
  ⟨fun enabled => absurd enabled Bool.false_ne_true,
    fun enabled => absurd enabled Bool.false_ne_true⟩

/-- In every run, the exits unmap what the activations have mapped exactly if the
alignment in force at each of them gives the same number of pages. -/
theorem exits_unmap_activations_iff (legacy readonly : Bool) (useGnttab : Option Bool)
    (events : List Event) :
    Meets trackedStep Symmetric (trackedStart legacy readonly useGnttab) events ↔
      Meets trackedStep SamePages (trackedStart legacy readonly useGnttab) events :=
  meets_iff (fun _ _ _ inv taken => tracked_inv inv taken)
    (fun _ event inv => symmetric_iff inv event) (created_inv legacy readonly useGnttab) events

/-- A legacy driver that activates its queue with pages of 4 KiB, and writes a
larger alignment before it disables the queue again. -/
def realigned : List Event :=
  [.write (wordTo .guestPageSize 4096) willingHost, .write (wordTo .queueAlign 4096) willingHost,
    .write (wordTo .queuePfn 0x48000) willingHost, .write (wordTo .queueAlign 0x10000) willingHost,
    .write (wordTo .queuePfn 0) willingHost]

theorem realigned_unmaps_more :
    ¬ Meets trackedStep Symmetric (trackedStart true false none) realigned := by
  rintro ⟨_, _, _, _, last, _⟩
  have same := last ⟨rfl, by decide⟩
  exact absurd same (by decide)

end VirtioDisk.RingSymmetry
