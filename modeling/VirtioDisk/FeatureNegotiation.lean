import VirtioDisk.MmioRegisters

/-!
Event index mode against feature negotiation. The driver's side is read off its
writes alone: what it accepted with selector 0 since its last reset, what it
accepted since the device exists, and how far the latter had got when the queue
was last activated. virtio_init_device_vq tests `features & 29`, where 29 is the
number of the feature bit: it looks at bits 0, 2, 3 and 4.
-/

namespace VirtioDisk.FeatureNegotiation

open MmioRegisters Transition

structure Negotiation where
  selector : UInt32
  everAccepted : UInt32
  sinceReset : UInt32
  atActivation : UInt32
  deriving DecidableEq

def Negotiation.hear (n : Negotiation) : Command → Negotiation
  | .driverFeaturesSel val => { n with selector := val }
  | .driverFeatures val =>
      if n.selector = 0 then
        { n with everAccepted := n.everAccepted ||| val, sinceReset := n.sinceReset ||| val }
      else n
  | .status val => if val = 0 then { n with sinceReset := 0 } else n
  | .activate _ => { n with atActivation := n.everAccepted }
  | _ => n

def Negotiation.after (legacy : Bool) (n : Negotiation) : Event → Negotiation
  | .write w _ => n.hear (command legacy w)
  | .served _ _ _ => n

def negotiated (legacy : Bool) (events : List Event) : Negotiation :=
  events.foldl (Negotiation.after legacy) ⟨0, 0, 0, 0⟩

def featureWord (bit : UInt64) : UInt32 := (1 <<< bit).toUInt32

def Offers (dev : MmioDevice) : Prop := getHostFeatures dev &&& (1 <<< virtioRingFEventIdx) ≠ 0

/-- The driver accepted the feature bit since its last write of 0 to STATUS. -/
def Negotiation.Accepted (n : Negotiation) : Prop :=
  n.sinceReset &&& featureWord virtioRingFEventIdx ≠ 0

def ModeMatches (dev : MmioDevice) (n : Negotiation) : Prop :=
  dev.vq.useEventIdx = true ↔ Offers dev ∧ n.Accepted

/-- One of the bits 0, 2, 3 and 4 had been accepted by the time of the activation,
resets or not, exactly if bit 29 is accepted now. -/
def Negotiation.LowBitsAgree (n : Negotiation) : Prop :=
  n.atActivation &&& 29 ≠ 0 ↔ n.Accepted

instance (n : Negotiation) : Decidable n.Accepted :=
  inferInstanceAs (Decidable (_ ≠ _))

instance (dev : MmioDevice) (n : Negotiation) : Decidable (ModeMatches dev n) :=
  inferInstanceAs (Decidable (_ ↔ getHostFeatures dev &&& _ ≠ 0 ∧ n.Accepted))

instance (n : Negotiation) : Decidable n.LowBitsAgree :=
  inferInstanceAs (Decidable (_ ≠ _ ↔ n.Accepted))

structure Tracks (legacy : Bool) (n : Negotiation) (dev : MmioDevice) : Prop where
  transport : dev.vdev.legacy = legacy
  selector : dev.hdr.guestFeaturesSel = n.selector
  features : dev.vdev.features = n.everAccepted.toUInt64
  mode : dev.vq.enabled = true →
    dev.vq.useEventIdx = (n.atActivation.toUInt64 &&& virtioRingFEventIdx != 0)

theorem created_tracks (legacy readonly : Bool) (useGnttab : Option Bool) :
    Tracks legacy ⟨0, 0, 0, 0⟩ (created legacy readonly useGnttab) where
  transport := rfl
  selector := rfl
  features := rfl
  mode := by simp [created, clearedQueue]

section Preservation
variable {legacy : Bool} {n : Negotiation} {dev next : MmioDevice}

theorem exit_tracks {num : UInt32} (tracks : Tracks legacy n dev)
    (done : virtioExitVq dev num = .ok next) : Tracks legacy n next := by
  obtain ⟨_, rfl | rfl⟩ := exit_vq_ok done
  · exact { tracks with mode := by simp [clearedQueue] }
  · exact { tracks with mode := by simp [stoppedDevice, clearedQueue] }

theorem status_tracks (val : UInt32) (tracks : Tracks legacy n dev)
    (done : virtioNotifyStatus (statusStored dev val) val.toUInt8 = .ok next) :
    Tracks legacy (n.hear (.status val)) next := by
  have heard : Tracks legacy (n.hear (.status val)) (statusStored dev val) := by
    show Tracks legacy (if val = 0 then { n with sinceReset := 0 } else n) _
    split <;> exact ⟨tracks.transport, tracks.selector, tracks.features, tracks.mode⟩
  obtain ⟨settled, word, rfl, untouched | exited⟩ := notify_status_ok done
  · subst settled
    exact ⟨heard.transport, heard.selector, heard.features, heard.mode⟩
  · have kept := exit_tracks heard exited
    exact ⟨kept.transport, kept.selector, kept.features, kept.mode⟩

theorem activate_tracks {num : UInt32} {host : HostAnswers} (tracks : Tracks legacy n dev)
    (done : initVq dev num host = .ok next) :
    Tracks legacy { n with atActivation := n.everAccepted } next := by
  obtain ⟨_, vring, demu, _, rfl⟩ := init_vq_ok done
  obtain ⟨hdr, vdev, vq, _⟩ := start_io_thread_frame
    { dev with vq := { enabledQueue dev.vdev dev.vq with vring := vring }, demu := demu } host
  constructor
  · exact vdev.symm ▸ tracks.transport
  · exact hdr.symm ▸ tracks.selector
  · exact vdev.symm ▸ tracks.features
  · intro _
    rw [vq]
    show (dev.vdev.features &&& virtioRingFEventIdx != 0) = _
    rw [tracks.features]

theorem perform_tracks (request : Command) (host : HostAnswers) (tracks : Tracks legacy n dev)
    (done : perform dev host request = .ok next) : Tracks legacy (n.hear request) next := by
  cases request with
  | status val => exact status_tracks val tracks done
  | deactivate => exact exit_tracks tracks done
  | driverFeaturesSel val =>
      cases done
      exact ⟨tracks.transport, rfl, tracks.features, tracks.mode⟩
  | driverFeatures val =>
      cases done
      simp only [Negotiation.hear, ← tracks.selector]
      by_cases first : dev.hdr.guestFeaturesSel = 0
      · simp only [first, if_true]
        constructor
        · exact tracks.transport
        · exact first.symm.trans tracks.selector ▸ tracks.selector
        · simp [virtioSetGuestFeatures, tracks.features]
        · exact tracks.mode
      · simpa only [first, if_false] using tracks
  | address word val =>
      obtain ⟨_, rfl⟩ := set_selected_word_ok done
      exact ⟨tracks.transport, tracks.selector, tracks.features, tracks.mode⟩
  | activate val =>
      have stored : Tracks legacy n (dev.withAddr (activationAddr dev val)) :=
        ⟨tracks.transport, tracks.selector, tracks.features, tracks.mode⟩
      exact activate_tracks stored (activate_ok done)
  | ignored | notify | deviceFeaturesSel | queueSel | guestPageSize | queueNum | interruptAck =>
      cases done
      exact ⟨tracks.transport, tracks.selector, tracks.features, tracks.mode⟩

theorem step_tracks (event : Event) (tracks : Tracks legacy n dev)
    (taken : step dev event = .ok next) : Tracks legacy (n.after legacy event) next := by
  cases step_cases taken with
  | performed w host done =>
      rw [tracks.transport] at done
      exact perform_tracks _ host tracks done
  | rested => exact tracks
  | worked => exact ⟨tracks.transport, tracks.selector, tracks.features, tracks.mode⟩

end Preservation

theorem run_tracks {legacy readonly : Bool} {useGnttab : Option Bool} {events : List Event}
    {dev : MmioDevice}
    (ran : events.foldlM step (created legacy readonly useGnttab) = .ok dev) :
    Tracks legacy (negotiated legacy events) dev :=
  fold_tracked (Negotiation.after legacy) (Tracks legacy)
    (fun _ _ event _ tracks taken => step_tracks event tracks taken)
    ⟨0, 0, 0, 0⟩ (created_tracks legacy readonly useGnttab) ran

theorem always_offered (dev : MmioDevice) : Offers dev := by
  unfold Offers getHostFeatures
  cases dev.readonly <;> decide

theorem low_bits_tested (accepted : UInt32) :
    (accepted.toUInt64 &&& virtioRingFEventIdx != 0) = true ↔ accepted &&& 29 ≠ 0 := by
  have widened : accepted.toUInt64 &&& virtioRingFEventIdx = (accepted &&& 29).toUInt64 := by
    rw [UInt32.toUInt64_and]
    rfl
  rw [widened, bne_iff_ne, ne_eq, ne_eq, not_iff_not]
  constructor
  · intro zero
    exact UInt32.toUInt64_inj.mp zero
  · intro zero
    rw [zero]
    rfl

/-- In every reachable state with the queue enabled, the ring mode is the
negotiated one exactly when the low bits of the history agree with bit 29. -/
theorem event_index_mode_negotiated (legacy readonly : Bool) (useGnttab : Option Bool)
    (events : List Event) (dev : MmioDevice)
    (ran : events.foldlM step (created legacy readonly useGnttab) = .ok dev)
    (enabled : dev.vq.enabled = true) :
    ModeMatches dev (negotiated legacy events) ↔ (negotiated legacy events).LowBitsAgree := by
  have tracks := run_tracks ran
  have flag : dev.vq.useEventIdx = true ↔ (negotiated legacy events).atActivation &&& 29 ≠ 0 := by
    rw [tracks.mode enabled]
    exact low_bits_tested _
  unfold ModeMatches Negotiation.LowBitsAgree
  rw [flag]
  simp [always_offered dev]

def accepting (features : UInt32) : List Event :=
  [.write (wordTo .driverFeaturesSel 0) willingHost,
    .write (wordTo .driverFeatures features) willingHost,
    .write (wordTo .queueReady 1) willingHost]

-- SEG_MAX is bit 2, so a driver that accepts it along with the event index gets the index.
theorem event_index_mode_with_seg_max : ∃ dev,
    (accepting 0x20000004).foldlM step (created false false none) = .ok dev ∧
      ModeMatches dev (negotiated false (accepting 0x20000004)) :=
  ⟨_, rfl, (event_index_mode_negotiated false false none (accepting 0x20000004) _ rfl rfl).mpr
    (by decide)⟩

/-- A driver that accepts nothing but the event index does not get it. -/
theorem event_index_alone_ignored : ∃ dev,
    (accepting 0x20000000).foldlM step (created false false none) = .ok dev ∧
      dev.vq.enabled = true ∧ ¬ ModeMatches dev (negotiated false (accepting 0x20000000)) :=
  ⟨_, rfl, rfl, by decide⟩

end VirtioDisk.FeatureNegotiation
