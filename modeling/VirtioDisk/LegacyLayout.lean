import VirtioDisk.MmioRegisters

/-!
The rings of a legacy queue. Their size is rounded on the offset in the ring, the
used ring on the address in the server, and a driver rounds on the address in
the guest. QUEUE_ALIGN goes into all three unchecked.
-/

namespace VirtioDisk.LegacyLayout

open DescriptorChain GuestMapping MmioRegisters Virtqueue WordMasks

/-- The size of the descriptor table and the avail ring. -/
def behindAvail : UInt64 := 4614

def rounding (align : UInt32) : UInt64 := align.toUInt64 - 1

theorem behind_avail (p : UInt64) :
    p + 16 * UInt64.ofNat virtioBlkQueueSize + 4 + 2 * UInt64.ofNat virtioBlkQueueSize + 2 =
      p + behindAvail := by
  have size : UInt64.ofNat virtioBlkQueueSize = 256 := rfl
  rw [size, behindAvail]
  grind

/-- The used ring lies behind the start of the ring by this, in any address space. -/
theorem used_offset (p : UInt64) (align : UInt32) :
    (vringInit virtioBlkQueueSize p align).used - p =
      behindAvail + rounding align -
        ((p + (behindAvail + rounding align)) &&& rounding align) := by
  have start : (vringInit virtioBlkQueueSize p align).used =
      (p + behindAvail + rounding align) &&& ~~~rounding align := by
    rw [vringInit, behind_avail]
    rfl
  rw [start, cleared]
  grind

theorem avail_offset (p : UInt64) (align : UInt32) :
    (vringInit virtioBlkQueueSize p align).avail - p = 16 * UInt64.ofNat virtioBlkQueueSize := by
  rw [vringInit]
  grind

theorem offsets_agree_iff (p base : UInt64) (align : UInt32) :
    (vringInit virtioBlkQueueSize p align).used - p =
        (vringInit virtioBlkQueueSize base align).used - base ↔
      (p + (behindAvail + rounding align)) &&& rounding align =
        (base + (behindAvail + rounding align)) &&& rounding align := by
  rw [used_offset, used_offset]
  grind

/-! A mask of less than a page sees the offset in the page only. -/

theorem small_mask {x y mask : UInt64} (small : mask.toNat < 4096)
    (same : x.toNat % 4096 = y.toNat % 4096) : x &&& mask = y &&& mask := by
  have inPage (z : UInt64) : z.toNat &&& mask.toNat = (z.toNat % 4096) &&& mask.toNat := by
    have kept : (4096 - 1) &&& mask.toNat = mask.toNat := by
      rw [Nat.and_comm, show 4096 - 1 = 2 ^ 12 - 1 from rfl, Nat.and_two_pow_sub_one_eq_mod]
      exact Nat.mod_eq_of_lt small
    rw [← kept, ← Nat.and_assoc, kept, show 4096 - 1 = 2 ^ 12 - 1 from rfl,
      Nat.and_two_pow_sub_one_eq_mod]
  rw [← UInt64.toNat_inj, UInt64.toNat_and, UInt64.toNat_and, inPage x, inPage y, same]

theorem small_rounding_agrees {align : UInt32} (small : (rounding align).toNat < 4096)
    (pages : HostPages) (base : UInt64) :
    (vringInit virtioBlkQueueSize (pages.address + offsetInPage base) align).used -
        (pages.address + offsetInPage base) =
      (vringInit virtioBlkQueueSize base align).used - base := by
  rw [offsets_agree_iff]
  apply small_mask small
  have same := congrArg UInt64.toNat (pointer_offset pages base)
  rw [offset_toNat, offset_toNat] at same
  rw [UInt64.toNat_add, UInt64.toNat_add base]
  omega

/-! A larger one has a bit that the host's choice of a page moves. -/

theorem bit_flipped {x mask : UInt64} {bit : Nat} (inside : bit < 64)
    (seen : mask.toNat.testBit bit = true) :
    (x + UInt64.ofNat (2 ^ bit)) &&& mask ≠ x &&& mask := by
  intro same
  have bits := congrArg (fun word : UInt64 => word.toNat.testBit bit) same
  have whole : (UInt64.ofNat (2 ^ bit)).toNat = 2 ^ bit :=
    UInt64.toNat_ofNat_of_lt' (Nat.pow_lt_pow_right (by decide) inside)
  simp only [UInt64.toNat_and, Nat.testBit_and, seen, Bool.and_true, UInt64.toNat_add, whole,
    Nat.testBit_mod_two_pow, inside, decide_true, Bool.true_and] at bits
  rw [Nat.add_comm, Nat.testBit_two_pow_add_eq] at bits
  cases found : x.toNat.testBit bit <;> simp [found] at bits

/-! What a map call has made accessible. -/

/-- Every byte of the range is in a page of the mappings. -/
def Inside (mapped : List Mapping) (start len : Nat) : Prop :=
  ∀ a, start ≤ a → a < start + len →
    ∃ page ∈ mapped, page.address.toNat ≤ a ∧
      a < page.address.toNat + 4096 * page.pages.toNat

section Mapped
variable {model : Option Bool} {range : Range}

theorem mapped_iff (fits : range.page.toNat + 4096 * range.pages.toNat < 2 ^ 64) (a : Nat) :
    (∃ page ∈ rangeMappings model range,
        page.address.toNat ≤ a ∧ a < page.address.toNat + 4096 * page.pages.toNat) ↔
      range.page.toNat ≤ a ∧ a < range.page.toNat + 4096 * range.pages.toNat := by
  rw [rangeMappings]
  split
  · simp [guestGrantRefs]
  · have address (i : Nat) (inside : i < range.pages.toNat) :
        (range.page + targetPageSize * UInt64.ofNat i).toNat = range.page.toNat + 4096 * i := by
      have size : targetPageSize.toNat = 4096 := rfl
      have small : i < 2 ^ 64 := by omega
      rw [UInt64.toNat_add, UInt64.toNat_mul, size, UInt64.toNat_ofNat_of_lt' small,
        Nat.mod_eq_of_lt (by omega), Nat.mod_eq_of_lt (by omega)]
    simp only [guestPages, List.mem_map, List.mem_range]
    constructor
    · rintro ⟨_, ⟨i, inside, rfl⟩, low, high⟩
      have start := address i inside
      have one : (1 : UInt32).toNat = 1 := rfl
      rw [start] at low high
      rw [one] at high
      omega
    · rintro ⟨low, high⟩
      have inside : (a - range.page.toNat) / 4096 < range.pages.toNat := by omega
      have start := address _ inside
      refine ⟨_, ⟨_, inside, rfl⟩, ?_⟩
      have one : (1 : UInt32).toNat = 1 := rfl
      rw [start, one]
      omega

theorem inside_iff (fits : range.page.toNat + 4096 * range.pages.toNat < 2 ^ 64) (start : Nat)
    {len : Nat} (some : 0 < len) :
    Inside (rangeMappings model range) start len ↔
      range.page.toNat ≤ start ∧
        start + len ≤ range.page.toNat + 4096 * range.pages.toNat := by
  simp only [Inside, mapped_iff fits]
  constructor
  · intro covered
    have first := covered start (Nat.le_refl _) (Nat.lt_add_of_pos_right some)
    have last := covered (start + len - 1) (by omega) (by omega)
    omega
  · rintro ⟨low, high⟩ a above below
    omega

end Mapped

/-- The rounding of virtio_ring.h, for addresses that do not wrap. -/
def roundedUp (x align : Nat) : Nat := x + (align - 1) - ((x + (align - 1)) &&& (align - 1))

/-- The start of the used ring behind the first mapped page, and the size that is mapped. -/
def Fits (base : UInt64) (align : UInt32) : Prop :=
  (0 < align.toNat ∧ align.toNat ≤ 4096) ∧
    roundedUp (base.toNat % 4096 + 4614) align.toNat + 2054 ≤
      (base.toNat % 4096 + roundedUp 4614 align.toNat + 2054 + 4095) / 4096 * 4096

theorem rounding_toNat {align : UInt32} (positive : 0 < align.toNat) :
    (rounding align).toNat = align.toNat - 1 := by
  have bound := align.toNat_lt
  rw [rounding, UInt64.toNat_sub, UInt32.toNat_toUInt64]
  have one : (1 : UInt64).toNat = 1 := rfl
  rw [one]
  omega

theorem rounding_small {align : UInt32} (range : 0 < align.toNat ∧ align.toNat ≤ 4096) :
    (rounding align).toNat < 4096 := by
  rw [rounding_toNat range.1]
  omega

/-- The mask computes the rounding where nothing wraps. -/
theorem cleared_toNat {x : UInt64} {start : Nat} {align : UInt32} (positive : 0 < align.toNat)
    (same : x.toNat = start + (align.toNat - 1)) :
    (x &&& ~~~rounding align).toNat = roundedUp start align.toNat := by
  have masked : (x &&& rounding align).toNat =
      (start + (align.toNat - 1)) &&& (align.toNat - 1) := by
    rw [UInt64.toNat_and, same, rounding_toNat positive]
  have below : x &&& rounding align ≤ x := by
    rw [UInt64.le_iff_toNat_le, UInt64.toNat_and]
    exact Nat.and_le_left
  rw [cleared, UInt64.toNat_sub_of_le _ _ below, same, masked, roundedUp]

theorem rounded_up_bounds (start align : Nat) :
    start ≤ roundedUp start align ∧ roundedUp start align ≤ start + (align - 1) := by
  have masked : (start + (align - 1)) &&& (align - 1) ≤ align - 1 := Nat.and_le_right
  rw [roundedUp]
  omega

/-- The size that is mapped, an `unsigned` in virtio_ring.h. -/
def ringBytes (align : UInt32) : UInt32 :=
  (((behindAvail + rounding align) &&& ~~~rounding align) + 6 + 2048).toUInt32

theorem vring_size_bytes (align : UInt32) :
    vringSize (UInt32.ofNat virtioBlkQueueSize) align = (ringBytes align).toUInt64 := rfl

theorem ring_bytes_toNat {align : UInt32} (range : 0 < align.toNat ∧ align.toNat ≤ 4096) :
    (ringBytes align).toNat = roundedUp 4614 align.toNat + 2054 := by
  have start : (behindAvail + rounding align).toNat = 4614 + (align.toNat - 1) := by
    have behind : behindAvail.toNat = 4614 := rfl
    rw [UInt64.toNat_add, behind, rounding_toNat range.1]
    omega
  have bounds := rounded_up_bounds 4614 align.toNat
  have six : (6 : UInt64).toNat = 6 := rfl
  have elements : (2048 : UInt64).toNat = 2048 := rfl
  rw [ringBytes, UInt64.toNat_toUInt32, UInt64.toNat_add, UInt64.toNat_add,
    cleared_toNat range.1 start, six, elements]
  omega

section Activation
variable {dev next : MmioDevice} {pfn align : UInt32} {host : HostAnswers}

/-- The avail ring and the used ring are where the driver computes them from the
address in the guest, and accessible to their ends. -/
structure LaidOut (base : UInt64) (align : UInt32) (mapped : List Mapping) (vring : Vring) :
    Prop where
  avail : vring.avail - vring.desc = (vringInit virtioBlkQueueSize base align).avail - base
  used : vring.used - vring.desc = (vringInit virtioBlkQueueSize base align).used - base
  availInside : Inside mapped vring.avail.toNat 518
  usedInside : Inside mapped vring.used.toNat 2054

/-- Where the driver puts the ring with this page frame number. -/
def ringBase (dev : MmioDevice) (pfn : UInt32) : UInt64 :=
  pfn.toUInt64 * dev.hdr.guestPageSize.toUInt64

theorem queue_pfn_performs (legacy : dev.vdev.legacy = true) (active : pfn ≠ 0) :
    callback dev (wordTo .queuePfn pfn) host = perform dev host (.activate pfn) := by
  have asked : command true (wordTo .queuePfn pfn) = ready pfn := rfl
  rw [callback_performs, legacy, asked, ready, if_pos active]

theorem detect_held (s : DemuState) (addr : UInt64) :
    (demuDetectMappingsModel s addr).held = s.held := by
  rw [demuDetectMappingsModel]
  split <;> rfl

/-- What an activation maps and where it sets the rings up. -/
theorem activation_ok (legacy : dev.vdev.legacy = true)
    (done : perform dev host (.activate pfn) = .ok next) :
    ∃ pages model, host.ring = some pages ∧
      next.vq.vring = vringInit virtioBlkQueueSize
        (pages.address + offsetInPage (ringBase dev pfn)) dev.vq.vringAddr.align ∧
      next.demu.held = dev.demu.held ++ rangeMappings model
        ⟨pages.address + offsetInPage (ringBase dev pfn),
          vringSize (UInt32.ofNat virtioBlkQueueSize) dev.vq.vringAddr.align⟩ := by
  obtain ⟨_, vring, demu, mapped, same⟩ := init_vq_ok (activate_ok done)
  obtain ⟨_, _, queue, memory⟩ := start_io_thread_frame
    { dev.withAddr (activationAddr dev pfn) with
      vq := { enabledQueue (dev.withAddr (activationAddr dev pfn)).vdev
        (dev.withAddr (activationAddr dev pfn)).vq with vring := vring }
      demu := demu } host
  rw [← same] at queue memory
  have addr : (enabledQueue (dev.withAddr (activationAddr dev pfn)).vdev
      (dev.withAddr (activationAddr dev pfn)).vq).vringAddr =
        { dev.vq.vringAddr with
          legacy := true, descLo := pfn, availLo := dev.hdr.guestPageSize } := by
    rw [enabledQueue, MmioDevice.withAddr, activationAddr, if_pos legacy]
  simp only [mapRings, addr, if_true, Option.bind_eq_bind, Option.bind_eq_some_iff,
    Prod.exists] at mapped
  obtain ⟨p, after, ring, stored⟩ := mapped
  obtain ⟨valid, rings⟩ := Option.ite_none_left_eq_some.mp stored
  obtain ⟨rfl, rfl⟩ := Prod.mk.inj (Option.some.inj rings)
  have pointer := map_range_pointer ring
  obtain ⟨_, held⟩ := map_adds ring valid
  rw [detect_held] at held
  cases answer : host.ring with
  | none =>
      rw [answer] at pointer
      exact absurd pointer valid
  | some pages =>
      rw [answer] at pointer
      subst pointer
      refine ⟨pages, after.useGnttab, rfl, ?_, ?_⟩
      · rw [queue]
        rfl
      · rw [memory]
        exact held

/-- A device that has not mapped anything yet, with the registers the driver has written. -/
def prepared (pgsize align : UInt32) : MmioDevice :=
  let dev := created true false none
  { dev with
    hdr := { dev.hdr with guestPageSize := pgsize }
    vq := { dev.vq with vringAddr := { dev.vq.vringAddr with descHi := align } } }

/-- The host decides the pages. -/
def answering (pages : HostPages) : HostAnswers := { willingHost with ring := some pages }

theorem prepared_activates (pgsize align : UInt32) (pages : HostPages) :
    ∃ next, perform (prepared pgsize align) (answering pages) (.activate pfn) = .ok next := by
  rw [activate_first _ _ _ rfl, init_vq_first]
  have latched := map_rings_latch (enabledQueue ((prepared pgsize align).withAddr
    (activationAddr (prepared pgsize align) pfn)).vdev ((prepared pgsize align).withAddr
    (activationAddr (prepared pgsize align) pfn)).vq) virtioBlkQueueSize
    (prepared pgsize align).demu (answering pages)
  cases mapped : mapRings (enabledQueue ((prepared pgsize align).withAddr
      (activationAddr (prepared pgsize align) pfn)).vdev ((prepared pgsize align).withAddr
      (activationAddr (prepared pgsize align) pfn)).vq) virtioBlkQueueSize
      (prepared pgsize align).demu (answering pages) with
  | none =>
      rw [mapped] at latched
      cases latched
  | some rings =>
      exact ⟨_, by rw [MmioDevice.withAddr] at mapped ⊢; rw [mapped]⟩

end Activation

section Placed
variable {align : UInt32} (pages : HostPages) (base : UInt64)

theorem pages_below : pages.address.toNat < 2 ^ 63 := UInt64.lt_iff_toNat_lt.mp pages.user

theorem pages_aligned : pages.address.toNat % 4096 = 0 := by
  rw [← offset_toNat, pages.aligned]
  rfl

theorem pointer_toNat : (pages.address + offsetInPage base).toNat =
    pages.address.toNat + base.toNat % 4096 := by
  have below := pages_below pages
  have inPage : base.toNat % 4096 < 4096 := Nat.mod_lt _ (by decide)
  rw [UInt64.toNat_add, offset_toNat]
  omega

theorem mapped_bytes (range : 0 < align.toNat ∧ align.toNat ≤ 4096) :
    4096 * (pageCount (pages.address + offsetInPage base)
      (vringSize (UInt32.ofNat virtioBlkQueueSize) align)).toNat =
        (base.toNat % 4096 + roundedUp 4614 align.toNat + 2054 + 4095) / 4096 * 4096 := by
  rw [pointer_pages, vring_size_bytes, page_count_toNat, ring_bytes_toNat range]
  omega

theorem used_toNat (range : 0 < align.toNat ∧ align.toNat ≤ 4096) :
    (vringInit virtioBlkQueueSize (pages.address + offsetInPage base) align).used.toNat =
      pages.address.toNat + roundedUp (base.toNat % 4096 + 4614) align.toNat := by
  have below := pages_below pages
  have whole := pages_aligned pages
  have inPage : base.toNat % 4096 < 4096 := Nat.mod_lt _ (by decide)
  have behind : behindAvail.toNat = 4614 := rfl
  have start : (vringInit virtioBlkQueueSize (pages.address + offsetInPage base) align).used =
      (pages.address + offsetInPage base + behindAvail + rounding align) &&&
        ~~~rounding align := by
    rw [vringInit, behind_avail]
    rfl
  have sum : (pages.address + offsetInPage base + behindAvail + rounding align).toNat =
      pages.address.toNat + (base.toNat % 4096 + 4614 + (align.toNat - 1)) := by
    rw [UInt64.toNat_add, UInt64.toNat_add, pointer_toNat, behind, rounding_toNat range.1]
    omega
  have offset : (UInt64.ofNat (base.toNat % 4096 + 4614 + (align.toNat - 1))).toNat =
      base.toNat % 4096 + 4614 + (align.toNat - 1) := by
    apply UInt64.toNat_ofNat_of_lt'
    have small : base.toNat % 4096 + 4614 + (align.toNat - 1) < 2 ^ 64 := by omega
    exact small
  have masked : (pages.address + offsetInPage base + behindAvail + rounding align) &&&
      rounding align = UInt64.ofNat (base.toNat % 4096 + 4614 + (align.toNat - 1)) &&&
        rounding align := by
    apply small_mask (rounding_small range)
    rw [sum, offset]
    omega
  have part : (base.toNat % 4096 + 4614 + (align.toNat - 1)) &&& (align.toNat - 1) ≤
      base.toNat % 4096 + 4614 + (align.toNat - 1) := Nat.and_le_left
  rw [start, cleared, masked, UInt64.toNat_sub_of_le, UInt64.toNat_and, sum, offset,
    rounding_toNat range.1, roundedUp]
  · omega
  · rw [UInt64.le_iff_toNat_le, UInt64.toNat_and, sum, offset, rounding_toNat range.1]
    omega

theorem avail_toNat :
    (vringInit virtioBlkQueueSize (pages.address + offsetInPage base) align).avail.toNat =
      pages.address.toNat + base.toNat % 4096 + 4096 := by
  have below := pages_below pages
  have inPage : base.toNat % 4096 < 4096 := Nat.mod_lt _ (by decide)
  have table : (16 * UInt64.ofNat virtioBlkQueueSize).toNat = 4096 := rfl
  rw [vringInit, UInt64.toNat_add, pointer_toNat, table]
  omega

/-- With a small alignment only the end of the used ring is in question. -/
theorem laid_out_iff (range : 0 < align.toNat ∧ align.toNat ≤ 4096) (model : Option Bool) :
    LaidOut base align
        (rangeMappings model ⟨pages.address + offsetInPage base,
          vringSize (UInt32.ofNat virtioBlkQueueSize) align⟩)
        (vringInit virtioBlkQueueSize (pages.address + offsetInPage base) align) ↔
      Fits base align := by
  have below := pages_below pages
  have bytes := mapped_bytes pages base range
  have bounds := rounded_up_bounds 4614 align.toNat
  have inPage : base.toNat % 4096 < 4096 := Nat.mod_lt _ (by decide)
  have page : Range.page ⟨pages.address + offsetInPage base,
      vringSize (UInt32.ofNat virtioBlkQueueSize) align⟩ = pages.address :=
    pointer_page pages base
  have fits : (Range.page ⟨pages.address + offsetInPage base,
      vringSize (UInt32.ofNat virtioBlkQueueSize) align⟩).toNat + 4096 *
        (Range.pages ⟨pages.address + offsetInPage base,
          vringSize (UInt32.ofNat virtioBlkQueueSize) align⟩).toNat < 2 ^ 64 := by
    rw [page, Range.pages, bytes]
    omega
  have within {start len : Nat} (some : 0 < len) := @inside_iff model _ fits start len some
  have usedPages := @within
    (vringInit virtioBlkQueueSize (pages.address + offsetInPage base) align).used.toNat 2054
    (by decide)
  have availPages := @within
    (vringInit virtioBlkQueueSize (pages.address + offsetInPage base) align).avail.toNat 518
    (by decide)
  rw [page, Range.pages, bytes, used_toNat pages base range] at usedPages
  rw [page, Range.pages, bytes, avail_toNat] at availPages
  constructor
  · intro laid
    refine ⟨range, ?_⟩
    have used := laid.usedInside
    rw [used_toNat pages base range] at used
    have last := (usedPages.mp used).2
    omega
  · rintro ⟨_, ends⟩
    refine ⟨?_, small_rounding_agrees (rounding_small range) pages base, ?_, ?_⟩
    · rw [avail_offset]
      exact avail_offset _ align
    · rw [avail_toNat]
      apply availPages.mpr
      omega
    · rw [used_toNat pages base range]
      apply usedPages.mpr
      omega

end Placed

/-! Alignments above a page, and 0. -/

theorem high_bit {align : UInt32} (wide : ¬ (0 < align.toNat ∧ align.toNat ≤ 4096)) :
    ∃ bit, 12 ≤ bit ∧ bit < 32 ∧ (rounding align).toNat.testBit bit = true := by
  have bound := align.toNat_lt
  have one : (1 : UInt64).toNat = 1 := rfl
  have large : (rounding align).toNat % 2 ^ 32 / 2 ^ 12 ≠ 0 := by
    rw [rounding, UInt64.toNat_sub, UInt32.toNat_toUInt64, one]
    omega
  obtain ⟨bit, seen⟩ := Nat.exists_testBit_of_ne_zero large
  rw [Nat.testBit_div_two_pow, Nat.testBit_mod_two_pow, Bool.and_eq_true, decide_eq_true_iff]
    at seen
  exact ⟨bit + 12, Nat.le_add_left 12 bit, seen.1, seen.2⟩

theorem page_toNat {page : Nat} (small : page < 2 ^ 51) :
    (UInt64.ofNat (4096 * page)).toNat = 4096 * page := by
  apply UInt64.toNat_ofNat_of_lt'
  have below : 4096 * page < 2 ^ 64 := by omega
  exact below

/-- Pages that the host may choose. -/
def pagesAt (page : Nat) (positive : 0 < page) (small : page < 2 ^ 51) : HostPages where
  address := UInt64.ofNat (4096 * page)
  aligned := by
    rw [← UInt64.toNat_inj, offset_toNat, page_toNat small]
    exact Nat.mul_mod_right 4096 page
  notNull := by
    intro null
    have zero := congrArg UInt64.toNat null
    rw [page_toNat small, UInt64.toNat_zero] at zero
    omega
  user := by
    have half : (0x8000000000000000 : UInt64).toNat = 2 ^ 63 := rfl
    rw [UInt64.lt_iff_toNat_lt, page_toNat small, half]
    omega

/-- Whatever the driver computes, the host may choose pages for which the server
computes another used ring. -/
theorem large_rounding_disagrees {align : UInt32}
    (wide : ¬ (0 < align.toNat ∧ align.toNat ≤ 4096)) (base : UInt64) :
    ∃ pages : HostPages,
      (vringInit virtioBlkQueueSize (pages.address + offsetInPage base) align).used -
          (pages.address + offsetInPage base) ≠
        (vringInit virtioBlkQueueSize base align).used - base := by
  obtain ⟨bit, above, below, seen⟩ := high_bit wide
  by_contra agree
  push Not at agree
  have power : 2 ^ (bit - 12) < 2 ^ 20 := Nat.pow_lt_pow_right (by decide) (by omega)
  have first := agree (pagesAt (2 ^ 28) (by decide) (by decide))
  have second := agree (pagesAt (2 ^ 28 + 2 ^ (bit - 12)) (Nat.add_pos_left (by decide) _)
    (Nat.lt_trans (Nat.add_lt_add_left power _) (by decide)))
  rw [offsets_agree_iff] at first second
  have moved : UInt64.ofNat (4096 * (2 ^ 28 + 2 ^ (bit - 12))) =
      UInt64.ofNat (4096 * 2 ^ 28) + UInt64.ofNat (2 ^ bit) := by
    have whole : 4096 * 2 ^ (bit - 12) = 2 ^ bit := by
      rw [show 4096 = 2 ^ 12 from rfl, ← Nat.pow_add, Nat.add_sub_cancel' above]
    rw [Nat.mul_add, whole, UInt64.ofNat_add]
  apply bit_flipped (Nat.lt_trans below (by decide)) seen
  apply Eq.trans _ (second.trans first.symm)
  simp only [pagesAt, moved]
  grind

/-- A write to QUEUE_PFN is refused, or lays the rings out. -/
def Honours (dev : MmioDevice) (pfn : UInt32) (host : HostAnswers) : Prop :=
  match callback dev (wordTo .queuePfn pfn) host with
  | .error _ => True
  | .ok next => ∃ mapped, next.demu.held = dev.demu.held ++ mapped ∧
      LaidOut (ringBase dev pfn) dev.vq.vringAddr.align mapped next.vq.vring

theorem prepared_laid_out {pfn pgsize align : UInt32} (active : pfn ≠ 0) (pages : HostPages)
    (honours : Honours (prepared pgsize align) pfn (answering pages)) :
    ∃ model, LaidOut (pfn.toUInt64 * pgsize.toUInt64) align
      (rangeMappings model ⟨pages.address + offsetInPage (pfn.toUInt64 * pgsize.toUInt64),
        vringSize (UInt32.ofNat virtioBlkQueueSize) align⟩)
      (vringInit virtioBlkQueueSize
        (pages.address + offsetInPage (pfn.toUInt64 * pgsize.toUInt64)) align) := by
  obtain ⟨next, done⟩ := @prepared_activates pfn pgsize align pages
  rw [Honours, queue_pfn_performs rfl active, done] at honours
  obtain ⟨mapped, grown, laid⟩ := honours
  obtain ⟨chosen, model, same, vring, held⟩ := activation_ok rfl done
  cases same
  rw [held] at grown
  rw [← List.append_cancel_left grown, vring] at laid
  exact ⟨model, laid⟩

/-- The server and the driver agree on the rings, for whatever pages the host
maps, exactly for these registers. -/
theorem legacy_rings_laid_out_iff (pfn pgsize align : UInt32) (active : pfn ≠ 0) :
    (∀ dev host, dev.vdev.legacy = true → dev.hdr.guestPageSize = pgsize →
        dev.vq.vringAddr.align = align → Honours dev pfn host) ↔
      Fits (pfn.toUInt64 * pgsize.toUInt64) align := by
  constructor
  · intro honoured
    have laid (pages : HostPages) := prepared_laid_out active pages
      (honoured (prepared pgsize align) (answering pages) rfl rfl rfl)
    by_cases range : 0 < align.toNat ∧ align.toNat ≤ 4096
    · obtain ⟨model, first⟩ := laid (pagesAt 1 (by decide) (by decide))
      exact (laid_out_iff _ _ range model).mp first
    · obtain ⟨pages, disagrees⟩ := large_rounding_disagrees range
        (pfn.toUInt64 * pgsize.toUInt64)
      obtain ⟨model, agrees⟩ := laid pages
      exact absurd agrees.used disagrees
  · rintro fits dev host legacy rfl rfl
    rw [Honours, queue_pfn_performs legacy active]
    cases done : perform dev host (.activate pfn) with
    | error fault => trivial
    | ok next =>
        obtain ⟨pages, model, _, vring, held⟩ := activation_ok legacy done
        refine ⟨_, held, ?_⟩
        rw [vring]
        exact (laid_out_iff pages _ fits.1 model).mpr fits

/-- A ring at a page boundary needs a small alignment only. -/
theorem aligned_fits {base : UInt64} {align : UInt32}
    (range : 0 < align.toNat ∧ align.toNat ≤ 4096) (whole : base.toNat % 4096 = 0) :
    Fits base align := by
  refine ⟨range, ?_⟩
  rw [whole, Nat.zero_add, Nat.zero_add]
  omega

theorem page_aligned_registers :
    (∀ dev host, dev.vdev.legacy = true → dev.hdr.guestPageSize = 4096 →
        dev.vq.vringAddr.align = 4096 → Honours dev 0x48000 host) ↔
      Fits ((0x48000 : UInt32).toUInt64 * (4096 : UInt32).toUInt64) 4096 :=
  legacy_rings_laid_out_iff 0x48000 4096 4096 (by decide)

/-- An alignment of 64 KiB, with pages that the host maps at 0x11000. The driver
has the used ring 0x10000 behind the start of the ring, the server 0xf000. -/
theorem wide_alignment_disagrees :
    ¬ Honours (prepared 4096 0x10000) 0x48000
      (answering (pagesAt 17 (by decide) (by decide))) := by
  intro honours
  obtain ⟨model, laid⟩ := prepared_laid_out (by decide) _ honours
  exact absurd laid.used (by decide)

end VirtioDisk.LegacyLayout
