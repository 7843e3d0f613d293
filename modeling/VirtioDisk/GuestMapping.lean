import VirtioDisk.WordMasks

/-!
Mapping of guest pages in demu.c. The host answers a map call with pages of the
server or with NULL. `held` is ghost state: what has been mapped and not
unmapped yet. Foreign pages are unmapped page by page (munmap takes any range),
a batch of grants only as a whole. `none` is a BUG_ON that stops the server.
-/

namespace VirtioDisk.GuestMapping

open WordMasks

def targetPageShift : UInt64 := 12
def targetPageSize : UInt64 := 4096
def targetPageMask : UInt64 := ~~~(targetPageSize - 1)
def xenGrantAddrOff : UInt64 := 0x8000000000000000

def p2RoundUp (x a : UInt64) : UInt64 := -(-x &&& -a)

def offsetInPage (address : UInt64) : UInt64 := address &&& ~~~targetPageMask

def pageCount (address size : UInt64) : UInt32 :=
  (p2RoundUp (size + offsetInPage address) targetPageSize >>> targetPageShift).toUInt32

/-- Where the host maps pages: at a page boundary in the user half of the server. -/
structure HostPages where
  address : UInt64
  aligned : offsetInPage address = 0
  notNull : address ≠ 0
  user : address < 0x8000000000000000

structure Mapping where
  address : UInt64
  pages : UInt32
  deriving DecidableEq

/-- `useGnttab` is -1 (`none`) until the first address decides the model. -/
structure DemuState where
  useGnttab : Option Bool
  held : List Mapping

def demuDetectMappingsModel (s : DemuState) (addr : UInt64) : DemuState :=
  match s.useGnttab with
  | some _ => s
  | none => { s with useGnttab := some (addr &&& xenGrantAddrOff != 0) }

def guestPages (ptr : UInt64) (n : UInt32) : List Mapping :=
  (List.range n.toNat).map fun i => ⟨ptr + targetPageSize * UInt64.ofNat i, 1⟩

def guestGrantRefs (ptr : UInt64) (n : UInt32) : List Mapping := [⟨ptr, n⟩]

def demuUnmapGuestPages (held : List Mapping) (ptr : UInt64) (n : UInt32) : List Mapping :=
  held.filter fun page => !decide (page.address - ptr < targetPageSize * n.toUInt64)

def demuUnmapGuestGrantRefs (held : List Mapping) (ptr : UInt64) (n : UInt32) : List Mapping :=
  held.erase ⟨ptr, n⟩

def demuMapGuestRange (s : DemuState) (addr size : UInt64) (answer : Option HostPages) :
    Option (UInt64 × DemuState) :=
  let n := pageCount addr size
  let s := demuDetectMappingsModel s addr
  if s.useGnttab = some true then
    if addr &&& xenGrantAddrOff = 0 then none
    else match answer with
      | none => some (0, s)
      | some pages => some (pages.address + offsetInPage addr,
          { s with held := s.held ++ guestGrantRefs pages.address n })
  else
    if addr &&& xenGrantAddrOff ≠ 0 then none
    else match answer with
      | none => some (0, s)
      | some pages => some (pages.address + offsetInPage addr,
          { s with held := s.held ++ guestPages pages.address n })

def demuUnmapGuestRange (s : DemuState) (ptr size : UInt64) : DemuState :=
  let n := pageCount ptr size
  if s.useGnttab = some true then
    { s with held := demuUnmapGuestGrantRefs s.held (ptr &&& targetPageMask) n }
  else { s with held := demuUnmapGuestPages s.held (ptr &&& targetPageMask) n }

section Pointer
variable (pages : HostPages) (addr : UInt64)

theorem HostPages.masked : pages.address &&& targetPageMask = pages.address := by
  have split := mask_split pages.address targetPageMask
  have low : pages.address &&& ~~~targetPageMask = 0 := pages.aligned
  rwa [low, UInt64.or_zero] at split

theorem pointer_or : pages.address + offsetInPage addr = pages.address ||| offsetInPage addr := by
  apply add_disjoint
  have low : pages.address &&& ~~~targetPageMask = 0 := pages.aligned
  rw [offsetInPage, UInt64.and_comm addr, ← UInt64.and_assoc, low, UInt64.zero_and]

/-- The pointer of a mapping keeps the offset of the guest address in its page. -/
theorem pointer_offset : offsetInPage (pages.address + offsetInPage addr) = offsetInPage addr := by
  have low : pages.address &&& ~~~targetPageMask = 0 := pages.aligned
  rw [pointer_or, offsetInPage, mask_or_right, low, UInt64.zero_or, offsetInPage,
    UInt64.and_assoc, UInt64.and_self]

theorem pointer_page : (pages.address + offsetInPage addr) &&& targetPageMask = pages.address := by
  rw [pointer_or, mask_or_right, pages.masked, offsetInPage, UInt64.and_assoc,
    UInt64.not_and_self, UInt64.and_zero, UInt64.or_zero]

theorem pointer_pages (size : UInt64) :
    pageCount (pages.address + offsetInPage addr) size = pageCount addr size := by
  rw [pageCount, pageCount, pointer_offset]

theorem pointer_below : (pages.address + offsetInPage addr).toNat < 2 ^ 63 + 4096 := by
  have low : (offsetInPage addr).toNat ≤ 4095 := by
    rw [offsetInPage, UInt64.toNat_and]
    exact Nat.and_le_right
  have user := UInt64.lt_iff_toNat_lt.mp pages.user
  rw [UInt64.toNat_add]
  exact Nat.lt_of_le_of_lt (Nat.mod_le _ _)
    (Nat.add_lt_add_of_lt_of_le user (Nat.le_trans low (by decide)))

end Pointer

theorem mapped_below {s after : DemuState} {addr size ptr : UInt64} {answer : Option HostPages}
    (mapped : demuMapGuestRange s addr size answer = some (ptr, after)) :
    ptr.toNat < 2 ^ 63 + 4096 := by
  simp only [demuMapGuestRange] at mapped
  split at mapped
  all_goals
    obtain ⟨_, mapped⟩ := Option.ite_none_left_eq_some.mp mapped
    cases answer with
    | none =>
        cases mapped
        decide
    | some pages =>
        cases mapped
        exact pointer_below pages addr

theorem masked_toNat (x : UInt64) :
    (x &&& targetPageMask).toNat = x.toNat - x.toNat % 4096 := by
  have low : (x &&& ~~~targetPageMask).toNat = x.toNat % 4096 := by
    rw [UInt64.toNat_and]
    exact Nat.and_two_pow_sub_one_eq_mod x.toNat 12
  have split := add_disjoint _ _ (parts_apart x targetPageMask)
  rw [mask_split] at split
  have sum := congrArg UInt64.toNat split
  rw [UInt64.toNat_add, low] at sum
  have bound := x.toNat_lt
  have part : (x &&& targetPageMask).toNat ≤ x.toNat := by
    rw [UInt64.toNat_and]
    exact Nat.and_le_left
  omega

theorem offset_toNat (address : UInt64) :
    (offsetInPage address).toNat = address.toNat % 4096 := by
  rw [offsetInPage, UInt64.toNat_and]
  exact Nat.and_two_pow_sub_one_eq_mod address.toNat 12

/-- The pages that a range touches. -/
theorem page_count_toNat (address : UInt64) (len : UInt32) :
    (pageCount address len.toUInt64).toNat =
      (len.toNat + address.toNat % 4096 + 4095) / 4096 := by
  have fits := len.toNat_lt
  have inPage : address.toNat % 4096 < 4096 := Nat.mod_lt _ (by decide)
  have offset := offset_toNat address
  have total : (len.toUInt64 + offsetInPage address).toNat = len.toNat + address.toNat % 4096 := by
    rw [UInt64.toNat_add, offset, UInt32.toNat_toUInt64]
    omega
  have rounded : (p2RoundUp (len.toUInt64 + offsetInPage address) targetPageSize).toNat =
      (len.toNat + address.toNat % 4096 + 4095) / 4096 * 4096 := by
    have mask : -targetPageSize = targetPageMask := by decide
    rw [p2RoundUp, mask, UInt64.toNat_neg, masked_toNat, UInt64.toNat_neg, total]
    simp only [UInt64.size]
    omega
  rw [pageCount, UInt64.toNat_toUInt32, UInt64.toNat_shiftRight, rounded,
    show targetPageShift.toNat % 64 = 12 from rfl, Nat.shiftRight_eq_div_pow]
  omega

theorem page_count_zero_iff (len : UInt32) : pageCount 0 len.toUInt64 = 0 ↔ len = 0 := by
  rw [← UInt32.toNat_inj, ← UInt32.toNat_inj, page_count_toNat]
  simp only [UInt64.toNat_zero, UInt32.toNat_zero]
  omega

/-! What a map call comes to, whichever pages the server has mapped before: the
mapping model that is in use after it, and whether it gave a pointer. -/

def grantAddress (addr : UInt64) : Bool := addr &&& xenGrantAddrOff != 0

/-- The model after a map call at an address of this kind. `none` is the BUG_ON. -/
def latch (useGnttab : Option Bool) (grants : Bool) : Option Bool :=
  match useGnttab with
  | none => some grants
  | some model => if model = grants then some model else none

theorem pointer_valid (pages : HostPages) (addr : UInt64) :
    pages.address + offsetInPage addr ≠ 0 := by
  intro null
  have page := pointer_page pages addr
  rw [null, UInt64.zero_and] at page
  exact pages.notNull page.symm

theorem map_range_latch (s : DemuState) (addr size : UInt64) (answer : Option HostPages) :
    (demuMapGuestRange s addr size answer).map
        (fun mapped => (decide (mapped.1 = 0), mapped.2.useGnttab)) =
      (latch s.useGnttab (grantAddress addr)).map fun model => (answer.isNone, some model) := by
  obtain ⟨useGnttab, held⟩ := s
  unfold demuMapGuestRange demuDetectMappingsModel latch grantAddress
  by_cases page : addr &&& xenGrantAddrOff = 0
  · rcases useGnttab with _ | _ | _ <;> cases answer <;> simp [page, pointer_valid]
  · rcases useGnttab with _ | _ | _ <;> cases answer <;> simp [page, pointer_valid]

/-- What a map call returns: the host's answer at the offset of the guest address. -/
def pointerAt (addr : UInt64) : Option HostPages → UInt64
  | none => 0
  | some pages => pages.address + offsetInPage addr

theorem map_range_pointer {s after : DemuState} {addr size ptr : UInt64}
    {answer : Option HostPages}
    (mapped : demuMapGuestRange s addr size answer = some (ptr, after)) :
    ptr = pointerAt addr answer := by
  simp only [demuMapGuestRange] at mapped
  split at mapped
  all_goals
    obtain ⟨_, mapped⟩ := Option.ite_none_left_eq_some.mp mapped
    cases answer <;> cases mapped <;> rfl

theorem map_range_refused {s : DemuState} {addr : UInt64} (size : UInt64)
    (answer : Option HostPages) (refused : latch s.useGnttab (grantAddress addr) = none) :
    demuMapGuestRange s addr size answer = none := by
  have outcome := map_range_latch s addr size answer
  rw [refused] at outcome
  exact Option.map_eq_none_iff.mp outcome

theorem map_range_latched {s : DemuState} {addr : UInt64} {model : Bool} (size : UInt64)
    (answer : Option HostPages) (latched : latch s.useGnttab (grantAddress addr) = some model) :
    ∃ ptr after, demuMapGuestRange s addr size answer = some (ptr, after) ∧
      after.useGnttab = some model ∧ (ptr = 0 ↔ answer.isNone = true) := by
  have outcome := map_range_latch s addr size answer
  rw [latched] at outcome
  obtain ⟨mapped, done, same⟩ := Option.map_eq_some_iff.mp outcome
  obtain ⟨null, known⟩ := Prod.mk.inj same
  refine ⟨mapped.1, mapped.2, done, known, ?_⟩
  rw [← null, decide_eq_true_iff]

/-- The model after map calls at such addresses that all have to give a pointer. -/
def latchAll (useGnttab : Option Bool) : List (UInt64 × Option HostPages) → Option (Option Bool)
  | [] => some useGnttab
  | (addr, answer) :: rest =>
      match latch useGnttab (grantAddress addr) with
      | none => none
      | some model => if answer.isNone then none else latchAll (some model) rest

/-- With the model known, each of the addresses has to be of it and each call has
to give a pointer. -/
theorem latch_all_known (model : Bool) (calls : List (UInt64 × Option HostPages)) :
    ((∀ call ∈ calls, grantAddress call.1 = model ∧ call.2 ≠ none) →
        latchAll (some model) calls = some (some model)) ∧
      ((¬ ∀ call ∈ calls, grantAddress call.1 = model ∧ call.2 ≠ none) →
        latchAll (some model) calls = none) := by
  induction calls with
  | nil => simp [latchAll]
  | cons call rest ih =>
      obtain ⟨addr, answer⟩ := call
      by_cases same : grantAddress addr = model
      · cases answer with
        | none => simp [latchAll, latch, same]
        | some pages => simpa [latchAll, latch, same] using ih
      · have other : ¬ model = grantAddress addr := fun known => same known.symm
        simp [latchAll, latch, same, other]

-- A page of the range is the one munmap finds at that address.
theorem guest_page_found (ptr : UInt64) (n : UInt32) (page : Mapping)
    (member : page ∈ guestPages ptr n) : page.address - ptr < targetPageSize * n.toUInt64 := by
  obtain ⟨i, inside, rfl⟩ := List.mem_map.mp member
  have bound := n.toNat_lt
  have index : i < n.toNat := List.mem_range.mp inside
  show ptr + targetPageSize * UInt64.ofNat i - ptr < _
  rw [UInt64.add_comm, UInt64.add_sub_cancel]
  rw [UInt64.lt_iff_toNat_lt]
  simp only [targetPageSize, UInt64.toNat_mul, UInt64.toNat_ofNat', UInt32.toNat_toUInt64,
    UInt64.toNat_ofNat]
  omega

/-- A range that was mapped: the pointer that came back, and the size asked for. -/
structure Range where
  ptr : UInt64
  size : UInt64

def Range.page (range : Range) : UInt64 := range.ptr &&& targetPageMask
def Range.pages (range : Range) : UInt32 := pageCount range.ptr range.size

/-- Nothing is mapped but these ranges, which can be unmapped in this order. -/
def Holds (s : DemuState) (ranges : List Range) : Prop :=
  if s.useGnttab = some true then s.held = ranges.map fun range => ⟨range.page, range.pages⟩
  else ∀ page ∈ s.held, ∃ range ∈ ranges,
    page.address - range.page < targetPageSize * range.pages.toUInt64

theorem holds_nil (s : DemuState) : Holds s [] ↔ s.held = [] := by
  unfold Holds
  split
  · rfl
  · simp [List.eq_nil_iff_forall_not_mem]

theorem detect_decides (s : DemuState) (addr : UInt64) :
    (demuDetectMappingsModel s addr).useGnttab ≠ none := by
  unfold demuDetectMappingsModel
  cases decided : s.useGnttab with
  | none => simp
  | some model => simp [decided]

def rangeMappings (useGnttab : Option Bool) (range : Range) : List Mapping :=
  if useGnttab = some true then guestGrantRefs range.page range.pages
  else guestPages range.page range.pages

/-- These ranges are mapped, each once and nothing else. -/
def Maps (s : DemuState) (ranges : List Range) : Prop :=
  s.held = ranges.flatMap (rangeMappings s.useGnttab)

theorem Maps.holds {s : DemuState} {ranges : List Range} (maps : Maps s ranges) :
    Holds s ranges := by
  unfold Maps rangeMappings at maps
  unfold Holds
  split at maps
  · rename_i grants
    rw [if_pos grants, maps, List.map_eq_flatMap]
    rfl
  · rename_i pages
    rw [if_neg pages, maps]
    intro page member
    obtain ⟨range, inside, found⟩ := List.mem_flatMap.mp member
    exact ⟨range, inside, guest_page_found _ _ page found⟩

theorem detect_maps {s : DemuState} {ranges : List Range} (addr : UInt64)
    (maps : Maps s ranges) (decided : s.useGnttab ≠ none ∨ ranges = []) :
    Maps (demuDetectMappingsModel s addr) ranges := by
  unfold demuDetectMappingsModel
  cases model : s.useGnttab with
  | some grants => exact maps
  | none =>
      rcases decided with known | rfl
      · exact absurd model known
      · simpa [Maps] using maps

/-- A map call that gave a pointer has mapped the pages of its range. -/
theorem map_adds {s after : DemuState} {addr size ptr : UInt64} {answer : Option HostPages}
    (mapped : demuMapGuestRange s addr size answer = some (ptr, after)) (valid : ptr ≠ 0) :
    after.useGnttab = (demuDetectMappingsModel s addr).useGnttab ∧
      after.held = (demuDetectMappingsModel s addr).held ++
        rangeMappings after.useGnttab ⟨ptr, size⟩ := by
  simp only [demuMapGuestRange] at mapped
  unfold rangeMappings
  split at mapped
  all_goals
    rename_i model
    obtain ⟨_, mapped⟩ := Option.ite_none_left_eq_some.mp mapped
    cases answer with
    | none =>
        cases mapped
        contradiction
    | some pages =>
        cases mapped
        simp [model, Range.page, Range.pages, pointer_page, pointer_pages]

theorem map_maps {s after : DemuState} {ranges : List Range} {addr size ptr : UInt64}
    {answer : Option HostPages} (maps : Maps s ranges)
    (decided : s.useGnttab ≠ none ∨ ranges = [])
    (mapped : demuMapGuestRange s addr size answer = some (ptr, after)) (valid : ptr ≠ 0) :
    Maps after (ranges ++ [⟨ptr, size⟩]) ∧ after.useGnttab ≠ none := by
  obtain ⟨model, held⟩ := map_adds mapped valid
  have before : _ = _ := detect_maps addr maps decided
  constructor
  · rw [before, ← model] at held
    simpa [Maps] using held
  · rw [model]
    exact detect_decides s addr

theorem unmap_holds {s : DemuState} {range : Range} {ranges : List Range}
    (held : Holds s (range :: ranges)) :
    Holds (demuUnmapGuestRange s range.ptr range.size) ranges := by
  unfold Holds at held ⊢
  by_cases grants : s.useGnttab = some true
  · simp only [grants, if_true] at held
    simp [demuUnmapGuestRange, grants, demuUnmapGuestGrantRefs, held, Range.page, Range.pages]
  · simp only [grants, if_false] at held
    simp only [demuUnmapGuestRange, grants, if_false]
    intro page member
    obtain ⟨kept, outside⟩ := List.mem_filter.mp member
    obtain ⟨other, inside, found⟩ := held page kept
    rcases List.mem_cons.mp inside with rfl | rest
    · simp only [Bool.not_eq_true', decide_eq_false_iff_not] at outside
      exact absurd found outside
    · exact ⟨other, rest, found⟩

/-- Only the page counts of the ranges matter, not the sizes they come from. -/
theorem holds_resized {s : DemuState} {ptr size resized : UInt64}
    (held : Holds s [⟨ptr, size⟩]) (same : pageCount ptr resized = pageCount ptr size) :
    Holds s [⟨ptr, resized⟩] := by
  simpa [Holds, Range.page, Range.pages, same] using held

theorem maps_resized {s : DemuState} {ptr size resized : UInt64}
    (maps : Maps s [⟨ptr, size⟩]) (same : pageCount ptr resized = pageCount ptr size) :
    Maps s [⟨ptr, resized⟩] := by
  simpa [Maps, rangeMappings, Range.page, Range.pages, same] using maps

end VirtioDisk.GuestMapping
