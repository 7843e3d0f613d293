import VirtioDisk.GuestMapping
import VirtioDisk.Ledger

/-!
One map call and one unmap call of demu.c, with the frames that are handed to the
hypervisor: page frame numbers, or grant references, for `n` consecutive pages.
Each side works out `n` for itself, from the guest address and from the pointer.
`log` is ghost state: base and page count of every range that was mapped and of
every range that was unmapped, in this order.
-/

namespace VirtioDisk.GuestFrames

open GuestMapping Ledger WordMasks

inductive Frames where
  | pages (pfn : List UInt64)
  | grants (refs : List UInt32)

def Frames.numbers : Frames → List Nat
  | .pages pfn => pfn.map UInt64.toNat
  | .grants refs => refs.map UInt32.toNat

def pfns (addr : UInt64) (n : UInt32) : List UInt64 :=
  (List.range n.toNat).map fun i => (addr >>> targetPageShift) + UInt64.ofNat i

-- A grant reference is cut to 32 bits.
def grantRefs (addr : UInt64) (n : UInt32) : List UInt32 :=
  (List.range n.toNat).map fun i =>
    (((addr &&& ~~~xenGrantAddrOff) >>> targetPageShift) + UInt64.ofNat i).toUInt32

def requested (s : DemuState) (addr size : UInt64) : Frames :=
  let n := pageCount addr size
  if (demuDetectMappingsModel s addr).useGnttab = some true then .grants (grantRefs addr n)
  else .pages (pfns addr n)

structure Server where
  demu : DemuState
  calls : Nat
  log : List (Entry Mapping)

/-- What the host answers at each map call, NULL or pages for the frames. -/
abbrev Host := Nat → Frames → Option HostPages

def mapRange (host : Host) (s : Server) (addr size : UInt64) : Option (UInt64 × Server) :=
  let answer := host s.calls (requested s.demu addr size)
  match demuMapGuestRange s.demu addr size answer with
  | none => none
  | some (ptr, demu) => some (ptr, {
      demu := demu
      calls := s.calls + 1
      log := s.log ++ (answer.map fun pages =>
        Entry.acquired (⟨pages.address, pageCount addr size⟩ : Mapping)).toList })

def unmapRange (s : Server) (ptr size : UInt64) : Server :=
  { s with
    demu := demuUnmapGuestRange s.demu ptr size
    log := s.log ++ [.released ⟨ptr &&& targetPageMask, pageCount ptr size⟩] }

/-! The pages of a range of guest memory. -/

def guestAddress (addr : UInt64) : Nat := (addr &&& ~~~xenGrantAddrOff).toNat

def firstPage (addr : UInt64) : Nat := guestAddress addr / 4096

/-- Rounded up. -/
def pagesOf (addr : UInt64) (len : UInt32) : Nat := (addr.toNat % 4096 + len.toNat + 4095) / 4096

section Pages
variable {addr : UInt64}

theorem guest_address_low (addr : UInt64) : guestAddress addr % 4096 = addr.toNat % 4096 := by
  have low := congrArg UInt64.toNat
    (show (addr &&& ~~~xenGrantAddrOff) &&& 4095 = addr &&& 4095 by
      rw [UInt64.and_assoc]
      rfl)
  rw [UInt64.toNat_and, UInt64.toNat_and] at low
  exact (Nat.and_two_pow_sub_one_eq_mod _ 12).symm.trans
    (low.trans (Nat.and_two_pow_sub_one_eq_mod _ 12))

theorem foreign_address (foreign : grantAddress addr = false) :
    addr &&& ~~~xenGrantAddrOff = addr := by
  have clear : addr &&& xenGrantAddrOff = 0 := by simpa [grantAddress] using foreign
  have split := mask_split addr xenGrantAddrOff
  rwa [clear, UInt64.zero_or] at split

theorem page_count_pages (addr : UInt64) (len : UInt32) :
    (pageCount addr len.toUInt64).toNat = pagesOf addr len := by
  rw [page_count_toNat, pagesOf, Nat.add_comm len.toNat]

theorem shifted_page (addr : UInt64) {i : Nat} (small : i < 2 ^ 32) :
    ((addr >>> targetPageShift) + UInt64.ofNat i).toNat = addr.toNat / 4096 + i := by
  have fits := addr.toNat_lt
  rw [UInt64.toNat_add, UInt64.toNat_shiftRight, UInt64.toNat_ofNat',
    show targetPageShift.toNat % 64 = 12 from rfl, Nat.shiftRight_eq_div_pow]
  omega

theorem consecutive {α : Type} {n page : Nat} {frame : Nat → α} {number : α → Nat}
    (each : ∀ i < n, number (frame i) = page + i) :
    ((List.range n).map frame).map number = List.range' page n := by
  rw [List.map_map, List.range'_eq_map_range]
  exact List.map_congr_left fun i member => each i (List.mem_range.mp member)

theorem pfns_consecutive (foreign : grantAddress addr = false) (n : UInt32) :
    (pfns addr n).map UInt64.toNat = List.range' (firstPage addr) n.toNat := by
  have bound := n.toNat_lt
  apply consecutive
  intro i inside
  rw [shifted_page addr (by omega), firstPage, guestAddress, foreign_address foreign]

theorem refs_consecutive {n : UInt32} (fits : firstPage addr + n.toNat ≤ 2 ^ 32) :
    (grantRefs addr n).map UInt32.toNat = List.range' (firstPage addr) n.toNat := by
  have bound := n.toNat_lt
  apply consecutive
  intro i inside
  rw [UInt64.toNat_toUInt32, shifted_page _ (by omega)]
  exact Nat.mod_eq_of_lt (Nat.lt_of_lt_of_le (Nat.add_lt_add_left inside _) fits)

/-- The frames are those of the pages from that of the address on. -/
theorem requested_numbers {s : DemuState} (len : UInt32)
    (latched : latch s.useGnttab (grantAddress addr) ≠ none)
    (fits : grantAddress addr = true → firstPage addr + pagesOf addr len ≤ 2 ^ 32) :
    (requested s addr len.toUInt64).numbers = List.range' (firstPage addr) (pagesOf addr len) := by
  have model : (demuDetectMappingsModel s addr).useGnttab = some (grantAddress addr) := by
    unfold demuDetectMappingsModel
    cases known : s.useGnttab with
    | none => rfl
    | some model =>
        by_contra other
        rw [known] at other
        exact latched (by simpa [latch, known] using other)
  rw [← page_count_pages] at fits ⊢
  unfold requested
  rw [model]
  cases kind : grantAddress addr with
  | true =>
      rw [if_pos rfl]
      exact refs_consecutive (fits kind)
  | false =>
      rw [if_neg (by simp)]
      exact pfns_consecutive kind _

/-- Every page that the range meets is among them. -/
theorem pages_cover (len : UInt32) {byte : Nat} (first : guestAddress addr ≤ byte)
    (last : byte < guestAddress addr + len.toNat) :
    byte / 4096 ∈ List.range' (firstPage addr) (pagesOf addr len) := by
  have low := guest_address_low addr
  rw [List.mem_range'_1]
  unfold firstPage pagesOf
  omega

end Pages

/-! The pointer, and what unmapping it gives back. -/

section Calls
variable {host : Host} {s : Server} {addr size : UInt64} {pages : HostPages}

theorem pointer_toNat (pages : HostPages) (addr : UInt64) :
    (pages.address + offsetInPage addr).toNat = pages.address.toNat + addr.toNat % 4096 := by
  have user := UInt64.lt_iff_toNat_lt.mp pages.user
  rw [UInt64.toNat_add, offset_toNat]
  have inPage := Nat.mod_lt addr.toNat (show 0 < 4096 by decide)
  exact Nat.mod_eq_of_lt (Nat.lt_of_lt_of_le (Nat.add_lt_add user inPage) (by decide))

theorem map_call {model : Bool} (latched : latch s.demu.useGnttab (grantAddress addr) = some model)
    (served : host s.calls (requested s.demu addr size) = some pages) :
    ∃ after, mapRange host s addr size = some (pages.address + offsetInPage addr, after) ∧
      demuMapGuestRange s.demu addr size (some pages) =
        some (pages.address + offsetInPage addr, after.demu) ∧
      after.calls = s.calls + 1 ∧
      after.log = s.log ++ [.acquired ⟨pages.address, pageCount addr size⟩] := by
  obtain ⟨ptr, demu, mapped, _, _⟩ := map_range_latched size (some pages) latched
  have same := map_range_pointer mapped
  subst same
  refine ⟨⟨demu, s.calls + 1, s.log ++ [.acquired ⟨pages.address, pageCount addr size⟩]⟩, ?_,
    mapped, rfl, rfl⟩
  simp only [mapRange, served, mapped]
  rfl

theorem unmap_call (s : Server) (pages : HostPages) (addr size : UInt64) :
    (unmapRange s (pages.address + offsetInPage addr) size).log =
      s.log ++ [.released ⟨pages.address, pageCount addr size⟩] := by
  simp only [unmapRange, pointer_page, pointer_pages]

end Calls

end VirtioDisk.GuestFrames
