import VirtioDisk.DescriptorChain
import VirtioDisk.GuestFrames

/-!
What a request maps and unmaps, in the build without MAP_IN_ADVANCE: the walk of
virt_queue__get_head_iov with its map calls, and the loop of virtio_blk_complete.
Only the table of an indirect chain is unmapped by the walk. `guest` is what the
descriptor tables are read from; it does not change during the walk.
-/

namespace VirtioDisk.RequestMappings

open DescriptorChain GuestFrames GuestMapping Ledger RingWindow Virtqueue

/-- The entries of `iov` are a pointer and a length each. -/
structure MappedIov where
  server : Server
  iov : Nat → Range
  outCount : UInt16
  inCount : UInt16

def storeMapped (host : Host) (desc : VringDesc) (w : MappedIov) : Option MappedIov :=
  match mapRange host w.server desc.addr desc.len.toUInt64 with
  | none => none
  | some (ptr, server) =>
      let isWrite := virtDescTestFlag desc vringDescFWrite
      some {
        server := server
        iov := put w.iov (w.outCount.toNat + w.inCount.toNat) ⟨ptr, desc.len.toUInt64⟩
        outCount := if isWrite then w.outCount else w.outCount + 1
        inCount := if isWrite then w.inCount + 1 else w.inCount }

def walkMapped (host : Host) (desc : Nat → VringDesc) (max : UInt16) :
    Nat → UInt16 → MappedIov → Option MappedIov
  | 0, _, _ => none
  | fuel + 1, idx, w =>
      match storeMapped host (desc idx.toNat) w with
      | none => none
      | some w =>
          let next := nextDesc desc idx max
          if next = max then some w else walkMapped host desc max fuel next w

def virtQueueGetHeadIov (host : Host) (guest : GuestMemory) (ring : RingMemory) (vq : VirtQueue)
    (iov : Nat → Range) (head : UInt16) (fuel : Nat) (server : Server) : Option MappedIov :=
  let first := ring.desc head.toNat
  if virtDescTestFlag first vringDescFIndirect then
    match mapRange host server first.addr first.len.toUInt64 with
    | none => none
    | some (desc, server) =>
        -- The table is read through its pointer.
        if desc = 0 then none
        else
          let max := UInt16.ofNat (first.len.toNat / sizeofVringDesc)
          match walkMapped host (vringDescTable guest first.addr.toNat) max fuel 0
              ⟨server, iov, 0, 0⟩ with
          | none => none
          | some w =>
              if first.len ≠ 0 then
                some { w with server := unmapRange w.server desc first.len.toUInt64 }
              else some w
  else walkMapped host ring.desc (UInt16.ofNat vq.vring.num) fuel head ⟨server, iov, 0, 0⟩

def unmapEach (iov : Nat → Range) : Nat → Nat → Server → Server
  | _, 0, server => server
  | i, left + 1, server =>
      unmapEach iov (i + 1) left (unmapRange server (iov i).ptr (iov i).size)

/-- The loop of `virtio_blk_complete` over all descriptors. -/
def unmapAll (w : MappedIov) : Server :=
  unmapEach w.iov 0 (w.outCount.toNat + w.inCount.toNat) w.server

/-! Mapped ranges of the server that keep clear of each other. -/

def Apart (first second : Mapping) : Prop :=
  first.address.toNat + 4096 * first.pages.toNat ≤ second.address.toNat ∨
    second.address.toNat + 4096 * second.pages.toNat ≤ first.address.toNat

def mappingOf (range : Range) : Mapping := ⟨range.page, range.pages⟩

section Unmapping
variable {s : DemuState} {range : Range} {other page : Mapping}

theorem page_address {ptr : UInt64} {n : UInt32} (user : ptr.toNat < 2 ^ 63)
    (member : page ∈ guestPages ptr n) :
    page.pages = 1 ∧ ptr.toNat ≤ page.address.toNat ∧
      page.address.toNat + 4096 ≤ ptr.toNat + 4096 * n.toNat := by
  obtain ⟨i, inside, rfl⟩ := List.mem_map.mp member
  have index := List.mem_range.mp inside
  have bound := n.toNat_lt
  refine ⟨rfl, ?_⟩
  simp only [targetPageSize, UInt64.toNat_add, UInt64.toNat_mul, UInt64.toNat_ofNat',
    UInt64.toNat_ofNat]
  omega

-- munmap does not find a page that is clear of the range.
theorem apart_page_kept (user : range.page.toNat < 2 ^ 63) (one : page.pages = 1)
    (apart : Apart page (mappingOf range)) :
    ¬ page.address - range.page < targetPageSize * range.pages.toUInt64 := by
  have bound := range.pages.toNat_lt
  have here := page.address.toNat_lt
  have single : page.pages.toNat = 1 := by rw [one]; rfl
  simp only [Apart, mappingOf, single] at apart
  rw [UInt64.lt_iff_toNat_lt, UInt64.toNat_sub]
  simp only [targetPageSize, UInt64.toNat_mul, UInt32.toNat_toUInt64, UInt64.toNat_ofNat]
  omega

theorem apart_pages (user : range.page.toNat < 2 ^ 63)
    (apart : Apart (mappingOf range) other) (member : page ∈ guestPages range.page range.pages) :
    Apart page other := by
  obtain ⟨one, low, high⟩ := page_address user member
  have single : page.pages.toNat = 1 := by rw [one]; rfl
  simp only [Apart, mappingOf, single] at apart ⊢
  omega

/-- Unmapping a range gives back its pages and nothing else. -/
theorem unmap_gives_back {model : Bool} {kept : List Mapping} (known : s.useGnttab = some model)
    (held : s.held.Perm (rangeMappings s.useGnttab range ++ kept))
    (user : range.page.toNat < 2 ^ 63)
    (clear : model = false → ∀ page ∈ kept, page.pages = 1 ∧ Apart page (mappingOf range)) :
    (demuUnmapGuestRange s range.ptr range.size).useGnttab = some model ∧
      (demuUnmapGuestRange s range.ptr range.size).held.Perm kept := by
  cases model with
  | true =>
      simp only [rangeMappings, known, if_true, guestGrantRefs, List.singleton_append] at held
      simp only [demuUnmapGuestRange, known, if_true, demuUnmapGuestGrantRefs]
      refine ⟨trivial, (held.erase ⟨range.page, range.pages⟩).trans ?_⟩
      rw [List.erase_cons_head]
  | false =>
      simp only [rangeMappings, known, Option.some.injEq, Bool.false_eq_true, if_false] at held
      simp only [demuUnmapGuestRange, known, Option.some.injEq, Bool.false_eq_true, if_false,
        demuUnmapGuestPages, true_and]
      refine (held.filter _).trans ?_
      rw [List.filter_append, List.filter_eq_nil_iff.mpr, List.filter_eq_self.mpr,
        List.nil_append]
      · intro page member
        obtain ⟨one, apart⟩ := clear rfl page member
        simpa [Range.page, Range.pages] using apart_page_kept user one apart
      · intro page member
        simpa [Range.page, Range.pages] using guest_page_found _ _ page member

end Unmapping

/-! Ranges on top of what was held before. -/

/-- `open_` are the ranges that were mapped since and not unmapped yet. -/
structure Tracks (model : Bool) (base : List Mapping) (open_ : List Range) (s : Server) : Prop where
  latched : s.demu.useGnttab = some model ∨ s.demu.useGnttab = none ∧ open_ = []
  held : s.demu.held.Perm (open_.flatMap (rangeMappings (some model)) ++ base)

/-- What mmap promises: no range lies over another or over what was mapped before. -/
structure Clear (model : Bool) (base : List Mapping) (ranges : List Range) : Prop where
  user : ∀ range ∈ ranges, range.page.toNat < 2 ^ 63
  apart : (ranges.map mappingOf).Pairwise Apart
  fromBase : ∀ range ∈ ranges, ∀ page ∈ base, Apart page (mappingOf range)
  single : model = false → ∀ page ∈ base, page.pages = 1

/-- The ranges of map calls for these descriptors, from the call number `k` on. -/
def mappedRanges (pages : Nat → HostPages) : Nat → List VringDesc → List Range
  | _, [] => []
  | k, desc :: rest =>
      ⟨(pages k).address + offsetInPage desc.addr, desc.len.toUInt64⟩ ::
        mappedRanges pages (k + 1) rest

/-- A host that answers call `k` with `pages k`. -/
def serving (pages : Nat → HostPages) : Host := fun k _ => some (pages k)

def acquiredEach (ranges : List Range) : List (Entry Mapping) :=
  ranges.map fun range => .acquired (mappingOf range)

def releasedEach (ranges : List Range) : List (Entry Mapping) :=
  ranges.map fun range => .released (mappingOf range)

section Calls
variable {model : Bool} {base : List Mapping} {open_ : List Range} {s : Server}

theorem apart_symm {first second : Mapping} (apart : Apart first second) : Apart second first :=
  apart.symm

theorem map_tracks (pages : Nat → HostPages) {addr : UInt64} (size : UInt64)
    (tracks : Tracks model base open_ s) (kind : grantAddress addr = model) :
    ∃ after, mapRange (serving pages) s addr size =
        some ((pages s.calls).address + offsetInPage addr, after) ∧
      Tracks model base (open_ ++ [⟨(pages s.calls).address + offsetInPage addr, size⟩]) after ∧
      after.calls = s.calls + 1 ∧
      after.log = s.log ++
        acquiredEach [⟨(pages s.calls).address + offsetInPage addr, size⟩] := by
  have latched : latch s.demu.useGnttab (grantAddress addr) = some model := by
    rcases tracks.latched with known | ⟨unknown, _⟩
    · simp [latch, known, kind]
    · simp [latch, unknown, kind]
  obtain ⟨after, called, mapped, calls, log⟩ :=
    map_call latched (show serving pages s.calls (requested s.demu addr size) = _ from rfl)
  obtain ⟨_, _, again, known, _⟩ := map_range_latched size (some (pages s.calls)) latched
  rw [mapped] at again
  cases again
  obtain ⟨_, held⟩ := map_adds mapped (pointer_valid _ _)
  have same : (demuDetectMappingsModel s.demu addr).held = s.demu.held := by
    unfold demuDetectMappingsModel
    split <;> rfl
  refine ⟨after, called, ⟨Or.inl known, ?_⟩, calls, ?_⟩
  · rw [held, same, known, List.flatMap_append, List.flatMap_singleton, List.append_assoc]
    refine (tracks.held.append_right _).trans ?_
    rw [List.append_assoc]
    exact List.perm_append_comm.append_left _
  · rw [log]
    simp only [acquiredEach, List.map_cons, List.map_nil, mappingOf, Range.page, Range.pages,
      pointer_page, pointer_pages]

theorem unmap_tracks {range : Range} {rest : List Range}
    (tracks : Tracks model base (range :: rest) s) (clear : Clear model base (range :: rest)) :
    Tracks model base rest (unmapRange s range.ptr range.size) ∧
      (unmapRange s range.ptr range.size).log = s.log ++ releasedEach [range] := by
  have known : s.demu.useGnttab = some model := by
    rcases tracks.latched with known | ⟨_, none⟩
    · exact known
    · cases none
  have held := tracks.held
  rw [List.flatMap_cons, List.append_assoc, ← known] at held
  have user := clear.user range (by simp)
  have kept : model = false →
      ∀ page ∈ rest.flatMap (rangeMappings s.demu.useGnttab) ++ base,
        page.pages = 1 ∧ Apart page (mappingOf range) := by
    intro foreign page member
    rcases List.mem_append.mp member with fresh | old
    · obtain ⟨other, inside, found⟩ := List.mem_flatMap.mp fresh
      have pagewise : page ∈ guestPages other.page other.pages := by
        simpa [rangeMappings, known, foreign] using found
      have below := clear.user other (by simp [inside])
      have apart : Apart (mappingOf range) (mappingOf other) :=
        (List.pairwise_cons.mp clear.apart).1 _ (List.mem_map_of_mem inside)
      exact ⟨(page_address below pagewise).1, apart_pages below (apart_symm apart) pagewise⟩
    · exact ⟨clear.single foreign page old, clear.fromBase range (by simp) page old⟩
  obtain ⟨still, back⟩ := unmap_gives_back known held user kept
  rw [known] at back
  exact ⟨⟨Or.inl still, back⟩, rfl⟩

theorem Clear.tail {range : Range} {rest : List Range} (clear : Clear model base (range :: rest)) :
    Clear model base rest where
  user := fun other member => clear.user other (List.mem_cons_of_mem _ member)
  apart := (List.pairwise_cons.mp clear.apart).2
  fromBase := fun other member => clear.fromBase other (List.mem_cons_of_mem _ member)
  single := clear.single

theorem unmap_each_tracks {iov : Nat → Range} {i : Nat} {ranges : List Range}
    (window : Window id iov i ranges) (tracks : Tracks model base ranges s)
    (clear : Clear model base ranges) :
    Tracks model base [] (unmapEach iov i ranges.length s) ∧
      (unmapEach iov i ranges.length s).log = s.log ++ releasedEach ranges := by
  induction ranges generalizing i s with
  | nil => exact ⟨tracks, by simp [unmapEach, releasedEach]⟩
  | cons range rest ih =>
      have here : iov i = range := window_head id window
      obtain ⟨next, log⟩ := unmap_tracks tracks clear
      obtain ⟨final, logs⟩ := ih (window_tail window) next clear.tail
      simp only [List.length_cons, unmapEach, here]
      refine ⟨final, ?_⟩
      rw [logs, log, List.append_assoc]
      rfl

end Calls

/-! The walk along a chain. -/

def storeEach (host : Host) : List VringDesc → MappedIov → Option MappedIov
  | [], w => some w
  | desc :: rest, w => (storeMapped host desc w).bind (storeEach host rest)

section Walks
variable {host : Host} {desc : Nat → VringDesc} {max : UInt16}

theorem walk_mapped_chain {idx : UInt16} {path : List UInt16} (chain : Chain desc max idx path)
    {fuel : Nat} (enough : path.length ≤ fuel) (w : MappedIov) :
    walkMapped host desc max fuel idx w =
      storeEach host (path.map fun idx => desc idx.toNat) w := by
  induction chain generalizing fuel w with
  | last ends =>
      cases fuel with
      | zero => cases enough
      | succ fuel =>
          simp only [walkMapped, next_desc_end ends, if_true, List.map_cons, List.map_nil,
            storeEach]
          split
          · next stuck => rw [stuck, Option.bind_none]
          · next stored => rw [stored, Option.bind_some]
  | @link idx rest linked tail ih =>
      cases fuel with
      | zero => cases enough
      | succ fuel =>
          have more : nextDesc desc idx max ≠ max := fun same => next_desc_eq_max.mp same linked
          simp only [walkMapped, more, if_false, List.map_cons, storeEach]
          split
          · next stuck => rw [stuck, Option.bind_none]
          · next w stored =>
              rw [stored, Option.bind_some, next_desc_linked linked]
              exact ih (Nat.le_of_succ_le_succ enough) w

variable {model : Bool} {base : List Mapping} {pages : Nat → HostPages}

theorem mapped_ranges_length (k : Nat) (descs : List VringDesc) :
    (mappedRanges pages k descs).length = descs.length := by
  induction descs generalizing k with
  | nil => rfl
  | cons desc rest ih => simp [mappedRanges, ih]

/-- One descriptor: its range is mapped and goes behind the entries there are. -/
theorem store_tracks {d : VringDesc} {w : MappedIov} {open_ entries : List Range}
    (tracks : Tracks model base open_ w.server) (kind : grantAddress d.addr = model)
    (counts : w.outCount.toNat + w.inCount.toNat = entries.length)
    (room : entries.length < 65535) (window : Window id w.iov 0 entries) :
    ∃ next, storeMapped (serving pages) d w = some next ∧
      Tracks model base (open_ ++ mappedRanges pages w.server.calls [d]) next.server ∧
      next.server.calls = w.server.calls + 1 ∧
      next.server.log = w.server.log ++ acquiredEach (mappedRanges pages w.server.calls [d]) ∧
      next.outCount.toNat + next.inCount.toNat = entries.length + 1 ∧
      Window id next.iov 0 (entries ++ mappedRanges pages w.server.calls [d]) := by
  obtain ⟨after, called, mapped, calls, log⟩ := map_tracks pages d.len.toUInt64 tracks kind
  simp only [storeMapped, called, mappedRanges]
  refine ⟨_, rfl, mapped, calls, log, ?_, ?_⟩
  · by_cases isWrite : virtDescTestFlag d vringDescFWrite = true
    · simp only [isWrite, if_true, UInt16.toNat_add, UInt16.toNat_one]
      omega
    · simp only [isWrite, Bool.false_eq_true, if_false, UInt16.toNat_add, UInt16.toNat_one]
      omega
  · have free : ∀ i < entries.length, id (0 + i) ≠ id (0 + entries.length) := by
      intro i inside
      simp only [id]
      omega
    simpa [counts] using window_push window
      (⟨(pages w.server.calls).address + offsetInPage d.addr, d.len.toUInt64⟩ : Range) free

theorem store_each_tracks {descs : List VringDesc} {w : MappedIov} {open_ entries : List Range}
    (tracks : Tracks model base open_ w.server)
    (kinds : ∀ d ∈ descs, grantAddress d.addr = model)
    (counts : w.outCount.toNat + w.inCount.toNat = entries.length)
    (room : entries.length + descs.length < 65536) (window : Window id w.iov 0 entries) :
    ∃ final, storeEach (serving pages) descs w = some final ∧
      Tracks model base (open_ ++ mappedRanges pages w.server.calls descs) final.server ∧
      final.server.log = w.server.log ++ acquiredEach (mappedRanges pages w.server.calls descs) ∧
      final.outCount.toNat + final.inCount.toNat = entries.length + descs.length ∧
      Window id final.iov 0 (entries ++ mappedRanges pages w.server.calls descs) := by
  induction descs generalizing w open_ entries with
  | nil => exact ⟨w, rfl, by simpa [mappedRanges], by simp [mappedRanges, acquiredEach], counts,
      by simpa [mappedRanges]⟩
  | cons d rest ih =>
      simp only [List.length_cons] at room
      obtain ⟨next, stored, onward, calls, log, count, longer⟩ :=
        store_tracks tracks (kinds d (by simp)) counts (by omega) window
      obtain ⟨final, done, last, logs, total, whole⟩ := ih onward
        (fun other member => kinds other (List.mem_cons_of_mem _ member))
        (by simpa [mappedRanges] using count) (by simp [mappedRanges]; omega) longer
      have split : mappedRanges pages w.server.calls (d :: rest) =
          mappedRanges pages w.server.calls [d] ++
            mappedRanges pages (w.server.calls + 1) rest := rfl
      rw [calls] at last logs whole
      refine ⟨final, by rw [storeEach, stored, Option.bind_some, done], ?_, ?_, ?_, ?_⟩
      · rwa [split, ← List.append_assoc]
      · rw [logs, log, split, List.append_assoc]
        simp only [acquiredEach, List.map_append]
      · rw [total]
        simp only [List.length_append, mapped_ranges_length, List.length_cons, List.length_nil]
        omega
      · rwa [split, ← List.append_assoc]

end Walks

/-! Handling a chain and completing it. -/

/-- The descriptor whose table the walk maps first. -/
def tables (ring : RingMemory) (head : UInt16) : List VringDesc :=
  let first := ring.desc head.toNat
  if virtDescTestFlag first vringDescFIndirect = true then [first] else []

/-- A head and its chain, in the ring or in a table with at least one entry. -/
def Published (guest : GuestMemory) (ring : RingMemory) (vq : VirtQueue) (head : UInt16)
    (descs : List VringDesc) : Prop :=
  let first := ring.desc head.toNat
  let entries := first.len.toNat / sizeofVringDesc
  if virtDescTestFlag first vringDescFIndirect = true then
    0 < entries ∧
      ∃ path, descs = path.map (fun idx => vringDescTable guest first.addr.toNat idx.toNat) ∧
        Chain (vringDescTable guest first.addr.toNat) (UInt16.ofNat entries) 0 path
  else ∃ path, descs = path.map (fun idx => ring.desc idx.toNat) ∧
    Chain ring.desc (UInt16.ofNat vq.vring.num) head path

/-- The map calls for these descriptors succeed: the addresses are of one kind, which is
that of the server, and the pages are where nothing else is mapped. -/
structure Successful (model : Bool) (s : Server) (descs : List VringDesc)
    (pages : Nat → HostPages) : Prop where
  latched : s.demu.useGnttab = some model ∨ s.demu.useGnttab = none
  kinds : ∀ desc ∈ descs, grantAddress desc.addr = model
  apart : ((mappedRanges pages s.calls descs).map mappingOf).Pairwise Apart
  fresh : ∀ range ∈ mappedRanges pages s.calls descs, ∀ page ∈ s.demu.held,
    Apart page (mappingOf range)

/-- `ranges` were mapped and unmapped, each once, and what was mapped before still is. -/
structure Balanced (before : Server) (ranges : List Range) (after : Server) : Prop where
  live : after.demu.held.Perm before.demu.held
  log : after.log = before.log ++ acquiredEach ranges ++ releasedEach ranges
  once : Settled (acquiredEach ranges ++ releasedEach ranges)

section Chains
variable {model : Bool} {pages : Nat → HostPages} {s : Server} {descs : List VringDesc}

theorem settled_each (ranges : List Range) :
    Settled (acquiredEach ranges ++ releasedEach ranges) := by
  have taken := replay_acquisitions (0 : Multiset Mapping) (ranges.map mappingOf)
  have back := replay_releases (0 : Multiset Mapping) (List.Perm.refl (ranges.map mappingOf))
  have acquired : acquiredEach ranges = (ranges.map mappingOf).map .acquired := by
    simp [acquiredEach]
  have released : releasedEach ranges = (ranges.map mappingOf).map .released := by
    simp [releasedEach]
  rw [Settled, acquired, released, replay_onward taken]
  exact back

theorem mapped_user (k : Nat) : ∀ range ∈ mappedRanges pages k descs,
    range.page.toNat < 2 ^ 63 := by
  induction descs generalizing k with
  | nil => simp [mappedRanges]
  | cons desc rest ih =>
      intro range member
      rcases List.mem_cons.mp member with rfl | later
      · rw [Range.page, pointer_page]
        exact UInt64.lt_iff_toNat_lt.mp (pages k).user
      · exact ih (k + 1) range later

/-- The pages of foreign ranges are held one by one. -/
theorem maps_single {live : List Range} (maps : Maps s.demu live)
    (foreign : s.demu.useGnttab ≠ some true) : ∀ page ∈ s.demu.held, page.pages = 1 := by
  intro page member
  rw [maps] at member
  obtain ⟨range, _, found⟩ := List.mem_flatMap.mp member
  rw [rangeMappings, if_neg foreign] at found
  obtain ⟨i, _, rfl⟩ := List.mem_map.mp found
  rfl

theorem successful_clear {live : List Range} (maps : Maps s.demu live)
    (ok : Successful model s descs pages) :
    Clear model s.demu.held (mappedRanges pages s.calls descs) where
  user := mapped_user s.calls
  apart := ok.apart
  fromBase := ok.fresh
  single := by
    intro foreign
    apply maps_single maps
    rcases ok.latched with known | unknown
    · simp [known, foreign]
    · simp [unknown]

theorem start_tracks (latched : s.demu.useGnttab = some model ∨ s.demu.useGnttab = none) :
    Tracks model s.demu.held [] s :=
  ⟨latched.imp_right fun unknown => ⟨unknown, rfl⟩, by simp⟩

/-- From the end of the walk on: the entries are unmapped in their order. -/
theorem unmap_all_balanced {before : Server} (early : List Range) {ranges : List Range}
    {w : MappedIov}
    (tracks : Tracks model before.demu.held ranges w.server)
    (clear : Clear model before.demu.held ranges) (window : Window id w.iov 0 ranges)
    (counts : w.outCount.toNat + w.inCount.toNat = ranges.length)
    (log : w.server.log = before.log ++ acquiredEach (early ++ ranges) ++ releasedEach early) :
    Balanced before (early ++ ranges) (unmapAll w) := by
  obtain ⟨final, logs⟩ := unmap_each_tracks window tracks clear
  rw [unmapAll, counts]
  refine ⟨by simpa using final.held, ?_, settled_each _⟩
  rw [logs, log]
  simp only [releasedEach, List.map_append, List.append_assoc]

section Heads
variable {guest : GuestMemory} {ring : RingMemory} {vq : VirtQueue} {head : UInt16}
variable {path : List UInt16}

theorem direct_balanced (iov : Nat → Range)
    (direct : virtDescTestFlag (ring.desc head.toNat) vringDescFIndirect = false)
    (chain : Chain ring.desc (UInt16.ofNat vq.vring.num) head path)
    (same : descs = path.map fun idx => ring.desc idx.toNat)
    (short : descs.length ≤ virtioBlkQueueSize)
    (start : Tracks model s.demu.held [] s)
    (kinds : ∀ desc ∈ descs, grantAddress desc.addr = model)
    (clear : Clear model s.demu.held (mappedRanges pages s.calls descs)) :
    ∃ w, virtQueueGetHeadIov (serving pages) guest ring vq iov head chainFuel s = some w ∧
      Balanced s (mappedRanges pages s.calls descs) (unmapAll w) := by
  have enough : path.length ≤ chainFuel := chain.length_le fun i _ => UInt16.toNat_lt i
  have room : ([] : List Range).length + descs.length < 65536 := by
    unfold virtioBlkQueueSize at short
    simp only [List.length_nil]
    omega
  obtain ⟨w, walked, tracks, log, counts, window⟩ := store_each_tracks (w := ⟨s, iov, 0, 0⟩) start
    kinds rfl room (window_nil id iov 0)
  refine ⟨w, ?_, ?_⟩
  · simp only [virtQueueGetHeadIov, direct, Bool.false_eq_true, if_false]
    rw [walk_mapped_chain chain enough, ← same, walked]
  · refine unmap_all_balanced [] tracks clear window ?_ ?_
    · rw [counts, mapped_ranges_length, List.length_nil, Nat.zero_add]
    · simpa [releasedEach] using log

theorem indirect_balanced (iov : Nat → Range)
    (indirect : virtDescTestFlag (ring.desc head.toNat) vringDescFIndirect = true)
    (entries : 0 < (ring.desc head.toNat).len.toNat / sizeofVringDesc)
    (chain : Chain (vringDescTable guest (ring.desc head.toNat).addr.toNat)
      (UInt16.ofNat ((ring.desc head.toNat).len.toNat / sizeofVringDesc)) 0 path)
    (same : descs = path.map fun idx =>
      vringDescTable guest (ring.desc head.toNat).addr.toNat idx.toNat)
    (short : descs.length ≤ virtioBlkQueueSize)
    (start : Tracks model s.demu.held [] s)
    (kinds : ∀ desc ∈ ring.desc head.toNat :: descs, grantAddress desc.addr = model)
    (clear : Clear model s.demu.held
      (mappedRanges pages s.calls (ring.desc head.toNat :: descs))) :
    ∃ w, virtQueueGetHeadIov (serving pages) guest ring vq iov head chainFuel s = some w ∧
      Balanced s (mappedRanges pages s.calls (ring.desc head.toNat :: descs)) (unmapAll w) := by
  have enough : path.length ≤ chainFuel := chain.length_le fun i _ => UInt16.toNat_lt i
  have room : ([] : List Range).length + descs.length < 65536 := by
    unfold virtioBlkQueueSize at short
    simp only [List.length_nil]
    omega
  have long : (ring.desc head.toNat).len ≠ 0 := by
    intro none
    rw [none] at entries
    exact absurd entries (by decide)
  obtain ⟨mapped, called, table, calls, first⟩ := map_tracks pages
    (ring.desc head.toNat).len.toUInt64 start (kinds (ring.desc head.toNat) (by simp))
  obtain ⟨w, walked, tracks, log, counts, window⟩ := store_each_tracks (w := ⟨mapped, iov, 0, 0⟩)
    table (fun d member => kinds d (List.mem_cons_of_mem _ member)) rfl room (window_nil id iov 0)
  rw [calls] at tracks log window
  obtain ⟨freed, released⟩ := unmap_tracks tracks clear
  let pointer := (pages s.calls).address + offsetInPage (ring.desc head.toNat).addr
  refine ⟨{ w with
    server := unmapRange w.server pointer (ring.desc head.toNat).len.toUInt64 }, ?_, ?_⟩
  · simp only [virtQueueGetHeadIov, indirect, if_true, called, pointer_valid, if_false]
    rw [walk_mapped_chain chain enough, ← same, walked]
    simp only [ne_eq, long, not_false_eq_true, if_true]
    rfl
  · refine unmap_all_balanced [_] freed clear.tail window ?_ ?_
    · rw [counts, mapped_ranges_length, List.length_nil, Nat.zero_add]
    · rw [released, log, first, List.append_assoc s.log]
      rfl

end Heads

theorem chain_balanced {guest : GuestMemory} {ring : RingMemory} {vq : VirtQueue} {head : UInt16}
    {live : List Range} (iov : Nat → Range) (published : Published guest ring vq head descs)
    (short : descs.length ≤ virtioBlkQueueSize) (maps : Maps s.demu live)
    (ok : Successful model s (tables ring head ++ descs) pages) :
    ∃ w, virtQueueGetHeadIov (serving pages) guest ring vq iov head chainFuel s = some w ∧
      Balanced s (mappedRanges pages s.calls (tables ring head ++ descs)) (unmapAll w) := by
  have clear := successful_clear maps ok
  have start : Tracks model s.demu.held [] s := start_tracks ok.latched
  have kinds := ok.kinds
  simp only [Published] at published
  cases indirect : virtDescTestFlag (ring.desc head.toNat) vringDescFIndirect with
  | true =>
      rw [indirect, if_pos rfl] at published
      obtain ⟨entries, path, same, chain⟩ := published
      have whole : tables ring head = [ring.desc head.toNat] := if_pos indirect
      rw [whole, List.singleton_append] at kinds clear ⊢
      exact indirect_balanced iov indirect entries chain same short start kinds clear
  | false =>
      rw [indirect, if_neg (by decide)] at published
      obtain ⟨path, same, chain⟩ := published
      have none : tables ring head = [] := if_neg (by simp [indirect])
      rw [none, List.nil_append] at kinds clear ⊢
      exact direct_balanced iov indirect chain same short start kinds clear

end Chains

/-- One range: the frames that are asked for, the pointer to it, and what unmapping the
pointer with the same length gives back. -/
structure Exact (host : Host) (s : Server) (addr : UInt64) (len : UInt32) : Prop where
  frames : (requested s.demu addr len.toUInt64).numbers =
    List.range' (firstPage addr) (pagesOf addr len)
  covers : ∀ byte, guestAddress addr ≤ byte → byte < guestAddress addr + len.toNat →
    byte / 4096 ∈ (requested s.demu addr len.toUInt64).numbers
  unmaps : ∀ pages, host s.calls (requested s.demu addr len.toUInt64) = some pages →
    ∃ ptr after n, mapRange host s addr len.toUInt64 = some (ptr, after) ∧
      ptr.toNat = pages.address.toNat + addr.toNat % 4096 ∧ UInt32.toNat n = pagesOf addr len ∧
      after.log = s.log ++ [.acquired ⟨pages.address, n⟩] ∧
      ∀ later, (unmapRange later ptr len.toUInt64).log =
        later.log ++ [.released ⟨pages.address, n⟩]

theorem range_exact {host : Host} {s : Server} {addr : UInt64} {len : UInt32}
    (latched : latch s.demu.useGnttab (grantAddress addr) ≠ none)
    (fits : grantAddress addr = true → firstPage addr + pagesOf addr len ≤ 2 ^ 32) :
    Exact host s addr len := by
  have frames := requested_numbers len latched fits
  refine ⟨frames, fun byte first last => ?_, fun pages served => ?_⟩
  · rw [frames]
    exact pages_cover len first last
  · obtain ⟨model, known⟩ := Option.ne_none_iff_exists'.mp latched
    obtain ⟨after, called, _, _, log⟩ := map_call known served
    exact ⟨_, after, _, called, pointer_toNat pages addr, page_count_pages addr len, log,
      fun later => unmap_call later pages addr len.toUInt64⟩

/-- Each map call is exact, and a request that is handled and completed leaves the
mappings as they were: what it maps is unmapped once. -/
theorem guest_ranges_balanced :
    (∀ (host : Host) (s : Server) (addr : UInt64) (len : UInt32),
      latch s.demu.useGnttab (grantAddress addr) ≠ none →
      (grantAddress addr = true → firstPage addr + pagesOf addr len ≤ 2 ^ 32) →
      Exact host s addr len) ∧
    (∀ (guest : GuestMemory) (ring : RingMemory) (vq : VirtQueue) (iov : Nat → Range)
      (head : UInt16) (descs : List VringDesc) (s : Server) (live : List Range) (model : Bool)
      (pages : Nat → HostPages),
      Published guest ring vq head descs → descs.length ≤ virtioBlkQueueSize →
      Maps s.demu live → Successful model s (tables ring head ++ descs) pages →
      ∃ w, virtQueueGetHeadIov (serving pages) guest ring vq iov head chainFuel s = some w ∧
        Balanced s (mappedRanges pages s.calls (tables ring head ++ descs)) (unmapAll w)) :=
  ⟨fun _ _ _ _ latched fits => range_exact latched fits,
    fun _ _ _ iov _ _ _ _ _ _ published short maps ok => chain_balanced iov published short maps ok⟩

/-! Two buffers on pages of their own. -/

def unmapped : GuestMemory := ⟨fun _ => 0, fun _ _ _ => false⟩

def twoLinks : Nat → VringDesc
  | 0 => ⟨0x1000, 16, vringDescFNext, 1⟩
  | _ => ⟨0x2000, 1, vringDescFWrite, 0⟩

def twoPages : Nat → HostPages
  | 0 => ⟨0x700000000000, by decide, by decide, by decide⟩
  | _ => ⟨0x700000001000, by decide, by decide, by decide⟩

def freshServer : Server := ⟨⟨none, []⟩, 0, []⟩

theorem two_buffers_balanced :
    Exact (serving twoPages) freshServer 0x1ff0 32 ∧
    ∃ w, virtQueueGetHeadIov (serving twoPages) unmapped { blankRing with desc := twoLinks }
        (activatedQueue 256) (fun _ => ⟨0, 0⟩) 0 chainFuel freshServer = some w ∧
      Balanced freshServer (mappedRanges twoPages 0 [twoLinks 0, twoLinks 1]) (unmapAll w) := by
  have chain : Chain twoLinks 256 0 [0, 1] :=
    Chain.link ⟨rfl, by decide⟩ (Chain.last fun linked => absurd linked.1 (by decide))
  refine ⟨guest_ranges_balanced.1 _ _ _ _ (by decide) (fun grant => absurd grant (by decide)), ?_⟩
  apply guest_ranges_balanced.2 unmapped { blankRing with desc := twoLinks } (activatedQueue 256)
    (fun _ => ⟨0, 0⟩) 0 [twoLinks 0, twoLinks 1] freshServer [] false twoPages
  · exact ⟨[0, 1], rfl, chain⟩
  · decide
  · rfl
  · refine ⟨Or.inr rfl, by decide, ?_, fun _ _ page none => by cases none⟩
    refine List.pairwise_cons.mpr ⟨?_, List.pairwise_singleton _ _⟩
    intro other member
    rw [List.mem_singleton.mp member]
    exact Or.inl (by decide)

end VirtioDisk.RequestMappings
