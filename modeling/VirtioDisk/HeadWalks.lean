import VirtioDisk.BlkDevice
import VirtioDisk.DoubleFetch
import VirtioDisk.RequestMappings

/-!
virt_queue__get_head_iov is followed with the bounds of what it touches, with its map
calls, and with a value for each of its reads of guest memory. Where the guest changes
nothing under it, these are one walk. virtio_blk_complete takes back the entries of it.
-/

namespace VirtioDisk.HeadWalks

open BlkDevice DescriptorChain GuestFrames GuestMapping RequestMappings RingWindow Virtqueue

/-- The host maps what the hypervisor lets the server map. -/
def Grants (host : Host) (guest : GuestMemory) : Prop :=
  ∀ server : Server, ∀ addr size prot,
    (host server.calls (requested server.demu addr size)).isSome = guest.maps addr size prot

/-- The same counts, and entries of the same lengths that are NULL in both or in none. -/
structure Alike (mapped : MappedIov) (w : HeadIov) : Prop where
  outCount : mapped.outCount = w.outCount
  inCount : mapped.inCount = w.inCount
  lengths : ∀ i, (mapped.iov i).size.toNat = (w.iov i).iovLen
  pointers : ∀ i, (mapped.iov i).ptr = 0 ↔ (w.iov i).iovBase = none

section MapCalls
variable {host : Host} {guest : GuestMemory} {desc : Nat → VringDesc} {bound : Nat}
variable {max : UInt16} {mapped final : MappedIov} {w : HeadIov} {server after : Server}

theorem map_range_grants (grants : Grants host guest) {addr size ptr : UInt64} (prot : Prot)
    (called : mapRange host server addr size = some (ptr, after)) :
    ptr = 0 ↔ DescriptorChain.demuMapGuestRange guest addr size prot = none := by
  have granted := grants server addr size prot
  unfold mapRange at called
  cases result : demuMapGuestRange server.demu addr size
      (host server.calls (requested server.demu addr size)) with
  | none => simp [result] at called
  | some found =>
      simp only [result, Option.some.injEq, Prod.mk.injEq] at called
      have same := map_range_pointer result
      rw [← called.1, same, DescriptorChain.demuMapGuestRange, ← granted]
      cases host server.calls (requested server.demu addr size) with
      | none => simp [pointerAt]
      | some pages => simp [pointerAt, pointer_valid]

theorem store_alike (grants : Grants host guest) (bound index : Nat) (d : VringDesc)
    (alike : Alike mapped w) (stored : storeMapped host d mapped = some final) :
    Alike final (storeIovec guest bound index d w) := by
  unfold storeMapped at stored
  split at stored
  · cases stored
  · next ptr server called =>
      cases stored
      have pointer := map_range_grants grants
        (if virtDescTestFlag d vringDescFWrite then .write else .read) called
      have slot : mapped.outCount.toNat + mapped.inCount.toNat =
          w.outCount.toNat + w.inCount.toNat := by rw [alike.outCount, alike.inCount]
      constructor
      · simp only [storeIovec, alike.outCount]
      · simp only [storeIovec, alike.inCount]
      · intro i
        simp only [storeIovec, slot]
        by_cases here : i = w.outCount.toNat + w.inCount.toNat
        · subst here
          simp
        · simpa [put, Function.update, here] using alike.lengths i
      · intro i
        simp only [storeIovec, slot]
        by_cases here : i = w.outCount.toNat + w.inCount.toNat
        · subst here
          simpa using pointer
        · simpa [put, Function.update, here] using alike.pointers i

theorem walk_alike (grants : Grants host guest) {fuel : Nat} {idx : UInt16}
    (alike : Alike mapped w) (walked : walkMapped host desc max fuel idx mapped = some final) :
    ∃ last, DescriptorChain.walkChain guest desc bound max fuel idx w = some last ∧
      Alike final last := by
  induction fuel generalizing idx mapped w with
  | zero => cases walked
  | succ fuel ih =>
      rw [walkMapped] at walked
      split at walked
      · cases walked
      · next next stored =>
          have kept := store_alike grants bound idx.toNat (desc idx.toNat) alike stored
          rw [DescriptorChain.walkChain]
          dsimp only at walked ⊢
          split at walked
          · next ends =>
              cases walked
              rw [if_pos ends]
              exact ⟨_, rfl, kept⟩
          · next more =>
              rw [if_neg more]
              exact ih kept walked

/-- A head that is walked with its map calls is walked. -/
theorem head_alike (grants : Grants host guest) {ring : RingMemory} {vq : VirtQueue}
    {iov : Nat → Range} {entries : Nat → Iovec} {head : UInt16} {fuel : Nat}
    (lengths : ∀ i, (iov i).size.toNat = (entries i).iovLen)
    (pointers : ∀ i, (iov i).ptr = 0 ↔ (entries i).iovBase = none)
    (walked : RequestMappings.virtQueueGetHeadIov host guest ring vq iov head fuel server =
      some final) :
    ∃ last, DescriptorChain.virtQueueGetHeadIov guest ring vq entries head fuel = some last ∧
      Alike final last := by
  unfold RequestMappings.virtQueueGetHeadIov at walked
  unfold DescriptorChain.virtQueueGetHeadIov
  by_cases indirect : virtDescTestFlag (ring.desc head.toNat) vringDescFIndirect = true
  · simp only [indirect, if_true] at walked ⊢
    split at walked
    · cases walked
    · next table server called =>
        have pointer := map_range_grants grants .read called
        split at walked
        · cases walked
        · next there =>
            have reads := Option.ne_none_iff_exists'.mp (mt pointer.mpr there)
            obtain ⟨base, found⟩ := reads
            have address : base.address = (ring.desc head.toNat).addr.toNat := by
              unfold DescriptorChain.demuMapGuestRange at found
              split at found
              · cases found
                rfl
              · cases found
            simp only [found, address]
            split at walked
            · cases walked
            · next done ended =>
                have start : Alike ⟨server, iov, 0, 0⟩
                    ⟨entries, 0, 0, [⟨head.toNat, vq.vring.num⟩], []⟩ :=
                  ⟨rfl, rfl, lengths, pointers⟩
                obtain ⟨last, ran, same⟩ := walk_alike grants start ended
                refine ⟨last, ran, ?_⟩
                split at walked <;> cases walked
                · exact ⟨same.outCount, same.inCount, same.lengths, same.pointers⟩
                · exact same
  · simp only [indirect, Bool.false_eq_true, if_false] at walked ⊢
    exact walk_alike grants ⟨rfl, rfl, lengths, pointers⟩ walked

/-- The completion unmaps the ranges of all entries of the request, and leaves the pointers
of no others. -/
theorem completion_unmaps (alike : Alike final w) {req : BlkDevReq} (iov : req.iov = w.iov)
    (entries : req.entries = w.outCount.toNat + w.inCount.toNat) :
    unmapAll final = (List.range req.entries).foldl
        (fun server i => unmapRange server (final.iov i).ptr (final.iov i).size) final.server ∧
      ∀ i, (req.unmapAll.iov i).iovBase = none ↔ i < req.entries ∨ (final.iov i).ptr = 0 := by
  have each (base left : Nat) (server : Server) : unmapEach final.iov base left server =
      (List.range' base left).foldl
        (fun server i => unmapRange server (final.iov i).ptr (final.iov i).size) server := by
    induction left generalizing base server with
    | zero => rfl
    | succ left ih => rw [unmapEach, ih, List.range'_succ, List.foldl_cons]
  refine ⟨?_, fun i => ?_⟩
  · rw [unmapAll, each, alike.outCount, alike.inCount, ← entries, List.range_eq_range']
  · by_cases inside : i < req.entries
    · simp [inside]
    · rw [unmap_all_behind (Nat.not_lt.mp inside), iov, alike.pointers i]
      simp [inside]

end MapCalls

/-! With the reads of guest memory. -/

/-- What the loop reads of a descriptor that does not change, and what the host answers. -/
def fetchOf (host : Host) (server : Server) (d : VringDesc) : DoubleFetch.DescFetch where
  writeFlags := d.flags
  storedLen := d.len
  addr := d.addr
  mapLen := d.len
  answer := host server.calls (requested server.demu d.addr d.len.toUInt64)
  nextFlags := d.flags
  next := d.next

def fetches (host : Host) (desc : Nat → VringDesc) (max : UInt16) :
    Nat → UInt16 → MappedIov → List DoubleFetch.DescFetch
  | 0, _, _ => []
  | fuel + 1, idx, w =>
      fetchOf host w.server (desc idx.toNat) ::
        match storeMapped host (desc idx.toNat) w with
        | none => []
        | some w =>
            let next := nextDesc desc idx max
            if next = max then [] else fetches host desc max fuel next w

/-- The two walks have come equally far, with the same mappings and entries. -/
structure Fetched (idx : UInt16) (mapped : MappedIov) (w : DoubleFetch.Walk) : Prop where
  idx : w.idx = idx
  outCount : w.outCount = mapped.outCount
  inCount : w.inCount = mapped.inCount
  demu : w.demu = mapped.server.demu
  counts : mapped.outCount.toNat + mapped.inCount.toNat = w.iov.length
  entries : Window id mapped.iov 0 (w.iov.map fun entry => ⟨entry.iovBase, entry.iovLen.toUInt64⟩)

section Fetches
variable {host : Host} {desc : Nat → VringDesc} {max idx : UInt16} {mapped final : MappedIov}
variable {w : DoubleFetch.Walk}

theorem store_fetched (max : UInt16) (fetched : Fetched idx mapped w) (room : w.iov.length < 65535)
    (stored : storeMapped host (desc idx.toNat) mapped = some final) :
    let next := nextDesc desc idx max
    let after := DoubleFetch.storeDescriptor max w (fetchOf host mapped.server (desc idx.toNat))
    Fetched next final after ∧ after.iov.length = w.iov.length + 1 ∧
      after.ending = if next = max then .finished else .running := by
  have counts := fetched.counts
  unfold storeMapped mapRange at stored
  unfold DoubleFetch.storeDescriptor
  rw [fetched.demu]
  simp only [fetchOf]
  cases result : demuMapGuestRange mapped.server.demu (desc idx.toNat).addr
      (desc idx.toNat).len.toUInt64 (host mapped.server.calls
        (requested mapped.server.demu (desc idx.toNat).addr (desc idx.toNat).len.toUInt64)) with
  | none => simp [result] at stored
  | some found =>
      simp only [result, Option.some.injEq] at stored
      subst stored
      refine ⟨?_, by simp, rfl⟩
      constructor
      · rfl
      · simp only [fetched.outCount]
        rfl
      · simp only [fetched.inCount]
        rfl
      · rfl
      · by_cases isWrite : virtDescTestFlag (desc idx.toNat) vringDescFWrite = true
        · simp only [isWrite, if_true, UInt16.toNat_add, UInt16.toNat_one, List.length_append,
            List.length_singleton]
          omega
        · simp only [isWrite, Bool.false_eq_true, if_false, UInt16.toNat_add, UInt16.toNat_one,
            List.length_append, List.length_singleton]
          omega
      · have free : ∀ i < (w.iov.map fun entry =>
            (⟨entry.iovBase, entry.iovLen.toUInt64⟩ : Range)).length,
            id (0 + i) ≠ id (0 + (w.iov.map fun entry =>
              (⟨entry.iovBase, entry.iovLen.toUInt64⟩ : Range)).length) := by
          intro i inside
          simp only [id]
          omega
        simpa [counts] using window_push fetched.entries
          (⟨found.1, (desc idx.toNat).len.toUInt64⟩ : Range) free

/-- Over memory that does not change, the walk by its reads is the walk by its map calls. -/
theorem walk_fetched {fuel : Nat} (fetched : Fetched idx mapped w)
    (room : w.iov.length + fuel ≤ 65535)
    (walked : walkMapped host desc max fuel idx mapped = some final) :
    let last := DoubleFetch.walkChain max w (fetches host desc max fuel idx mapped)
    last.ending = .finished ∧ Fetched max final last := by
  induction fuel generalizing idx mapped w with
  | zero => cases walked
  | succ fuel ih =>
      rw [walkMapped] at walked
      rw [fetches]
      cases stored : storeMapped host (desc idx.toNat) mapped with
      | none =>
          rw [stored] at walked
          cases walked
      | some next =>
          obtain ⟨onward, longer, ending⟩ := store_fetched max fetched (by omega) stored
          rw [stored] at walked
          dsimp only [DoubleFetch.walkChain] at walked ⊢
          split at walked
          · next ends =>
              cases walked
              rw [ending, if_pos ends, if_neg (by decide)]
              refine ⟨ending.trans (if_pos ends), ?_⟩
              rwa [ends] at onward
          · next more =>
              rw [ending, if_neg more, if_pos rfl]
              simp only [more, if_false]
              exact ih onward (by omega) walked

/-- A host that maps everything. -/
theorem fetches_stable (given : ∀ k frames, host k frames ≠ none) (fuel : Nat) (idx : UInt16)
    (mapped : MappedIov) :
    ∀ f ∈ fetches host desc max fuel idx mapped, DoubleFetch.Stable f := by
  induction fuel generalizing idx mapped with
  | zero => simp [fetches]
  | succ fuel ih =>
      rw [fetches]
      intro f member
      rcases List.mem_cons.mp member with rfl | later
      · exact ⟨rfl, given _ _⟩
      · split at later
        · cases later
        · dsimp only at later
          split at later
          · cases later
          · exact ih _ _ f later

/-- So such a walk of a table that the guest leaves alone is a safe one. -/
theorem walk_coherent (given : ∀ k frames, host k frames ≠ none) {len : Nat}
    (fits : 16 * max.toNat ≤ len) (inside : 16 * w.idx.toNat + 16 ≤ len) (fuel : Nat) :
    DoubleFetch.CoherentWalk (some len) max w (fetches host desc max fuel idx mapped) :=
  DoubleFetch.stable_walk_coherent fits inside (fetches_stable given fuel idx mapped)

end Fetches

end VirtioDisk.HeadWalks
