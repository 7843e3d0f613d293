import VirtioDisk.GuestFrames
import VirtioDisk.MmioRegisters
import VirtioDisk.Transition

/-!
The build with MAP_IN_ADVANCE: all banks of guest memory are mapped before the device is
there, and `demu_get_host_addr` translates the addresses of rings and descriptors. It sees
the first address of a range only, and of its callers only virtio_init_device_vq looks at
the pointer. The base addresses of the banks and the size of the first are those of the
hypervisor's headers.
-/

namespace VirtioDisk.RamBanks

open DescriptorChain GuestMapping GuestFrames MmioRegisters Transition Virtqueue WordMasks

/-- GUEST_RAM0_BASE, GUEST_RAM0_SIZE and GUEST_RAM1_BASE. -/
structure RamLayout where
  base0 : UInt64
  size0 : UInt64
  base1 : UInt64
  alignedBase0 : base0.toNat % 4096 = 0
  alignedSize0 : size0.toNat % 4096 = 0
  alignedBase1 : base1.toNat % 4096 = 0
  apart : base0.toNat + size0.toNat ≤ base1.toNat

/-- The pages of the server that a bank was mapped to, and the frame behind each. -/
structure MappedBank where
  pages : HostPages
  frames : List UInt64

structure Bank where
  base : UInt64
  size : UInt64
  hostAddr : Option MappedBank

def Bank.covers (bank : Bank) (offset : UInt64) : Bool :=
  bank.base ≤ offset && offset < bank.base + bank.size

structure State where
  banks : List Bank
  mapped : Bool

/-- `none` is what a failed call to the hypervisor comes to. -/
def xenctrlGetDomMem (totPages : Option UInt64) : UInt64 :=
  match totPages with
  | none => 0
  | some totPages => (totPages - 4) <<< targetPageShift

def ramBanks (layout : RamLayout) (mem : UInt64) : List (UInt64 × UInt64) :=
  if mem ≤ layout.size0 then [(layout.base0, mem), (0, 0)]
  else [(layout.base0, layout.size0), (layout.base1, mem - layout.size0)]

def setRam (ram : List (UInt64 × UInt64)) (banks : List Bank) : List Bank :=
  List.zipWith (fun (base, size) bank => { bank with base := base, size := size }) ram banks

/-- With `false` for -1. -/
def demuInitGuestRam (layout : RamLayout) (totPages : Option UInt64) (banks : List Bank) :
    List Bank × Bool :=
  let mem := xenctrlGetDomMem totPages
  if mem = 0 then (setRam [(0, 0), (0, 0)] banks, false)
  else (setRam (ramBanks layout mem) banks, true)

/-- What the host makes of the frames of a bank: pages, or NULL. -/
abbrev Host := List UInt64 → Option HostPages

def mapBank (host : Host) (bank : Bank) : Option Bank :=
  if bank.hostAddr.isSome then some bank
  else if bank.base = 0 ∨ bank.size = 0 then some bank
  else
    let frames := pfns bank.base (pageCount bank.base bank.size)
    (host frames).map fun pages => { bank with hostAddr := some ⟨pages, frames⟩ }

def unmapBank (bank : Bank) : Bank := { bank with hostAddr := none }

/-- Where a bank cannot be mapped, those before it are unmapped again. -/
def demuMapGuestRam (host : Host) : List Bank → List Bank × Bool
  | [] => ([], true)
  | bank :: rest =>
      match mapBank host bank with
      | none => (bank :: rest, false)
      | some bank =>
          match demuMapGuestRam host rest with
          | (rest, true) => (bank :: rest, true)
          | (rest, false) => (unmapBank bank :: rest, false)

def demuUnmapGuestRam (banks : List Bank) : List Bank := banks.map unmapBank

def translate (offset : UInt64) : List Bank → Option UInt64
  | [] => none
  | bank :: rest =>
      match bank.hostAddr with
      | none => translate offset rest
      | some mapped =>
          if bank.covers offset then some (mapped.pages.address + (offset - bank.base))
          else translate offset rest

/-- `none` is the BUG_ON, and an inner `none` NULL. -/
def demuGetHostAddr (banks : List Bank) (offset : UInt64) : Option (Option UInt64) :=
  if offset &&& xenGrantAddrOff ≠ 0 then none else some (translate offset banks)

/-! The callers. What they go on with is an access: a range of the guest and the pointer
that stands for it, which is none for NULL. -/

inductive Use where
  | ring
  | table
  | buffer
  deriving DecidableEq

structure Access where
  use : Use
  addr : UInt64
  len : Nat
  ptr : Option UInt64

/-- `none` is a BUG_ON, of the translation or of the caller. -/
def take (banks : List Bank) (use : Use) (addr : UInt64) (len : Nat) : Option Access :=
  match demuGetHostAddr banks addr with
  | none => none
  | some none => if use = .ring then none else some ⟨use, addr, len, none⟩
  | some (some ptr) => some ⟨use, addr, len, some ptr⟩

/-- The rings that are used from then on. -/
def virtioInitDeviceVq (banks : List Bank) (addr : VringAddr) (nrDescs : Nat) :
    Option (List Access) :=
  if addr.legacy then do
    let base := addr.pfn.toUInt64 * addr.pgsize.toUInt64
    let p ← take banks .ring base (vringSize (UInt32.ofNat nrDescs) addr.align).toNat
    some [p]
  else do
    let desc ← take banks .ring (halves addr.descHi addr.descLo) (16 * nrDescs)
    let used ← take banks .ring (halves addr.usedHi addr.usedLo) (6 + 8 * nrDescs)
    let avail ← take banks .ring (halves addr.availHi addr.availLo) (6 + 2 * nrDescs)
    some [desc, used, avail]

/-- `iov` and its counts. `taken` is what the walk has gone on with, the table first. -/
structure Walk where
  iov : Nat → Access
  outCount : UInt16
  inCount : UInt16
  taken : List Access

def Walk.store (w : Walk) (isWrite : Bool) (entry : Access) : Walk where
  iov := RingWindow.put w.iov (w.outCount.toNat + w.inCount.toNat) entry
  outCount := if isWrite then w.outCount else w.outCount + 1
  inCount := if isWrite then w.inCount + 1 else w.inCount
  taken := w.taken ++ [entry]

-- With `false` for a walk that does not come to its end.
def walkChain (banks : List Bank) (desc : Nat → VringDesc) (max : UInt16) :
    Nat → UInt16 → Walk → Walk × Bool
  | 0, _, w => (w, false)
  | fuel + 1, idx, w =>
      let first := desc idx.toNat
      match take banks .buffer first.addr first.len.toNat with
      | none => (w, false)
      | some entry =>
          let w := w.store (virtDescTestFlag first vringDescFWrite) entry
          let next := nextDesc desc idx max
          if next = max then (w, true) else walkChain banks desc max fuel next w

/-- `tables` is what the server has in its memory behind a pointer. -/
def virtQueueGetHeadIov (banks : List Bank) (tables : UInt64 → Nat → VringDesc)
    (ring : RingMemory) (vq : VirtQueue) (iov : Nat → Access) (head : UInt16) (fuel : Nat) :
    Walk × Bool :=
  let first := ring.desc head.toNat
  let w : Walk := ⟨iov, 0, 0, []⟩
  if virtDescTestFlag first vringDescFIndirect then
    -- The first entry is read whatever the length says.
    match take banks .table first.addr (max sizeofVringDesc first.len.toNat) with
    | none => (w, false)
    | some table =>
        let w := { w with taken := [table] }
        match table.ptr with
        -- The flags of the first entry are read through NULL.
        | none => (w, false)
        | some desc =>
            walkChain banks (tables desc) (UInt16.ofNat (first.len.toNat / sizeofVringDesc)) fuel 0
              w
  else walkChain banks ring.desc (UInt16.ofNat vq.vring.num) fuel head w

inductive Call where
  | activate (addr : VringAddr) (nrDescs : Nat)
  | walk (tables : UInt64 → Nat → VringDesc) (ring : RingMemory) (vq : VirtQueue)
      (iov : Nat → Access) (head : UInt16) (fuel : Nat)

def Call.accesses (banks : List Bank) : Call → List Access
  | .activate addr nrDescs => (virtioInitDeviceVq banks addr nrDescs).getD []
  | .walk tables ring vq iov head fuel =>
      (virtQueueGetHeadIov banks tables ring vq iov head fuel).1.taken

inductive Action where
  | connect (totPages : Option UInt64) (host : Host)
  | teardown

/-- The stages of `demu_initialize` and `demu_teardown` that are about guest memory. -/
def step (layout : RamLayout) (s : State) : Action → Option State
  | .connect totPages host =>
      if s.mapped then none
      else
        match demuInitGuestRam layout totPages s.banks with
        | (banks, false) => some { s with banks := banks }
        | (banks, true) =>
            let (banks, done) := demuMapGuestRam host banks
            some ⟨banks, done⟩
  | .teardown => some (if s.mapped then ⟨demuUnmapGuestRam s.banks, false⟩ else s)

def start : State := ⟨[⟨0, 0, none⟩, ⟨0, 0, none⟩], false⟩

/-! What a translated range is to be. -/

/-- A byte of the server that is a byte of the guest. -/
def Maps (mapped : MappedBank) (host guest : Nat) : Prop :=
  ∃ page, ∃ inside : page < mapped.frames.length, ∃ offset < 4096,
    host = mapped.pages.address.toNat + 4096 * page + offset ∧
      guest = 4096 * mapped.frames[page].toNat + offset

/-- The pointer is to the range of the guest, and the range stays in one bank. -/
def Stands (banks : List Bank) (addr : UInt64) (len : Nat) (ptr : UInt64) : Prop :=
  ∃ bank ∈ banks, ∃ mapped, bank.hostAddr = some mapped ∧
    bank.base.toNat ≤ addr.toNat ∧ addr.toNat + len ≤ bank.base.toNat + bank.size.toNat ∧
    ∀ i < len, Maps mapped (ptr.toNat + i) (addr.toNat + i)

/-- NULL stands for no byte. -/
def Access.Contained (banks : List Bank) (a : Access) : Prop :=
  match a.ptr with
  | none => a.len = 0
  | some ptr => Stands banks a.addr a.len ptr

/-- What is gone on with is contained; the access is refused otherwise. -/
def Contained (banks : List Bank) (use : Use) (addr : UInt64) (len : Nat) : Prop :=
  ∀ a, take banks use addr len = some a → a.Contained banks

def Found (banks : List Bank) (addr : UInt64) : Prop :=
  ∃ bank ∈ banks, bank.hostAddr.isSome ∧ bank.covers addr = true

/-- The range ends in the bank it begins in, below 16 TiB there: pages are counted in 32 bits. -/
def EndsInBank (banks : List Bank) (addr : UInt64) (len : Nat) : Prop :=
  ∀ bank ∈ banks, bank.hostAddr.isSome → bank.covers addr = true →
    len = 0 ∨ addr.toNat + len ≤ bank.base.toNat + bank.size.toNat % 2 ^ 44

/-- The address is one that ends the server, or the range ends in its bank and, if it is no
ring, begins in a bank or is empty. -/
def Fits (banks : List Bank) (use : Use) (addr : UInt64) (len : Nat) : Prop :=
  addr &&& xenGrantAddrOff = 0 →
    EndsInBank banks addr len ∧ (use ≠ .ring → len = 0 ∨ Found banks addr)

/-! The invariant. -/

structure Bank.Sound (bank : Bank) : Prop where
  base : bank.base.toNat % 4096 = 0
  size : bank.size.toNat % 4096 = 0
  frames : ∀ mapped, bank.hostAddr = some mapped →
    mapped.frames = pfns bank.base (pageCount bank.base bank.size)

def Bank.ram (bank : Bank) : UInt64 × UInt64 := (bank.base, bank.size)

/-- A bank ends before the next begins. -/
def Apart (first second : UInt64 × UInt64) : Prop :=
  second.2 = 0 ∨ first.1.toNat + first.2.toNat ≤ second.1.toNat

structure Inv (s : State) : Prop where
  two : s.banks.length = 2
  sound : ∀ bank ∈ s.banks, bank.Sound
  apart : (s.banks.map Bank.ram).Pairwise Apart
  unmapped : s.mapped = false → ∀ bank ∈ s.banks, bank.hostAddr = none

section Pages
variable {base size : UInt64}

theorem bank_pages (aligned : base.toNat % 4096 = 0) (whole : size.toNat % 4096 = 0) :
    (pageCount base size).toNat = size.toNat / 4096 % 2 ^ 32 := by
  have none : offsetInPage base = 0 := by
    apply UInt64.toNat_inj.mp
    rw [offset_toNat, aligned, UInt64.toNat_zero]
  have rounded : (p2RoundUp size targetPageSize).toNat = size.toNat := by
    have mask : -targetPageSize = targetPageMask := by decide
    have bound := size.toNat_lt
    rw [p2RoundUp, mask, UInt64.toNat_neg, masked_toNat, UInt64.toNat_neg]
    simp only [UInt64.size]
    omega
  rw [pageCount, none, UInt64.add_zero, UInt64.toNat_toUInt32, UInt64.toNat_shiftRight, rounded,
    show targetPageShift.toNat % 64 = 12 from rfl, Nat.shiftRight_eq_div_pow]

/-- The bytes of a bank lie in the server as they lie in the guest. -/
theorem maps_iff {bank : Bank} (sound : bank.Sound) {mapped : MappedBank}
    (here : bank.hostAddr = some mapped) (host guest : Nat) :
    Maps mapped host guest ↔ ∃ byte < bank.size.toNat % 2 ^ 44,
      host = mapped.pages.address.toNat + byte ∧ guest = bank.base.toNat + byte := by
  have frames := sound.frames mapped here
  have count := bank_pages sound.base sound.size
  have aligned := sound.base
  have whole := sound.size
  have length : mapped.frames.length = bank.size.toNat / 4096 % 2 ^ 32 := by
    rw [frames, pfns, List.length_map, List.length_range, count]
  have frame (page : Nat) (inside : page < mapped.frames.length) :
      mapped.frames[page].toNat = bank.base.toNat / 4096 + page := by
    simp only [frames, pfns, List.getElem_map, List.getElem_range]
    apply shifted_page
    omega
  constructor
  · rintro ⟨page, inside, offset, small, rfl, rfl⟩
    have number := frame page inside
    rw [length] at inside
    exact ⟨4096 * page + offset, by omega, by omega, by omega⟩
  · rintro ⟨byte, inside, rfl, rfl⟩
    have within : byte / 4096 < mapped.frames.length := by omega
    have number := frame (byte / 4096) within
    exact ⟨byte / 4096, within, byte % 4096, by omega, by omega, by omega⟩

end Pages

/-! The translation. -/

section Translate
variable {banks : List Bank} {addr : UInt64}

def Bank.Holds (bank : Bank) (addr : UInt64) : Prop :=
  bank.base.toNat ≤ addr.toNat ∧ addr.toNat < bank.base.toNat + bank.size.toNat

-- Behind the end of the address space no address is covered.
theorem covers_holds {bank : Bank} (covers : bank.covers addr = true) : bank.Holds addr := by
  simp only [Bank.covers, Bool.and_eq_true, decide_eq_true_eq] at covers
  obtain ⟨above, below⟩ := covers
  rw [UInt64.le_iff_toNat_le] at above
  rw [UInt64.lt_iff_toNat_lt, UInt64.toNat_add] at below
  have bound := addr.toNat_lt
  have start := bank.base.toNat_lt
  have length := bank.size.toNat_lt
  constructor <;> omega

theorem apart_unheld {first second : Bank} (apart : Apart first.ram second.ram)
    (held : first.Holds addr) : ¬ second.Holds addr := by
  rintro ⟨above, below⟩
  rcases apart with empty | before
  · have none : second.size.toNat = 0 := congrArg UInt64.toNat empty
    omega
  · have ends := held.2
    simp only [Bank.ram] at before
    omega

/-- An address is in one bank at most. -/
theorem one_bank (apart : (banks.map Bank.ram).Pairwise Apart) {first second : Bank}
    (one : first ∈ banks) (other : second ∈ banks) (held : first.Holds addr)
    (also_ : second.Holds addr) : first = second := by
  induction banks with
  | nil => cases one
  | cons bank rest ih =>
      rw [List.map_cons, List.pairwise_cons] at apart
      have beyond {later : Bank} (member : later ∈ rest) : Apart bank.ram later.ram :=
        apart.1 later.ram (List.mem_map_of_mem member)
      rcases List.mem_cons.mp one with here | later
      · rcases List.mem_cons.mp other with there | behind
        · rw [here, there]
        · rw [here] at held
          exact absurd also_ (apart_unheld (beyond behind) held)
      · rcases List.mem_cons.mp other with there | behind
        · rw [there] at also_
          exact absurd held (apart_unheld (beyond later) also_)
        · exact ih apart.2 later behind

theorem translate_found {ptr : UInt64} (found : translate addr banks = some ptr) :
    ∃ bank ∈ banks, ∃ mapped, bank.hostAddr = some mapped ∧ bank.covers addr = true ∧
      ptr = mapped.pages.address + (addr - bank.base) := by
  induction banks with
  | nil => cases found
  | cons bank rest ih =>
      rw [translate] at found
      cases here : bank.hostAddr with
      | none =>
          rw [here] at found
          obtain ⟨later, member, facts⟩ := ih found
          exact ⟨later, List.mem_cons_of_mem _ member, facts⟩
      | some mapped =>
          rw [here] at found
          by_cases covers : bank.covers addr = true
          · simp only [covers, if_true, Option.some.injEq] at found
            exact ⟨bank, List.mem_cons_self, mapped, here, covers, found.symm⟩
          · simp only [covers] at found
            obtain ⟨later, member, facts⟩ := ih found
            exact ⟨later, List.mem_cons_of_mem _ member, facts⟩

theorem translate_finds {bank : Bank} (member : bank ∈ banks) (here : bank.hostAddr.isSome)
    (covers : bank.covers addr = true) : ∃ ptr, translate addr banks = some ptr := by
  induction banks with
  | nil => cases member
  | cons first rest ih =>
      rw [translate]
      cases mapped : first.hostAddr with
      | none =>
          rcases List.mem_cons.mp member with rfl | later
          · rw [mapped] at here
            cases here
          · exact ih later
      | some pages =>
          by_cases covered : first.covers addr = true
          · exact ⟨pages.pages.address + (addr - first.base), if_pos covered⟩
          · rcases List.mem_cons.mp member with rfl | later
            · exact absurd covers covered
            · simp only [covered]
              exact ih later

/-- The pointer keeps the distance to the start of the bank. -/
theorem pointer_toNat {bank : Bank} (mapped : MappedBank) (covers : bank.covers addr = true)
    (foreign : addr &&& xenGrantAddrOff = 0) :
    (mapped.pages.address + (addr - bank.base)).toNat =
      mapped.pages.address.toNat + (addr.toNat - bank.base.toNat) := by
  have low : addr.toNat < 2 ^ 63 := by
    have split := mask_split addr xenGrantAddrOff
    rw [foreign, UInt64.zero_or] at split
    rw [← split, UInt64.toNat_and]
    exact Nat.lt_of_le_of_lt Nat.and_le_right (by decide)
  have user := UInt64.lt_iff_toNat_lt.mp mapped.pages.user
  have above := (covers_holds covers).1
  have back : (addr - bank.base).toNat = addr.toNat - bank.base.toNat :=
    UInt64.toNat_sub_of_le _ _ (UInt64.le_iff_toNat_le.mpr above)
  have half : (0x8000000000000000 : UInt64).toNat = 2 ^ 63 := rfl
  rw [UInt64.toNat_add, back]
  omega

theorem translate_missing (missing : ¬ Found banks addr) : translate addr banks = none := by
  cases found : translate addr banks with
  | none => rfl
  | some ptr =>
      obtain ⟨bank, member, mapped, here, covers, _⟩ := translate_found found
      exact absurd ⟨bank, member, by rw [here]; rfl, covers⟩ missing

theorem stands_iff (sound : ∀ bank ∈ banks, bank.Sound)
    (apart : (banks.map Bank.ram).Pairwise Apart) {len : Nat} {ptr : UInt64}
    (foreign : addr &&& xenGrantAddrOff = 0) (found : translate addr banks = some ptr) :
    Stands banks addr len ptr ↔ EndsInBank banks addr len := by
  constructor
  · rintro ⟨other, inside, mapped, there, above, below, maps⟩ bank member here covers
    by_cases empty : len = 0
    · exact Or.inl empty
    · right
      have same := one_bank apart inside member ⟨above, by omega⟩ (covers_holds covers)
      subst same
      obtain ⟨byte, within, _, last⟩ :=
        (maps_iff (sound other inside) there _ _).mp (maps (len - 1) (by omega))
      omega
  · intro ends
    obtain ⟨bank, member, mapped, here, covers, pointer⟩ := translate_found found
    have held := covers_holds covers
    have place := pointer_toNat mapped covers foreign
    rw [← pointer] at place
    have fits := ends bank member (by rw [here]; rfl) covers
    refine ⟨bank, member, mapped, here, held.1, by have := held.2; omega, fun i inside => ?_⟩
    rw [maps_iff (sound bank member) here]
    have above := held.1
    exact ⟨addr.toNat - bank.base.toNat + i, by omega, by omega, by omega⟩

theorem contained_iff (sound : ∀ bank ∈ banks, bank.Sound)
    (apart : (banks.map Bank.ram).Pairwise Apart) (use : Use) (addr : UInt64) (len : Nat) :
    Contained banks use addr len ↔ Fits banks use addr len := by
  by_cases foreign : addr &&& xenGrantAddrOff = 0
  case neg =>
    have stopped : take banks use addr len = none := by
      rw [take, demuGetHostAddr, if_pos foreign]
    simp [Contained, Fits, stopped, foreign]
  case pos =>
    have answer : demuGetHostAddr banks addr = some (translate addr banks) := by
      rw [demuGetHostAddr, if_neg (not_not.mpr foreign)]
    simp only [Fits, foreign, forall_const]
    cases found : translate addr banks with
    | none =>
        have missing : ¬ Found banks addr := by
          rintro ⟨bank, member, here, covers⟩
          obtain ⟨ptr, present⟩ := translate_finds member here covers
          rw [found] at present
          cases present
        have ends : EndsInBank banks addr len := fun bank member here covers =>
          absurd ⟨bank, member, here, covers⟩ missing
        simp only [Contained, take, answer, found, ends, missing, or_false, true_and]
        by_cases ring : use = .ring
        · simp [ring]
        · simp [ring, Access.Contained]
    | some ptr =>
        have present : Found banks addr := by
          by_contra missing
          rw [translate_missing missing] at found
          cases found
        simp only [Contained, take, answer, found, present, or_true, implies_true, and_true,
          Option.some.injEq, forall_eq']
        exact stands_iff sound apart foreign found

/-- What a caller goes on with. -/
def Taken (banks : List Bank) (a : Access) : Prop := take banks a.use a.addr a.len = some a

theorem take_taken {use : Use} {len : Nat} {a : Access} (taken : take banks use addr len = some a) :
    Taken banks a := by
  have fields : a.use = use ∧ a.addr = addr ∧ a.len = len := by
    unfold take at taken
    split at taken
    · cases taken
    · split at taken
      · cases taken
      · cases taken
        exact ⟨rfl, rfl, rfl⟩
    · cases taken
      exact ⟨rfl, rfl, rfl⟩
  rw [Taken, fields.1, fields.2.1, fields.2.2]
  exact taken

theorem walk_taken {desc : Nat → VringDesc} {max : UInt16} {fuel : Nat} {idx : UInt16} {w : Walk}
    (before : ∀ a ∈ w.taken, Taken banks a) :
    ∀ a ∈ (walkChain banks desc max fuel idx w).1.taken, Taken banks a := by
  induction fuel generalizing idx w with
  | zero => exact before
  | succ fuel ih =>
      rw [walkChain]
      dsimp only
      split
      · exact before
      · next entry taken =>
          have grown : ∀ a ∈ (w.store (virtDescTestFlag (desc idx.toNat) vringDescFWrite)
              entry).taken, Taken banks a := by
            intro a member
            rcases List.mem_append.mp member with old | new
            · exact before a old
            · rw [List.mem_singleton.mp new]
              exact take_taken taken
          split
          · exact grown
          · exact ih grown

theorem head_iov_taken {tables : UInt64 → Nat → VringDesc} {ring : RingMemory} {vq : VirtQueue}
    {iov : Nat → Access} {head : UInt16} {fuel : Nat} :
    ∀ a ∈ (virtQueueGetHeadIov banks tables ring vq iov head fuel).1.taken, Taken banks a := by
  rw [virtQueueGetHeadIov]
  dsimp only
  split
  · split
    · exact List.forall_mem_nil _
    · next table taken =>
        have first : ∀ a ∈ [table], Taken banks a := by
          intro a member
          rw [List.mem_singleton.mp member]
          exact take_taken taken
        split
        · exact first
        · exact walk_taken first
  · exact walk_taken (List.forall_mem_nil _)

theorem init_vq_taken {ring : VringAddr} {nrDescs : Nat} {accesses : List Access}
    (done : virtioInitDeviceVq banks ring nrDescs = some accesses) :
    ∀ a ∈ accesses, Taken banks a := by
  unfold virtioInitDeviceVq at done
  split at done
  · obtain ⟨p, taken, rest⟩ := Option.bind_eq_some_iff.mp done
    cases rest
    simpa using take_taken taken
  · obtain ⟨desc, first, rest⟩ := Option.bind_eq_some_iff.mp done
    obtain ⟨used, second, rest⟩ := Option.bind_eq_some_iff.mp rest
    obtain ⟨avail, third, rest⟩ := Option.bind_eq_some_iff.mp rest
    cases rest
    simpa using ⟨take_taken first, take_taken second, take_taken third⟩

/-- The callers go on with nothing but what they had translated. -/
theorem call_taken (call : Call) : ∀ a ∈ call.accesses banks, Taken banks a := by
  cases call with
  | activate ring nrDescs =>
      rw [Call.accesses]
      cases done : virtioInitDeviceVq banks ring nrDescs with
      | none => exact List.forall_mem_nil _
      | some accesses => exact init_vq_taken done
  | walk tables ring vq iov head fuel => exact head_iov_taken

end Translate

/-! Runs. -/

section Runs
variable {layout : RamLayout} {s : State}

theorem dom_mem_aligned (totPages : Option UInt64) :
    (xenctrlGetDomMem totPages).toNat % 4096 = 0 := by
  cases totPages with
  | none => rfl
  | some totPages =>
      rw [xenctrlGetDomMem, UInt64.toNat_shiftLeft, show targetPageShift.toNat % 64 = 12 from rfl,
        Nat.shiftLeft_eq]
      omega

theorem ram_banks_apart (layout : RamLayout) {mem : UInt64} (aligned : mem.toNat % 4096 = 0) :
    ∃ low high, ramBanks layout mem = [low, high] ∧ Apart low high ∧
      ∀ ram ∈ [low, high], ram.1.toNat % 4096 = 0 ∧ ram.2.toNat % 4096 = 0 := by
  unfold ramBanks
  by_cases small : mem ≤ layout.size0
  · rw [if_pos small]
    refine ⟨_, _, rfl, Or.inl rfl, ?_⟩
    simp [layout.alignedBase0, aligned]
  · have above := UInt64.le_iff_toNat_le.mp (UInt64.le_of_lt (UInt64.not_le.mp small))
    have rest : (mem - layout.size0).toNat % 4096 = 0 := by
      have whole := layout.alignedSize0
      rw [UInt64.toNat_sub_of_le _ _ (UInt64.le_iff_toNat_le.mpr above)]
      omega
    rw [if_neg small]
    refine ⟨_, _, rfl, Or.inr layout.apart, ?_⟩
    simp [layout.alignedBase0, layout.alignedSize0, layout.alignedBase1, rest]

theorem zero_banks_apart : Apart (0, 0) (0, 0) ∧
    ∀ ram ∈ [((0 : UInt64), (0 : UInt64)), (0, 0)],
      ram.1.toNat % 4096 = 0 ∧ ram.2.toNat % 4096 = 0 :=
  ⟨Or.inl rfl, by simp⟩

/-- Banks that are not mapped, after their ranges were set. -/
theorem set_ram_inv {low high : UInt64 × UInt64} {banks : List Bank} (two : banks.length = 2)
    (fresh : ∀ bank ∈ banks, bank.hostAddr = none) (apart : Apart low high)
    (aligned : ∀ ram ∈ [low, high], ram.1.toNat % 4096 = 0 ∧ ram.2.toNat % 4096 = 0) :
    Inv ⟨setRam [low, high] banks, false⟩ := by
  obtain ⟨first, second, rfl⟩ := List.length_eq_two.mp two
  have one := fresh first (by simp)
  have other := fresh second (by simp)
  have here := aligned low (by simp)
  have there := aligned high (by simp)
  refine ⟨rfl, ?_, ?_, ?_⟩
  · intro bank member
    rcases List.mem_pair.mp member with rfl | rfl
    · exact ⟨here.1, here.2, fun mapped same => absurd (one.symm.trans same) (by simp)⟩
    · exact ⟨there.1, there.2, fun mapped same => absurd (other.symm.trans same) (by simp)⟩
  · exact List.pairwise_pair.mpr apart
  · intro _ bank member
    rcases List.mem_pair.mp member with rfl | rfl
    · exact one
    · exact other

theorem map_bank_spec {host : Host} {bank next : Bank} (fresh : bank.hostAddr = none)
    (sound : bank.Sound) (done : mapBank host bank = some next) :
    next.ram = bank.ram ∧ next.Sound := by
  unfold mapBank at done
  rw [fresh, Option.isSome_none, if_neg Bool.false_ne_true] at done
  split at done
  · cases done
    exact ⟨rfl, sound⟩
  · obtain ⟨pages, _, rfl⟩ := Option.map_eq_some_iff.mp done
    refine ⟨rfl, sound.base, sound.size, fun mapped same => ?_⟩
    cases same
    rfl

/-- Mapping leaves the ranges alone, and all banks unmapped when it fails. -/
theorem map_guest_ram_spec (host : Host) {banks : List Bank}
    (fresh : ∀ bank ∈ banks, bank.hostAddr = none) (sound : ∀ bank ∈ banks, bank.Sound) :
    (demuMapGuestRam host banks).1.map Bank.ram = banks.map Bank.ram ∧
    (∀ bank ∈ (demuMapGuestRam host banks).1, bank.Sound) ∧
    ((demuMapGuestRam host banks).2 = false →
      ∀ bank ∈ (demuMapGuestRam host banks).1, bank.hostAddr = none) := by
  induction banks with
  | nil => exact ⟨rfl, sound, fun failed => nomatch failed⟩
  | cons bank rest ih =>
      obtain ⟨bare, later⟩ := List.forall_mem_cons.mp fresh
      obtain ⟨good, others⟩ := List.forall_mem_cons.mp sound
      rw [demuMapGuestRam]
      cases done : mapBank host bank with
      | none => exact ⟨rfl, sound, fun _ => fresh⟩
      | some next =>
          obtain ⟨same, ready⟩ := map_bank_spec bare good done
          obtain ⟨ranges, kept, none⟩ := ih later others
          cases result : demuMapGuestRam host rest with
          | mk after ok =>
              rw [result] at ranges kept none
              cases ok with
              | true =>
                  refine ⟨?_, List.forall_mem_cons.mpr ⟨ready, kept⟩, fun failed => nomatch failed⟩
                  simp only [List.map_cons, same, ranges]
              | false =>
                  have bared : (unmapBank next).Sound :=
                    ⟨ready.base, ready.size, fun mapped impossible => nomatch impossible⟩
                  refine ⟨?_, List.forall_mem_cons.mpr ⟨bared, kept⟩,
                    fun _ => List.forall_mem_cons.mpr ⟨rfl, none rfl⟩⟩
                  rw [List.map_cons, List.map_cons, ranges]
                  exact congrArg (· :: _) same

theorem mapped_inv (host : Host) {banks : List Bank} (inv : Inv ⟨banks, false⟩) :
    Inv ⟨(demuMapGuestRam host banks).1, (demuMapGuestRam host banks).2⟩ := by
  obtain ⟨ranges, sound, none⟩ := map_guest_ram_spec host (inv.unmapped rfl) inv.sound
  refine ⟨?_, sound, ?_, none⟩
  · have length := congrArg List.length ranges
    rw [List.length_map, List.length_map] at length
    exact length.trans inv.two
  · rw [ranges]
    exact inv.apart

theorem step_inv (inv : Inv s) {action : Action} {next : State}
    (taken : step layout s action = some next) : Inv next := by
  cases action with
  | connect totPages host =>
      rw [step] at taken
      split at taken
      · cases taken
      · next idle =>
          have fresh := inv.unmapped (Bool.not_eq_true _ ▸ idle)
          have aligned := dom_mem_aligned totPages
          unfold demuInitGuestRam at taken
          dsimp only at taken
          by_cases none : xenctrlGetDomMem totPages = 0
          · rw [if_pos none] at taken
            cases taken
            rw [Bool.not_eq_true] at idle
            rw [idle]
            exact set_ram_inv inv.two fresh zero_banks_apart.1 zero_banks_apart.2
          · rw [if_neg none] at taken
            cases taken
            obtain ⟨low, high, ram, apart, whole⟩ := ram_banks_apart layout aligned
            rw [ram]
            exact mapped_inv host (set_ram_inv inv.two fresh apart whole)
  | teardown =>
      rw [step] at taken
      cases taken
      split
      · refine ⟨?_, ?_, ?_, ?_⟩
        · rw [demuUnmapGuestRam, List.length_map, inv.two]
        · intro bank member
          obtain ⟨before, inside, rfl⟩ := List.mem_map.mp member
          have sound := inv.sound before inside
          exact ⟨sound.base, sound.size, fun mapped impossible => nomatch impossible⟩
        · rw [demuUnmapGuestRam, List.map_map]
          exact inv.apart
        · intro _ bank member
          obtain ⟨before, _, rfl⟩ := List.mem_map.mp member
          rfl
      · exact inv

theorem start_inv : Inv start :=
  ⟨rfl, fun bank member => by
    rcases List.mem_pair.mp member with rfl | rfl <;>
      exact ⟨rfl, rfl, fun mapped impossible => nomatch impossible⟩,
    List.pairwise_pair.mpr (Or.inl rfl), fun _ bank member => by
    rcases List.mem_pair.mp member with rfl | rfl <;> rfl⟩

/-- In every state that the stages lead to, a range that is gone on with is the one of the
guest just where it begins in a bank and ends in the same. The callers go on with
nothing else. -/
theorem translation_contained_iff {actions : List Action}
    (ran : run (step layout) start actions = some s) :
    (∀ use addr len, Contained s.banks use addr len ↔ Fits s.banks use addr len) ∧
      ∀ call : Call, ∀ a ∈ call.accesses s.banks, take s.banks a.use a.addr a.len = some a := by
  have inv : Inv s := run_invariant Inv (fun _ _ _ kept taken => step_inv kept taken) start_inv ran
  exact ⟨contained_iff inv.sound inv.apart, call_taken⟩

end Runs

/-- Three gigabytes from the first on, and the rest from the eighth on. -/
def armLayout : RamLayout where
  base0 := 0x40000000
  size0 := 0xc0000000
  base1 := 0x200000000
  alignedBase0 := by decide
  alignedSize0 := by decide
  alignedBase1 := by decide
  apart := by decide

def somePages : HostPages where
  address := 0x7f0000000000
  aligned := by decide
  notNull := by decide
  user := by decide

def twoPages : State where
  banks :=
    [⟨0x40000000, 0x2000, some ⟨somePages, [0x40000, 0x40001]⟩⟩, ⟨0, 0, none⟩]
  mapped := true

theorem two_pages_mapped :
    run (step armLayout) start [.connect (some 6) fun _ => some somePages] = some twoPages := by
  rfl

theorem inside_two_pages : Contained twoPages.banks .buffer 0x40000ff0 0x1000 := by
  refine ((translation_contained_iff two_pages_mapped).1 .buffer 0x40000ff0 0x1000).mpr ?_
  refine fun _ => ⟨?_, fun _ => Or.inr ⟨_, List.mem_cons_self, rfl, by decide⟩⟩
  intro bank member here _
  rcases List.mem_pair.mp member with rfl | rfl
  · decide
  · cases here

/-- The last page, and one more that the guest does not have. -/
theorem behind_two_pages : ¬ ∀ (layout : RamLayout) (actions : List Action) (s : State)
    (use : Use) (addr : UInt64) (len : Nat), run (step layout) start actions = some s →
      Contained s.banks use addr len := by
  intro contained
  obtain ⟨bank, member, mapped, here, _, below, _⟩ := contained armLayout _ twoPages .buffer
    0x40001000 0x2000 two_pages_mapped ⟨.buffer, 0x40001000, 0x2000, some 0x7f0000001000⟩ (by rfl)
  rcases List.mem_pair.mp member with rfl | rfl
  · exact absurd below (by decide)
  · cases here

/-- A table in no bank is read through NULL. -/
theorem table_outside_banks : ¬ Contained twoPages.banks .table 0x50000000 16 := by
  intro contained
  have none : (16 : Nat) = 0 := contained ⟨.table, 0x50000000, 16, none⟩ (by rfl)
  cases none

end VirtioDisk.RamBanks
